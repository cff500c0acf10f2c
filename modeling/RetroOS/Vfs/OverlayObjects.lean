import RetroOS.Vfs.RamOverlay

/-!
# Handles and their objects

The overlay keeps contents where the reference keeps objects, so the files of
the one are those of the other with every object replaced by its contents
(`Matches.tree`).  Names are found the same way in both, since they depend on
the paths alone.  A handle matches as long as its path leads to its object.

This breaks when the file of a handle is deleted, when a rename puts another
file under its path, when a path is too long for a handle, and when offsets
leave 32 bits.  A create that finds no free handle has emptied the file
already.  In runs without any of these the answers are those of the reference
(`handles_denote_objects`).
-/

namespace RetroOS.Vfs

open Lib Lib.Bytes
open Kernel (asI32)
open Function (update update_of_ne update_self update_eq_self)

/-! ## What a request must not do -/

/-- Whether a handle is open on a path of the overlay. -/
def RamOverlay.openOn (overlay : RamOverlay) (path : Bytes) : Prop :=
  ∃ handle < maxOpenFiles, ∃ entry ∈ overlay.table handle, entry.ram = true ∧ entry.key = path

instance (overlay : RamOverlay) (path : Bytes) : Decidable (overlay.openOn path) :=
  inferInstanceAs (Decidable (∃ handle < maxOpenFiles, ∃ _ ∈ _, _))

/-- No handle loses its file by a move. -/
def MoveSafe (overlay : RamOverlay) (src dst : Bytes) : Prop :=
  ¬ overlay.openOn dst ∧ (overlay.openOn src → dst.length ≤ pathKeyMax)

instance (overlay : RamOverlay) (src dst : Bytes) : Decidable (MoveSafe overlay src dst) :=
  inferInstanceAs (Decidable (_ ∧ (_ → _)))

def RenameSafe (overlay : RamOverlay) : Except Int NameChange → Prop
  | .error _ => True
  | .ok (.file old new) => MoveSafe overlay old new
  | .ok (.dir old new) =>
    ∀ src ∈ overlay.tree.filesBelow old,
      overlay.tree.files.contains (retarget old new src) = false ∧
        MoveSafe overlay src (retarget old new src)

instance (overlay : RamOverlay) :
    (change : Except Int NameChange) → Decidable (RenameSafe overlay change)
  | .error _ => .isTrue trivial
  | .ok (.file ..) => inferInstanceAs (Decidable (MoveSafe _ _ _))
  | .ok (.dir ..) => inferInstanceAs (Decidable (∀ _ ∈ _, _))

/--
Files are deleted, and their names taken by others, only while they are not
open; paths of handles fit; offsets stay within 32 bits; and a create finds a
free handle.
-/
def OverlayOrderly (backing : Backing) (overlay : RamOverlay) : OverlayRequest → Prop
  | .create path =>
    (allocFileEntry overlay.table).isSome ∧
      ∀ resolved ∈ overlay.tree.view.resolveNew backing path, resolved.length ≤ pathKeyMax
  | .openFile path =>
    ∀ resolved ∈ overlay.tree.view.resolveSymlinks backing path,
      overlay.tree.files.contains resolved = true → resolved.length ≤ pathKeyMax
  | .write handle data =>
    ∀ entry ∈ handleEntry overlay.table handle, entry.offset + data.length < 2 ^ 32
  | .seek handle offset whence =>
    ∀ entry ∈ handleEntry overlay.table handle,
      ∀ target ∈ seekTarget entry.offset (overlay.sizeOf entry.key) offset whence, target < 2 ^ 32
  | .rename old new => RenameSafe overlay (overlay.tree.view.rename backing old new)
  | .delete path =>
    ∀ resolved ∈ overlay.tree.view.resolveParentSymlinks backing path, ¬ overlay.openOn resolved
  | .read .. | .close _ | .mkdir _ | .rmdir _ => True

instance (backing : Backing) (overlay : RamOverlay) :
    (request : OverlayRequest) → Decidable (OverlayOrderly backing overlay request)
  | .create _ => inferInstanceAs (Decidable (_ ∧ ∀ _ ∈ _, _))
  | .openFile _ => inferInstanceAs (Decidable (∀ _ ∈ _, _ → _))
  | .write .. => inferInstanceAs (Decidable (∀ _ ∈ _, _))
  | .seek .. => inferInstanceAs (Decidable (∀ _ ∈ _, ∀ _ ∈ _, _))
  | .rename .. => inferInstanceAs (Decidable (RenameSafe _ _))
  | .delete _ => inferInstanceAs (Decidable (∀ _ ∈ _, _))
  | .read .. | .close _ | .mkdir _ | .rmdir _ => .isTrue trivial

/-! ## Trees with objects and trees with contents -/

/-- Put the contents in the place of objects. -/
def Tree.fill {β γ : Type} (tree : Tree β) (contents : β → γ) : Tree γ where
  files := tree.files.mapValues contents
  dirs := tree.dirs

section Fill

variable {β γ : Type} (tree : Tree β) (contents : β → γ)

@[simp]
theorem fill_view : (tree.fill contents).view = tree.view := by
  simp only [Tree.view, Tree.fill, Assoc.keys_mapValues]

theorem fill_contains (path : Bytes) :
    (tree.fill contents).files.contains path = tree.files.contains path := by
  rw [Assoc.contains, Tree.fill, Assoc.find_mapValues]
  simp [Assoc.contains]

theorem fill_moveFile (src dst : Bytes) :
    (tree.fill contents).moveFile src dst = (tree.moveFile src dst).fill contents := by
  simp only [Tree.moveFile, Tree.fill, Assoc.find_mapValues]
  cases tree.files.find src with
  | none => rfl
  | some value => simp only [Option.map_some, Assoc.remove_mapValues, Assoc.insert_mapValues]

theorem fill_moveDirs (old new : Bytes) :
    (tree.fill contents).moveDirs old new = (tree.moveDirs old new).fill contents :=
  rfl

theorem fill_filesBelow (dir : Bytes) :
    (tree.fill contents).filesBelow dir = tree.filesBelow dir := by
  simp only [Tree.filesBelow, Tree.fill, Assoc.keys_mapValues]

theorem fill_mkdir (backing : Backing) (path : Bytes) :
    (tree.fill contents).mkdir backing path =
      ((tree.mkdir backing path).1, (tree.mkdir backing path).2.fill contents) := by
  unfold Tree.mkdir
  rw [fill_view]
  split
  · rfl
  · split <;> rfl

theorem fill_rmdir (backing : Backing) (path : Bytes) :
    (tree.fill contents).rmdir backing path =
      ((tree.rmdir backing path).1, (tree.rmdir backing path).2.fill contents) := by
  have keys : (tree.fill contents).files.keys = tree.files.keys := Assoc.keys_mapValues contents
  have dirs : (tree.fill contents).dirs = tree.dirs := rfl
  unfold Tree.rmdir
  rw [fill_view, keys, dirs]
  cases tree.view.resolveParentSymlinks backing path with
  | none => rfl
  | some resolved =>
    dsimp only
    split_ifs <;> rfl

end Fill

/-- Directories move without the files. -/
theorem mkdir_files {β : Type} (tree : Tree β) (backing : Backing)
    (path : Bytes) : (tree.mkdir backing path).2.files = tree.files := by
  unfold Tree.mkdir
  split
  · rfl
  · split <;> rfl

theorem rmdir_files {β : Type} (tree : Tree β) (backing : Backing)
    (path : Bytes) : (tree.rmdir backing path).2.files = tree.files := by
  unfold Tree.rmdir
  split
  · rfl
  · split_ifs <;> rfl

/-! ## Matching states -/

/-- A handle of the overlay and the one of the reference. -/
inductive HandleMatches (files : Assoc Bytes Nat) :
    Option RamHandle → Option ObjectHandle → Prop
  | closed : HandleMatches files none none
  | elsewhere (key : Bytes) (offset position : Nat) :
      HandleMatches files (some { ram := false, key, offset })
        (some { object := none, offset := position })
  | file (key : Bytes) (object offset : Nat)
      (named : (key, object) ∈ files) (small : offset < 2 ^ 32) :
      HandleMatches files (some { ram := true, key, offset })
        (some { object := some object, offset })

/-- Names of the reference lead to objects of their own. -/
structure Named (files : Assoc Bytes Nat) (contents : Nat → Bytes)
    (next : Nat) : Prop where
  keyed : files.Keyed
  distinct :
    ∀ first second object, (first, object) ∈ files → (second, object) ∈ files → first = second
  known : ∀ path object, (path, object) ∈ files → object < next
  small : ∀ path object, (path, object) ∈ files → (contents object).length < 2 ^ 32

section Named

variable {files : Assoc Bytes Nat} {contents changed : Nat → Bytes} {next later : Nat}

theorem Named.remove (named : Named files contents next) (path : Bytes) :
    Named (files.remove path) contents next where
  keyed := named.keyed.remove path
  distinct first second object one two :=
    named.distinct first second object (Assoc.mem_remove.mp one).2 (Assoc.mem_remove.mp two).2
  known other object member := named.known other object (Assoc.mem_remove.mp member).2
  small other object member := named.small other object (Assoc.mem_remove.mp member).2

/-- A name is given to an object without another one. -/
theorem Named.insert (named : Named files contents next) {path : Bytes} {object : Nat}
    (only : ∀ other, (other, object) ∈ files → other = path)
    (known : next ≤ later ∧ object < later) (small : (changed object).length < 2 ^ 32)
    (same : ∀ other ≠ object, changed other = contents other) :
    Named (files.insert path object) changed later := by
  refine ⟨named.keyed.insert path object, fun first second moved one two => ?_,
    fun other moved member => ?_, fun other moved member => ?_⟩
  · rcases Assoc.mem_insert.mp one with ⟨rfl, rfl⟩ | ⟨_, earlier⟩ <;>
      rcases Assoc.mem_insert.mp two with ⟨rfl, equal⟩ | ⟨_, after⟩
    · rfl
    · exact (only second after).symm
    · exact only first (equal ▸ earlier)
    · exact named.distinct first second moved earlier after
  · rcases Assoc.mem_insert.mp member with ⟨rfl, rfl⟩ | ⟨_, earlier⟩
    · exact known.2
    · exact (named.known other moved earlier).trans_le known.1
  · rcases Assoc.mem_insert.mp member with ⟨rfl, rfl⟩ | ⟨elsewhere, earlier⟩
    · exact small
    · rw [same moved fun equal => elsewhere (only other (equal ▸ earlier))]
      exact named.small other moved earlier

end Named

structure Matches (overlay : RamOverlay) (objects : Objects) : Prop where
  tree : overlay.tree = objects.tree.fill objects.contents
  named : Named objects.tree.files objects.contents objects.next
  handles : ∀ handle, HandleMatches objects.tree.files (overlay.table handle) (objects.table handle)
  inTable : ∀ handle, overlay.table handle ≠ none → handle < maxOpenFiles

theorem matches_boot : Matches .boot .boot where
  tree := rfl
  named :=
    { keyed := List.nodup_nil
      distinct := fun _ _ _ member => absurd member List.not_mem_nil
      known := fun _ _ member => absurd member List.not_mem_nil
      small := fun _ _ member => absurd member List.not_mem_nil }
  handles _ := .closed
  inTable _ open_ := absurd rfl open_

theorem HandleMatches.isNone_eq {files : Assoc Bytes Nat}
    {entry : Option RamHandle} {ghost : Option ObjectHandle}
    (matched : HandleMatches files entry ghost) :
    entry.isNone = ghost.isNone := by
  cases matched <;> rfl

/-- A handle matches as long as its name stays. -/
theorem HandleMatches.mono {files after : Assoc Bytes Nat}
    {entry : Option RamHandle} {ghost : Option ObjectHandle}
    (matched : HandleMatches files entry ghost)
    (kept :
      ∀ handle object, entry = some handle → handle.ram = true →
        (handle.key, object) ∈ files → (handle.key, object) ∈ after) :
    HandleMatches after entry ghost := by
  cases matched with
  | closed => exact .closed
  | elsewhere key offset position => exact .elsewhere key offset position
  | file key object offset named small =>
    exact .file key object offset (kept _ object rfl rfl named) small

section Steps

variable {overlay : RamOverlay} {objects : Objects} {backing : Backing}

section

variable (matched : Matches overlay objects)

include matched

theorem Matches.view : overlay.tree.view = objects.tree.view := by
  rw [matched.tree, fill_view]

theorem Matches.alloc : allocFileEntry overlay.table = allocFileEntry objects.table := by
  unfold allocFileEntry
  congr 1
  funext idx
  exact (matched.handles idx).isNone_eq

theorem Matches.contains (path : Bytes) :
    overlay.tree.files.contains path = objects.tree.files.contains path := by
  rw [matched.tree, fill_contains]

/-- The contents that the overlay has for a name. -/
theorem Matches.find {path : Bytes} {object : Nat} (named : (path, object) ∈ objects.tree.files) :
    overlay.tree.files.find path = some (objects.contents object) := by
  rw [matched.tree, Tree.fill, Assoc.find_mapValues, Assoc.find_of_mem matched.named.keyed named]
  rfl

/-- The open file of a handle. -/
theorem Matches.openOn {handle : Nat}
    {entry : RamHandle} (found : overlay.table handle = some entry)
    (ram : entry.ram = true) : overlay.openOn entry.key :=
  ⟨handle, matched.inTable handle (by rw [found]; exact Option.some_ne_none _),
    entry, found, ram, rfl⟩

omit matched in
theorem alloc_small {α : Type} {table : Nat → Option α} {idx : Nat}
    (found : allocFileEntry table = some idx) : idx < maxOpenFiles :=
  List.mem_range.mp (List.mem_of_find?_eq_some found)

/-- A pair of handles is set in both tables. -/
theorem Matches.setHandle {idx : Nat}
    (small : idx < maxOpenFiles) {entry : RamHandle} {ghost : ObjectHandle}
    (pair : HandleMatches objects.tree.files (some entry) (some ghost)) :
    Matches (overlay.setHandle idx entry) (objects.setHandle idx ghost) where
  tree := matched.tree
  named := matched.named
  handles handle := by
    unfold RamOverlay.setHandle Objects.setHandle
    by_cases same : handle = idx
    · subst same
      simpa using pair
    · simpa [update_of_ne same] using matched.handles handle
  inTable handle open_ := by
    by_cases same : handle = idx
    · exact same ▸ small
    · refine matched.inTable handle ?_
      simpa [RamOverlay.setHandle, update_of_ne same] using open_

/-- A handle is closed, of a file below, or of a named object. -/
theorem Matches.handleCases (handle : Nat) :
    (handleEntry overlay.table handle = none ∧ handleEntry objects.table handle = none) ∨
      (∃ key offset position, handleEntry overlay.table handle =
            some { ram := false, key, offset } ∧
          handleEntry objects.table handle = some { object := none, offset := position }) ∨
      ∃ key object offset, handle < maxOpenFiles ∧
        (key, object) ∈ objects.tree.files ∧ offset < 2 ^ 32 ∧
        handleEntry overlay.table handle = some { ram := true, key, offset } ∧
        handleEntry objects.table handle = some { object := some object, offset } := by
  unfold handleEntry
  split_ifs with small
  · have entry := matched.handles handle
    generalize overlay.table handle = found at entry ⊢
    generalize objects.table handle = ghost at entry ⊢
    cases entry with
    | closed => exact .inl ⟨rfl, rfl⟩
    | elsewhere key offset position => exact .inr (.inl ⟨key, offset, position, rfl, rfl⟩)
    | file key object offset named bounded =>
      exact .inr (.inr ⟨key, object, offset, small, named, bounded, rfl, rfl⟩)
  · exact .inl ⟨rfl, rfl⟩

/-! ## Reading, writing and seeking -/

/-- Both machines answer alike and stay matched. -/
def Agree (result : OverlayAnswer × RamOverlay) (ghost : OverlayAnswer × Objects) : Prop :=
  result.1 = ghost.1 ∧ Matches result.2 ghost.2

omit matched in
/-- Setting a handle to what it is changes nothing. -/
theorem setHandle_same {handle : Nat} {entry : ObjectHandle}
    (found : handleEntry objects.table handle = some entry) :
    objects.setHandle handle entry = objects := by
  unfold handleEntry at found
  split_ifs at found
  rw [Objects.setHandle, ← found, update_eq_self]

theorem readByHandle_agrees (handle count : Nat) :
    Agree (overlay.readByHandle handle count) (objects.read handle count) := by
  unfold RamOverlay.readByHandle Objects.read
  rcases matched.handleCases handle with ⟨found, ghost⟩ | ⟨key, offset, position, found, ghost⟩ |
    ⟨key, object, offset, small, named, bounded, found, ghost⟩
  · rw [found, ghost]
    exact ⟨rfl, matched⟩
  · rw [found, ghost]
    exact ⟨rfl, matched⟩
  · have length := matched.named.small key object named
    rw [found, ghost]
    simp only [if_true, matched.find named]
    by_cases ended : (objects.contents object).length ≤ offset
    · have nothing : slice (objects.contents object) offset count = [] := by
        rw [slice, List.drop_eq_nil_of_le ended, List.take_nil]
      rw [if_pos ended, nothing]
      refine ⟨rfl, ?_⟩
      change Matches overlay (objects.setHandle handle { object := some object, offset })
      rw [setHandle_same ghost]
      exact matched
    · have data : slice (objects.contents object) offset
          (min count ((objects.contents object).length - offset)) =
            slice (objects.contents object) offset count := by
        rw [slice, slice, ← List.length_drop, ← List.take_eq_take_min]
      have got : min count ((objects.contents object).length - offset) =
          (slice (objects.contents object) offset count).length := by
        rw [slice, List.length_take, List.length_drop]
      rw [if_neg ended]
      refine ⟨by rw [data, got], ?_⟩
      have fits : offset + min count ((objects.contents object).length - offset) < 2 ^ 32 := by
        omega
      dsimp only
      rw [Nat.mod_eq_of_lt fits, ← got]
      exact matched.setHandle small (.file key object _ named fits)

theorem seekByHandle_agrees (handle : Nat) (offset whence : Int)
    (orderly :
      ∀ entry ∈ handleEntry overlay.table handle,
        ∀ target ∈ seekTarget entry.offset (overlay.sizeOf entry.key) offset
          whence, target < 2 ^ 32) :
    Agree (overlay.seekByHandle handle offset whence) (objects.seek handle offset whence) := by
  unfold RamOverlay.seekByHandle Objects.seek
  rcases matched.handleCases handle with ⟨found, ghost⟩ | ⟨key, current, position, found, ghost⟩ |
    ⟨key, object, current, small, named, bounded, found, ghost⟩
  · rw [found, ghost]
    exact ⟨rfl, matched⟩
  · rw [found, ghost]
    exact ⟨rfl, matched⟩
  · have size : overlay.sizeOf key = (objects.contents object).length := by
      unfold RamOverlay.sizeOf
      rw [matched.find named]
      exact Nat.mod_eq_of_lt (matched.named.small key object named)
    have limit := orderly _ (Option.mem_def.mpr found)
    rw [found, ghost]
    simp only [if_true, size] at limit ⊢
    cases reached : seekTarget current (objects.contents object).length offset whence with
    | none => exact ⟨rfl, matched⟩
    | some target =>
      have fits := limit target (Option.mem_def.mpr reached)
      dsimp only
      by_cases negative : target < 0
      · rw [if_pos negative, if_pos negative]
        exact ⟨rfl, matched⟩
      · have inside : target.toNat < 2 ^ 32 := by omega
        rw [if_neg negative, if_neg negative, Nat.mod_eq_of_lt inside]
        exact ⟨rfl, matched.setHandle small (.file key object _ named inside)⟩

omit matched in
theorem length_writeBytes (contents : Bytes) (offset : Nat) (data : Bytes) :
    (writeBytes contents offset data).length = max contents.length (offset + data.length) := by
  rw [writeBytes, length_put]
  · simp only [List.length_append, length_zeros]
    omega
  · simp only [List.length_append, length_zeros]
    omega

omit matched in
/-- Changing the contents of one object changes the file of its name. -/
theorem fill_update (named : Named objects.tree.files objects.contents
      objects.next) {key : Bytes} {object : Nat}
    (member : (key, object) ∈ objects.tree.files) (data : Bytes) :
    objects.tree.fill (update objects.contents object data) =
      { objects.tree.fill objects.contents with
        files :=
          (objects.tree.fill objects.contents).files.modify key fun _ => data } := by
  unfold Tree.fill Assoc.modify Assoc.mapValues
  simp only [Tree.mk.injEq, List.map_map, and_true]
  refine List.map_congr_left fun entry inside => ?_
  obtain ⟨path, other⟩ := entry
  simp only [Function.comp_apply]
  by_cases same : path = key
  · subst same
    have sameObject : other = object := by
      have found := Assoc.find_of_mem named.keyed inside
      rw [Assoc.find_of_mem named.keyed member] at found
      exact (Option.some.inj found).symm
    rw [sameObject]
    simp
  · have otherObject : other ≠ object := fun equal =>
      same (named.distinct path key object (equal ▸ inside) member)
    simp [same, update_of_ne otherObject]

theorem writeByHandle_agrees (handle : Nat) (data : Bytes)
    (orderly : ∀ entry ∈ handleEntry overlay.table handle, entry.offset + data.length < 2 ^ 32) :
    Agree (overlay.writeByHandle handle data) (objects.write handle data) := by
  unfold RamOverlay.writeByHandle Objects.write
  rcases matched.handleCases handle with ⟨found, ghost⟩ | ⟨key, offset, position, found, ghost⟩ |
    ⟨key, object, offset, small, named, bounded, found, ghost⟩
  · rw [found, ghost]
    exact ⟨rfl, matched⟩
  · rw [found, ghost]
    exact ⟨rfl, matched⟩
  · have fits : offset + data.length < 2 ^ 32 := orderly _ (Option.mem_def.mpr found)
    rw [found, ghost]
    simp only [if_true, matched.find named, Nat.mod_eq_of_lt fits]
    refine ⟨rfl, ?_⟩
    have written : Matches
        { overlay with
          tree :=
            { overlay.tree with
              files := overlay.tree.files.modify key fun _ =>
                writeBytes (objects.contents object) offset data } }
        { objects with
          contents := update objects.contents object
            (writeBytes (objects.contents object) offset data) } :=
      { tree := by rw [matched.tree, fill_update matched.named named]
        named :=
          { matched.named with
            small := fun path other member => by
              have before := matched.named.small path other member
              by_cases same : other = object
              · subst same
                simp only [update_self, length_writeBytes]
                omega
              · simpa only [update_of_ne same] using before }
        handles := matched.handles
        inTable := matched.inTable }
    exact written.setHandle small (.file key object _ named fits)

/-! ## Opening and creating -/

omit matched in
theorem take_key {path : Bytes} (short : path.length ≤ pathKeyMax) : path.take pathKeyMax = path :=
  List.take_of_length_le short

theorem openToHandle_agrees (path : Bytes) (orderly :
      ∀ resolved ∈ overlay.tree.view.resolveSymlinks backing path,
        overlay.tree.files.contains resolved = true → resolved.length ≤ pathKeyMax) :
    Agree (overlay.openToHandle backing path) (objects.openFile backing path) := by
  unfold RamOverlay.openToHandle Objects.openFile
  rw [matched.view] at orderly ⊢
  cases known : objects.tree.view.resolveSymlinks backing path with
  | none => exact ⟨rfl, matched⟩
  | some resolved =>
    have short := orderly resolved (Option.mem_def.mpr known)
    simp only [matched.contains] at short ⊢
    by_cases inside : objects.tree.files.contains resolved = true
    · obtain ⟨object, found⟩ := Option.isSome_iff_exists.mp inside
      rw [if_pos inside, if_pos (.inl inside), RamOverlay.install,
        matched.alloc, take_key (short inside), found]
      cases free : allocFileEntry objects.table with
      | none => exact ⟨rfl, matched⟩
      | some idx =>
        exact ⟨rfl, matched.setHandle (alloc_small free)
          (.file resolved object 0 (Assoc.mem_of_find found) (by decide))⟩
    · rw [if_neg inside]
      by_cases opens : backing.opens resolved = true
      · have absent : objects.tree.files.find resolved = none := by
          simpa [Assoc.contains] using inside
        rw [if_pos opens, if_pos (.inr opens), RamOverlay.install, matched.alloc, absent]
        cases free : allocFileEntry objects.table with
        | none => exact ⟨rfl, matched⟩
        | some idx => exact ⟨rfl, matched.setHandle (alloc_small free) (.elsewhere _ 0 0)⟩
      · rw [if_neg opens, if_neg (by simp [inside, opens])]
        exact ⟨rfl, matched⟩

/-- The object of a create is that of the name, or a new one. -/
theorem objectAt_cases (path : Bytes) :
    (path, objects.objectAt path) ∈ objects.tree.files ∨
      (∀ object, (path, object) ∉ objects.tree.files) ∧ objects.objectAt path = objects.next := by
  unfold Objects.objectAt
  cases found : objects.tree.files.find path with
  | none =>
    refine .inr ⟨fun object member => ?_, rfl⟩
    rw [Assoc.find_of_mem matched.named.keyed member] at found
    cases found
  | some object => exact .inl (Assoc.mem_of_find found)

theorem emptied_matches (path : Bytes) :
    Matches
      { overlay with tree := { overlay.tree with files := overlay.tree.files.insert path [] } }
      (objects.emptied path) := by
  have cases := objectAt_cases matched path
  -- The object has no other name.
  have only : ∀ other, (other, objects.objectAt path) ∈ objects.tree.files → other = path := by
    intro other member
    rcases cases with here | ⟨_, fresh⟩
    · exact matched.named.distinct other path _ member here
    · have known := matched.named.known other _ member
      omega
  have kept : ∀ other object, (other, object) ∈ objects.tree.files →
      (other, object) ∈ objects.tree.files.insert path (objects.objectAt path) := by
    intro other object member
    refine Assoc.mem_insert.mpr ?_
    by_cases same : other = path
    · subst same
      refine .inl ⟨rfl, ?_⟩
      rcases cases with here | ⟨absent, _⟩
      · have found := Assoc.find_of_mem matched.named.keyed member
        rw [Assoc.find_of_mem matched.named.keyed here] at found
        exact (Option.some.inj found).symm
      · exact absurd member (absent object)
    · exact .inr ⟨same, member⟩
  refine
    { tree := ?_
      named := ?_
      handles := fun handle => (matched.handles handle).mono
        fun entry object _ _ member => kept entry.key object member
      inTable := matched.inTable }
  · have others : (objects.tree.files.remove path).mapValues objects.contents =
          (objects.tree.files.remove path).mapValues
            (update objects.contents (objects.objectAt path) []) := by
      refine List.map_congr_left fun entry member => ?_
      obtain ⟨other, object⟩ := entry
      obtain ⟨elsewhere, inside⟩ := Assoc.mem_remove.mp member
      have different : object ≠ objects.objectAt path := fun same =>
        elsewhere (only other (same ▸ inside))
      simp only [update_of_ne different]
    have here : update objects.contents (objects.objectAt path) []
        (objects.objectAt path) = [] := update_self ..
    simp only [matched.tree, Tree.fill, Objects.emptied, ← Assoc.insert_mapValues, here]
    simp only [Assoc.insert, Assoc.remove_mapValues, others]
  · refine matched.named.insert only ⟨le_max_left _ _, Nat.lt_of_succ_le (le_max_right _ _)⟩ ?_
      fun other different => update_of_ne different _ _
    change (update objects.contents (objects.objectAt path) [] (objects.objectAt path)).length < _
    rw [update_self]
    decide

theorem createToHandle_agrees (path : Bytes) (free : (allocFileEntry overlay.table).isSome = true)
    (short : ∀ resolved ∈ overlay.tree.view.resolveNew backing path, resolved.length ≤ pathKeyMax) :
    Agree (overlay.createToHandle backing path) (objects.create backing path) := by
  unfold RamOverlay.createToHandle Objects.create
  rw [matched.view] at short ⊢
  cases known : objects.tree.view.resolveNew backing path with
  | none => exact ⟨rfl, matched⟩
  | some resolved =>
    have fits := short resolved (Option.mem_def.mpr known)
    obtain ⟨idx, found⟩ := Option.isSome_iff_exists.mp free
    simp only [RamOverlay.install, found, ← matched.alloc, take_key fits]
    refine ⟨rfl, (emptied_matches matched resolved).setHandle
      (alloc_small found) (.file resolved _ 0 ?_ (by decide))⟩
    exact Assoc.mem_insert.mpr (.inl ⟨rfl, rfl⟩)

/-! ## Removing and moving names -/

/-- Names go that no handle is open on. -/
theorem delete_agrees (path : Bytes) (unused :
      ∀ resolved ∈ overlay.tree.view.resolveParentSymlinks backing path,
        ¬ overlay.openOn resolved) :
    Agree (overlay.delete backing path) (objects.delete backing path) := by
  unfold RamOverlay.delete Objects.delete
  rw [matched.view] at unused ⊢
  cases known : objects.tree.view.resolveParentSymlinks backing path with
  | none => exact ⟨rfl, matched⟩
  | some resolved =>
    have closed := unused resolved (Option.mem_def.mpr known)
    simp only [matched.contains]
    split_ifs
    · refine ⟨rfl, ?_⟩
      refine
        { tree := by simp only [matched.tree, Tree.fill,
            Assoc.remove_mapValues]
          named := matched.named.remove resolved
          handles := fun handle => (matched.handles handle).mono
            fun entry object found ram member =>
              Assoc.mem_remove.mpr ⟨fun same => closed (same ▸ matched.openOn found ram), member⟩
          inTable := matched.inTable }
    · exact ⟨rfl, matched⟩

/-- A move that no handle loses its file by keeps states matched. -/
theorem moveFile_matches {src dst : Bytes} (safe : MoveSafe overlay src dst) :
    Matches (overlay.moveFile src dst) { objects with tree := objects.tree.moveFile src dst } := by
  obtain ⟨unused, fits⟩ := safe
  have tree : (overlay.moveFile src dst).tree =
      (objects.tree.moveFile src dst).fill objects.contents := by
    rw [← fill_moveFile, ← matched.tree]
    rfl
  have inTable : ∀ handle, (overlay.moveFile src dst).table handle ≠ none →
      handle < maxOpenFiles := by
    intro handle open_
    refine matched.inTable handle fun closed => open_ ?_
    change (overlay.table handle).map _ = none
    rw [closed]
    rfl
  -- What a rewritten handle needs is that its name has moved along.
  have handles : ∀ after : Assoc Bytes Nat, (∀ object, (src, object) ∈ objects.tree.files →
        (dst, object) ∈ after) →
      (∀ path object, path ≠ src → path ≠ dst →
        (path, object) ∈ objects.tree.files → (path, object) ∈ after) →
      ∀ handle, HandleMatches after ((overlay.moveFile src dst).table handle)
        (objects.table handle) := by
    intro after moved kept handle
    have pair := matched.handles handle
    have opened : ∀ entry, overlay.table handle = some entry →
        entry.ram = true → overlay.openOn entry.key :=
      fun entry found ram => matched.openOn found ram
    change HandleMatches after ((overlay.table handle).map _) _
    generalize overlay.table handle = entry at pair opened ⊢
    generalize objects.table handle = ghost at pair ⊢
    cases pair with
    | closed => exact .closed
    | elsewhere key offset position =>
      simp only [Option.map_some]
      split_ifs
      · exact .elsewhere dst offset position
      · exact .elsewhere key offset position
    | file key object offset named small =>
      have on := opened _ rfl rfl
      simp only [Option.map_some]
      by_cases same : key = src
      · subst same
        rw [if_pos ⟨rfl, fits on⟩]
        exact .file dst object offset (moved object named) small
      · rw [if_neg fun both => same both.1]
        have other : key ≠ dst := fun equal => unused (equal ▸ on)
        exact .file key object offset (kept key object same other named) small
  cases found : objects.tree.files.find src with
  | none =>
    have stays : objects.tree.moveFile src dst = objects.tree := by rw [Tree.moveFile, found]
    have absent : ∀ object, (src, object) ∉ objects.tree.files := by
      intro object member
      rw [Assoc.find_of_mem matched.named.keyed member] at found
      cases found
    rw [stays] at tree ⊢
    exact
      { tree, inTable
        named := matched.named
        handles := handles _ (fun object member => absurd member (absent object))
          fun _ _ _ _ member => member }
  | some object =>
    have member := Assoc.mem_of_find found
    have moves : (objects.tree.moveFile src dst).files =
        (objects.tree.files.remove src).insert dst object := by
      rw [Tree.moveFile, found]
    refine { tree, inTable, named := ?_, handles := handles _ ?_ ?_ }
    · rw [moves]
      refine (matched.named.remove src).insert (fun other inside => ?_)
        ⟨le_rfl, matched.named.known src object member⟩ (matched.named.small src object member)
        fun _ _ => rfl
      obtain ⟨elsewhere, inside⟩ := Assoc.mem_remove.mp inside
      exact absurd (matched.named.distinct other src object inside member) elsewhere
    · intro other named
      have same := Assoc.find_of_mem matched.named.keyed named
      rw [found] at same
      rw [moves]
      exact Assoc.mem_insert.mpr (.inl ⟨rfl, (Option.some.inj same).symm⟩)
    · intro path other notSrc notDst named
      rw [moves]
      exact Assoc.mem_insert.mpr (.inr ⟨notDst, Assoc.mem_remove.mpr ⟨notSrc, named⟩⟩)

omit matched in
/-- Where handles are open after a move. -/
theorem openOn_moveFile {src dst path : Bytes} (opened : (overlay.moveFile src dst).openOn path) :
    overlay.openOn path ∨ path = dst := by
  obtain ⟨handle, small, entry, found, ram, rfl⟩ := opened
  obtain ⟨before, known, rfl⟩ := Option.map_eq_some_iff.mp (Option.mem_def.mp found)
  split_ifs at ram ⊢ with rewritten
  · exact .inr rfl
  · exact .inl ⟨handle, small, before, known, ram, rfl⟩

/-- Several moves, none of which is in the way of another. -/
theorem moveFiles_matches {target : Bytes → Bytes} {srcs : List Bytes} (nodup : srcs.Nodup)
    (injective : ∀ first ∈ srcs, ∀ second ∈ srcs, target first = target second → first = second)
    (apart : ∀ first ∈ srcs, ∀ second ∈ srcs, target first ≠ second)
    (safe : ∀ src ∈ srcs, MoveSafe overlay src (target src)) :
    Matches (srcs.foldl (fun overlay src => overlay.moveFile src (target src)) overlay)
      { objects with
        tree :=
          srcs.foldl (fun tree src => tree.moveFile src (target src)) objects.tree } := by
  induction srcs generalizing overlay objects with
  | nil => exact matched
  | cons src rest induction =>
    obtain ⟨fresh, nodup⟩ := List.nodup_cons.mp nodup
    have moved := moveFile_matches matched (safe src List.mem_cons_self)
    have inRest : ∀ {later}, later ∈ rest → later ∈ src :: rest := List.mem_cons_of_mem _
    refine induction moved nodup (fun first inFirst second inSecond =>
        injective first (inRest inFirst) second (inRest inSecond))
      (fun first inFirst second inSecond =>
        apart first (inRest inFirst) second (inRest inSecond)) ?_
    intro later member
    obtain ⟨unused, fits⟩ := safe later (inRest member)
    constructor
    · intro opened
      rcases openOn_moveFile opened with before | here
      · exact unused before
      · have same := injective later (inRest member) src List.mem_cons_self here
        exact fresh (same ▸ member)
    · intro opened
      rcases openOn_moveFile opened with before | here
      · exact fits before
      · exact absurd here.symm (apart src List.mem_cons_self later (inRest member))

omit matched in
theorem prefix_of_within {old path : Bytes} (inside : path = old ∨ below old path) :
    old <+: path := by
  rcases inside with rfl | below
  · exact List.prefix_rfl
  · exact (List.prefix_append old [slash]).trans (List.isPrefixOf_iff_prefix.mp below)

omit matched in
theorem retarget_injective {old new first second : Bytes} (inFirst : old <+: first)
    (inSecond : old <+: second) (same : retarget old new first = retarget old new second) :
    first = second := by
  obtain ⟨head, rfl⟩ := inFirst
  obtain ⟨tail, rfl⟩ := inSecond
  simpa [retarget] using same

theorem rename_agrees (old new : Bytes) (orderly :
      RenameSafe overlay (overlay.tree.view.rename backing old new)) :
    Agree (overlay.rename backing old new) (objects.rename backing old new) := by
  unfold RamOverlay.rename Objects.rename
  rw [matched.view] at orderly ⊢
  cases change : objects.tree.view.rename backing old new with
  | error code => exact ⟨rfl, matched⟩
  | ok change_ =>
    rw [change] at orderly
    cases change_ with
    | file src dst => exact ⟨rfl, moveFile_matches matched orderly⟩
    | dir src dst =>
      refine ⟨rfl, ?_⟩
      have files : overlay.tree.filesBelow src = objects.tree.filesBelow src := by
        rw [matched.tree, fill_filesBelow]
      have dirs : Matches { overlay with tree := overlay.tree.moveDirs src dst }
          { objects with tree := objects.tree.moveDirs src dst } :=
        { tree := by rw [matched.tree, fill_moveDirs]
          named := matched.named
          handles := matched.handles
          inTable := matched.inTable }
      dsimp only
      rw [files]
      change ∀ path ∈ overlay.tree.filesBelow src, _ at orderly
      rw [files] at orderly
      refine moveFiles_matches dirs (matched.named.keyed.filter _) ?_ ?_
        fun path member => (orderly path member).2
      · intro first inFirst second inSecond
        exact retarget_injective (prefix_of_within (.inr (List.mem_filter.mp inFirst).2))
          (prefix_of_within (.inr (List.mem_filter.mp inSecond).2))
      · intro first inFirst second inSecond same
        have absent := (orderly first inFirst).1
        have present : second ∈ objects.tree.files.keys := (List.mem_filter.mp inSecond).1
        obtain ⟨entry, member, rfl⟩ := List.mem_map.mp present
        rw [matched.contains, same, Assoc.contains,
          Assoc.find_of_mem matched.named.keyed member] at absent
        cases absent

theorem closeHandle_matches (handle : Nat) :
    Matches (overlay.closeHandle handle) (objects.close handle) := by
  unfold RamOverlay.closeHandle Objects.close
  split_ifs
  · refine
      { tree := matched.tree
        named := matched.named
        handles := fun other => ?_
        inTable := fun other open_ => ?_ }
    · by_cases same : other = handle
      · subst same
        simpa using HandleMatches.closed
      · simpa [update_of_ne same] using matched.handles other
    · by_cases same : other = handle
      · subst same
        exact absurd (update_self ..) open_
      · refine matched.inTable other ?_
        simpa [update_of_ne same] using open_
  · exact matched

/-- Directories come and go without the handles. -/
theorem Matches.dirs {tree : Tree Nat} (files : tree.files = objects.tree.files) :
    Matches { overlay with tree := tree.fill objects.contents } { objects with tree } where
  tree := rfl
  named := by
    rw [files]
    exact matched.named
  handles := by
    rw [files]
    exact matched.handles
  inTable := matched.inTable

/-- One request, answered alike. -/
theorem overlayMachine_agrees (request : OverlayRequest)
    (orderly : OverlayOrderly backing overlay request) :
    Agree (overlayMachine backing overlay request) (objectsMachine backing objects request) := by
  cases request with
  | create path => exact createToHandle_agrees matched path orderly.1 orderly.2
  | openFile path => exact openToHandle_agrees matched path orderly
  | read handle count => exact readByHandle_agrees matched handle count
  | write handle data => exact writeByHandle_agrees matched handle data orderly
  | seek handle offset whence => exact seekByHandle_agrees matched handle offset whence orderly
  | close handle => exact ⟨rfl, closeHandle_matches matched handle⟩
  | rename old new => exact rename_agrees matched old new orderly
  | delete path => exact delete_agrees matched path orderly
  | mkdir path =>
    have same := fill_mkdir objects.tree objects.contents backing path
    rw [← matched.tree] at same
    refine ⟨congrArg OverlayAnswer.code (congrArg Prod.fst same), ?_⟩
    simp only [overlayMachine, objectsMachine, same]
    exact matched.dirs (mkdir_files _ _ _)
  | rmdir path =>
    have same := fill_rmdir objects.tree objects.contents backing path
    rw [← matched.tree] at same
    refine ⟨congrArg OverlayAnswer.code (congrArg Prod.fst same), ?_⟩
    simp only [overlayMachine, objectsMachine, same]
    exact matched.dirs (rmdir_files _ _ _)

end

end Steps

/-! ## Runs -/

/-- In every orderly run, handles denote the objects they opened. -/
theorem handles_denote_objects (backing : Backing) (requests : List OverlayRequest) (orderly :
      (overlayMachine backing).Meets (OverlayOrderly backing) .boot requests) :
    ((overlayMachine backing).run .boot requests).map Move.answer =
      ((objectsMachine backing).run .boot requests).map Move.answer := by
  have step : ∀ overlay objects request, Matches overlay objects →
      OverlayOrderly backing overlay request →
      (overlayMachine backing overlay request).1 = (objectsMachine backing objects request).1 ∧
        Matches (overlayMachine backing overlay request).2
          (objectsMachine backing objects request).2 :=
    fun _ _ request matched meets => overlayMachine_agrees matched request meets
  exact (Machine.run_simulates step matches_boot orderly).1

/-- Nothing below the overlay but the root directory. -/
def bareBacking : Backing where
  children _ := []
  dirExists path := path = []
  opens _ := false
  sameMount _ _ := true

/-- A file is written, moved with its directory, and read and deleted. -/
def movedFile : List OverlayRequest :=
  [.mkdir [0x64], .create [0x64, 0x2f, 0x66], .write 0 [1, 2, 3],
    .rename [0x64] [0x65], .seek 0 1 0, .read 0 8,
    .openFile [0x65, 0x2f, 0x66], .write 1 [9], .seek 0 0 0, .read 0 8,
    .close 0, .close 1, .delete [0x65, 0x2f, 0x66],
    .openFile [0x65, 0x2f, 0x66]]

theorem moved_file_denoted :
    ((overlayMachine bareBacking).run .boot movedFile).map Move.answer =
        [.code 0, .code 0, .code 3, .code 0, .code 1, .bytes 2 [2, 3],
          .code 1, .code 1, .code 0, .bytes 3 [9, 2, 3], .code 0, .code 0,
          .code 0, .code (-2)] ∧
      ((overlayMachine bareBacking).run .boot movedFile).map Move.answer =
        ((objectsMachine bareBacking).run .boot movedFile).map
          Move.answer :=
  ⟨by decide +kernel, handles_denote_objects bareBacking movedFile (by decide +kernel)⟩

/-- A path of 165 bytes. -/
def longPath : Bytes := List.replicate 165 0x61

/--
A deleted file, one created again under its name, a path and a new path that
are too long, a rename over a file that is listed under another case only, a
create without a free handle, and a seek past 32 bits.
-/
def strayRuns : List (List OverlayRequest) :=
  [[.create [0x61], .write 0 [1], .delete [0x61], .seek 0 0 0, .read 0 1],
    [.create [0x61], .write 0 [1], .delete [0x61], .create [0x61],
      .write 1 [2], .seek 0 0 0, .read 0 1],
    [.create longPath, .write 0 [1]],
    [.create [0x61], .write 0 [1], .rename [0x61] longPath, .seek 0 0 0, .read 0 1],
    [.create [0x41], .create [0x61], .write 1 [2], .create [0x78],
      .write 2 [3], .rename [0x78] [0x61], .seek 1 0 0, .read 1 1],
    [.create [0x61], .write 0 [1]] ++ List.replicate 127 (.openFile [0x61]) ++
      [.create [0x61], .seek 0 0 0, .read 0 1],
    [.create [0x61], .write 0 [1], .seek 0 0x7fffffff 0,
      .seek 0 0x7fffffff 1, .seek 0 2 1, .read 0 1]]

theorem handles_stray :
    strayRuns.all (fun requests =>
      ((overlayMachine bareBacking).run .boot requests).map Move.answer ≠
        ((objectsMachine bareBacking).run .boot requests).map Move.answer) = true := by
  decide +kernel

end RetroOS.Vfs
