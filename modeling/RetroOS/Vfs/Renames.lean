import RetroOS.Vfs.OverlayObjects

/-!
# Renames and the tree

The overlay is a list of full paths, so a directory is moved by moving the
paths below it, one after another.  A rename looks at the new name only: it
asks whether a lookup finds something there.  It does not ask whether the new
name is below the old one, whether its parent is a directory, whether an entry
that lookups cannot see has that name already, or whether the directories
between the old name and its descendants are in the overlay at all.
-/

namespace RetroOS.Vfs

open Lib Lib.Bytes

/-- A path is in the directory before its last slash; without a slash it is in the root. -/
def InDir (dir path : Bytes) : Prop := ∃ name, slash ∉ name ∧ path = dir ++ slash :: name

/-- A directory of the overlay, or of the file systems below it. -/
def Existing (backing : Backing) (dirs : List Bytes) (dir : Bytes) : Prop :=
  dir ∈ dirs ∨ backing.dirExists dir

/-- Every entry is in a directory. -/
def Tree.Rooted (tree : Tree Bytes) (backing : Backing) : Prop :=
  ∀ path ∈ tree.files.keys ++ tree.dirs.keys, ∀ dir, InDir dir path →
    Existing backing tree.dirs.keys dir

def within (dir path : Bytes) : Bool := path = dir ∨ below dir path

/-- The name of an entry after its directory got a new one. -/
def moveName (old new path : Bytes) : Bytes :=
  if within old path then retarget old new path else path

/-- What a rename is for: entries get new names and stay what they are. -/
def Tree.renamed (tree : Tree Bytes) : NameChange → Tree Bytes
  | .file old new =>
    { tree with files := tree.files.map (Prod.map (fun path => if path = old then new else path) id) }
  | .dir old new =>
    { files := tree.files.map (Prod.map (moveName old new) id)
      dirs := tree.dirs.map (Prod.map (moveName old new) id) }

structure Renamed (backing : Backing) (before after : Tree Bytes) (change : NameChange) :
    Prop where
  files : List.Perm after.files (before.renamed change).files
  dirs : List.Perm after.dirs (before.renamed change).dirs
  rooted : after.Rooted backing
  apart : ∀ old new, change = .dir old new → ¬ within old new

/-- A rename moves what it names and nothing else, or changes nothing. -/
def RenameSound (backing : Backing) (overlay : RamOverlay) (old new : Bytes) : Prop :=
  let (answer, after) := overlay.rename backing old new
  (answer ≠ .code 0 → after = overlay) ∧
    (answer = .code 0 →
      ∃ src dst, overlay.tree.view.resolveParentSymlinks backing old = some src ∧
        overlay.tree.view.resolveParentSymlinks backing new = some dst ∧
        Renamed backing overlay.tree after.tree
          (if src ∈ overlay.tree.files.keys then .file src dst else .dir src dst))

/-- No entry has a new name when it is given. -/
def Unobstructed (keys srcs : List Bytes) (target : Bytes → Bytes) : Prop :=
  (∀ src ∈ srcs, target src ∈ keys → target src ∈ srcs) ∧
    srcs.Pairwise fun src later => target src ≠ later

/-- What a rename is asked for. -/
def Tree.Movable (tree : Tree Bytes) (backing : Backing) : NameChange → Prop
  | .file old new =>
    (new ∈ tree.files.keys → new = old) ∧ ∀ dir, InDir dir new → Existing backing tree.dirs.keys dir
  | .dir old new =>
    -- The directories that are not moved.
    let stay := tree.dirs.keys.filter fun dir => !within old dir
    ¬ within old new ∧
      Unobstructed tree.files.keys (tree.files.keys.filter (within old)) (retarget old new) ∧
      Unobstructed tree.dirs.keys (tree.dirs.keys.filter (within old)) (retarget old new) ∧
      (∀ dir, InDir dir new → Existing backing stay dir) ∧
      ∀ path ∈ tree.files.keys ++ tree.dirs.keys, below old path → ∀ dir, InDir dir path →
        dir ∈ tree.dirs.keys ∨ Existing backing stay (retarget old new dir)

def RenameOrderly (backing : Backing) (overlay : RamOverlay) (old new : Bytes) : Prop :=
  ∀ change, overlay.tree.view.rename backing old new = .ok change →
    overlay.tree.Movable backing change

/-! ## Moved entries -/

/-- The directories above a path below another one, whatever that is called. -/
theorem inDir_below {front rest dir : Bytes} :
    InDir dir (front ++ slash :: rest) ↔
      ∃ tail, (∃ name, slash ∉ name ∧ slash :: rest = tail ++ slash :: name) ∧
        dir = front ++ tail := by
  constructor
  · rintro ⟨name, plain, same⟩
    rcases List.append_eq_append_iff.mp same with ⟨tail, rfl, rest⟩ | ⟨tail, rfl, rest⟩
    · exact ⟨tail, ⟨name, plain, rest⟩, rfl⟩
    · -- The last slash is not in front of the one that is known.
      cases tail with
      | nil => exact ⟨[], ⟨name, plain, rest.symm⟩, by simp⟩
      | cons head tail =>
        simp only [List.cons_append, List.cons.injEq] at rest
        exact absurd (by simp [rest.2]) plain
  · rintro ⟨tail, ⟨name, plain, rest⟩, rfl⟩
    exact ⟨name, plain, by rw [rest, List.append_assoc]⟩

theorem within_append {old tail name rest : Bytes} (split : slash :: rest = tail ++ slash :: name) :
    within old (old ++ tail) := by
  cases tail with
  | nil => simp [within]
  | cons head tail =>
    obtain rfl : slash = head := (List.cons.inj split).1
    simp [within, below, List.isPrefixOf_iff_prefix]

/-- The directories of a moved entry move along. -/
theorem inDir_retarget {old path : Bytes} (inside : below old path) (new : Bytes) {dir : Bytes} :
    (InDir dir path → within old dir ∧ InDir (retarget old new dir) (retarget old new path)) ∧
      (InDir dir (retarget old new path) →
        ∃ parent, within old parent ∧ InDir parent path ∧ dir = retarget old new parent) := by
  obtain ⟨rest, rfl⟩ := List.isPrefixOf_iff_prefix.mp inside
  have moves : retarget old new (old ++ slash :: rest) = new ++ slash :: rest := by simp [retarget]
  rw [List.append_assoc, List.singleton_append, moves]
  constructor
  · intro place
    obtain ⟨tail, split, rfl⟩ := inDir_below.mp place
    exact ⟨within_append split.choose_spec.2, inDir_below.mpr ⟨tail, split, by simp [retarget]⟩⟩
  · intro place
    obtain ⟨tail, split, rfl⟩ := inDir_below.mp place
    exact ⟨old ++ tail, within_append split.choose_spec.2, inDir_below.mpr ⟨tail, split, rfl⟩,
      by simp [retarget]⟩

theorem within_of_inDir {old dir path : Bytes} (inside : within old dir) (place : InDir dir path) :
    within old path := by
  obtain ⟨name, -, rfl⟩ := place
  simp only [within, below, List.isPrefixOf_iff_prefix, decide_eq_true_eq] at inside ⊢
  right
  rcases inside with rfl | ⟨rest, rfl⟩
  · exact ⟨name, by simp⟩
  · exact ⟨rest ++ slash :: name, by simp⟩

section Rooted

variable {backing : Backing} {old new : Bytes} {dirs : List Bytes} {dir : Bytes}

/-- The directories after a move. -/
theorem mem_map_moveName :
    dir ∈ dirs.map (moveName old new) ↔
      dir ∈ dirs.filter (fun dir => !within old dir) ∨
        ∃ key ∈ dirs, within old key ∧ retarget old new key = dir := by
  simp only [List.mem_map, List.mem_filter, moveName]
  grind

theorem existing_moved (inside : within old dir) :
    Existing backing (dirs.map (moveName old new)) (retarget old new dir) ↔
      dir ∈ dirs ∨
        Existing backing (dirs.filter fun dir => !within old dir) (retarget old new dir) := by
  have only : (∃ key ∈ dirs, within old key ∧ retarget old new key = retarget old new dir) ↔
      dir ∈ dirs := by
    constructor
    · rintro ⟨key, member, moved, same⟩
      rwa [← retarget_injective (prefix_of_within (of_decide_eq_true moved))
        (prefix_of_within (of_decide_eq_true inside)) same]
    · intro member
      exact ⟨dir, member, inside, rfl⟩
  rw [Existing, mem_map_moveName, only, Existing]
  tauto

/-- The directory of the new name is none of those that are moved to it. -/
theorem existing_above (place : InDir dir new) :
    Existing backing (dirs.map (moveName old new)) dir ↔
      Existing backing (dirs.filter fun dir => !within old dir) dir := by
  have none : ¬ ∃ key ∈ dirs, within old key ∧ retarget old new key = dir := by
    rintro ⟨key, -, -, rfl⟩
    obtain ⟨name, -, same⟩ := place
    have longer := congrArg List.length same
    simp only [retarget, List.length_append, List.length_cons] at longer
    omega
  rw [Existing, mem_map_moveName, or_iff_left none, Existing]

/-- Where the entries of a moved tree are. -/
theorem rooted_moved_iff {keys : List Bytes} (new : Bytes)
    (rooted : ∀ path ∈ keys, ∀ dir, InDir dir path → Existing backing dirs dir)
    (moved : old ∈ keys) :
    (∀ path ∈ keys, ∀ dir, InDir dir (moveName old new path) →
        Existing backing (dirs.map (moveName old new)) dir) ↔
      (∀ dir, InDir dir new → Existing backing (dirs.filter fun dir => !within old dir) dir) ∧
        ∀ path ∈ keys, below old path → ∀ dir, InDir dir path →
          dir ∈ dirs ∨
            Existing backing (dirs.filter fun dir => !within old dir) (retarget old new dir) := by
  have here : moveName old new old = new := by simp [moveName, within, retarget]
  have there {path : Bytes} (inside : below old path) :
      moveName old new path = retarget old new path := by
    simp [moveName, within, inside]
  constructor
  · intro all
    have first := all old moved
    rw [here] at first
    refine ⟨fun dir place => (existing_above place).mp (first dir place), ?_⟩
    intro path member inside dir place
    obtain ⟨parent, moves⟩ := (inDir_retarget inside new).1 place
    exact (existing_moved parent).mp (all path member _ (there inside ▸ moves))
  · rintro ⟨above, deeper⟩ path member dir place
    by_cases inside : within old path
    · rcases of_decide_eq_true inside with rfl | inside
      · rw [here] at place
        exact (existing_above place).mpr (above dir place)
      · rw [there inside] at place
        obtain ⟨parent, within, was, rfl⟩ := (inDir_retarget inside new).2 place
        exact (existing_moved within).mpr (deeper path member inside parent was)
    · rw [moveName, if_neg inside] at place
      refine (rooted path member dir place).imp_left fun known => ?_
      refine mem_map_moveName.mpr (.inl (List.mem_filter.mpr ⟨known, ?_⟩))
      simpa using fun parent => inside (within_of_inDir parent place)

end Rooted

/-! ## Renames -/

theorem View.rename_cases (view : View) (backing : Backing) (old new : Bytes) :
    (∃ code, code ≠ 0 ∧ view.rename backing old new = .error code) ∨
      ∃ src dst, view.resolveParentSymlinks backing old = some src ∧
        view.resolveParentSymlinks backing new = some dst ∧
        (src ∈ view.files ∧ view.rename backing old new = .ok (.file src dst) ∨
          src ∉ view.files ∧ src ∈ view.dirs ∧
            view.rename backing old new = .ok (.dir src dst)) := by
  unfold View.rename
  cases view.resolveParentSymlinks backing old <;> cases view.resolveParentSymlinks backing new
  case some.some src dst =>
    simp only [List.contains_iff_mem]
    split_ifs <;> simp_all
  all_goals simp

/-- What a file move does to the files. -/
def relocateFile (target : Bytes → Bytes) (files : Assoc Bytes Bytes) (src : Bytes) :
    Assoc Bytes Bytes :=
  match files.find src with
  | none => files
  | some value => (files.remove src).insert (target src) value

theorem relocateFile_eq (target : Bytes → Bytes) (files : Assoc Bytes Bytes) (src value : Bytes)
    (found : files.find src = some value) :
    relocateFile target files src = (files.remove src).insert (target src) value := by
  simp [relocateFile, found]

theorem tree_moveFiles (target : Bytes → Bytes) (srcs : List Bytes) (overlay : RamOverlay) :
    (srcs.foldl (fun overlay src => overlay.moveFile src (target src)) overlay).tree =
      { overlay.tree with files := srcs.foldl (relocateFile target) overlay.tree.files } := by
  induction srcs generalizing overlay with
  | nil => rfl
  | cons src rest induction =>
    rw [List.foldl_cons, List.foldl_cons, induction]
    simp only [RamOverlay.moveFile, RamOverlay.rekeyOpenPaths, Tree.moveFile, relocateFile]
    cases overlay.tree.files.find src <;> rfl

theorem moved_perm_iff {β : Type} {entries : Assoc Bytes β} {old new : Bytes}
    {relocate : Assoc Bytes β → Bytes → Assoc Bytes β} (relocates :
      ∀ entries src value, entries.find src = some value →
        relocate entries src = (entries.remove src).insert (retarget old new src) value)
    (keyed : entries.Keyed) :
    ((entries.keys.filter (within old)).foldl relocate entries).Perm
        (entries.map (Prod.map (moveName old new) id)) ↔
      Unobstructed entries.keys (entries.keys.filter (within old)) (retarget old new) := by
  have inside {path : Bytes} (member : path ∈ entries.keys.filter (within old)) : old <+: path :=
    prefix_of_within (of_decide_eq_true (List.mem_filter.mp member).2)
  have same : entries.rekey (retarget old new) (entries.keys.filter (within old)) =
      entries.map (Prod.map (moveName old new) id) := by
    refine List.map_congr_left fun entry member => ?_
    simp [moveName, Assoc.mem_keys member, Prod.map]
  rw [← same]
  exact (Assoc.relocateAll relocates keyed (keyed.filter _)
    (fun src member => (List.mem_filter.mp member).1)
    fun _ first _ second => retarget_injective (inside first) (inside second)).2

theorem renamed_iff {backing : Backing} {before after : Tree Bytes} {change : NameChange} :
    Renamed backing before after change ↔
      List.Perm after.files (before.renamed change).files ∧
        List.Perm after.dirs (before.renamed change).dirs ∧
        (before.renamed change).Rooted backing ∧
        ∀ old new, change = .dir old new → ¬ within old new := by
  have same (files : List.Perm after.files (before.renamed change).files)
      (dirs : List.Perm after.dirs (before.renamed change).dirs) :
      after.Rooted backing ↔ (before.renamed change).Rooted backing := by
    simp only [Tree.Rooted, Existing, List.mem_append, Assoc.keys, (files.map Prod.fst).mem_iff,
      (dirs.map Prod.fst).mem_iff]
  constructor
  · rintro ⟨files, dirs, rooted, apart⟩
    exact ⟨files, dirs, (same files dirs).mp rooted, apart⟩
  · rintro ⟨files, dirs, rooted, apart⟩
    exact ⟨files, dirs, (same files dirs).mpr rooted, apart⟩

theorem keys_rename {β : Type} (entries : Assoc Bytes β) (rename : Bytes → Bytes) :
    Assoc.keys (entries.map (Prod.map rename id)) = entries.keys.map rename := by
  simp [Assoc.keys, Function.comp_def]

section Calls

variable {overlay : RamOverlay} {backing : Backing} {old new : Bytes}
    (files : overlay.tree.files.Keyed) (rooted : overlay.tree.Rooted backing)

include files rooted

theorem renamed_file_iff (found : old ∈ overlay.tree.files.keys) :
    Renamed backing overlay.tree (overlay.moveFile old new).tree (.file old new) ↔
      overlay.tree.Movable backing (.file old new) := by
  have moved := tree_moveFiles (fun _ => new) [old] overlay
  have perm := (Assoc.relocateAll (relocateFile_eq fun _ => new) files (List.nodup_singleton old)
    (by simpa using found) (by simp)).2
  have rekeyed : overlay.tree.files.rekey (fun _ => new) [old] =
      (overlay.tree.renamed (.file old new)).files := by
    simp [Assoc.rekey, Tree.renamed, Prod.map]
  have places : (overlay.tree.renamed (.file old new)).Rooted backing ↔
      ∀ dir, InDir dir new → Existing backing overlay.tree.dirs.keys dir := by
    simp only [Tree.Rooted, Tree.renamed, keys_rename, List.forall_mem_append, List.forall_mem_map]
    refine ⟨fun all => by simpa using all.1 old found, fun above => ⟨fun path member => ?_, ?_⟩⟩
    · split_ifs
      · exact above
      · exact rooted path (List.mem_append_left _ member)
    · exact fun path member => rooted path (List.mem_append_right _ member)
  rw [List.foldl_cons, List.foldl_nil] at moved
  rw [renamed_iff, places, moved, ← rekeyed, perm]
  simp [Tree.renamed, Tree.Movable]

theorem renamed_dir_iff (dirs : overlay.tree.dirs.Keyed) (noFile : old ∉ overlay.tree.files.keys)
    (found : old ∈ overlay.tree.dirs.keys) :
    Renamed backing overlay.tree ((overlay.tree.filesBelow old).foldl
          (fun (overlay : RamOverlay) src => overlay.moveFile src (retarget old new src))
          { overlay with tree := overlay.tree.moveDirs old new }).tree (.dir old new) ↔
      overlay.tree.Movable backing (.dir old new) := by
  have below : overlay.tree.filesBelow old = overlay.tree.files.keys.filter (within old) := by
    refine List.filter_congr fun path member => ?_
    have other : path ≠ old := fun same => noFile (same ▸ member)
    simp [within, other]
  have filesPerm := moved_perm_iff (relocateFile_eq (retarget old new)) files
  have dirsPerm : List.Perm (overlay.tree.moveDirs old new).dirs _ ↔ _ :=
    moved_perm_iff (fun _ _ _ _ => rfl) dirs
  have places := rooted_moved_iff new rooted (List.mem_append_right _ found)
  rw [renamed_iff, tree_moveFiles, below]
  simp only [Tree.Rooted, Tree.renamed, keys_rename, ← List.map_append, List.forall_mem_map, places]
  constructor
  · rintro ⟨moved, movedDirs, places, apart⟩
    exact ⟨apart old new rfl, filesPerm.mp moved, dirsPerm.mp movedDirs, places⟩
  · rintro ⟨apart, moved, movedDirs, places⟩
    refine ⟨filesPerm.mpr moved, dirsPerm.mpr movedDirs, places, ?_⟩
    rintro _ _ ⟨⟩
    exact apart

/-- A rename is sound exactly if its new name can be given to all that it moves. -/
theorem rename_sound_iff (dirs : overlay.tree.dirs.Keyed) :
    RenameSound backing overlay old new ↔ RenameOrderly backing overlay old new := by
  unfold RenameSound RenameOrderly
  rcases View.rename_cases overlay.tree.view backing old new with
    ⟨code, nonzero, refused⟩ | ⟨src, dst, resolved, named, ⟨file, change⟩ | ⟨noFile, dir, change⟩⟩
  · simp [RamOverlay.rename, refused, nonzero]
  · have known : src ∈ overlay.tree.files.keys := file
    simp only [RamOverlay.rename, change, resolved, named]
    simp [known, renamed_file_iff files rooted known]
  · have absent : src ∉ overlay.tree.files.keys := noFile
    simp only [RamOverlay.rename, change, resolved, named]
    simp [absent, renamed_dir_iff files rooted dirs absent dir]

end Calls

/-- A directory with a file in it. -/
def smallOverlay : RamOverlay where
  tree := { files := [([0x64, slash, 0x66], [1])], dirs := [([0x64], ())] }
  table _ := none

theorem smallOverlay_inDir {path dir : Bytes}
    (member : path ∈ smallOverlay.tree.files.keys ++ smallOverlay.tree.dirs.keys)
    (place : InDir dir path) : dir = [0x64] := by
  obtain ⟨name, -, rfl⟩ := place
  have cut : dir = [0x64] ∧ name = [0x66] := by
    simpa [smallOverlay, Assoc.keys, List.append_eq_cons_iff, List.cons_eq_append_iff, slash]
      using member
  exact cut.1

theorem smallOverlay_rooted : smallOverlay.tree.Rooted bareBacking := by
  intro path member dir place
  rw [smallOverlay_inDir member place]
  exact .inl (by decide)

theorem directory_renamed_soundly :
    smallOverlay.tree.Rooted bareBacking ∧ RenameOrderly bareBacking smallOverlay [0x64] [0x65] ∧
      RenameSound bareBacking smallOverlay [0x64] [0x65] := by
  have orderly : RenameOrderly bareBacking smallOverlay [0x64] [0x65] := by
    rintro _ ⟨⟩
    unfold Tree.Movable Unobstructed
    refine ⟨by decide +kernel, by decide +kernel, by decide +kernel, ?_, ?_⟩
    · rintro dir ⟨name, -, same⟩
      simp [joinPathComponents, List.cons_eq_append_iff, slash] at same
    · intro path member _ dir place
      rw [smallOverlay_inDir member place]
      exact .inl (by decide)
  exact ⟨smallOverlay_rooted, orderly,
    (rename_sound_iff (by unfold Assoc.Keyed; decide) smallOverlay_rooted
      (by unfold Assoc.Keyed; decide)).mpr orderly⟩

/-- A directory is renamed into itself, and is gone. -/
theorem directory_renamed_into_itself :
    let result := smallOverlay.rename bareBacking [0x64] [0x64, slash, 0x65]
    smallOverlay.tree.Rooted bareBacking ∧ result.1 = .code 0 ∧
      result.2.tree.dirs.keys = [[0x64, slash, 0x65]] ∧
      ¬ RenameSound bareBacking smallOverlay [0x64] [0x64, slash, 0x65] := by
  refine ⟨smallOverlay_rooted, by decide +kernel, by decide +kernel, ?_⟩
  rintro ⟨-, moved⟩
  obtain ⟨src, dst, resolved, named, law⟩ := moved (by decide +kernel)
  have here : some [0x64] = some src := .trans (by decide +kernel) resolved
  have there : some [0x64, slash, 0x65] = some dst := .trans (by decide +kernel) named
  cases here
  cases there
  exact law.apart _ _ (if_neg (by decide +kernel)) (by decide +kernel)

end RetroOS.Vfs
