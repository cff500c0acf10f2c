import RetroOS.Hosted.Spaces

/-!
# References to frames

A frame is referred to by the directory, the tables and the present pages of
spaces.  A cell is counted when the allocator's counts are these references
and those from outside of the cell.

Some frames are exempt: what is mapped of them is not counted, and nothing
but a count that is left ever takes them away.  Kernel windows stand on such
frames, and so do pages that are mapped onto given physical memory.
-/

namespace RetroOS.Hosted

open Lib
open Finset (range mem_range)
open Function (update update_of_ne update_eq_self)

/-- Where a space may refer to a frame. -/
inductive Role where
  | directory
  | table (index : Nat)
  | page (page : Nat)
  deriving DecidableEq

def roles : Finset Role :=
  insert .directory ((range entriesPerTable).image .table ∪ (range pageCount).image .page)

theorem directory_mem_roles : Role.directory ∈ roles := Finset.mem_insert_self _ _

theorem table_mem_roles {index : Nat} (inside : index < entriesPerTable) :
    Role.table index ∈ roles := by
  simp [roles, inside]

theorem page_mem_roles {page : Nat} (inside : page < pageCount) : Role.page page ∈ roles := by
  simp [roles, inside]

theorem index_lt {page : Nat} (inside : page < pageCount) :
    page / entriesPerTable < entriesPerTable := by
  unfold pageCount at inside
  unfold entriesPerTable
  omega

/-- What a space refers to. -/
def Space.frameOf (space : Space) : Role → Option Nat
  | .directory => some space.pd
  | .table index => space.tableFrame index
  | .page page => space.translate page

/-! ## Exempt frames -/

section Exempt

variable (exempt : Nat → Prop) [DecidablePred exempt]

/-- A reference that is counted. -/
def counted (reference : Option Nat) : Option Nat := reference.filter fun frame => ¬ exempt frame

@[simp]
theorem counted_none : counted exempt none = none := rfl

theorem counted_some {frame : Nat} (plain : ¬ exempt frame) :
    counted exempt (some frame) = some frame := by
  simp [counted, plain]

theorem counted_exempt {frame : Nat} (spared : exempt frame) :
    counted exempt (some frame) = none := by
  simp [counted, spared]

theorem counted_eq_some {reference : Option Nat} {frame : Nat} :
    counted exempt reference = some frame ↔ reference = some frame ∧ ¬ exempt frame := by
  simp [counted, Option.filter_eq_some_iff]

def Space.refers (space : Space) (role : Role) : Option Nat := counted exempt (space.frameOf role)

/-- The counts of frames that are not exempt. -/
def counts (frames : Frames) (frame : Nat) : Nat := if exempt frame then 0 else frames.count frame

variable {exempt} {frames after : Frames} {frame : Nat}

theorem counts_add (adds : ∀ key, after.count key = frames.count key + refersTo (some frame) key)
    (key : Nat) :
    counts exempt after key =
      counts exempt frames key + refersTo (counted exempt (some frame)) key := by
  unfold counts
  by_cases spared : exempt frame
  · rw [counted_exempt exempt spared, refersTo_none, Nat.add_zero]
    split_ifs with exemptKey
    · rfl
    · have other : frame ≠ key := by
        rintro rfl
        exact exemptKey spared
      simpa [other] using adds key
  · rw [counted_some exempt spared]
    split_ifs with exemptKey
    · have other : frame ≠ key := by
        rintro rfl
        exact spared exemptKey
      simp [other]
    · exact adds key

theorem counts_congr (same : ∀ key, ¬ exempt key → after.count key = frames.count key)
    (key : Nat) : counts exempt after key = counts exempt frames key := by
  unfold counts
  split_ifs with exemptKey
  · rfl
  · exact same key exemptKey

/-! ## Counted cells -/

variable (exempt)

/-- The counts are the references of the cell and those from outside. -/
structure Cell.Counted (outside : Nat → Nat) (cell : Cell) : Prop where
  sound : cell.frames.Sound
  spared : ∀ frame, exempt frame → ¬ cell.frames.Free frame
  exact :
    ∀ key, counts exempt cell.frames key = refsIn roles (cell.space.refers exempt) key + outside key

variable {exempt}

namespace Cell.Counted

variable {outside : Nat → Nat} {cell : Cell} (known : cell.Counted exempt outside)

include known

/-- A frame nobody counts on is free. -/
theorem not_free_of_role {role : Role} (inside : role ∈ roles)
    (refers : cell.space.frameOf role = some frame) :
    ¬ cell.frames.Free frame := by
  by_cases spared : exempt frame
  · exact known.spared frame spared
  · intro free
    have zero := (Frames.count_eq_zero known.sound).mpr free
    have exact := known.exact frame
    simp only [counts, spared, if_false, zero] at exact
    have none : refsIn roles (cell.space.refers exempt) frame = 0 := by omega
    refine refsIn_eq_zero.mp none role inside ?_
    rw [Space.refers, refers, counted_some exempt spared]

/-- A frame from the allocator is not exempt. -/
theorem not_exempt_of_free (free : cell.frames.Free frame) : ¬ exempt frame :=
  fun spared => known.spared frame spared free

theorem outside_eq_zero_of_free (free : cell.frames.Free frame) : outside frame = 0 := by
  have exact := known.exact frame
  simp only [counts, known.not_exempt_of_free free, if_false,
    (Frames.count_eq_zero known.sound).mpr free] at exact
  omega

/-- Nobody else refers to a frame a cell has for itself. -/
theorem outside_eq_zero_of_unshared {role : Role} (inside : role ∈ roles)
    (refers : cell.space.frameOf role = some frame)
    (plain : ¬ exempt frame) (unshared : ¬ cell.frames.isShared frame) :
    outside frame = 0 := by
  rw [Frames.isShared_iff known.sound] at unshared
  have exact := known.exact frame
  simp only [counts, plain, if_false] at exact
  have here : refsIn roles (cell.space.refers exempt) frame ≠ 0 := by
    intro zero
    refine refsIn_eq_zero.mp zero role inside ?_
    rw [Space.refers, refers, counted_some exempt plain]
  omega

/-- Only the tables of the allocator and the references matter. -/
theorem congr {after : Cell} (sound : after.frames.Sound)
    (free : ∀ frame, after.frames.Free frame ↔ cell.frames.Free frame)
    (shared : after.frames.shared = cell.frames.shared)
    (refers : after.space.refers exempt = cell.space.refers exempt) :
    after.Counted exempt outside where
  sound := sound
  spared frame spared := by
    rw [free]
    exact known.spared frame spared
  exact key := by
    have same : counts exempt after.frames key = counts exempt cell.frames key :=
      counts_congr (fun key _ => Frames.count_congr (free key) (congrFun shared key)) key
    rw [same, refers, known.exact key]

end Cell.Counted

/-! ## What the primitives do to the references -/

/-- What an entry refers to. -/
def Pte.reference (pte : Pte) : Option Nat := if pte.present then some pte.frame else none

theorem Pte.reference_of_absent {pte : Pte} (absent : pte.present = false) :
    pte.reference = none := by
  simp [reference, absent]

theorem Space.translate_eq_reference (space : Space) (page : Nat) :
    space.translate page = (space.pteRaw page).reference :=
  rfl

theorem Space.refers_writeEntry {space : Space} {page : Nat} {pte : Pte}
    (table : space.HasTable page ∨ pte = .zero) :
    (space.writeEntry page pte).refers exempt =
      update (space.refers exempt) (.page page) (counted exempt pte.reference) := by
  funext role
  cases role with
  | directory => simp [refers, frameOf]
  | table index => simp [refers, frameOf]
  | page other =>
    have entry :
        (space.writeEntry page pte).frameOf (.page other) =
          (update space.pteRaw page pte other).reference := by
      rw [← pteRaw_writeEntry table]
      rfl
    rw [refers, entry]
    rcases eq_or_ne other page with rfl | apart
    · simp
    · rw [update_of_ne apart, update_of_ne (by simpa using apart)]
      rfl

namespace Cell

variable {cell : Cell} {outside : Nat → Nat} {page : Nat} {pte : Pte}

section

variable (known : cell.Counted exempt outside)

include known

/-- An entry is written while the counts change by what it refers to. -/
theorem Counted.write {after : Frames} {beyond : Nat → Nat} (inside : page < pageCount)
    (table : cell.space.HasTable page ∨ pte = .zero)
    (sound : after.Sound) (spared : ∀ frame, exempt frame → ¬ after.Free frame)
    (balance :
      ∀ key, counts exempt after key + refersTo (cell.space.refers exempt (.page page)) key +
            outside key =
          counts exempt cell.frames key + refersTo (counted exempt pte.reference) key +
            beyond key) :
    Counted exempt beyond ⟨after, cell.space.writeEntry page pte⟩ where
  sound := sound
  spared := spared
  exact key := by
    have change :=
      refsIn_update (page_mem_roles inside) (cell.space.refers exempt)
        (counted exempt pte.reference) key
    have before := known.exact key
    have step := balance key
    simp only [Space.refers_writeEntry table]
    omega

/-- A page loses its frame; the reference is held outside. -/
theorem Counted.take (inside : page < pageCount) (table : cell.space.HasTable page ∨ pte = .zero)
    (absent : pte.present = false) :
    (cell.writeEntry page pte).Counted exempt
      (holdAlso outside (cell.space.refers exempt (.page page))) := by
  refine known.write inside table known.sound known.spared fun key => ?_
  rw [Pte.reference_of_absent absent, counted_none, refersTo_none, holdAlso]
  omega

/-- An entry is changed that goes on referring to the same frame. -/
theorem Counted.rewrite (inside : page < pageCount) (table : cell.space.HasTable page)
    (same : pte.reference = cell.space.translate page) :
    (cell.writeEntry page pte).Counted exempt outside := by
  refine known.write inside (.inl table) known.sound known.spared fun key => ?_
  rw [same]
  rfl

/-- A frame is taken from the allocator and held outside. -/
theorem Counted.alloc :
    Counted exempt (holdAlso outside (counted exempt (some cell.frames.alloc.1)))
      ⟨cell.frames.alloc.2, cell.space⟩ where
  sound := Frames.alloc_sound known.sound
  spared frame spared free :=
    known.spared frame spared ((Frames.free_alloc known.sound frame).mp free).1
  exact key := by
    simp only [holdAlso]
    rw [counts_add (Frames.count_alloc known.sound) key, known.exact key]
    omega

/-- A reference is added and held outside. -/
theorem Counted.incRef (taken : 0 < cell.frames.count frame) :
    (cell.incRef frame).Counted exempt (holdAlso outside (counted exempt (some frame))) where
  sound := Frames.incRef_sound known.sound taken
  spared other spared free := known.spared other spared free
  exact key := by
    simp only [Cell.incRef, holdAlso]
    rw [counts_add (Frames.count_incRef known.sound taken) key, known.exact key]
    omega

omit known in
/-- Writing zeros over a frame that is zero is no change. -/
theorem allocTable_eq (sound : frames.Sound) : allocTable frames = frames.alloc := by
  refine Prod.ext rfl ?_
  have blank := sound.blank _ (Frames.alloc_free frames)
  rw [← (Frames.alloc_same frames).1] at blank
  simp only [allocTable, Frames.zeroFrame]
  rw [← blank, update_eq_self]

omit known in
theorem refers_addTable {space : Space} {index : Nat} {table : PageTable}
    (missing : space.tables index = none)
    (empty : ∀ entry, table.entries entry = .zero) :
    Space.refers exempt { space with tables := update space.tables index (some table) } =
      update (space.refers exempt) (.table index) (counted exempt (some table.frame)) := by
  funext role
  cases role with
  | directory => simp [Space.refers, Space.frameOf]
  | table other =>
    rcases eq_or_ne other index with rfl | apart
    · simp [Space.refers, Space.frameOf, Space.tableFrame]
    · rw [update_of_ne (by simpa using apart)]
      simp [Space.refers, Space.frameOf, Space.tableFrame, update_of_ne apart]
  | page other =>
    rw [update_of_ne (by simp)]
    have same :
        Space.pteRaw { space with tables := update space.tables index (some table) } other =
          space.pteRaw other := by
      unfold Space.pteRaw
      rcases eq_or_ne (other / entriesPerTable) index with rfl | apart
      · simp [missing, empty]
      · simp [update_of_ne apart]
    simp only [Space.refers, Space.frameOf, Space.translate, same]

/-- A page gets a table, on a frame of its own. -/
theorem Counted.ensureTable (inside : page < pageCount) :
    (cell.ensureTable page).Counted exempt outside := by
  unfold Cell.ensureTable
  cases missing : cell.space.tables (page / entriesPerTable) with
  | some found => exact known
  | none =>
    rw [allocTable_eq known.sound]
    refine ⟨known.alloc.sound, known.alloc.spared, fun key => ?_⟩
    have change :=
      refsIn_update (table_mem_roles (index_lt inside)) (cell.space.refers exempt)
        (counted exempt (some cell.frames.alloc.1)) key
    have nothing : cell.space.refers exempt (.table (page / entriesPerTable)) = none := by
      simp [Space.refers, Space.frameOf, Space.tableFrame, missing]
    have taken := known.alloc.exact key
    rw [nothing, refersTo_none] at change
    simp only [holdAlso] at taken
    dsimp only
    rw [refers_addTable missing fun _ => rfl]
    dsimp only
    omega

omit known in
/-- A held reference is given back; an exempt frame keeps a count. -/
theorem Counted.freeFrame (reserved : exempt 0) (known :
      cell.Counted exempt (holdAlso outside (counted exempt (some frame))))
    (kept : exempt frame → cell.frames.isShared frame) :
    (cell.freeFrame frame).Counted exempt outside := by
  by_cases zero : frame = 0
  · subst zero
    rw [counted_exempt exempt reserved, holdAlso_none] at known
    have same : cell.freeFrame 0 = cell := by simp [Cell.freeFrame, Frames.freeFrame]
    rwa [same]
  · have taken : 0 < cell.frames.count frame := by
      by_cases spared : exempt frame
      · have several := (Frames.isShared_iff known.sound).mp (kept spared)
        omega
      · have exact := known.exact frame
        simp only [counts, spared, if_false, holdAlso,
          counted_some exempt spared, refersTo_some, if_true] at exact
        omega
    have change := Frames.count_freeFrame known.sound zero taken
    have sound := Frames.freeFrame_sound known.sound taken
    refine ⟨sound, fun other spared free => ?_, fun key => ?_⟩
    · have left := change other
      have before := known.spared other spared
      rw [← Frames.count_eq_zero known.sound] at before
      rw [(Frames.count_eq_zero sound).mpr free, refersTo_some] at left
      split_ifs at left with same
      · subst same
        have several := (Frames.isShared_iff known.sound).mp (kept spared)
        omega
      · omega
    · have exact := known.exact key
      have left :
          counts exempt cell.frames key =
            counts exempt (cell.frames.freeFrame frame) key +
              refersTo (counted exempt (some frame)) key :=
        counts_add (fun other => (change other).symm) key
      simp only [holdAlso] at exact
      simp only [Cell.freeFrame]
      omega

/-- A frame that is not free gets other bytes. -/
theorem Counted.setBytes (taken : ¬ cell.frames.Free frame) (bytes : Nat → UInt8) :
    Counted exempt outside
      ⟨{ cell.frames with memory := Function.update cell.frames.memory frame bytes },
        cell.space⟩ := by
  refine known.congr ?_ (fun _ => Iff.rfl) rfl rfl
  refine ⟨known.sound.nodup, known.sound.below, known.sound.plain,
    known.sound.several, fun other free => ?_⟩
  have apart : other ≠ frame := by
    rintro rfl
    exact taken free
  simpa [apart] using known.sound.blank other free

theorem Counted.setByte (taken : ¬ cell.frames.Free frame) (offset : Nat) (byte : UInt8) :
    (cell.setByte frame offset byte).Counted exempt outside :=
  known.setBytes taken _

theorem Counted.copyFrame (taken : ¬ cell.frames.Free frame) (source : Nat) :
    Counted exempt outside ⟨cell.frames.copyFrame source frame, cell.space⟩ :=
  known.setBytes taken _

theorem memory_ensureTable : (cell.ensureTable page).frames.memory = cell.frames.memory := by
  unfold Cell.ensureTable
  cases missing : cell.space.tables (page / entriesPerTable) with
  | some found => rfl
  | none =>
    rw [allocTable_eq known.sound]
    exact (Frames.alloc_same cell.frames).1

end

end Cell

end Exempt

end RetroOS.Hosted
