import RetroOS.Hosted.CellCounts

/-!
# Conservation of frames on the hosted backend

The counts of the allocator are the references of all live spaces as long as
no call drops a mapping without its reference.  Unmapping a page and mapping
over a page that is present do so, destroying a space does so for its
directory and its tables, and mapping a page onto given physical memory makes
a reference nobody counts.
-/

namespace RetroOS.Hosted

open Lib
open Finset (range mem_range)
open Function (update update_of_ne update_self update_eq_self)

/-! ## All spaces -/

section Backend

variable (exempt : Nat → Prop) [DecidablePred exempt]

/-- What the live spaces refer to. -/
def Backend.table (backend : Backend) (id : Nat) (role : Role) : Option Nat :=
  (backend.spaces id).bind fun space => space.refers exempt role

/-- The counts are the references of all spaces and what is held beside. -/
structure Backend.Counted (held : Nat → Nat) (backend : Backend) :
    Prop where
  sound : backend.frames.Sound
  spared : ∀ frame, exempt frame → ¬ backend.frames.Free frame
  exact :
    Exact (range backend.next) roles (backend.table exempt) held (counts exempt backend.frames)
  beyond : ∀ id, backend.next ≤ id → backend.spaces id = none

/-- The references from outside of one space. -/
def Backend.others (backend : Backend) (held : Nat → Nat) (id key : Nat) : Nat :=
  refsOver ((range backend.next).erase id) roles (backend.table exempt) key + held key

variable {exempt} {held : Nat → Nat} {backend : Backend}

namespace Backend.Counted

variable {id : Nat} {space : Space}

section

variable (known : backend.Counted exempt held)

include known

theorem lt_next (live : backend.spaces id = some space) : id < backend.next := by
  by_contra beyond
  rw [known.beyond id (Nat.le_of_not_lt beyond)] at live
  cases live

omit known in
theorem table_of_live (live : backend.spaces id = some space) :
    backend.table exempt id = space.refers exempt := by
  funext role
  simp [table, live]

theorem cell (live : backend.spaces id = some space) :
    Cell.Counted exempt (backend.others exempt held id) ⟨backend.frames, space⟩ where
  sound := known.sound
  spared := known.spared
  exact key := by
    have exact := known.exact key
    have split :=
      Finset.add_sum_erase (range backend.next)
        (fun row => refsIn roles (backend.table exempt row) key)
        (mem_range.mpr (known.lt_next live))
    simp only [table_of_live live] at split
    simp only [others]
    unfold refsOver at exact ⊢
    omega

omit known in
theorem table_put (cell : Cell) :
    (backend.put id cell).table exempt =
      update (backend.table exempt) id (cell.space.refers exempt) := by
  funext row role
  rcases eq_or_ne row id with rfl | other
  · simp [table, put]
  · simp [table, put, other]

/-- A space changes, and what it loses is held beside. -/
theorem put (live : backend.spaces id = some space) {cell : Cell} {lost : Option Nat}
    (after : cell.Counted exempt (holdAlso (backend.others exempt held id) lost)) :
    (backend.put id cell).Counted exempt (holdAlso held lost) where
  sound := after.sound
  spared := after.spared
  exact key := by
    have exact := after.exact key
    have before := (known.cell live).exact key
    have total := known.exact key
    have change :=
      refsOver_update (mem_range.mpr (known.lt_next live)) roles
        (backend.table exempt) (cell.space.refers exempt) key
    rw [table_of_live live] at change
    rw [table_put]
    dsimp only at before
    simp only [holdAlso] at exact ⊢
    simp only [Backend.put]
    omega
  beyond other above := by
    have apart : other ≠ id := by
      rintro rfl
      exact absurd (known.lt_next live) (Nat.not_lt_of_le above)
    simp only [Backend.put, update_of_ne apart]
    exact known.beyond other above

/-- A space is added that counts on top of all others. -/
theorem append {cell : Cell} (after :
      cell.Counted exempt fun key =>
        refsOver (range backend.next) roles (backend.table exempt) key + held key) :
    Counted exempt held { backend.put backend.next cell with next := backend.next + 1 } where
  sound := after.sound
  spared := after.spared
  exact key := by
    have exact := after.exact key
    have fresh : backend.next ∉ range backend.next := by simp
    have before :
        refsOver (range backend.next) roles ((backend.put backend.next cell).table exempt) key =
          refsOver (range backend.next) roles (backend.table exempt) key := by
      refine refsOver_congr (fun row inside slot _ => ?_) key
      have other : row ≠ backend.next := (mem_range.mp inside).ne
      rw [table_put, update_of_ne other]
    have last :
        (backend.put backend.next cell).table exempt backend.next = cell.space.refers exempt := by
      rw [table_put, update_self]
    have split := refsOver_insert fresh roles ((backend.put backend.next cell).table exempt) key
    rw [last, before] at split
    change counts exempt cell.frames key =
      refsOver (range (backend.next + 1)) roles
        ((backend.put backend.next cell).table exempt) key + held key
    rw [Finset.range_add_one, split, exact]
    omega
  beyond other above := by
    have apart : other ≠ backend.next := by
      rintro rfl
      exact absurd above (Nat.not_succ_le_self _)
    simp only [Backend.put, update_of_ne apart]
    exact known.beyond other (Nat.le_of_succ_le above)

end

end Backend.Counted

/-! ### New spaces -/

/-- Where the kernel windows put their entries. -/
theorem pteRaw_mapWindows (pages : List (Nat × Nat)) (cell : Cell) (page : Nat) :
    let mapped := pages.foldl (fun cell window => cell.mapPage window.1 window.2 true) cell
    (∃ window ∈ pages, window.1 = page ∧ mapped.space.pteRaw page = .plain window.2 true) ∨
      (∀ window ∈ pages, window.1 ≠ page) ∧ mapped.space.pteRaw page = cell.space.pteRaw page := by
  induction pages generalizing cell with
  | nil => exact .inr ⟨by simp, rfl⟩
  | cons first rest induction =>
    have entries :
        (cell.mapPage first.1 first.2 true).space.pteRaw =
          update cell.space.pteRaw first.1 (.plain first.2 true) :=
      Cell.pteRaw_mapEntry cell first.1 _
    rcases induction (cell.mapPage first.1 first.2 true) with
      ⟨window, later, place, mapped⟩ | ⟨outside, kept⟩
    · exact .inl ⟨window, List.mem_cons_of_mem _ later, place, mapped⟩
    · rw [entries] at kept
      rcases eq_or_ne page first.1 with rfl | apart
      · rw [update_self] at kept
        exact .inl ⟨first, List.mem_cons_self, rfl, kept⟩
      · rw [update_of_ne apart] at kept
        refine .inr ⟨fun window member => ?_, kept⟩
        rcases List.mem_cons.mp member with rfl | later
        · exact apart.symm
        · exact outside window later

/-- The entries of a new space are those of the windows. -/
theorem KernelWindows.pteRaw_newCell (windows : KernelWindows) (frames : Frames) (page : Nat) :
    (∃ window ∈ windows.pages, window.1 = page ∧
        (windows.newCell frames).space.pteRaw page = .plain window.2 true) ∨
      (∀ window ∈ windows.pages, window.1 ≠ page) ∧
        (windows.newCell frames).space.pteRaw page = .zero :=
  pteRaw_mapWindows windows.pages _ page

variable {outside : Nat → Nat}

theorem Cell.Counted.mapWindows {cell : Cell}
    (pages : List (Nat × Nat)) (known : cell.Counted exempt outside)
    (inside : ∀ window ∈ pages, window.1 < pageCount)
    (spared : ∀ window ∈ pages, exempt window.2)
    (only : ∀ page, ∀ frame ∈ cell.space.translate page, exempt frame) :
    let mapped := pages.foldl (fun cell window => cell.mapPage window.1 window.2 true) cell
    mapped.Counted exempt outside ∧ mapped.frames.memory = cell.frames.memory := by
  induction pages generalizing cell with
  | nil => exact ⟨known, rfl⟩
  | cons first rest induction =>
    have here := List.mem_cons_self (a := first) (l := rest)
    have mapped : (cell.mapPage first.1 first.2 true).Counted exempt outside := by
      have nothing : cell.space.refers exempt (.page first.1) = none := by
        rw [Space.refers, counted, Option.filter_eq_none_iff]
        intro frame found
        simpa using only first.1 frame found
      have held : cell.Counted exempt (holdAlso outside (counted exempt (some first.2))) := by
        rwa [counted_exempt exempt (spared first here), holdAlso_none]
      have entry := Cell.Counted.mapEntry (.plain first.2 true) held (inside first here)
      rwa [nothing, holdAlso_none] at entry
    have same : (cell.mapPage first.1 first.2 true).frames.memory = cell.frames.memory :=
      Cell.memory_ensureTable known
    rw [← same]
    refine induction mapped (fun window later => inside window (List.mem_cons_of_mem _ later))
      (fun window later => spared window (List.mem_cons_of_mem _ later)) ?_
    intro page frame found
    rw [Option.mem_def, Space.translate_eq_some] at found
    rw [show (cell.mapPage first.1 first.2 true).space.pteRaw = _ from
      Cell.pteRaw_mapEntry cell first.1 _] at found
    rcases eq_or_ne page first.1 with rfl | apart
    · rw [update_self] at found
      rw [← found.2]
      exact spared first here
    · rw [update_of_ne apart] at found
      exact only page frame (Space.translate_eq_some.mpr found)

/-- A new space has its directory, the tables of the windows, no page. -/
theorem KernelWindows.newCell_counted (windows : KernelWindows)
    {frames : Frames} (sound : frames.Sound)
    (spared : ∀ frame, exempt frame → ¬ frames.Free frame)
    (total : ∀ key, counts exempt frames key = outside key)
    (covered : ∀ window ∈ windows.pages, exempt window.2) :
    (windows.newCell frames).Counted exempt outside ∧
      (windows.newCell frames).frames.memory = frames.memory := by
  unfold KernelWindows.newCell
  rw [Cell.allocTable_eq sound, ← (Frames.alloc_same frames).1]
  refine Cell.Counted.mapWindows windows.pages ?_
    (fun window member => (windows.high window member).2) covered ?_
  · refine ⟨Frames.alloc_sound sound, fun frame exemptFrame free => ?_, fun key => ?_⟩
    · exact spared frame exemptFrame ((Frames.free_alloc sound frame).mp free).1
    · have refers :
          Space.refers exempt ⟨frames.alloc.1, fun _ => none⟩ =
            update (fun _ => none) .directory (counted exempt (some frames.alloc.1)) := by
        funext role
        cases role <;> rfl
      have change :=
        refsIn_update directory_mem_roles (fun _ => none) (counted exempt (some frames.alloc.1)) key
      have nothing : refsIn roles (fun _ => none) key = 0 := refsIn_eq_zero.mpr (by simp)
      rw [nothing, refersTo_none] at change
      change counts exempt frames.alloc.2 key =
        refsIn roles (Space.refers exempt ⟨frames.alloc.1, fun _ => none⟩) key + outside key
      rw [counts_add (Frames.count_alloc sound) key, refers, total key]
      omega
  · intro page frame found
    cases found

/-! ### Forks -/

/-- Sharing pages leaves what the source refers to. -/
theorem Fork.refers_sharePage (fork : Fork) {page : Nat}
    (present : (fork.source.pteRaw page).present) :
    (fork.sharePage page).source.refers exempt = fork.source.refers exempt := by
  simp only [Fork.sharePage]
  split_ifs
  · rfl
  · dsimp only
    rw [Space.refers_writeEntry (.inl (Space.hasTable_of_present present))]
    refine Function.update_eq_self_iff.mpr ?_
    simp [Space.refers, Space.frameOf, Space.translate, Pte.reference, Pte.copyOnWrite, present]
  · rfl

theorem Fork.counted_sharePage {fork : Fork}
    (known : fork.target.Counted exempt outside) {page : Nat}
    (inside : page < pageCount)
    (taken : ¬ fork.target.frames.Free (fork.source.pteRaw page).frame) :
    (fork.sharePage page).target.Counted exempt outside := by
  simp only [Fork.sharePage]
  split_ifs with mapped shared
  · exact known
  · have entry := known.share (.copyOnWrite (fork.source.pteRaw page).frame) inside rfl taken
    rwa [Cell.refers_of_absent (by simpa using mapped), holdAlso_none] at entry
  · have entry := known.share (.plain (fork.source.pteRaw page).frame false) inside rfl taken
    rwa [Cell.refers_of_absent (by simpa using mapped), holdAlso_none] at entry

/-- Sharing changes no frame and no presence of the source. -/
theorem Fork.pteRaw_sharePage (fork : Fork) (page other : Nat)
    (present : (fork.source.pteRaw page).present) :
    ((fork.sharePage page).source.pteRaw other).present = (fork.source.pteRaw other).present ∧
      ((fork.sharePage page).source.pteRaw other).frame = (fork.source.pteRaw other).frame := by
  simp only [Fork.sharePage]
  split_ifs
  · exact ⟨rfl, rfl⟩
  · dsimp only
    rw [Space.pteRaw_writeEntry (.inl (Space.hasTable_of_present present))]
    rcases eq_or_ne other page with rfl | apart
    · simp [Pte.copyOnWrite, present]
    · simp [update_of_ne apart]
  · exact ⟨rfl, rfl⟩

theorem Fork.memory_sharePage (fork : Fork)
    (known : fork.target.Counted exempt outside) (page : Nat) :
    (fork.sharePage page).target.frames.memory = fork.target.frames.memory := by
  simp only [Fork.sharePage]
  split_ifs
  · rfl
  · exact Cell.memory_ensureTable known
  · exact Cell.memory_ensureTable known

/-- A fork counts the references of its target. -/
theorem Fork.counted_sharePages (pages : List Nat)
    (fork : Fork) (known : fork.target.Counted exempt outside)
    (present : ∀ page ∈ pages, page < pageCount ∧ (fork.source.pteRaw page).present)
    (positive : ∀ role ∈ roles, ∀ frame ∈ fork.source.refers exempt role, 0 < outside frame) :
    let shared := pages.foldl Fork.sharePage fork
    shared.target.Counted exempt outside ∧
      shared.source.refers exempt = fork.source.refers exempt ∧
        shared.target.frames.memory = fork.target.frames.memory := by
  induction pages generalizing fork with
  | nil => exact ⟨known, rfl, rfl⟩
  | cons page rest induction =>
    obtain ⟨inside, here⟩ := present page List.mem_cons_self
    have same : (fork.sharePage page).source.refers exempt = fork.source.refers exempt :=
      fork.refers_sharePage here
    have taken : ¬ fork.target.frames.Free (fork.source.pteRaw page).frame := by
      intro free
      have plain := known.not_exempt_of_free free
      have zero := known.outside_eq_zero_of_free free
      have pos := positive (.page page) (page_mem_roles inside) (fork.source.pteRaw page).frame (by
          rw [Option.mem_def, Space.refers, counted_eq_some]
          exact ⟨Space.translate_eq_some.mpr ⟨here, rfl⟩, plain⟩)
      omega
    obtain ⟨after, kept, memory⟩ :=
      induction _ (Fork.counted_sharePage known inside taken) (fun other later => by
          rw [(fork.pteRaw_sharePage page other here).1]
          exact present other (List.mem_cons_of_mem _ later))
        (by rwa [same])
    exact ⟨after, kept.trans same, memory.trans (fork.memory_sharePage known page)⟩

namespace Backend.Counted

variable {windows : KernelWindows}

section

variable (known : backend.Counted exempt held)

include known

theorem spaceNew (covered : ∀ window ∈ windows.pages, exempt window.2) :
    (backend.spaceNew windows).Counted exempt held :=
  known.append (windows.newCell_counted known.sound known.spared known.exact covered).1

/-- A space changes, but not what it refers to. -/
theorem setSpace {id : Nat} {before after : Space} (live : backend.spaces id = some before)
    (same : after.refers exempt = before.refers exempt) :
    Counted exempt held { backend with spaces := update backend.spaces id (some after) } ∧
      Backend.table exempt { backend with spaces := update backend.spaces id (some after) } =
        backend.table exempt := by
  have table :
      Backend.table exempt { backend with spaces := update backend.spaces id (some after) } =
        backend.table exempt := by
    funext row role
    rcases eq_or_ne row id with rfl | other
    · simp [Backend.table, same, live]
    · simp [Backend.table, other]
  refine ⟨⟨known.sound, known.spared, ?_, fun other above => ?_⟩, table⟩
  · rw [table]
    exact known.exact
  · have apart : other ≠ id := by
      rintro rfl
      exact absurd (known.lt_next live) (Nat.not_lt_of_le above)
    simp only [update_of_ne apart]
    exact known.beyond other above

/-- What a fork of a live space counts and leaves in memory. -/
theorem forked (covered : ∀ window ∈ windows.pages, exempt window.2) {src : Nat}
    {source : Space} (live : backend.spaces src = some source) :
    let fork := source.presentPages.foldl Fork.sharePage ⟨source, windows.newCell backend.frames⟩
    (fork.target.Counted exempt fun key =>
        refsOver (range backend.next) roles (backend.table exempt) key + held key) ∧
      fork.source.refers exempt = source.refers exempt ∧
        fork.target.frames.memory = backend.frames.memory := by
  obtain ⟨fresh, blank⟩ := windows.newCell_counted known.sound known.spared known.exact covered
  rw [← blank]
  refine Fork.counted_sharePages source.presentPages ⟨source, windows.newCell backend.frames⟩ fresh
    (fun page member => Space.mem_presentPages.mp member) ?_
  intro role inside frame refers
  have row := known.lt_next live
  have entry : backend.table exempt src role = some frame := by
    rw [table_of_live live]
    exact refers
  have referred : refsOver (range backend.next) roles (backend.table exempt) frame ≠ 0 :=
    fun zero => refsOver_eq_zero.mp zero src (mem_range.mpr row) role inside entry
  omega

theorem spaceFork (covered : ∀ window ∈ windows.pages, exempt window.2) (src : Nat) :
    (backend.spaceFork windows src).Counted exempt held := by
  unfold Backend.spaceFork
  cases live : backend.spaces src with
  | none => exact known
  | some source =>
    obtain ⟨shared, same, -⟩ := known.forked covered live
    dsimp only at shared same ⊢
    generalize source.presentPages.foldl Fork.sharePage
        ⟨source, windows.newCell backend.frames⟩ = fork at shared same ⊢
    obtain ⟨replaced, table⟩ := known.setSpace live same
    refine replaced.append ?_
    rw [table]
    exact shared

/-- A space is forgotten; what it refers to is held beside. -/
theorem forget {id : Nat} {space : Space} (live : backend.spaces id = some space) (active : Nat)
    {cell : Cell}
    (after : cell.Counted exempt (backend.others exempt held id)) :
    Counted exempt (fun key =>
        held key + refsIn roles (cell.space.refers exempt) key)
      { backend with frames := cell.frames, spaces := update backend.spaces id none, active } where
  sound := after.sound
  spared := after.spared
  exact key := by
    have row := mem_range.mpr (known.lt_next live)
    have exact := after.exact key
    have before := (known.cell live).exact key
    have total := known.exact key
    have change := refsOver_update row roles (backend.table exempt) (fun _ => none) key
    have nothing : refsIn roles (fun _ => none) key = 0 := refsIn_eq_zero.mpr (by simp)
    have table :
        Backend.table exempt
            { backend with frames := cell.frames, spaces := update backend.spaces id none, active } =
          update (backend.table exempt) id fun _ => none := by
      funext other role
      rcases eq_or_ne other id with rfl | apart
      · simp [Backend.table]
      · simp [Backend.table, apart]
    rw [table_of_live live, nothing] at change
    rw [table]
    dsimp only at before ⊢
    omega
  beyond other above := by
    have apart : other ≠ id := by
      rintro rfl
      exact absurd (known.lt_next live) (Nat.not_lt_of_le above)
    simp only [update_of_ne apart]
    exact known.beyond other above

end

end Backend.Counted

end Backend

/-! ## Runs -/

/-- A step frees no exempt frame, and maps none but exempt ones uncounted. -/
def HostStep.Sparing (exempt : Nat → Prop) (backend : Backend) : HostStep → Prop
  | .active step =>
    ∀ space ∈ backend.spaces backend.active, step.Sparing exempt ⟨backend.frames, space⟩
  | .spaceDestroy id =>
    id = 0 ∨ ∀ space ∈ backend.spaces id, CellStep.spaceClean.Sparing exempt ⟨backend.frames, space⟩
  | .spaceNew | .spaceSwitch _ | .spaceFork _ => True

/-- A step drops no mapping without its reference. -/
def HostStep.Keeping (backend : Backend) : HostStep → Prop
  | .active step =>
    ∀ space ∈ backend.spaces backend.active, step.lost ⟨backend.frames, space⟩ = none
  | .spaceDestroy id => id = 0 ∨ backend.spaces id = none
  | .spaceNew | .spaceSwitch _ | .spaceFork _ => True

instance CellStep.Sparing.decidable (exempt : Nat → Prop) [DecidablePred exempt] (cell : Cell) :
    (step : CellStep) → Decidable (step.Sparing exempt cell)
  | .spaceClean =>
    inferInstanceAs (Decidable (∀ page ∈ cell.space.presentPages, page < userPages → _))
  | .mapPhys _ ppage _ => inferInstanceAs (Decidable (exempt ppage))
  | .mapMmio vpage =>
    inferInstanceAs (Decidable (∀ frame ∈ cell.space.translate (pageAt vpage), ¬ exempt frame))
  | .copyEntry src dst =>
    inferInstanceAs (Decidable (pageAt src ≠ pageAt dst ∧
          ∀ frame ∈ cell.space.translate (pageAt dst), ¬ exempt frame))
  | .mapFresh _ | .setWritable _ _ | .unmap _ | .swapEntries _ _
  | .demand _ | .cowFault _ | .store _ _ | .readByte _ | .writeByte _ _
  | .copyByte _ _ => .isTrue trivial

instance HostStep.Sparing.decidable (exempt : Nat → Prop)
    [DecidablePred exempt] (backend : Backend) :
    (step : HostStep) → Decidable (step.Sparing exempt backend)
  | .active step =>
    inferInstanceAs (Decidable (∀ space ∈ backend.spaces backend.active,
          step.Sparing exempt ⟨backend.frames, space⟩))
  | .spaceDestroy id =>
    inferInstanceAs (Decidable (id = 0 ∨
          ∀ space ∈ backend.spaces id, CellStep.spaceClean.Sparing exempt ⟨backend.frames, space⟩))
  | .spaceNew | .spaceSwitch _ | .spaceFork _ => .isTrue trivial

instance HostStep.Keeping.decidable (backend : Backend) :
    (step : HostStep) → Decidable (step.Keeping backend)
  | .active step =>
    inferInstanceAs (Decidable (∀ space ∈ backend.spaces backend.active,
          step.lost ⟨backend.frames, space⟩ = none))
  | .spaceDestroy id =>
    -- there is no deciding equality of spaces, but of being there
    decidable_of_iff (id = 0 ∨ (backend.spaces id).isNone) (by
      simp [HostStep.Keeping])
  | .spaceNew | .spaceSwitch _ | .spaceFork _ => .isTrue trivial

/-- One step; what it drops is held beside. -/
theorem Backend.Counted.step {exempt : Nat → Prop} [DecidablePred exempt]
    {held : Nat → Nat} {backend : Backend} {windows : KernelWindows}
    (reserved : exempt 0)
    (covered : ∀ window ∈ windows.pages, exempt window.2)
    (known : backend.Counted exempt held) (step : HostStep)
    (sparing : step.Sparing exempt backend) :
    ∃ beside, (hostMachine windows backend step).2.Counted exempt beside ∧
        (step.Keeping backend → beside = held) := by
  cases step with
  | spaceNew => exact ⟨held, known.spaceNew covered, fun _ => rfl⟩
  | spaceSwitch id =>
    exact ⟨held, ⟨known.sound, known.spared, known.exact, known.beyond⟩, fun _ => rfl⟩
  | spaceFork src => exact ⟨held, known.spaceFork covered src, fun _ => rfl⟩
  | spaceDestroy id =>
    simp only [hostMachine, Backend.spaceDestroy]
    by_cases boot : id = 0
    · rw [if_pos boot]
      exact ⟨held, known, fun _ => rfl⟩
    · rw [if_neg boot]
      cases live : backend.spaces id with
      | none =>
        have same : update backend.spaces id none = backend.spaces := by rw [← live, update_eq_self]
        rw [same]
        exact ⟨held, ⟨known.sound, known.spared, known.exact, known.beyond⟩, fun _ => rfl⟩
      | some space =>
        have freed :=
          (known.cell live).freeUserFrames reserved (sparing.resolve_left boot space live)
        refine ⟨_, known.forget live _ freed, fun keeping => ?_⟩
        have gone := keeping.resolve_left boot
        rw [live] at gone
        cases gone
  | active step =>
    simp only [hostMachine]
    cases live : backend.spaces backend.active with
    | none => exact ⟨held, known, fun _ => rfl⟩
    | some space =>
      have after := step.counted reserved (known.cell live) (sparing space live)
      refine ⟨_, known.put live after, fun keeping => ?_⟩
      rw [keeping space live, counted_none, holdAlso_none]

/-! ## Conservation -/

/-- The null frame, and the frames of the kernel windows. -/
def KernelWindows.Reserved (windows : KernelWindows) (frame : Nat) : Prop :=
  frame = 0 ∨ ∃ window ∈ windows.pages, window.2 = frame

instance KernelWindows.Reserved.decidable (windows : KernelWindows) :
    DecidablePred windows.Reserved := fun frame =>
  inferInstanceAs (Decidable (frame = 0 ∨ ∃ window ∈ windows.pages, window.2 = frame))

/-- How many directories, tables and pages of live spaces are on a frame. -/
def Backend.references (backend : Backend) (frame : Nat) : Nat :=
  refsOver (range backend.next) roles
    (fun id role => (backend.spaces id).bind fun space => space.frameOf role)
    frame

/--
A free frame has no entry on it, the count of any other is the number of its
references, and a frame without references is free.  Kernel windows are
mapped into every space and stay allocated.
-/
structure Conserved (windows : KernelWindows) (backend : Backend) :
    Prop where
  free : ∀ frame, backend.frames.Free frame → backend.references frame = 0
  allocated :
    ∀ frame, ¬ windows.Reserved frame → ¬ backend.frames.Free frame →
      backend.frames.count frame = backend.references frame
  reclaimed :
    ∀ frame, ¬ windows.Reserved frame → backend.references frame = 0 → backend.frames.Free frame
  windows : ∀ frame, windows.Reserved frame → ¬ backend.frames.Free frame

theorem Backend.Counted.references_eq {windows : KernelWindows} {backend : Backend}
    (known : backend.Counted windows.Reserved fun _ => 0) {frame : Nat}
    (plain : ¬ windows.Reserved frame) :
    backend.references frame = backend.frames.count frame := by
  have exact := known.exact frame
  rw [counts, if_neg plain, Nat.add_zero] at exact
  rw [exact]
  unfold Backend.references refsOver refsIn
  refine Finset.sum_congr rfl fun id _ => Finset.sum_congr rfl fun role _ => ?_
  cases live : backend.spaces id with
  | none => simp [Backend.table, live]
  | some space =>
    simp only [Backend.table, live, Option.bind_some, refersTo,
      Space.refers, counted_eq_some, plain, not_false_eq_true, and_true]

theorem Backend.Counted.conserved {windows : KernelWindows} {backend : Backend}
    (known : backend.Counted windows.Reserved fun _ => 0) :
    Conserved windows backend where
  free frame free := by
    have plain : ¬ windows.Reserved frame := fun reserved => known.spared frame reserved free
    rw [known.references_eq plain, Frames.count_eq_zero known.sound]
    exact free
  allocated frame plain _ := (known.references_eq plain).symm
  reclaimed frame plain none := by
    rwa [known.references_eq plain, Frames.count_eq_zero known.sound] at none
  windows := known.spared

/-- Steps that neither drop a mapping nor touch a kernel window's frame. -/
def Orderly (windows : KernelWindows) (backend : Backend) (step : HostStep) : Prop :=
  step.Sparing windows.Reserved backend ∧ step.Keeping backend

instance Orderly.decidable (windows : KernelWindows) (backend : Backend)
    (step : HostStep) : Decidable (Orderly windows backend step) :=
  inferInstanceAs (Decidable (_ ∧ _))

theorem Backend.Counted.orderly {windows : KernelWindows} (backend : Backend) (step : HostStep)
    (known : backend.Counted windows.Reserved fun _ => 0)
    (orderly : Orderly windows backend step) :
    (hostMachine windows backend step).2.Counted windows.Reserved fun _ => 0 := by
  obtain ⟨beside, after, same⟩ :=
    known.step (.inl rfl) (fun window member => .inr ⟨window, member, rfl⟩) step orderly.1
  rwa [same orderly.2] at after

/--
The first space, over frames of which those below `first` are the null frame
and the frames of the windows.
-/
def boot (windows : KernelWindows) (first : Nat) : Backend :=
  Backend.spaceNew windows
    { frames := ⟨first, [], fun _ => none, fun _ _ => 0⟩
      spaces := fun _ => none
      active := 0
      next := 0 }

theorem boot_counted {windows : KernelWindows} {exempt : Nat → Prop}
    [DecidablePred exempt] {first : Nat}
    (low : ∀ frame, exempt frame ↔ frame < first)
    (covered : ∀ window ∈ windows.pages, exempt window.2) :
    (boot windows first).Counted exempt fun _ => 0 := by
  have free (frame : Nat) :
      Frames.Free ⟨first, [], fun _ => none, fun _ _ => 0⟩ frame ↔ first ≤ frame := by
    simp [Frames.Free]
  refine Backend.Counted.spaceNew ⟨?_, fun frame spared above => ?_,
    fun key => ?_, fun _ _ => rfl⟩ covered
  · exact ⟨List.nodup_nil, by simp, fun _ _ => rfl, by simp, fun _ _ => rfl⟩
  · have below := (low frame).mp spared
    have beyond := (free frame).mp above
    omega
  · have nothing :
        refsOver (range 0) roles (Backend.table exempt
            ⟨⟨first, [], fun _ => none, fun _ _ => 0⟩, fun _ => none, 0, 0⟩)
          key = 0 :=
      refsOver_eq_zero.mpr (by simp)
    rw [nothing, counts]
    split_ifs with spared
    · rfl
    · rw [low, Nat.not_lt, ← free key] at spared
      simp [Frames.count, spared]

namespace Sample

/-- One page of a kernel window. -/
def windows : KernelWindows where
  pages := [(0xFFFE0, 1)]
  high := by decide

theorem reserved_iff (frame : Nat) : windows.Reserved frame ↔ frame < 2 := by
  simp only [KernelWindows.Reserved, windows, List.mem_singleton, exists_eq_left]
  omega

theorem covered : ∀ window ∈ windows.pages, windows.Reserved window.2 := by
  decide

/-- Map, fork, store to the copy, alias, swap and clean up. -/
def calls : List HostCall :=
  [.spaceMapFresh 0x100 2, .copyTo 0x100FFF [1, 2],
    .single (.spaceFork 0), .single (.spaceSwitch 1),
    .single (.active (.store 0x100FFF 3)), .spaceCopyEntries 0x100 0x110 2,
    .spaceSwapEntries 0x101 0x200 1, .single (.active .spaceClean)]

end Sample

end RetroOS.Hosted
