import RetroOS.Hosted.CellCounts

/-!
# What a step leaves to other spaces

Frames that another space maps are foreign to a cell.  A confined change
writes no foreign frame, and an entry that is on a foreign frame afterwards
has taken over from one that was before, writable only if that one was.

Faults confine themselves: they copy a frame that has more than one
reference.  The accessors of guest memory and the call that makes pages
writable do not look, so for them it is a condition that the page is writable
already or its frame has one reference.
-/

namespace RetroOS.Hosted

open Lib
open Function (update update_of_ne update_self update_idem)

/-- The pages of the windows are present, on exempt frames. -/
def Space.Windowed (exempt : Nat → Prop) (windows : KernelWindows) (space : Space) : Prop :=
  ∀ window ∈ windows.pages, (space.pteRaw window.1).present ∧
      exempt (space.pteRaw window.1).frame ∧ (space.pteRaw window.1).cow = false

/-- Writing to a page reaches no frame of another space. -/
def Cell.Unshared (exempt : Nat → Prop) (cell : Cell) (page : Nat) : Prop :=
  ∀ frame ∈ cell.space.translate page, exempt frame ∨ (cell.space.pteRaw page).writable ∨
      ¬ cell.frames.isShared frame

/-- What a step asks beside: no kernel window, no write to a shared frame. -/
def CellStep.Confining (exempt : Nat → Prop) (windows : KernelWindows)
    (cell : Cell) : CellStep → Prop
  | .mapFresh vpage | .mapPhys vpage _ _ | .mapMmio vpage | .unmap vpage
  | .copyEntry _ vpage => ∀ window ∈ windows.pages, window.1 ≠ pageAt vpage
  | .swapEntries a b => ∀ window ∈ windows.pages, window.1 ≠ pageAt a ∧ window.1 ≠ pageAt b
  | .setWritable vpage writable => writable → cell.Unshared exempt (pageAt vpage)
  | .writeByte vaddr _ | .copyByte _ vaddr => cell.Unshared exempt (addressAt vaddr / pageSize)
  | .spaceClean | .demand _ | .cowFault _ | .store _ _ | .readByte _ => True

section Confined

variable (exempt : Nat → Prop) (windows : KernelWindows) (foreign : Nat → Prop)

/-- A change that other spaces do not notice. -/
structure Cell.Confined (before after : Cell) : Prop where
  memory : ∀ frame, foreign frame → after.frames.memory frame = before.frames.memory frame
  entries :
    ∀ page < pageCount, (after.space.pteRaw page).present →
        foreign (after.space.pteRaw page).frame →
          ∃ other < pageCount, (before.space.pteRaw other).present ∧
              (before.space.pteRaw other).frame = (after.space.pteRaw page).frame ∧
              ((after.space.pteRaw page).writable → (before.space.pteRaw other).writable)
  windowed : before.space.Windowed exempt windows → after.space.Windowed exempt windows

/-- No writable page is on a foreign frame. -/
def Space.Private (space : Space) : Prop :=
  ∀ page < pageCount, (space.pteRaw page).present → (space.pteRaw page).writable →
      ¬ foreign (space.pteRaw page).frame

variable {exempt windows foreign} {before between after cell : Cell} {page frame : Nat} {pte : Pte}

namespace Cell.Confined

theorem rfl : Cell.Confined exempt windows foreign cell cell where
  memory _ _ := Eq.refl _
  entries page inside present _ := ⟨page, inside, present, Eq.refl _, id⟩
  windowed := id

theorem trans (first : Cell.Confined exempt windows foreign before between)
    (second : Cell.Confined exempt windows foreign between after) :
    Cell.Confined exempt windows foreign before after where
  memory frame other := (second.memory frame other).trans (first.memory frame other)
  entries page inside present other := by
    obtain ⟨middle, middleIn, there, same, wrote⟩ := second.entries page inside present other
    rw [← same] at other
    obtain ⟨source, sourceIn, here, equal, written⟩ := first.entries middle middleIn there other
    exact ⟨source, sourceIn, here, equal.trans same, written ∘ wrote⟩
  windowed := second.windowed ∘ first.windowed

theorem private_after (confined : Cell.Confined exempt windows foreign before after)
    (known : before.space.Private foreign) : after.space.Private foreign := by
  intro page inside present writable other
  obtain ⟨source, sourceIn, here, same, wrote⟩ := confined.entries page inside present other
  rw [← same] at other
  exact known source sourceIn here (wrote writable) other

/-- Nothing but memory changes. -/
theorem of_memory (memory :
      ∀ frame, foreign frame → after.frames.memory frame = before.frames.memory frame)
    (same : after.space.pteRaw = before.space.pteRaw) :
    Cell.Confined exempt windows foreign before after where
  memory := memory
  entries page inside present _ := by
    rw [same] at present ⊢
    exact ⟨page, inside, present, Eq.refl _, id⟩
  windowed known := by
    unfold Space.Windowed
    rw [same]
    exact known

/-- One entry is written. -/
theorem of_entry (memory :
      ∀ frame, foreign frame → after.frames.memory frame = before.frames.memory frame)
    (entries : after.space.pteRaw = update before.space.pteRaw page pte)
    (origin :
      pte.present → foreign pte.frame →
        ∃ other < pageCount, (before.space.pteRaw other).present ∧
            (before.space.pteRaw other).frame = pte.frame ∧
            (pte.writable → (before.space.pteRaw other).writable))
    (kept :
      before.space.Windowed exempt windows →
        ∀ window ∈ windows.pages, window.1 = page →
          pte.present ∧ exempt pte.frame ∧ pte.cow = false) :
    Cell.Confined exempt windows foreign before after where
  memory := memory
  entries other inside := by
    rw [entries]
    rcases eq_or_ne other page with rfl | apart
    · rw [update_self]
      exact origin
    · rw [update_of_ne apart]
      exact fun present _ => ⟨other, inside, present, Eq.refl _, id⟩
  windowed known window member := by
    rw [entries]
    rcases eq_or_ne window.1 page with same | apart
    · rw [same, update_self]
      exact kept known window member same
    · rw [update_of_ne apart]
      exact known window member

end Cell.Confined

/-! ## The operations -/

section Operations

variable [DecidablePred exempt] {outside : Nat → Nat}
    (linked : ∀ frame, foreign frame → 0 < outside frame ∧ ¬ exempt frame)
    (known : cell.Counted exempt outside)

namespace Cell

include linked known

/-- A frame that is handed out is not foreign. -/
theorem not_foreign_of_free (free : cell.frames.Free frame) : ¬ foreign frame := by
  intro other
  have positive := (linked frame other).1
  have zero := known.outside_eq_zero_of_free free
  omega

/-- A page that may be written is not on a foreign frame. -/
theorem not_foreign_of_unshared (mine : cell.space.Private foreign)
    (inside : page < pageCount) (unshared : cell.Unshared exempt page)
    (found : cell.space.translate page = some frame) : ¬ foreign frame := by
  intro other
  obtain ⟨positive, plain⟩ := linked frame other
  obtain ⟨present, same⟩ := Space.translate_eq_some.mp found
  rcases unshared frame found with spared | writable | sole
  · exact plain spared
  · rw [← same] at other
    exact mine page inside present writable other
  · have zero := known.outside_eq_zero_of_unshared (page_mem_roles inside) found plain sole
    omega

omit linked in
theorem confined_ensureTable : Confined exempt windows foreign cell (cell.ensureTable page) :=
  .of_memory (fun frame _ => by rw [memory_ensureTable known]) (pteRaw_ensureTable cell page)

omit linked in
/-- An entry is mapped that is on no foreign frame. -/
theorem confined_mapEntry (own : pte.present → ¬ foreign pte.frame) (kept :
      cell.space.Windowed exempt windows → ∀ window ∈ windows.pages, window.1 ≠ page) :
    Confined exempt windows foreign cell ((cell.ensureTable page).writeEntry page pte) :=
  .of_entry (fun frame _ => by rw [writeEntry, memory_ensureTable known])
    (pteRaw_mapEntry cell page pte)
    (fun present other => absurd other (own present))
    (fun windowed window member same => absurd same (kept windowed window member))

theorem confined_mapFresh (kept :
      cell.space.Windowed exempt windows → ∀ window ∈ windows.pages, window.1 ≠ page) :
    Confined exempt windows foreign cell (cell.mapFresh page) := by
  have alloc : Confined exempt windows foreign cell ⟨cell.frames.alloc.2, cell.space⟩ :=
    .of_memory (fun frame _ => by rw [(Frames.alloc_same cell.frames).1]) (Eq.refl _)
  refine alloc.trans (confined_mapEntry known.alloc (fun _ => ?_) kept)
  exact not_foreign_of_free linked known (Frames.alloc_free cell.frames)

omit [DecidablePred exempt] linked known in
theorem window_ne_of_absent (windowed : cell.space.Windowed exempt windows)
    (absent : cell.space.translate page = none) :
    ∀ window ∈ windows.pages, window.1 ≠ page := by
  rintro window member rfl
  have present := (windowed window member).1
  rw [Space.translate_eq_none.mp absent] at present
  cases present

theorem confined_commit (absent : cell.space.translate page = none) :
    Confined exempt windows foreign cell (cell.mapFresh page) :=
  confined_mapFresh linked known fun windowed => window_ne_of_absent windowed absent

/-- The bytes of a foreign frame outlast the reference of a page. -/
theorem memory_release (inside : page < pageCount)
    (found : cell.space.translate page = some frame) {other : Nat}
    (elsewhere : foreign other) :
    (cell.frames.freeFrame frame).memory other = cell.frames.memory other := by
  refine Frames.memory_freeFrame known.sound ?_
  rintro rfl
  obtain ⟨positive, plain⟩ := linked other elsewhere
  by_contra single
  have sole : ¬ cell.frames.isShared other := by rwa [Frames.isShared_iff known.sound]
  have zero := known.outside_eq_zero_of_unshared (page_mem_roles inside) found plain sole
  omega

/-- A page gives its frame back. -/
theorem confined_release (inside : page < pageCount)
    (found : cell.space.translate page = some frame)
    (absent : pte.present = false)
    (kept : ∀ window ∈ windows.pages, window.1 ≠ page) :
    Confined exempt windows foreign cell ((cell.freeFrame frame).writeEntry page pte) :=
  .of_entry (fun _ other => memory_release linked known inside found other)
    (Space.pteRaw_writeEntry (.inl (Space.hasTable_of_translate found)))
    (fun present _ => absurd present (by simp [absent]))
    (fun _ window member same => absurd same (kept window member))

theorem confined_freePage (inside : page < pageCount)
    (kept : ∀ window ∈ windows.pages, window.1 ≠ page) :
    Confined exempt windows foreign cell (cell.freePage page) := by
  unfold Cell.freePage
  cases found : cell.space.translate page with
  | none => exact .rfl
  | some frame => exact confined_release linked known inside found rfl kept

theorem confined_mapMmio (inside : page < pageCount)
    (kept : ∀ window ∈ windows.pages, window.1 ≠ page) :
    Confined exempt windows foreign cell (cell.mapMmio page) := by
  have ready := known.ensureTable inside
  unfold Cell.mapMmio
  simp only [translate_ensureTable]
  cases found : cell.space.translate page with
  | none => exact confined_mapEntry known (by simp [Pte.mmio]) fun _ => kept
  | some old =>
    refine (confined_ensureTable known).trans (confined_release linked ready inside ?_ rfl kept)
    rw [translate_ensureTable, found]

omit [DecidablePred exempt] linked known in
theorem confined_unmapPage (kept : ∀ window ∈ windows.pages, window.1 ≠ page) :
    Confined exempt windows foreign cell (cell.unmapPage page) :=
  .of_entry (fun _ _ => Eq.refl _) (Space.pteRaw_writeEntry (.inr (Eq.refl _)))
    (fun present _ => absurd present (by simp [Pte.zero]))
    (fun _ window member same => absurd same (kept window member))

theorem confined_setWritable (mine : cell.space.Private foreign)
    (inside : page < pageCount) {writable : Bool}
    (unshared : writable → cell.Unshared exempt page) :
    Confined exempt windows foreign cell (cell.setWritable page writable) := by
  simp only [Cell.setWritable]
  split
  · next present =>
      refine .of_entry (fun _ _ => Eq.refl _) (Space.pteRaw_writeEntry
          (.inl (Space.hasTable_of_present present))) ?_ ?_
      · intro _ other
        refine ⟨page, inside, present, Eq.refl _, fun wanted => ?_⟩
        refine absurd other (not_foreign_of_unshared linked known mine inside (unshared wanted) ?_)
        exact Space.translate_eq_some.mpr ⟨present, Eq.refl _⟩
      · rintro windowed window member rfl
        exact windowed window member
  · exact .rfl

omit [DecidablePred exempt] linked known in
theorem update_freePage (cell : Cell) (page : Nat) (pte : Pte) :
    update (cell.freePage page).space.pteRaw page pte = update cell.space.pteRaw page pte := by
  unfold Cell.freePage
  cases found : cell.space.translate page with
  | none => rfl
  | some frame =>
    simp only [Cell.freeFrame, Cell.writeEntry,
      Space.pteRaw_writeEntry (.inl (Space.hasTable_of_translate found)),
      update_idem]

theorem confined_copyEntry (reserved : exempt 0) {source target : Nat}
    (sourceIn : source < pageCount) (targetIn : target < pageCount)
    (plain : ∀ frame ∈ cell.space.translate target, ¬ exempt frame)
    (kept : ∀ window ∈ windows.pages, window.1 ≠ target) :
    Confined exempt windows foreign cell (cell.copyEntry source target) := by
  have freed := known.freePage reserved targetIn plain
  have released := confined_freePage linked known targetIn kept
  rw [copyEntry_eq]
  cases found : cell.space.translate source with
  | none => exact released.trans (confined_unmapPage kept)
  | some frame =>
    obtain ⟨present, same⟩ := Space.translate_eq_some.mp found
    have entries :=
      pteRaw_mapEntry (cell.freePage target) target
        (.plain frame (cell.space.pteRaw source).writable)
    rw [update_freePage] at entries
    refine .of_entry (fun other elsewhere => ?_) entries
      (fun _ _ => ⟨source, sourceIn, present, same, id⟩)
      (fun _ window member equal => absurd equal (kept window member))
    simp only [Cell.incRef, Frames.incRef, Cell.mapPage, Cell.writeEntry]
    rw [memory_ensureTable freed]
    exact released.memory other elsewhere

omit linked in
theorem confined_swapEntries {first second : Nat}
    (firstIn : first < pageCount) (secondIn : second < pageCount)
    (kept : ∀ window ∈ windows.pages, window.1 ≠ first ∧ window.1 ≠ second) :
    Confined exempt windows foreign cell (cell.swapEntries first second) := by
  have ready := known.ensureTable firstIn
  have tables :
      Confined exempt windows foreign cell ((cell.ensureTable first).ensureTable second) :=
    (confined_ensureTable known).trans (confined_ensureTable ready)
  have firstTable : ((cell.ensureTable first).ensureTable second).space.HasTable first :=
    HasTable.ensureTable (hasTable_ensureTable cell first)
  have secondTable : ((cell.ensureTable first).ensureTable second).space.HasTable second :=
    hasTable_ensureTable _ second
  refine tables.trans ?_
  simp only [Cell.swapEntries]
  set swapped := (cell.ensureTable first).ensureTable second
  have entries :
      ((swapped.writeEntry first (swapped.space.pteRaw second)).writeEntry
          second (swapped.space.pteRaw first)).space.pteRaw =
        update (update swapped.space.pteRaw first
            (swapped.space.pteRaw second))
          second (swapped.space.pteRaw first) := by
    simp only [Cell.writeEntry]
    rw [Space.pteRaw_writeEntry (.inl ((Space.hasTable_writeEntry second _).mpr secondTable)),
      Space.pteRaw_writeEntry (.inl firstTable)]
  refine ⟨fun _ _ => rfl, fun page inside => ?_, fun windowed => ?_⟩
  · rw [entries]
    rcases eq_or_ne page second with rfl | notSecond
    · rw [update_self]
      exact fun present _ => ⟨first, firstIn, present, rfl, id⟩
    · rw [update_of_ne notSecond]
      rcases eq_or_ne page first with rfl | notFirst
      · rw [update_self]
        exact fun present _ => ⟨second, secondIn, present, rfl, id⟩
      · rw [update_of_ne notFirst]
        exact fun present _ => ⟨page, inside, present, rfl, id⟩
  · intro window member
    obtain ⟨notFirst, notSecond⟩ := kept window member
    rw [entries, update_of_ne notSecond, update_of_ne notFirst]
    exact windowed window member

theorem confined_demand (vaddr : Nat) :
    Confined exempt windows foreign cell (cell.demand vaddr).2 := by
  simp only [Cell.demand]
  split_ifs with present
  · exact .rfl
  · exact .rfl
  · exact .rfl
  · exact confined_commit linked known (by simpa using present)

theorem confined_resolve (page : Nat) :
    Confined exempt windows foreign cell (cell.resolve page).2 := by
  unfold Cell.resolve
  cases found : cell.space.translate page with
  | some frame => exact .rfl
  | none => exact confined_commit linked known found

theorem confined_cowFault (inside : page < pageCount) :
    Confined exempt windows foreign cell (cell.cowFault page).2 := by
  simp only [Cell.cowFault]
  split_ifs with refused several
  · exact .rfl
  · rw [not_or, not_not, not_not] at refused
    have fresh := not_foreign_of_free linked known (Frames.alloc_free cell.frames)
    refine .of_entry (fun other elsewhere => ?_) (Space.pteRaw_writeEntry
        (.inl (Space.hasTable_of_present refused.1)))
      (fun _ own => absurd own fresh) ?_
    · have used : ¬ cell.frames.alloc.2.Free cell.frames.alloc.1 := by
        simp [Frames.free_alloc known.sound]
      have copied := known.alloc.copyFrame used (cell.space.pteRaw page).frame
      have apart : other ≠ cell.frames.alloc.1 := by
        rintro rfl
        exact fresh elsewhere
      refine (Frames.memory_freeFrame copied.sound fun _ => ?_).trans ?_
      · rw [← Frames.isShared_iff copied.sound]
        rwa [Frames.isShared, ← (Frames.alloc_same cell.frames).2] at several
      · simp only [Frames.copyFrame, update_of_ne apart]
        rw [(Frames.alloc_same cell.frames).1]
    · rintro windowed window member rfl
      rw [(windowed window member).2.2] at refused
      cases refused.2
  · rw [not_or, not_not, not_not] at refused
    refine .of_entry (fun _ _ => rfl) (Space.pteRaw_writeEntry
        (.inl (Space.hasTable_of_present refused.1)))
      (fun _ own => ?_) ?_
    · obtain ⟨positive, plain⟩ := linked _ own
      have zero :=
        known.outside_eq_zero_of_unshared (page_mem_roles inside)
          (Space.translate_eq_some.mpr ⟨refused.1, rfl⟩) plain several
      simp only [Pte.plain] at positive
      omega
    · rintro windowed window member rfl
      rw [(windowed window member).2.2] at refused
      cases refused.2

omit [DecidablePred exempt] linked known in
/-- A byte is written to a frame that is not foreign. -/
theorem confined_setByte (own : ¬ foreign frame) (offset : Nat) (byte : UInt8) :
    Confined exempt windows foreign cell (cell.setByte frame offset byte) := by
  refine .of_memory (fun other elsewhere => ?_) rfl
  have apart : other ≠ frame := by
    rintro rfl
    exact own elsewhere
  simp [Cell.setByte, Frames.setByte, apart]

/-- What is resolved may be written, as far as it could be before. -/
theorem confined_writeByte (mine : cell.space.Private foreign)
    {vaddr : Nat} (inside : vaddr / pageSize < pageCount)
    (unshared : cell.Unshared exempt (vaddr / pageSize)) (byte : UInt8) :
    Confined exempt windows foreign cell (cell.writeByte vaddr byte) := by
  have own : ¬ foreign (cell.resolve (vaddr / pageSize)).1 := by
    unfold Cell.resolve
    cases found : cell.space.translate (vaddr / pageSize) with
    | some frame => exact not_foreign_of_unshared linked known mine inside unshared found
    | none => exact not_foreign_of_free linked known (Frames.alloc_free cell.frames)
  exact (confined_resolve linked known (vaddr / pageSize)).trans (confined_setByte own _ byte)

omit [DecidablePred exempt] linked known in
/-- Resolving one page leaves what may be written. -/
theorem Unshared.resolve {other : Nat} (unshared : cell.Unshared exempt page) :
    (cell.resolve other).2.Unshared exempt page := by
  unfold Cell.resolve
  cases found : cell.space.translate other with
  | some frame => exact unshared
  | none =>
    intro frame found
    rw [Option.mem_def, Space.translate_eq_some, pteRaw_mapFresh] at found
    simp only [Frames.isShared, shared_mapFresh, pteRaw_mapFresh]
    rcases eq_or_ne page other with rfl | apart
    · exact .inr (.inl (by simp [Pte.plain]))
    · rw [update_of_ne apart] at found ⊢
      exact unshared frame (Space.translate_eq_some.mpr found)

theorem confined_storeFault {vaddr : Nat} (inside : vaddr / pageSize < pageCount) :
    Confined exempt windows foreign cell (cell.storeFault vaddr).2 := by
  simp only [Cell.storeFault]
  split_ifs
  · exact .rfl
  · exact confined_cowFault linked known inside
  · exact confined_demand linked known vaddr

theorem confined_store (mine : cell.space.Private foreign) {vaddr : Nat}
    (inside : vaddr / pageSize < pageCount) (byte : UInt8) :
    Confined exempt windows foreign cell (cell.store vaddr byte).2 := by
  have fault : Confined exempt windows foreign cell (cell.storeFault vaddr).2 :=
    confined_storeFault linked known inside
  simp only [Cell.store]
  split_ifs with resolved
  · obtain ⟨present, writable⟩ := storeFault_writable resolved
    exact fault.trans (confined_setByte (fault.private_after mine _ inside present writable) _ byte)
  · exact fault

theorem confined_freePages (reserved : exempt 0) (pages : List Nat)
    (inside : ∀ page ∈ pages, page < pageCount)
    (plain : ∀ page ∈ pages, ∀ frame ∈ cell.space.translate page, ¬ exempt frame)
    (kept : ∀ page ∈ pages, ∀ window ∈ windows.pages, window.1 ≠ page) :
    Confined exempt windows foreign cell (pages.foldl Cell.freePage cell) := by
  induction pages generalizing cell with
  | nil => exact .rfl
  | cons page rest induction =>
    have first := List.mem_cons_self (a := page) (l := rest)
    have freed := known.freePage reserved (inside page first) (plain page first)
    refine (confined_freePage linked known (inside page first)
      (kept page first)).trans (induction freed
        (fun other later => inside other (List.mem_cons_of_mem _ later))
        ?_
        fun other later => kept other (List.mem_cons_of_mem _ later))
    intro other later frame found
    rw [translate_freePage] at found
    split_ifs at found with same
    · cases found
    · exact plain other (List.mem_cons_of_mem _ later) frame found

theorem confined_freeUserFrames (reserved : exempt 0) (plain :
      ∀ page ∈ cell.space.presentPages, page < userPages →
        ¬ exempt (cell.space.pteRaw page).frame) :
    Confined exempt windows foreign cell cell.freeUserFrames := by
  refine confined_freePages linked known reserved _ (fun page member => ?_)
    (fun page member frame found => ?_) fun page member window high => ?_
  · exact (Space.mem_presentPages.mp (List.mem_filter.mp member).1).1
  · obtain ⟨present, user⟩ := List.mem_filter.mp member
    rw [← (Space.translate_eq_some.mp found).2]
    exact plain page present (by simpa using user)
  · have user : page < userPages := by
      simpa using (List.mem_filter.mp member).2
    have above := (windows.high window high).1
    omega

end Cell

include linked known in
/-- One step, as far as other spaces are concerned. -/
theorem CellStep.confined (reserved : exempt 0)
    (mine : cell.space.Private foreign) (step : CellStep)
    (sparing : step.Sparing exempt cell)
    (confining : step.Confining exempt windows cell) :
    Cell.Confined exempt windows foreign cell (step.apply cell).2 := by
  cases step with
  | spaceClean =>
    simp only [apply]
    exact Cell.confined_freeUserFrames linked known reserved sparing
  | mapFresh vpage => exact Cell.confined_mapFresh linked known fun _ => confining
  | mapPhys vpage ppage writable =>
    refine Cell.confined_mapEntry known (fun _ other => ?_) fun _ => confining
    exact (linked ppage other).2 sparing
  | mapMmio vpage => exact Cell.confined_mapMmio linked known (pageAt_lt vpage) confining
  | setWritable vpage writable =>
    exact Cell.confined_setWritable linked known mine (pageAt_lt vpage) confining
  | unmap vpage => exact Cell.confined_unmapPage confining
  | copyEntry src dst =>
    exact Cell.confined_copyEntry linked known reserved (pageAt_lt src)
      (pageAt_lt dst) sparing.2 confining
  | swapEntries a b => exact Cell.confined_swapEntries known (pageAt_lt a) (pageAt_lt b) confining
  | demand vaddr => exact Cell.confined_demand linked known _
  | cowFault vaddr => exact Cell.confined_cowFault linked known (addressAt_lt vaddr)
  | store vaddr byte => exact Cell.confined_store linked known mine (addressAt_lt vaddr) byte
  | readByte vaddr => exact Cell.confined_resolve linked known _
  | writeByte vaddr byte =>
    exact Cell.confined_writeByte linked known mine (addressAt_lt vaddr) confining byte
  | copyByte src dst =>
    have read : Cell.Confined exempt windows foreign cell (cell.readByte (addressAt src)).2 :=
      Cell.confined_resolve linked known _
    refine read.trans ?_
    exact Cell.confined_writeByte linked
      (known.resolve (addressAt_lt src)) (read.private_after mine)
      (addressAt_lt dst) (Cell.Unshared.resolve confining) _

end Operations

end Confined

end RetroOS.Hosted
