import RetroOS.Hosted.References

/-!
# What a step does to the references of a space

Each operation on the active space leaves a counted cell counted.  Three of
them drop the mapping of a page without freeing its frame, and what is lost
so is held outside from then on.
-/

namespace RetroOS.Hosted

open Lib

/-! ## Steps on one space -/

/-- A step frees no exempt frame, and maps none but exempt ones uncounted. -/
def CellStep.Sparing (exempt : Nat → Prop) (cell : Cell) : CellStep → Prop
  | .spaceClean =>
    ∀ page ∈ cell.space.presentPages, page < userPages → ¬ exempt (cell.space.pteRaw page).frame
  | .mapPhys _ ppage _ => exempt ppage
  | .mapMmio vpage => ∀ frame ∈ cell.space.translate (pageAt vpage), ¬ exempt frame
  | .copyEntry src dst =>
    pageAt src ≠ pageAt dst ∧ ∀ frame ∈ cell.space.translate (pageAt dst), ¬ exempt frame
  | .mapFresh _ | .setWritable _ _ | .unmap _ | .swapEntries _ _
  | .demand _ | .cowFault _ | .store _ _ | .readByte _ | .writeByte _ _
  | .copyByte _ _ => True

/-- The frame whose mapping a step drops without freeing it. -/
def CellStep.lost (cell : Cell) : CellStep → Option Nat
  | .mapFresh vpage | .mapPhys vpage _ _ | .unmap vpage => cell.space.translate (pageAt vpage)
  | .spaceClean | .mapMmio _ | .copyEntry _ _ | .setWritable _ _
  | .swapEntries _ _ | .demand _ | .cowFault _ | .store _ _ | .readByte _
  | .writeByte _ _ | .copyByte _ _ => none

theorem pageAt_lt (vpage : Nat) : pageAt vpage < pageCount := Nat.mod_lt _ (by decide)

theorem addressAt_lt (vaddr : Nat) : addressAt vaddr / pageSize < pageCount := by
  unfold addressAt pageSize pageCount
  omega

section Counted

variable {exempt : Nat → Prop} [DecidablePred exempt]
    {outside : Nat → Nat} {cell : Cell} {page frame : Nat} {pte : Pte}

namespace Cell

theorem refers_page_ensureTable (cell : Cell) (page other : Nat) :
    (cell.ensureTable page).space.refers exempt (.page other) =
      cell.space.refers exempt (.page other) := by
  simp only [Space.refers, Space.frameOf, translate_ensureTable]

theorem refers_of_absent (absent : cell.space.translate page = none) :
    cell.space.refers exempt (.page page) = none := by
  simp [Space.refers, Space.frameOf, absent]

theorem refers_of_translate (found : cell.space.translate page = some frame) :
    cell.space.refers exempt (.page page) = counted exempt (some frame) := by
  simp only [Space.refers, Space.frameOf, found]

/-- Freeing pages makes no page present. -/
theorem translate_freePage (cell : Cell) (page other : Nat) :
    (cell.freePage page).space.translate other =
      if other = page then none else cell.space.translate other := by
  unfold Cell.freePage
  cases found : cell.space.translate page with
  | none =>
    split_ifs with same
    · rw [same, found]
    · rfl
  | some frame =>
    have table := Space.hasTable_of_translate found
    rw [Space.translate_eq_reference]
    simp only [Cell.freeFrame, Cell.writeEntry, Space.pteRaw_writeEntry (.inl table)]
    split_ifs with same
    · simp [same, Pte.reference, Pte.zero]
    · rw [Function.update_of_ne same]
      rfl

/-- What is freed first and mapped then. -/
theorem copyEntry_eq (cell : Cell) (source target : Nat) :
    cell.copyEntry source target =
      match cell.space.translate source with
      | some frame =>
        ((cell.freePage target).mapPage target frame
          (cell.space.pteRaw source).writable).incRef frame
      | none => (cell.freePage target).unmapPage target := by
  unfold Cell.copyEntry Cell.freePage
  cases old : cell.space.translate target with
  | none => rfl
  | some old =>
    have table := Space.hasTable_of_translate old
    simp only [Cell.freeFrame]
    cases found : cell.space.translate source with
    | none => simp [Cell.unmapPage, Cell.writeEntry, Space.writeEntry_writeEntry]
    | some frame =>
      have cleared : (cell.space.writeEntry target .zero).HasTable target :=
        (Space.hasTable_writeEntry target .zero).mpr table
      simp only [Cell.mapPage, Cell.writeEntry]
      rw [ensureTable_of_hasTable table, ensureTable_of_hasTable cleared]
      simp only [Space.writeEntry_writeEntry]

/-- A held reference goes into an entry, for the one it replaces. -/
theorem Counted.place (pte : Pte) (known :
      cell.Counted exempt (holdAlso outside (counted exempt pte.reference)))
    (inside : page < pageCount) (table : cell.space.HasTable page) :
    (cell.writeEntry page pte).Counted exempt
      (holdAlso outside (cell.space.refers exempt (.page page))) := by
  refine known.write inside (.inl table) known.sound known.spared fun key => ?_
  simp only [holdAlso]
  omega

theorem Counted.mapEntry (pte : Pte) (known :
      cell.Counted exempt (holdAlso outside (counted exempt pte.reference)))
    (inside : page < pageCount) :
    ((cell.ensureTable page).writeEntry page pte).Counted exempt
      (holdAlso outside (cell.space.refers exempt (.page page))) := by
  rw [← refers_page_ensureTable cell page page]
  exact Counted.place pte (known.ensureTable inside) inside (hasTable_ensureTable cell page)

section Known

variable (known : cell.Counted exempt outside)

include known

theorem Counted.mapFresh (inside : page < pageCount) :
    (cell.mapFresh page).Counted exempt
      (holdAlso outside (cell.space.refers exempt (.page page))) :=
  Counted.mapEntry (.plain cell.frames.alloc.1 true) known.alloc inside

/-- An absent page is mapped onto a frame of its own. -/
theorem Counted.commit (inside : page < pageCount) (absent : cell.space.translate page = none) :
    (cell.mapFresh page).Counted exempt outside := by
  have fresh := known.mapFresh inside
  rwa [refers_of_absent absent, holdAlso_none] at fresh

/-- The frame of a page is freed and its entry cleared. -/
theorem Counted.release (reserved : exempt 0) (inside : page < pageCount)
    (found : cell.space.translate page = some frame)
    (plain : ¬ exempt frame) (absent : pte.present = false) :
    ((cell.freeFrame frame).writeEntry page pte).Counted exempt outside := by
  have taken := known.take inside (.inl (Space.hasTable_of_translate found)) absent
  rw [refers_of_translate found] at taken
  exact taken.freeFrame reserved fun spared => absurd spared plain

theorem Counted.mapMmio (reserved : exempt 0) (inside : page < pageCount)
    (plain : ∀ frame ∈ cell.space.translate page, ¬ exempt frame) :
    (cell.mapMmio page).Counted exempt outside := by
  have ready := known.ensureTable inside
  unfold Cell.mapMmio
  simp only [translate_ensureTable]
  cases found : cell.space.translate page with
  | some old =>
    refine ready.release reserved inside ?_ (plain old found) rfl
    rw [translate_ensureTable, found]
  | none =>
    have taken : ((cell.ensureTable page).writeEntry page .mmio).Counted exempt _ :=
      ready.take inside (.inl (hasTable_ensureTable cell page)) rfl
    rwa [refers_page_ensureTable, refers_of_absent found, holdAlso_none] at taken

theorem Counted.setWritable (inside : page < pageCount) (writable : Bool) :
    (cell.setWritable page writable).Counted exempt outside := by
  simp only [Cell.setWritable]
  split
  · next present =>
      refine known.rewrite inside (Space.hasTable_of_present present) ?_
      simp [Pte.reference, Space.translate]
  · exact known

theorem Counted.unmapPage (inside : page < pageCount) :
    (cell.unmapPage page).Counted exempt
      (holdAlso outside (cell.space.refers exempt (.page page))) :=
  known.take inside (.inr rfl) rfl

theorem Counted.freePage (reserved : exempt 0) (inside : page < pageCount)
    (plain : ∀ frame ∈ cell.space.translate page, ¬ exempt frame) :
    (cell.freePage page).Counted exempt outside := by
  unfold Cell.freePage
  cases found : cell.space.translate page with
  | some frame => exact known.release reserved inside found (plain frame found) rfl
  | none => exact known

theorem Counted.freePages (reserved : exempt 0) (pages : List Nat)
    (inside : ∀ page ∈ pages, page < pageCount)
    (plain : ∀ page ∈ pages, ∀ frame ∈ cell.space.translate page, ¬ exempt frame) :
    (pages.foldl Cell.freePage cell).Counted exempt outside := by
  induction pages generalizing cell with
  | nil => exact known
  | cons page rest induction =>
    have first := List.mem_cons_self (a := page) (l := rest)
    refine induction (known.freePage reserved (inside page first) (plain page first))
      (fun other later => inside other (List.mem_cons_of_mem _ later)) ?_
    intro other later frame found
    rw [translate_freePage] at found
    split_ifs at found with same
    · cases found
    · exact plain other (List.mem_cons_of_mem _ later) frame found

theorem Counted.freeUserFrames (reserved : exempt 0) (plain :
      ∀ page ∈ cell.space.presentPages, page < userPages →
        ¬ exempt (cell.space.pteRaw page).frame) :
    cell.freeUserFrames.Counted exempt outside := by
  refine known.freePages reserved _ (fun page member => ?_) fun page member frame found => ?_
  · exact (Space.mem_presentPages.mp (List.mem_filter.mp member).1).1
  · obtain ⟨present, user⟩ := List.mem_filter.mp member
    rw [← (Space.translate_eq_some.mp found).2]
    exact plain page present (by simpa using user)

theorem free_ensureTable (free : (cell.ensureTable page).frames.Free frame) :
    cell.frames.Free frame := by
  unfold Cell.ensureTable at free
  cases missing : cell.space.tables (page / entriesPerTable) with
  | some found =>
    rw [missing] at free
    exact free
  | none =>
    rw [missing, allocTable_eq known.sound] at free
    exact ((Frames.free_alloc known.sound frame).mp free).1

/-- An entry is written with a new reference to a frame that is in use. -/
theorem Counted.share (pte : Pte) (inside : page < pageCount) (refers : pte.reference = some frame)
    (taken : ¬ cell.frames.Free frame) :
    (((cell.ensureTable page).writeEntry page pte).incRef frame).Counted
      exempt (holdAlso outside (cell.space.refers exempt (.page page))) := by
  have ready := known.ensureTable inside
  have positive : 0 < (cell.ensureTable page).frames.count frame := by
    rw [Nat.pos_iff_ne_zero, ne_eq, Frames.count_eq_zero ready.sound]
    exact fun free => taken (free_ensureTable known free)
  have more := ready.incRef positive
  rw [← refers] at more
  rw [← refers_page_ensureTable cell page page]
  exact Counted.place pte more inside (hasTable_ensureTable cell page)

/-- A page is mapped onto the frame of another one. -/
theorem Counted.copyEntry (reserved : exempt 0) {source target : Nat}
    (sourceInside : source < pageCount) (targetInside : target < pageCount)
    (apart : source ≠ target)
    (plain : ∀ frame ∈ cell.space.translate target, ¬ exempt frame) :
    (cell.copyEntry source target).Counted exempt outside := by
  have freed := known.freePage reserved targetInside plain
  have gone : (cell.freePage target).space.translate target = none := by simp [translate_freePage]
  rw [copyEntry_eq]
  cases found : cell.space.translate source with
  | none =>
    have taken := freed.unmapPage targetInside
    rwa [refers_of_absent gone, holdAlso_none] at taken
  | some frame =>
    have kept : (cell.freePage target).space.translate source = some frame := by
      rw [translate_freePage, if_neg apart, found]
    have shared :=
      freed.share (.plain frame (cell.space.pteRaw source).writable) targetInside rfl
        (freed.not_free_of_role (page_mem_roles sourceInside) kept)
    rwa [refers_of_absent gone, holdAlso_none] at shared

/-- Two entries change places. -/
theorem Counted.swapEntries {first second : Nat} (firstInside : first < pageCount)
    (secondInside : second < pageCount) :
    (cell.swapEntries first second).Counted exempt outside := by
  have ready := (known.ensureTable firstInside).ensureTable secondInside
  have firstTable : ((cell.ensureTable first).ensureTable second).space.HasTable first :=
    HasTable.ensureTable (hasTable_ensureTable cell first)
  have secondTable : ((cell.ensureTable first).ensureTable second).space.HasTable second :=
    hasTable_ensureTable _ second
  simp only [Cell.swapEntries]
  set swapped := (cell.ensureTable first).ensureTable second
  refine ⟨ready.sound, ready.spared, fun key => ?_⟩
  have before := ready.exact key
  have second_writes :
      ((swapped.writeEntry first (swapped.space.pteRaw second)).writeEntry
          second (swapped.space.pteRaw first)).space.refers exempt =
        Function.update (Function.update (swapped.space.refers exempt) (.page first)
            (swapped.space.refers exempt (.page second)))
          (.page second) (swapped.space.refers exempt (.page first)) := by
    simp only [Cell.writeEntry]
    rw [Space.refers_writeEntry (.inl ((Space.hasTable_writeEntry second _).mpr secondTable)),
      Space.refers_writeEntry (.inl firstTable)]
    rfl
  have one :=
    refsIn_update (page_mem_roles firstInside) (swapped.space.refers exempt)
      (swapped.space.refers exempt (.page second)) key
  have two :=
    refsIn_update (page_mem_roles secondInside)
      (Function.update (swapped.space.refers exempt) (.page first)
        (swapped.space.refers exempt (.page second)))
      (swapped.space.refers exempt (.page first)) key
  have kept :
      Function.update (swapped.space.refers exempt) (.page first)
          (swapped.space.refers exempt (.page second)) (.page second) =
        swapped.space.refers exempt (.page second) := by
    rcases eq_or_ne second first with rfl | other
    · simp
    · rw [Function.update_of_ne (by simpa using other)]
  rw [kept] at two
  rw [second_writes]
  simp only [Cell.writeEntry]
  omega

/-- A write fault keeps the frame or takes a copy of it. -/
theorem Counted.cowFault (reserved : exempt 0) (inside : page < pageCount) :
    (cell.cowFault page).2.Counted exempt outside := by
  simp only [Cell.cowFault]
  split_ifs with refused several
  · exact known
  · rw [not_or, not_not, not_not] at refused
    have found := Space.translate_eq_some.mpr ⟨refused.1, rfl⟩
    have used : ¬ cell.frames.alloc.2.Free cell.frames.alloc.1 := by
      simp [Frames.free_alloc known.sound]
    have copied := known.alloc.copyFrame used (cell.space.pteRaw page).frame
    have placed :=
      Counted.place (.plain cell.frames.alloc.1 true) copied inside
        (Space.hasTable_of_present refused.1)
    rw [refers_of_translate found] at placed
    refine placed.freeFrame reserved fun _ => ?_
    rwa [Frames.isShared, ← (Frames.alloc_same cell.frames).2] at several
  · rw [not_or, not_not, not_not] at refused
    refine known.rewrite inside (Space.hasTable_of_present refused.1) ?_
    simp [Pte.reference, Pte.plain, Space.translate, refused.1]

theorem Counted.demand {vaddr : Nat} (inside : vaddr / pageSize < pageCount) :
    (cell.demand vaddr).2.Counted exempt outside := by
  simp only [Cell.demand]
  split_ifs with present
  · exact known
  · exact known
  · exact known
  · exact known.commit inside (by simpa using present)

theorem Counted.resolve (inside : page < pageCount) :
    (cell.resolve page).2.Counted exempt outside := by
  unfold Cell.resolve
  cases found : cell.space.translate page with
  | some frame => exact known
  | none => exact known.commit inside found

theorem Counted.writeByte {vaddr : Nat} (inside : vaddr / pageSize < pageCount) (byte : UInt8) :
    (cell.writeByte vaddr byte).Counted exempt outside := by
  have resolved := known.resolve inside
  exact resolved.setByte (resolved.not_free_of_role (page_mem_roles inside)
      (translate_resolve cell _)) _ byte

theorem Counted.storeFault (reserved : exempt 0) {vaddr : Nat}
    (inside : vaddr / pageSize < pageCount) :
    (cell.storeFault vaddr).2.Counted exempt outside := by
  simp only [Cell.storeFault]
  split_ifs with present writable
  · exact known
  · exact known.cowFault reserved inside
  · exact known.demand inside

theorem Counted.store (reserved : exempt 0) {vaddr : Nat}
    (inside : vaddr / pageSize < pageCount) (byte : UInt8) :
    (cell.store vaddr byte).2.Counted exempt outside := by
  have ready := known.storeFault reserved inside
  simp only [Cell.store]
  split_ifs with resolved
  · have present := (storeFault_writable resolved).1
    exact ready.setByte (ready.not_free_of_role (page_mem_roles inside)
        (Space.translate_eq_some.mpr ⟨present, rfl⟩)) _ byte
  · exact ready

end Known

end Cell

/-- What one step does to the references of the active space. -/
theorem CellStep.counted (reserved : exempt 0)
    (known : cell.Counted exempt outside) (step : CellStep)
    (sparing : step.Sparing exempt cell) :
    (step.apply cell).2.Counted exempt
      (holdAlso outside (Hosted.counted exempt (step.lost cell))) := by
  have keeps {after : Cell} (still : after.Counted exempt outside) :
      after.Counted exempt (holdAlso outside (Hosted.counted exempt none)) := by
    rwa [counted_none, holdAlso_none]
  cases step with
  | mapFresh vpage => exact known.mapFresh (pageAt_lt vpage)
  | mapPhys vpage ppage writable =>
    refine Cell.Counted.mapEntry (.plain ppage writable) ?_ (pageAt_lt vpage)
    change cell.Counted exempt (holdAlso outside (Hosted.counted exempt (some ppage)))
    rwa [counted_exempt exempt sparing, holdAlso_none]
  | unmap vpage => exact known.unmapPage (pageAt_lt vpage)
  | spaceClean =>
    simp only [apply]
    exact keeps (known.freeUserFrames reserved sparing)
  | mapMmio vpage =>
    exact keeps (known.mapMmio reserved (pageAt_lt vpage) sparing)
  | copyEntry src dst =>
    exact keeps (known.copyEntry reserved (pageAt_lt src) (pageAt_lt dst) sparing.1 sparing.2)
  | setWritable vpage writable =>
    exact keeps (known.setWritable (pageAt_lt vpage) writable)
  | swapEntries a b =>
    exact keeps (known.swapEntries (pageAt_lt a) (pageAt_lt b))
  | demand vaddr =>
    exact keeps (known.demand (addressAt_lt vaddr))
  | cowFault vaddr =>
    exact keeps (known.cowFault reserved (addressAt_lt vaddr))
  | store vaddr byte =>
    exact keeps (known.store reserved (addressAt_lt vaddr) byte)
  | readByte vaddr =>
    exact keeps (known.resolve (addressAt_lt vaddr))
  | writeByte vaddr byte =>
    exact keeps (known.writeByte (addressAt_lt vaddr) byte)
  | copyByte src dst =>
    exact keeps ((known.resolve (addressAt_lt src)).writeByte (addressAt_lt dst) _)

end Counted

end RetroOS.Hosted
