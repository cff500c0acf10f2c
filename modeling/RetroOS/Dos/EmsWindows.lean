import RetroOS.Dos.Ems

/-!
# What the windows of the page frame show

Every window must be unmapped or show a logical page that its handle has, no
call may look outside a page list, and a call that reports an error must
leave windows and handles as they were.

Two calls break this.  A reallocation cuts the page list of a handle without
looking at the windows, so that a window may show a page that is gone; the
next call on that window then stops the kernel.  A call that maps several
pages works entry by entry and keeps what it did when a later entry is bad.
`ems_windows_sound`: the law holds in every run in which no reallocation cuts
off a page that a window shows and every array of entries is good throughout
or bad in the window of its first entry.
-/

namespace RetroOS.Dos

open Lib

/-- The windows show pages that exist, and all pages are backing pages. -/
structure EmsState.WellFormed (state : EmsState) : Prop where
  mapped :
    ∀ window slot page, state.frame window = some (slot, page) →
      ∃ list, state.handles slot = some list ∧ page < list.length
  backed : ∀ slot list, state.handles slot = some list → ∀ backing ∈ list, emsBackingVpage ≤ backing

namespace EmsState.WellFormed

open EmsState

variable {state : EmsState}

theorem new : EmsState.new.WellFormed where
  mapped := by
    intro window slot page shown
    cases shown
  backed := by
    intro slot list known
    cases known

theorem unmap (formed : state.WellFormed) (window : Fin 4) :
    (state.setFrame window none).WellFormed where
  mapped := by
    intro other slot page shown
    rcases eq_or_ne other window with rfl | apart
    · rw [frame_setFrame_self] at shown
      cases shown
    · rw [frame_setFrame_of_ne _ apart] at shown
      exact formed.mapped other slot page shown
  backed := formed.backed

theorem map (formed : state.WellFormed) (window : Fin 4)
    {slot : Fin maxEmsHandles} {list : List Nat} {page : Nat}
    (known : state.handles slot = some list) (inside : page < list.length) :
    (state.setFrame window (some (slot, page))).WellFormed where
  mapped := by
    intro other shown_slot shown_page shown
    rcases eq_or_ne other window with rfl | apart
    · rw [frame_setFrame_self] at shown
      cases shown
      exact ⟨list, known, inside⟩
    · rw [frame_setFrame_of_ne _ apart] at shown
      exact formed.mapped other shown_slot shown_page shown
  backed := formed.backed

/-- A page list may be replaced by one that has every page still shown. -/
theorem setHandle (formed : state.WellFormed) (slot : Fin maxEmsHandles)
    {held : Option (List Nat)}
    (shown : ∀ window page, state.frame window = some (slot, page) → page < (held.getD []).length)
    (backing : ∀ page ∈ held.getD [], emsBackingVpage ≤ page) :
    (state.setHandle slot held).WellFormed where
  mapped := by
    intro window other page known
    rcases eq_or_ne other slot with rfl | apart
    · cases held with
      | none => cases shown window page known
      | some list => exact ⟨list, handles_setHandle_self _ _ _, shown window page known⟩
    · obtain ⟨pages, live, inside⟩ := formed.mapped window other page known
      exact ⟨pages, (handles_setHandle_of_ne _ apart _).trans live, inside⟩
  backed := by
    intro other pages known
    rcases eq_or_ne other slot with rfl | apart
    · rw [handles_setHandle_self] at known
      subst known
      exact backing
    · rw [handles_setHandle_of_ne _ apart] at known
      exact formed.backed other pages known

theorem takePages (formed : state.WellFormed) (count : Nat) :
    (state.takePages count).2.WellFormed :=
  ⟨formed.mapped, formed.backed⟩

end EmsState.WellFormed

theorem EmsState.takePages_backed (state : EmsState) (count : Nat) :
    ∀ page ∈ (state.takePages count).1, emsBackingVpage ≤ page := by
  intro page member
  obtain ⟨index, _, rfl⟩ := List.mem_map.mp member
  exact Nat.le_add_right _ _

/-! ## Pages outside the frame -/

section Driver

variable {basePage : Nat}

/-- A page that is neither in the page frame nor in the backing region. -/
def Untouched (basePage page : Nat) : Prop :=
  page < emsBackingVpage ∧ (page < basePage ∨ basePage + 16 ≤ page)

/-- Two states of the pages that differ in touched pages only. -/
def AgreesOutside (basePage : Nat) (before after : GuestPages) : Prop :=
  ∀ page, Untouched basePage page → after page = before page

theorem swap_other (pages : GuestPages) {left right page : Nat}
    (not_left : page ≠ left) (not_right : page ≠ right) :
    pages.swap left right page = pages page := by
  rw [GuestPages.swap, Function.update_of_ne not_right, Function.update_of_ne not_left]

theorem swapPageEntries_other (pages : GuestPages) {left right page : Nat} (indices : List Nat)
    (not_left : ∀ index ∈ indices, page ≠ left + index)
    (not_right : ∀ index ∈ indices, page ≠ right + index) :
    indices.foldl (fun pages index => pages.swap (left + index) (right + index)) pages page =
      pages page := by
  induction indices generalizing pages with
  | nil => rfl
  | cons index rest induction =>
    refine (induction _ (fun other member => not_left other (List.mem_cons_of_mem _ member))
      (fun other member => not_right other (List.mem_cons_of_mem _ member))).trans ?_
    exact swap_other pages (not_left index List.mem_cons_self) (not_right index List.mem_cons_self)

theorem swapEmsWindow_agrees (pages : GuestPages) (window : Fin 4)
    {backing : Nat} (backed : emsBackingVpage ≤ backing) :
    AgreesOutside basePage pages (swapEmsWindow basePage pages window backing) := by
  rintro page ⟨below, outside⟩
  have small := window.isLt
  refine swapPageEntries_other pages _ ?_ ?_
  · intro index _
    omega
  · intro index member
    have bound := List.mem_range.mp member
    omega

theorem AgreesOutside.trans {first second third : GuestPages}
    (left : AgreesOutside basePage first second)
    (right : AgreesOutside basePage second third) :
    AgreesOutside basePage first third :=
  fun page untouched => (right page untouched).trans (left page untouched)

/-! ## Windows -/

variable {world : EmsWorld}

/-- What a well-formed driver saves, it finds. -/
theorem saveWindow_spec (basePage : Nat) (formed : world.ems.WellFormed) (window : Fin 4) :
    ∃ pages, saveWindow basePage world window = some { world with pages } ∧
        AgreesOutside basePage world.pages pages := by
  unfold saveWindow
  cases shown : world.ems.frame window with
  | none => exact ⟨world.pages, rfl, fun _ _ => rfl⟩
  | some entry =>
    obtain ⟨slot, page⟩ := entry
    obtain ⟨list, known, inside⟩ := formed.mapped window slot page shown
    simp only [known, List.getElem?_eq_getElem inside]
    exact ⟨_, rfl, swapEmsWindow_agrees _ _
      (formed.backed slot list known _ (List.getElem_mem inside))⟩

/-- Unmapping the windows of a handle leaves none that shows it. -/
theorem unmapWindows_spec (basePage : Nat) (formed : world.ems.WellFormed)
    (slot : Fin maxEmsHandles) (windows : List (Fin 4)) :
    ∃ after, unmapWindows basePage slot windows world = some after ∧
        after.ems.WellFormed ∧
        ∀ window page, after.ems.frame window = some (slot, page) →
          window ∉ windows ∧ world.ems.frame window = some (slot, page) := by
  induction windows generalizing world with
  | nil => exact ⟨world, rfl, formed, fun _ _ shown => ⟨by simp, shown⟩⟩
  | cons window rest induction =>
    -- the first window no longer shows the handle when the others are unmapped
    have later {middle : EmsWorld} (formed : middle.ems.WellFormed)
        (left : ∀ other page, middle.ems.frame other = some (slot, page) →
          other ≠ window ∧ world.ems.frame other = some (slot, page)) :
        ∃ after, unmapWindows basePage slot rest middle = some after ∧ after.ems.WellFormed ∧
          ∀ other page, after.ems.frame other = some (slot, page) →
            other ∉ window :: rest ∧ world.ems.frame other = some (slot, page) := by
      obtain ⟨after, done, kept, last⟩ := induction formed
      refine ⟨after, done, kept, fun other page mapped => ?_⟩
      obtain ⟨behind, before⟩ := last other page mapped
      obtain ⟨apart, before⟩ := left other page before
      exact ⟨by simp [apart, behind], before⟩
    unfold unmapWindows
    cases shown : world.ems.frame window with
    | none =>
      refine later formed fun other page before => ⟨?_, before⟩
      rintro rfl
      rw [shown] at before
      cases before
    | some entry =>
      obtain ⟨shown_slot, shown_page⟩ := entry
      dsimp only
      split_ifs with same
      · obtain ⟨pages, saved, _⟩ := saveWindow_spec basePage formed window
        rw [saved]
        refine @later ⟨world.ems.setFrame window none, pages⟩ (formed.unmap window)
          fun other page before => ?_
        change (world.ems.setFrame window none).frame other = _ at before
        have apart : other ≠ window := by
          rintro rfl
          rw [EmsState.frame_setFrame_self] at before
          cases before
        rw [EmsState.frame_setFrame_of_ne _ apart] at before
        exact ⟨apart, before⟩
      · refine later formed fun other page before => ⟨?_, before⟩
        rintro rfl
        rw [shown] at before
        cases before
        exact same rfl

/-! ## Several pages at once -/

/-- The bytes of an entry lie outside the page frame. -/
def EntryOutside (basePage array index : Nat) : Prop :=
  ∀ byte < 4, (array + index * 4 + byte) / 4096 < basePage ∨
      basePage + 16 ≤ (array + index * 4 + byte) / 4096

instance (basePage array index : Nat) : Decidable (EntryOutside basePage array index) :=
  inferInstanceAs (Decidable (∀ byte < 4, _ ∨ _))

/-- An entry names a window, and no page or one that the handle has. -/
def EntryFits (count : Nat) (entry : Nat × Nat) : Prop :=
  entry.2 < 4 ∧ (entry.1 = 0xFFFF ∨ entry.1 < count)

instance (count : Nat) (entry : Nat × Nat) : Decidable (EntryFits count entry) :=
  inferInstanceAs (Decidable (_ ∧ _))

theorem mapArray_lt (regs : Regs) : mapArray regs < 0x110000 := by
  have segment : word regs.ds < 2 ^ 16 := Nat.mod_lt _ (by decide)
  have index : word regs.rsi < 2 ^ 16 := Nat.mod_lt _ (by decide)
  unfold mapArray
  omega

/-- Entries outside the page frame are read the same after any mapping. -/
theorem mapEntry_congr {before after : GuestPages} {al array index : Nat}
    (agrees : AgreesOutside basePage before after)
    (outside : EntryOutside basePage array index)
    (low : array < 0x110000) (small : index < 2 ^ 16) :
    mapEntry basePage after al array index = mapEntry basePage before al array index := by
  have same : ∀ byte < 4, after.read (array + index * 4 + byte) =
        before.read (array + index * 4 + byte) := by
    intro byte bound
    have page := outside byte bound
    have whole : (array + index * 4 + byte) % 2 ^ 32 = array + index * 4 + byte :=
      Nat.mod_eq_of_lt (by omega)
    unfold GuestPages.read
    rw [whole]
    refine congrFun (agrees _ ⟨?_, page⟩) _
    unfold emsBackingVpage
    omega
  have first := same 0 (by decide)
  have second := same 1 (by decide)
  have third := same 2 (by decide)
  have fourth := same 3 (by decide)
  simp only [Nat.add_zero] at first
  simp only [mapEntry, GuestPages.readWord, Nat.add_assoc, Nat.reduceAdd]
    at first second third fourth ⊢
  rw [first, second, third, fourth]

theorem emsWindow_of_lt {number : Nat} (small : number < 4) :
    emsWindow number = some ⟨number, small⟩ :=
  dif_pos small

/-- An array of good entries is mapped to its end. -/
theorem mapEntries_spec {al array : Nat} {slot : Fin maxEmsHandles}
    {list indices : List Nat} (low : array < 0x110000)
    (formed : world.ems.WellFormed)
    (known : world.ems.handles slot = some list)
    (good :
      ∀ index ∈ indices, index < 2 ^ 16 ∧
        EntryOutside basePage array index ∧
        EntryFits list.length (mapEntry basePage world.pages al array index)) :
    ∃ after, mapEntries basePage al array slot indices world = some (0, after) ∧
        after.ems.WellFormed := by
  induction indices generalizing world with
  | nil => exact ⟨world, rfl, formed⟩
  | cons index rest induction =>
    obtain ⟨_, _, fits⟩ := good index List.mem_cons_self
    generalize entry : mapEntry basePage world.pages al array index = read at fits
    obtain ⟨logPage, physPage⟩ := read
    obtain ⟨window, page⟩ := fits
    obtain ⟨pages, saved, agrees⟩ := saveWindow_spec basePage formed ⟨physPage, window⟩
    -- later entries are read as before, whatever this one maps
    have later : ∀ {after : EmsWorld}, AgreesOutside basePage world.pages after.pages →
          ∀ index ∈ rest, index < 2 ^ 16 ∧
            EntryOutside basePage array index ∧
            EntryFits list.length (mapEntry basePage after.pages al array index) := by
      intro after same index member
      obtain ⟨small, outside, fits⟩ := good index (List.mem_cons_of_mem _ member)
      rw [mapEntry_congr same outside low small]
      exact ⟨small, outside, fits⟩
    simp only [mapEntries, entry, emsWindow_of_lt window, saved]
    split_ifs with nothing
    · exact induction (formed.unmap _) known (later agrees)
    · have inside : logPage < list.length := page.resolve_left nothing
      simp only [known, Option.bind_some, List.getElem?_eq_getElem inside]
      refine induction (formed.map _ known inside) known (later ?_)
      exact agrees.trans (swapEmsWindow_agrees _ _
        (formed.backed slot list known _ (List.getElem_mem inside)))

/-! ## The law -/

/-- What a call may do. -/
structure EmsLaw (move : Move EmsWorld EmsCall (Option Regs)) : Prop where
  returns : move.answer ≠ none
  mapped :
    ∀ window slot page, move.after.ems.frame window = some (slot, page) →
      ∃ list, move.after.ems.handles slot = some list ∧ page < list.length
  failed : ∀ regs, move.answer = some regs → highByte regs.rax ≠ 0 → move.after = move.before

/-- The entries of a call that maps several pages. -/
def MapsWhole (basePage : Nat) (world : EmsWorld) (regs : Regs) : Prop :=
  ∀ slot ∈ emsSlot (word regs.rdx), ∀ list ∈ world.ems.handles slot,
    let entry := mapEntry basePage world.pages (lowByte regs.rax) (mapArray regs)
    (0 < word regs.rcx ∧ 4 ≤ (entry 0).2) ∨
      ∀ index < word regs.rcx, EntryOutside basePage (mapArray regs) index ∧
          EntryFits list.length (entry index)

instance (basePage : Nat) (world : EmsWorld) (regs : Regs) :
    Decidable (MapsWhole basePage world regs) :=
  inferInstanceAs (Decidable (∀ slot ∈ emsSlot _, ∀ list ∈ world.ems.handles slot, _ ∨ _))

/-- A reallocation leaves every page that a window shows. -/
def KeepsShown (world : EmsWorld) (regs : Regs) : Prop :=
  ∀ slot ∈ emsSlot (word regs.rdx), ∀ window, ∀ shown ∈ world.ems.frame window,
      shown.1 = slot → shown.2 < word regs.rbx

instance (world : EmsWorld) (regs : Regs) : Decidable (KeepsShown world regs) :=
  inferInstanceAs (Decidable (∀ slot ∈ emsSlot _, ∀ window,
        ∀ shown ∈ world.ems.frame window, shown.1 = slot → _))

/-- The calls that keep the law. -/
def EmsOrderly (basePage : Nat) (world : EmsWorld) (call : EmsCall) : Prop :=
  (EmsFunction.ofAh (highByte call.regs.rax) = .mapMultiple → MapsWhole basePage world call.regs) ∧
    (EmsFunction.ofAh (highByte call.regs.rax) = .reallocate → KeepsShown world call.regs)

instance (basePage : Nat) (world : EmsWorld) (call : EmsCall) :
    Decidable (EmsOrderly basePage world call) :=
  inferInstanceAs (Decidable ((_ → MapsWhole _ _ _) ∧ (_ → KeepsShown _ _)))

/-! ## Calls -/

/-- A call that returns, keeps the windows and changes nothing on failure. -/
def Sound (world : EmsWorld) (result : Option (Regs × EmsWorld)) : Prop :=
  ∃ regs after, result = some (regs, after) ∧ after.ems.WellFormed ∧
    (highByte regs.rax ≠ 0 → after = world)

section

variable (formed : world.ems.WellFormed)

include formed

theorem Sound.same (regs : Regs) : Sound world (some (regs, world)) :=
  ⟨regs, world, rfl, formed, fun _ => rfl⟩

omit formed in
theorem Sound.done {regs : Regs} {after : EmsWorld}
    (formed : after.ems.WellFormed) (succeeded : highByte regs.rax = 0) :
    Sound world (some (regs, after)) :=
  ⟨regs, after, rfl, formed, fun failed => absurd succeeded failed⟩

omit formed in
theorem highByte_setAh_zero (regs : Regs) : highByte (regs.setAh 0).rax = 0 :=
  highByte_setHighByte (by decide)

theorem emsAllocate_sound (regs : Regs) : Sound world (some (emsAllocate world regs)) := by
  unfold emsAllocate
  dsimp only
  split
  · rename_i slot found
    have free : world.ems.handles slot = none := by simpa using List.find?_some found
    split_ifs
    · exact .same formed _
    · refine .done ?_ (highByte_setAh_zero regs)
      refine (formed.takePages _).setHandle slot ?_ (world.ems.takePages_backed _)
      intro window page shown
      obtain ⟨list, live, _⟩ := formed.mapped window slot page shown
      rw [free] at live
      cases live
  · exact .same formed _

theorem emsMap_sound (regs : Regs) : Sound world (emsMap basePage world regs) := by
  unfold emsMap
  dsimp only
  cases emsWindow (lowByte regs.rax) with
  | none => exact .same formed _
  | some window =>
    obtain ⟨pages, saved, _⟩ := saveWindow_spec basePage formed window
    dsimp only
    split_ifs
    · rw [saved]
      exact .done (formed.unmap window) (highByte_setAh_zero regs)
    · cases emsSlot (word regs.rdx) with
      | none => exact .same formed _
      | some slot =>
        dsimp only
        cases known : world.ems.handles slot with
        | none => exact .same formed _
        | some list =>
          dsimp only
          cases here : list[word regs.rbx]? with
          | none => exact .same formed _
          | some backing =>
            obtain ⟨inside, _⟩ := List.getElem?_eq_some_iff.mp here
            rw [saved]
            exact .done (formed.map window known inside) (highByte_setAh_zero regs)

theorem emsRelease_sound (regs : Regs) : Sound world (emsRelease basePage world regs) := by
  unfold emsRelease
  cases emsSlot (word regs.rdx) with
  | none => exact .same formed _
  | some slot =>
    dsimp only
    cases world.ems.handles slot with
    | none => exact .same formed _
    | some list =>
      obtain ⟨after, unmapped, kept, left⟩ :=
        unmapWindows_spec basePage formed slot (List.finRange 4)
      rw [unmapped]
      refine .done (kept.setHandle slot ?_ (by simp)) (highByte_setAh_zero regs)
      intro window page shown
      exact absurd (List.mem_finRange window) (left window page shown).1

theorem emsMapMultiple_sound {regs : Regs} (whole : MapsWhole basePage world regs) :
    Sound world (emsMapMultiple basePage world regs) := by
  unfold emsMapMultiple
  cases number : emsSlot (word regs.rdx) with
  | none => exact .same formed _
  | some slot =>
    dsimp only
    cases known : world.ems.handles slot with
    | none => exact .same formed _
    | some list =>
      dsimp only
      rcases whole slot number list known with ⟨some_entry, bad⟩ | good
      · -- the first entry already fails
        obtain ⟨rest, split⟩ : ∃ rest, List.range (word regs.rcx) = 0 :: rest := by
          obtain ⟨count, entries⟩ := Nat.exists_eq_succ_of_ne_zero some_entry.ne'
          exact ⟨_, by rw [entries, List.range_succ_eq_map]⟩
        have nowhere :
            emsWindow (mapEntry basePage world.pages (lowByte regs.rax)
              (mapArray regs) 0).2 = none :=
          dif_neg (by omega)
        simp only [split, mapEntries, nowhere]
        exact .same formed _
      · have small : word regs.rcx < 2 ^ 16 := Nat.mod_lt _ (by decide)
        obtain ⟨after, mapped, kept⟩ :=
          mapEntries_spec (mapArray_lt regs) formed known fun index member =>
              ⟨(List.mem_range.mp member).trans small, good index (List.mem_range.mp member)⟩
        rw [mapped]
        exact .done kept (highByte_setAh_zero regs)

theorem emsReallocate_sound {regs : Regs} (keeps : KeepsShown world regs) :
    Sound world (some (emsReallocate world regs)) := by
  unfold emsReallocate
  dsimp only
  cases number : emsSlot (word regs.rdx) with
  | none => exact .same formed _
  | some slot =>
    dsimp only
    cases known : world.ems.handles slot with
    | none => exact .same formed _
    | some list =>
      have shown_inside : ∀ window page, world.ems.frame window = some (slot, page) →
            page < list.length := by
        intro window page shown
        obtain ⟨found, live, inside⟩ := formed.mapped window slot page shown
        rw [known] at live
        cases live
        exact inside
      have backed := formed.backed slot list known
      dsimp only
      split_ifs with more full
      · exact .same formed _
      · refine .done ?_ (highByte_setAh_zero regs)
        refine (formed.takePages _).setHandle slot ?_ ?_
        · intro window page shown
          rw [Option.getD_some, List.length_append]
          exact Nat.lt_add_right _ (shown_inside window page shown)
        · intro page member
          rcases List.mem_append.mp member with old | new
          · exact backed page old
          · exact world.ems.takePages_backed _ page new
      · refine .done ?_ (highByte_setAh_zero regs)
        refine formed.setHandle slot ?_ fun page member => backed page (List.mem_of_mem_take member)
        intro window page shown
        rw [Option.getD_some, List.length_take]
        exact lt_min (keeps slot number window (slot, page) shown rfl)
          (shown_inside window page shown)

theorem emsMappable_sound (regs : Regs) : Sound world (some (emsMappable basePage world regs)) := by
  unfold emsMappable
  dsimp only
  split_ifs
  · exact .done formed (highByte_setAh_zero regs)
  · exact .same formed _

theorem int67h_sound {call : EmsCall} (orderly : EmsOrderly basePage world call) :
    Sound world (int67h basePage world call) := by
  obtain ⟨maps, reallocates⟩ := orderly
  unfold int67h
  split_ifs
  · exact .same formed _
  · unfold int67hInner
    cases function : EmsFunction.ofAh (highByte call.regs.rax) with
    | status => exact .same formed _
    | frameSegment => exact .same formed _
    | freePages => exact .same formed _
    | allocate => exact emsAllocate_sound formed _
    | map => exact emsMap_sound formed _
    | release => exact emsRelease_sound formed _
    | version => exact .same formed _
    | handleCount => exact .same formed _
    | handlePages => exact .same formed _
    | allPages => exact .done formed (highByte_setAh_zero _)
    | mapMultiple => exact emsMapMultiple_sound formed (maps function)
    | reallocate => exact emsReallocate_sound formed (reallocates function)
    | mappable => exact emsMappable_sound formed _
    | unsupported => exact .same formed _

theorem emsMachine_step {call : EmsCall} (orderly : EmsOrderly basePage world call) :
    (emsMachine basePage world call).2.ems.WellFormed ∧
      EmsLaw ((emsMachine basePage).move world call) := by
  obtain ⟨regs, after, result, kept, failed⟩ := int67h_sound formed orderly
  have step : emsMachine basePage world call = (some regs, after) := by
    simp only [emsMachine, result]
  refine ⟨by rw [step]; exact kept, ?_⟩
  unfold Machine.move
  rw [step]
  refine ⟨by simp, kept.mapped, ?_⟩
  intro answered same code
  cases same
  exact failed code

end

/-- The law holds in every run of orderly calls. -/
theorem ems_windows_sound (basePage : Nat) (start : EmsWorld)
    (formed : start.ems.WellFormed) (calls : List EmsCall)
    (orderly : (emsMachine basePage).Meets (EmsOrderly basePage) start calls) :
    ∀ move ∈ (emsMachine basePage).run start calls, EmsLaw move :=
  Machine.forall_run (fun _ _ kept meets => (emsMachine_step kept meets).1)
    (fun _ _ kept meets => (emsMachine_step kept meets).2) formed orderly

end Driver

/-! ## Runs -/

/-- A guest that has not used the driver, with an array of entries at 0. -/
def untouchedGuest (array : List UInt8) : EmsWorld where
  ems := EmsState.new
  pages page offset := if page = 0 then array.getD offset 0 else 0

/-- A call of INT 67h with registers. -/
def emsCall (ax bx cx dx : Nat) : EmsCall where
  regs := { rax := ax, rbx := bx, rcx := cx, rdx := dx }
  dpmi := false

/-- Allocate, map, map several, reallocate, release. -/
def orderlyCalls : List EmsCall :=
  [emsCall 0x4300 2 0 0, emsCall 0x4401 1 0 0, emsCall 0x5000 0 2 0,
    emsCall 0x5100 2 0 0, emsCall 0x4400 7 0 0, emsCall 0x4500 0 0 0]

theorem orderly_calls_sound :
    ((emsMachine 0xD0).run (untouchedGuest [1, 0, 0, 0, 0, 0, 2, 0]) orderlyCalls).map
        (fun move => move.answer.map fun regs => highByte regs.rax) =
        [some 0, some 0, some 0, some 0, some 0x8A, some 0] ∧
      ∀ move ∈ (emsMachine 0xD0).run (untouchedGuest [1, 0, 0, 0, 0, 0, 2, 0]) orderlyCalls,
        EmsLaw move :=
  ⟨by decide +kernel, ems_windows_sound 0xD0 _ EmsState.WellFormed.new orderlyCalls
      (by decide +kernel)⟩

/-- Two pages, the second one mapped and then cut off. -/
def cuttingCalls : List EmsCall :=
  [emsCall 0x4300 2 0 0, emsCall 0x4400 1 0 0, emsCall 0x5100 1 0 0, emsCall 0x4400 0xFFFF 0 0]

/-- An array whose second entry names a page the handle does not have. -/
def halfMappedCalls : List EmsCall := [emsCall 0x4300 1 0 0, emsCall 0x5000 0 2 0]

/--
After the page a window shows is cut off, unmapping the window stops the
kernel; and an error of a later entry leaves earlier ones mapped.
-/
theorem window_shows_cut_page :
    ((emsMachine 0xD0).run (untouchedGuest []) cuttingCalls).map
        (fun move => move.answer.isSome) = [true, true, true, false] ∧
      (¬ ∀ move ∈ (emsMachine 0xD0).run (untouchedGuest []) cuttingCalls, EmsLaw move) ∧
      ¬ ∀ move ∈ (emsMachine 0xD0).run (untouchedGuest [0, 0, 0, 0, 9, 0, 1, 0]) halfMappedCalls,
          EmsLaw move := by
  refine ⟨by decide +kernel, ?_, ?_⟩
  · intro sound
    have last := sound _ (Machine.last_mem_run (emsMachine 0xD0)
      (untouchedGuest []) (cuttingCalls.take 3) (emsCall 0x4400 0xFFFF 0 0))
    exact last.returns (by decide +kernel)
  · intro sound
    have last := sound _ (Machine.last_mem_run (emsMachine 0xD0)
      (untouchedGuest [0, 0, 0, 0, 9, 0, 1, 0]) (halfMappedCalls.take 1)
      (emsCall 0x5000 0 2 0))
    have same := last.failed { rax := 0x8A00, rcx := 2 } (by decide +kernel) (by decide)
    have shown := congrArg (fun world => world.ems.frame 0) same
    revert shown
    decide +kernel

end RetroOS.Dos
