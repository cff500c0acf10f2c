import RetroOS.Dos.EmsPages
import RetroOS.Dos.EmsWindows

/-!
# Whether free pages of expanded memory can be had

The pages left are counted from the handles, but pages are numbered by a
counter that only goes up.  As long as the counter does not go around, it
keeps the pages of the handles apart; what was released it never hands out
again, although it is reported as free.
-/

namespace RetroOS.Dos

open Lib

namespace EmsState

/-- Every page has a number of its own below the counter. -/
structure Pooled (state : EmsState) : Prop where
  bound : state.nextPage ≤ emsTotalPages
  numbered :
    ∀ slot, ∀ page ∈ state.pagesOf slot,
      ∃ index < state.nextPage, page = emsBackingVpage + index * 4
  apart : ∀ slot other, slot ≠ other → ∀ page ∈ state.pagesOf slot, page ∉ state.pagesOf other
  total : ∑ slot, (state.pagesOf slot).length ≤ state.nextPage

theorem Pooled.new : new.Pooled where
  bound := Nat.zero_le _
  numbered _ _ absurd := by cases absurd
  apart _ _ _ _ absurd := by cases absurd
  total := by simp [pagesOf, EmsState.new]

theorem Pooled.not_mem_takePages {state : EmsState} (pooled : state.Pooled) {count : Nat}
    (room : state.nextPage + count < 2 ^ 16) {slot : Fin maxEmsHandles} {page : Nat}
    (fresh : page ∈ (state.takePages count).1) : page ∉ state.pagesOf slot := by
  intro old
  obtain ⟨index, small, rfl⟩ := List.mem_map.mp fresh
  obtain ⟨number, below, same⟩ := pooled.numbered slot _ old
  have inside := List.mem_range.mp small
  rw [Nat.mod_eq_of_lt (by omega)] at same
  omega

theorem Turns.pooled {regs : Regs} {before after : EmsState} (turns : Turns regs before after)
    (pooled : before.Pooled)
    (room :
      EmsFunction.ofAh (highByte regs.rax) ∈ [.allocate, .reallocate] →
        before.nextPage + word regs.rbx < 2 ^ 16) :
    after.Pooled := by
  cases turns with
  | keeps part free next =>
    refine ⟨next ▸ pooled.bound, fun slot page member => ?_,
      fun slot other distinct page member shared => ?_, ?_⟩
    · rw [next]
      exact pooled.numbered slot page ((part slot).subset member)
    · exact pooled.apart slot other distinct page ((part slot).subset member)
        ((part other).subset shared)
    · rw [next]
      exact (Finset.sum_le_sum fun slot _ => (part slot).length_le).trans pooled.total
  | takes slot count asks few own others next fits =>
    have wide : before.nextPage + count < 2 ^ 16 := by
      have := room asks
      omega
    rw [Nat.mod_eq_of_lt wide] at next
    refine ⟨fits, fun other page member => ?_,
      fun left right distinct page member shared => ?_, ?_⟩
    · rcases mem_pagesOf_takes own others member with old | ⟨_, fresh⟩
      · obtain ⟨index, below, rfl⟩ := pooled.numbered other page old
        exact ⟨index, by omega, rfl⟩
      · obtain ⟨index, small, rfl⟩ := List.mem_map.mp fresh
        have inside := List.mem_range.mp small
        exact ⟨before.nextPage + index, by omega, by rw [Nat.mod_eq_of_lt (by omega)]⟩
    · rcases mem_pagesOf_takes own others member with old | ⟨rfl, fresh⟩
      · rcases mem_pagesOf_takes own others shared with too | ⟨_, fresh⟩
        · exact pooled.apart left right distinct page old too
        · exact pooled.not_mem_takePages wide fresh old
      · rw [others right distinct.symm] at shared
        exact pooled.not_mem_takePages wide fresh shared
    · have rest :
          ∑ other ∈ Finset.univ.erase slot, (after.pagesOf other).length =
            ∑ other ∈ Finset.univ.erase slot, (before.pagesOf other).length :=
        Finset.sum_congr rfl fun other member => by rw [others other (Finset.ne_of_mem_erase member)]
      have more : (after.pagesOf slot).length = (before.pagesOf slot).length + count := by
        simp [own, takePages]
      have whole := pooled.total
      rw [← Finset.add_sum_erase _ _ (Finset.mem_univ slot)] at whole ⊢
      omega

/-! ## What is reported -/

theorem foldl_eq_add_sum {α : Type} {count : Nat → α → Nat} (weight : α → Nat) (limit : Nat)
    (adds : ∀ used item, used + weight item < limit → count used item = used + weight item)
    (items : List α) (used : Nat) (small : used + (items.map weight).sum < limit) :
    items.foldl count used = used + (items.map weight).sum := by
  induction items generalizing used with
  | nil => rfl
  | cons item rest induction =>
    rw [List.map_cons, List.sum_cons, ← add_assoc] at small ⊢
    rw [List.foldl_cons, adds used item (by omega), induction _ small]

theorem Pooled.allocPages_eq {state : EmsState} (pooled : state.Pooled) :
    state.allocPages = emsTotalPages - ∑ slot, (state.pagesOf slot).length := by
  have few := pooled.total.trans pooled.bound
  rw [Fin.sum_univ_def] at few ⊢
  unfold allocPages
  dsimp only
  rw [foldl_eq_add_sum (fun slot => (state.pagesOf slot).length) (2 ^ 16) ?_ _ 0, zero_add]
  · exact (zero_add _).trans_lt (few.trans_lt (by decide))
  · intro used slot small
    unfold pagesOf at small ⊢
    cases known : state.handles slot with
    | none => rfl
    | some pages =>
      rw [known] at small
      exact Nat.mod_eq_of_lt small

end EmsState

/-! ## Requests -/

/-- An allocation of a number of pages would be answered. -/
def EmsWorld.Accepts (world : EmsWorld) (count : Nat) : Prop :=
  highByte (emsAllocate world { rbx := count }).1.rax = 0

theorem emsAllocate_accepts (world : EmsWorld) (regs : Regs) :
    highByte (emsAllocate world regs).1.rax = 0 ↔
      (∃ slot, world.ems.handles slot = none) ∧
        (world.ems.nextPage + word regs.rbx) % 2 ^ 16 ≤ emsTotalPages := by
  unfold emsAllocate
  dsimp only
  split
  · next slot found =>
      have free : ∃ slot, world.ems.handles slot = none :=
        ⟨slot, by simpa using List.find?_some found⟩
      rw [iff_true_intro free, true_and]
      split_ifs with full
      · exact iff_of_false (by simp [Regs.setAh]) full.not_ge
      · exact iff_of_true (by simp [Regs.setAh]) (not_lt.mp full)
  · next taken =>
      have full : ∀ slot, world.ems.handles slot ≠ none := by simpa using taken
      simp [Regs.setAh, full]

/-- What a guest may expect of the pages that are free. -/
structure EmsPoolLaw (move : Move EmsWorld EmsCall (Option Regs)) : Prop where
  reported :
    EmsFunction.ofAh (highByte move.input.regs.rax) = .allocate → move.input.dpmi = false →
      (∃ slot, move.before.ems.handles slot = none) →
      ∃ answer ∈ move.answer,
        highByte answer.rax = 0 ↔ word move.input.regs.rbx ≤ move.before.ems.allocPages
  apart :
    ∀ slot other, slot ≠ other →
      ∀ page ∈ move.after.ems.pagesOf slot, page ∉ move.after.ems.pagesOf other
  inside :
    ∀ slot, ∀ page ∈ move.after.ems.pagesOf slot,
      ∃ index < emsTotalPages, page = emsBackingVpage + index * 4
  released :
    EmsFunction.ofAh (highByte move.input.regs.rax) = .release →
      ∀ slot, emsSlot (word move.input.regs.rdx) = some slot →
      ∀ count, move.before.Accepts count →
        move.after.Accepts (count + (move.before.ems.pagesOf slot).length)

/--
A request does not go around the counter, an allocation asks for what the
counter has left or for more than is free, and only handles without pages are
released.
-/
def EmsFrugal (world : EmsWorld) (call : EmsCall) : Prop :=
  let function := EmsFunction.ofAh (highByte call.regs.rax)
  (function ∈ [.allocate, .reallocate] → world.ems.nextPage + word call.regs.rbx < 2 ^ 16) ∧
    (function = .allocate →
      word call.regs.rbx ≤ emsTotalPages - world.ems.nextPage ∨
        world.ems.allocPages < word call.regs.rbx) ∧
    (function = .release →
      ∀ slot ∈ emsSlot (word call.regs.rdx), world.ems.pagesOf slot = [])

instance (world : EmsWorld) (call : EmsCall) : Decidable (EmsFrugal world call) :=
  inferInstanceAs (Decidable (_ ∧ _ ∧ _))

section Driver

variable {basePage : Nat} {world : EmsWorld} {call : EmsCall}

theorem accepts_after_release (frugal : EmsFrugal world call)
    (function : EmsFunction.ofAh (highByte call.regs.rax) = .release)
    {slot : Fin maxEmsHandles} (named : emsSlot (word call.regs.rdx) = some slot)
    {count : Nat} (accepts : world.Accepts count) :
    (emsMachine basePage world call).2.Accepts (count + (world.ems.pagesOf slot).length) := by
  rw [frugal.2.2 function slot named, List.length_nil, add_zero]
  obtain ⟨⟨other, free⟩, room⟩ := (emsAllocate_accepts world _).mp accepts
  apply (emsAllocate_accepts _ _).mpr
  cases @emsMachine_turns basePage world call with
  | keeps part kept next => exact ⟨⟨other, kept other free⟩, next ▸ room⟩
  | takes slot count asks => simp [function] at asks

theorem emsPoolLaw_move (pooled : world.ems.Pooled) (frugal : EmsFrugal world call) :
    EmsPoolLaw ((emsMachine basePage).move world call) where
  reported := by
    intro (function : EmsFunction.ofAh (highByte call.regs.rax) = .allocate)
      (real : call.dpmi = false) (free : ∃ slot, world.ems.handles slot = none)
    refine ⟨(emsAllocate world call.regs).1, ?_, ?_⟩
    · simp [Machine.move, emsMachine, int67h, int67hInner, real, function]
    · have wide := frugal.1 (by simp [function])
      have asked := frugal.2.1 function
      have total := pooled.total
      rw [emsAllocate_accepts, Nat.mod_eq_of_lt wide]
      change (∃ slot, world.ems.handles slot = none) ∧ _ ↔
        word call.regs.rbx ≤ world.ems.allocPages
      rw [pooled.allocPages_eq] at asked ⊢
      have bound := pooled.bound
      rw [iff_true_intro free, true_and]
      omega
  apart := ((emsMachine_turns world call).pooled pooled frugal.1).apart
  inside := by
    intro slot page member
    have after := (@emsMachine_turns basePage world call).pooled pooled frugal.1
    obtain ⟨index, below, rfl⟩ := after.numbered slot page member
    exact ⟨index, below.trans_le after.bound, rfl⟩
  released function _ named _ accepts := accepts_after_release frugal function named accepts

end Driver

/-- Two handles, the second one grown, a request for too much and an empty handle released. -/
def frugalCalls : List EmsCall :=
  [emsCall 0x4300 2 0 0, emsCall 0x4300 250 0 0, emsCall 0x5100 254 0 1, emsCall 0x4300 1 0 0,
    emsCall 0x4300 0 0 0, emsCall 0x4500 0 0 2]

end RetroOS.Dos
