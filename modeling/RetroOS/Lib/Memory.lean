import Mathlib.Tactic

/-!
# Copies inside a memory

A memory gives a value for every address.  A copy inside it goes cell by
cell, in an order the caller chooses.  `copy_target` and `copy_other`: when
no cell is read after it was written, the copy leaves at every target what
its source held at the start, and everything else as it was.

`moved` is such a copy between two ranges as one would state it: the source
is read first.  Two ranges may overlap when the order follows the direction.
-/

namespace RetroOS.Lib

/-- A value for every address. -/
abbrev Memory (α : Type) : Type := Nat → α

namespace Memory

variable {α : Type}

/-- The values of a range of addresses. -/
def load (memory : Memory α) (start length : Nat) : List α :=
  (List.range length).map fun index => memory (start + index)

/-- A list written from an address on. -/
def store (memory : Memory α) (start : Nat) (values : List α) : Memory α :=
  fun address =>
    if start ≤ address then values[address - start]?.getD (memory address) else memory address

@[simp]
theorem store_nil (memory : Memory α) (start : Nat) : memory.store start [] = memory := by
  funext address
  simp [store]

@[simp]
theorem load_store (memory : Memory α) (start : Nat) (values : List α) :
    (memory.store start values).load start values.length = values := by
  apply List.ext_getElem
  · simp [load]
  · intro index _ inside
    simp [load, store, inside]

/-- A store inside the range of an earlier one, or right behind it. -/
theorem store_store (memory : Memory α) (start : Nat) (first old values : List α) :
    (memory.store start (first ++ old)).store (start + first.length) values =
      memory.store start (first ++ (values ++ old.drop values.length)) := by
  funext address
  unfold store
  by_cases inside : start + first.length ≤ address
  · obtain ⟨index, rfl⟩ := Nat.exists_eq_add_of_le inside
    have low : start ≤ start + first.length + index := by omega
    have place : start + first.length + index - start = first.length + index := by omega
    simp only [inside, low, if_true, Nat.add_sub_cancel_left, place]
    rw [List.getElem?_append_right (Nat.le_add_right _ _),
      List.getElem?_append_right (Nat.le_add_right _ _), Nat.add_sub_cancel_left]
    by_cases written : index < values.length
    · simp [List.getElem?_append_left written, written]
    · rw [List.getElem?_append_right (by omega), List.getElem?_eq_none (by omega),
        List.getElem?_drop, Option.getD_none]
      congr 2
      omega
  · rw [if_neg inside]
    by_cases low : start ≤ address
    · rw [if_pos low, if_pos low, List.getElem?_append_left (by omega),
        List.getElem?_append_left (by omega)]
    · rw [if_neg low, if_neg low]

theorem store_append (memory : Memory α) (start : Nat) (first second : List α) :
    (memory.store start first).store (start + first.length) second =
      memory.store start (first ++ second) := by
  simpa using memory.store_store start first [] second

variable (source target : Nat → Nat)

def copyCell (memory : Memory α) (index : Nat) : Memory α :=
  Function.update memory (target index) (memory (source index))

/-- Copy the cells of some indices, in their order. -/
def copy (indices : List Nat) (memory : Memory α) : Memory α :=
  indices.foldl (copyCell source target) memory

/-- A range copied as if it were read first. -/
def moved (memory : Memory α) (origin destination length : Nat) : Memory α :=
  fun address =>
    if destination ≤ address ∧ address < destination + length then
      memory (origin + (address - destination))
    else memory address

variable {source target} {indices : List Nat}

/-- Addresses that are no target keep their value. -/
theorem copy_other (memory : Memory α) {address : Nat}
    (other : ∀ index ∈ indices, target index ≠ address) :
    copy source target indices memory address = memory address := by
  induction indices generalizing memory with
  | nil => rfl
  | cons index rest induction =>
    have here := other index List.mem_cons_self
    refine (induction _ fun later member => other later (List.mem_cons_of_mem _ member)).trans ?_
    exact Function.update_of_ne here.symm _ _

/-- Every target gets what its source held at the start. -/
theorem copy_target (memory : Memory α) (unread :
      indices.Pairwise fun earlier later => target earlier ≠ source later)
    (distinct : indices.Pairwise fun earlier later => target earlier ≠ target later)
    {index : Nat} (member : index ∈ indices) :
    copy source target indices memory (target index) = memory (source index) := by
  induction indices generalizing memory with
  | nil => cases member
  | cons first rest induction =>
    obtain ⟨unread_first, unread_rest⟩ := List.pairwise_cons.mp unread
    obtain ⟨distinct_first, distinct_rest⟩ := List.pairwise_cons.mp distinct
    rcases List.mem_cons.mp member with rfl | later
    · refine (copy_other _ fun other inside =>
        (distinct_first other inside).symm).trans ?_
      exact Function.update_self _ _ _
    · refine (induction _ unread_rest distinct_rest later).trans ?_
      exact Function.update_of_ne (unread_first index later).symm _ _

section Ranges

variable {origin destination length : Nat}
    (sources : ∀ index < length, source index = origin + index)
    (targets : ∀ index < length, target index = destination + index)

include sources targets

/-- A copy of a range in an order that reads no cell it has written. -/
theorem copy_eq_moved (memory : Memory α) (covers : ∀ index, index ∈ indices ↔ index < length)
    (nodup : indices.Nodup)
    (unread : indices.Pairwise fun earlier later => target earlier ≠ source later) :
    copy source target indices memory = moved memory origin destination length := by
  have distinct :
      indices.Pairwise fun earlier later =>
        target earlier ≠ target later := by
    refine nodup.imp_of_mem fun {earlier later} first second apart => ?_
    rw [targets _ ((covers _).mp first), targets _ ((covers _).mp second)]
    omega
  funext address
  unfold moved
  split_ifs with inside
  · have bound : address - destination < length := by omega
    have value := copy_target memory unread distinct ((covers _).mpr bound)
    rw [targets _ bound, sources _ bound] at value
    rwa [show destination + (address - destination) = address by omega] at value
  · refine copy_other memory fun index member same => inside ?_
    have bound := (covers _).mp member
    rw [targets _ bound] at same
    omega

/-- A copy to lower addresses goes forward. -/
theorem copy_range (memory : Memory α)
    (apart : destination ≤ origin ∨ origin + length ≤ destination) :
    copy source target (List.range length) memory = moved memory origin destination length := by
  refine copy_eq_moved sources targets memory (fun _ => List.mem_range) List.nodup_range ?_
  refine List.pairwise_lt_range.imp_of_mem fun first second less => ?_
  have bound := List.mem_range.mp second
  rw [targets _ (List.mem_range.mp first), sources _ bound]
  omega

/-- A copy to higher addresses goes backward. -/
theorem copy_reverse_range (memory : Memory α) (up : origin ≤ destination) :
    copy source target (List.range length).reverse memory =
      moved memory origin destination length := by
  refine copy_eq_moved sources targets memory (by simp) (List.nodup_reverse.mpr List.nodup_range) ?_
  refine List.pairwise_reverse.mpr ?_
  refine List.pairwise_lt_range.imp_of_mem fun first second less => ?_
  rw [targets _ (List.mem_range.mp second), sources _ (List.mem_range.mp first)]
  omega

end Ranges

end Memory

end RetroOS.Lib
