import Mathlib.Tactic

/-!
# Reference counts

A table has rows of slots, and a slot may refer to a key.  A count is exact
when it gives, for every key, the number of slots that refer to it and what
is held outside of the table.

Each rule says which change of the counts goes with a change of the table, in
the form "new count plus what the table lost is old count plus what it won".
-/

namespace RetroOS.Lib

open Finset
open Function (update update_of_ne update_self)

variable {ρ χ κ : Type} [DecidableEq κ]

/-- One for a slot that refers to a key, zero for any other. -/
def refersTo (slot : Option κ) (key : κ) : Nat := if slot = some key then 1 else 0

@[simp]
theorem refersTo_none (key : κ) : refersTo none key = 0 := rfl

@[simp]
theorem refersTo_some (key other : κ) :
    refersTo (some key) other = if key = other then 1 else 0 := by
  simp [refersTo]

/-- How many slots of a row refer to a key. -/
def refsIn (slots : Finset χ) (row : χ → Option κ) (key : κ) : Nat :=
  ∑ slot ∈ slots, refersTo (row slot) key

/-- How many slots of a table refer to a key. -/
def refsOver (rows : Finset ρ) (slots : Finset χ) (table : ρ → χ → Option κ) (key : κ) : Nat :=
  ∑ row ∈ rows, refsIn slots (table row) key

variable {slots : Finset χ}

theorem refsIn_congr {row other : χ → Option κ}
    (same : ∀ slot ∈ slots, row slot = other slot) (key : κ) :
    refsIn slots row key = refsIn slots other key :=
  sum_congr rfl fun slot inside => by rw [same slot inside]

theorem refsOver_congr {rows : Finset ρ} {table other : ρ → χ → Option κ}
    (same : ∀ row ∈ rows, ∀ slot ∈ slots, table row slot = other row slot)
    (key : κ) :
    refsOver rows slots table key = refsOver rows slots other key :=
  sum_congr rfl fun row inside => refsIn_congr (same row inside) key

theorem refsIn_eq_zero {row : χ → Option κ} {key : κ} :
    refsIn slots row key = 0 ↔ ∀ slot ∈ slots, row slot ≠ some key := by
  simp [refsIn, refersTo]

theorem refsOver_eq_zero {rows : Finset ρ} {table : ρ → χ → Option κ} {key : κ} :
    refsOver rows slots table key = 0 ↔
      ∀ row ∈ rows, ∀ slot ∈ slots, table row slot ≠ some key := by
  simp [refsOver, sum_eq_zero_iff, refsIn_eq_zero]

/-- Replacing one slot of a row. -/
theorem refsIn_update [DecidableEq χ] {slot : χ} (inside : slot ∈ slots)
    (row : χ → Option κ) (new : Option κ) (key : κ) :
    refsIn slots (update row slot new) key + refersTo (row slot) key =
      refsIn slots row key + refersTo new key := by
  unfold refsIn
  rw [← add_sum_erase slots _ inside, ← add_sum_erase slots _ inside]
  have rest :
      ∑ other ∈ slots.erase slot, refersTo (update row slot new other) key =
        ∑ other ∈ slots.erase slot, refersTo (row other) key :=
    sum_congr rfl fun other member => by
      rw [update_of_ne (ne_of_mem_erase member)]
  rw [rest, update_self]
  omega

/-- Replacing one row of a table. -/
theorem refsOver_update [DecidableEq ρ] {rows : Finset ρ} {row : ρ} (inside : row ∈ rows)
    (slots : Finset χ) (table : ρ → χ → Option κ) (new : χ → Option κ)
    (key : κ) :
    refsOver rows slots (update table row new) key + refsIn slots (table row) key =
      refsOver rows slots table key + refsIn slots new key := by
  unfold refsOver
  rw [← add_sum_erase rows _ inside, ← add_sum_erase rows _ inside]
  have rest :
      ∑ other ∈ rows.erase row, refsIn slots (update table row new other) key =
        ∑ other ∈ rows.erase row, refsIn slots (table other) key :=
    sum_congr rfl fun other member => by
      rw [update_of_ne (ne_of_mem_erase member)]
  rw [rest, update_self]
  omega

/-- The references of a row whose slots are numbered. -/
theorem refsIn_range (count : Nat) (row : Nat → Option κ) (key : κ) :
    refsIn (range count) row key = (List.range count).countP fun slot => row slot = some key := by
  induction count with
  | zero => rfl
  | succ count induction =>
    rw [List.range_succ, List.countP_append, ← induction, refsIn, sum_range_succ, refsIn]
    simp [refersTo]

/-! ## Exact counts -/

/-- The counts are what the table and the holders outside of it refer to. -/
def Exact (rows : Finset ρ) (slots : Finset χ)
    (table : ρ → χ → Option κ) (held count : κ → Nat) : Prop :=
  ∀ key, count key = refsOver rows slots table key + held key

namespace Exact

variable {rows : Finset ρ} {slots : Finset χ} {table : ρ → χ → Option κ}
    {held count : κ → Nat} (exact : Exact rows slots table held count)

include exact

/-- A slot that refers to a key keeps its count above zero. -/
theorem pos {row : ρ} {slot : χ} {key : κ} (rowIn : row ∈ rows)
    (slotIn : slot ∈ slots) (refers : table row slot = some key) :
    0 < count key := by
  rw [exact key]
  by_contra zero
  have none : refsOver rows slots table key = 0 := by omega
  exact refsOver_eq_zero.mp none row rowIn slot slotIn refers

/-- A count is zero when nobody refers to the key. -/
theorem eq_zero_iff {key : κ} (free : held key = 0) :
    count key = 0 ↔ ∀ row ∈ rows, ∀ slot ∈ slots, table row slot ≠ some key := by
  rw [exact key, free, Nat.add_zero, refsOver_eq_zero]

/-- Only the slots of the table matter. -/
theorem congr {other : ρ → χ → Option κ} (same :
      ∀ row ∈ rows, ∀ slot ∈ slots, table row slot = other row slot) :
    Exact rows slots other held count := by
  intro key
  rw [exact key, refsOver_congr same]

/-- A row is replaced, and the counts follow. -/
theorem setRow [DecidableEq ρ] {row : ρ} {new : χ → Option κ} {after : κ → Nat}
    (inside : row ∈ rows)
    (follows : ∀ key, after key + refsIn slots (table row) key = count key + refsIn slots new key) :
    Exact rows slots (update table row new) held after := by
  intro key
  have change := refsOver_update inside slots table new key
  have before := exact key
  have step := follows key
  omega

/-- A slot is replaced, and the counts follow. -/
theorem setSlot [DecidableEq ρ] [DecidableEq χ] {row : ρ} {slot : χ}
    {new : Option κ} {after : κ → Nat}
    (rowIn : row ∈ rows) (slotIn : slot ∈ slots)
    (follows : ∀ key, after key + refersTo (table row slot) key = count key + refersTo new key) :
    Exact rows slots (update table row (update (table row) slot new)) held after := by
  refine exact.setRow rowIn fun key => ?_
  have change := refsIn_update slotIn (table row) new key
  have step := follows key
  omega

end Exact

theorem refsOver_insert [DecidableEq ρ] {rows : Finset ρ} {row : ρ}
    (new : row ∉ rows) (slots : Finset χ) (table : ρ → χ → Option κ)
    (key : κ) :
    refsOver (insert row rows) slots table key =
      refsIn slots (table row) key + refsOver rows slots table key :=
  sum_insert new

/-! ## References on their way

A reference that is taken before it is put into a slot, or taken out of its
slot before it is given up, is held outside of the table for a while.
-/

/-- What is held with one more reference. -/
def holdAlso (held : κ → Nat) (reference : Option κ) (key : κ) : Nat :=
  held key + refersTo reference key

@[simp]
theorem holdAlso_none (held : κ → Nat) : holdAlso held none = held := by
  funext key
  simp [holdAlso]

theorem holdAlso_comm (held : κ → Nat) (first second : Option κ) :
    holdAlso (holdAlso held first) second = holdAlso (holdAlso held second) first := by
  funext key
  simp only [holdAlso]
  omega

namespace Exact

variable {rows : Finset ρ} {slots : Finset χ} {table : ρ → χ → Option κ}
    {held count after : κ → Nat} {reference : Option κ}

/-- A reference is added to the counts and held. -/
theorem acquire (exact : Exact rows slots table held count)
    (counts : ∀ key, after key = count key + refersTo reference key) :
    Exact rows slots table (holdAlso held reference) after := by
  intro key
  rw [counts key, exact key, holdAlso]
  omega

/-- A held reference is taken from the counts. -/
theorem discard (exact : Exact rows slots table (holdAlso held reference) count)
    (counts : ∀ key, after key + refersTo reference key = count key) :
    Exact rows slots table held after := by
  intro key
  have before := exact key
  have change := counts key
  simp only [holdAlso] at before
  omega

theorem pos_of_held {key : κ} (exact : Exact rows slots table (holdAlso held (some key)) count) :
    0 < count key := by
  rw [exact key, holdAlso, refersTo_some, if_pos rfl]
  omega

variable [DecidableEq ρ] [DecidableEq χ] {row : ρ} {slot : χ}

/-- A held reference is put into an empty slot. -/
theorem place (exact : Exact rows slots table (holdAlso held reference) count)
    (rowIn : row ∈ rows) (slotIn : slot ∈ slots)
    (empty : table row slot = none) :
    Exact rows slots (update table row (update (table row) slot reference)) held count := by
  intro key
  have change := refsOver_update rowIn slots table (update (table row) slot reference) key
  have inRow := refsIn_update slotIn (table row) reference key
  have before := exact key
  rw [empty, refersTo_none] at inRow
  simp only [holdAlso] at before
  omega

end Exact

end RetroOS.Lib
