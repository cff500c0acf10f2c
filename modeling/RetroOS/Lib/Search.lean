import Mathlib.Tactic
import Mathlib.Data.List.MinMax
import Mathlib.Data.Finset.Card

/-!
# Searching

Binary search in a sorted list halves a window until one position is left and
then compares once.  Where a key occurs several times, any of its positions
may be found.

The other search is for the first number whose name is not taken.  With fewer
names taken than there are numbers, it succeeds.
-/

namespace RetroOS.Lib

/-- Bytes are ordered as numbers. -/
instance byteOrder : LinearOrder UInt8 where
  le_refl := UInt8.le_refl
  le_trans _ _ _ := UInt8.le_trans
  le_antisymm _ _ := UInt8.le_antisymm
  le_total := UInt8.le_total
  lt_iff_le_not_ge _ _ := by
    simp only [UInt8.lt_iff_toNat_lt, UInt8.le_iff_toNat_le]
    omega
  toDecidableLE := inferInstance
  min_def _ _ := rfl
  max_def _ _ := rfl

/-! ## Binary search -/

section BinarySearch

variable {κ : Type} [LinearOrder κ]

/-- Halve the window of `size` positions from `base` on. -/
def narrow (keys : List κ) (key : κ) : (fuel base size : Nat) → Nat
  | 0, base, _ => base
  | fuel + 1, base, size =>
    if 1 < size then
      narrow keys key fuel (if keys[base + size / 2]?.any (key < ·) then base else base + size / 2)
        (size - size / 2)
    else base

def binarySearch (keys : List κ) (key : κ) : Option Nat :=
  let position := narrow keys key keys.length 0 keys.length
  if keys[position]? = some key then some position else none

variable {keys : List κ}

theorem le_of_getElem? (sorted : keys.Pairwise (· ≤ ·))
    {i j : Nat} {lower upper : κ} (before : i ≤ j)
    (foundLower : keys[i]? = some lower)
    (foundUpper : keys[j]? = some upper) : lower ≤ upper := by
  obtain ⟨_, rfl⟩ := List.getElem?_eq_some_iff.mp foundLower
  obtain ⟨_, rfl⟩ := List.getElem?_eq_some_iff.mp foundUpper
  rcases Nat.eq_or_lt_of_le before with rfl | before
  · exact le_rfl
  · exact List.pairwise_iff_getElem.mp sorted i j _ _ before

/-- A window with the key in it is narrowed to a position of the key. -/
theorem getElem?_narrow {key : κ} (sorted : keys.Pairwise (· ≤ ·)) {fuel base size : Nat}
    (enough : size ≤ fuel + 1) (window : base + size ≤ keys.length)
    (inside : ∃ index, base ≤ index ∧ index < base + size ∧ keys[index]? = some key) :
    keys[narrow keys key fuel base size]? = some key := by
  induction fuel generalizing base size with
  | zero =>
    obtain ⟨index, above, below, found⟩ := inside
    have only : index = base := by omega
    exact only ▸ found
  | succ fuel induction =>
    obtain ⟨index, above, below, found⟩ := inside
    unfold narrow
    by_cases large : 1 < size
    · rw [if_pos large]
      have shorter : size - size / 2 ≤ fuel + 1 := by omega
      obtain ⟨probe, middle⟩ : ∃ probe, keys[base + size / 2]? = some probe :=
        ⟨_, List.getElem?_eq_getElem (by omega)⟩
      simp only [middle, Option.any_some, decide_eq_true_eq]
      by_cases less : key < probe
      · rw [if_pos less]
        have before : index < base + size / 2 := by
          by_contra notBefore
          exact absurd (le_of_getElem? sorted (not_lt.mp notBefore) middle found) (not_le.mpr less)
        exact induction shorter (by omega) ⟨index, above, by omega, found⟩
      · rw [if_neg less]
        by_cases before : index < base + size / 2
        · have same : probe = key :=
            le_antisymm (not_lt.mp less) (le_of_getElem? sorted before.le found middle)
          exact induction shorter (by omega) ⟨base + size / 2, le_rfl, by omega, same ▸ middle⟩
        · exact induction shorter (by omega) ⟨index, not_lt.mp before, by omega, found⟩
    · rw [if_neg large]
      have only : index = base := by omega
      exact only ▸ found

/-- What binary search finds is there. -/
theorem getElem?_of_binarySearch {key : κ} {index : Nat}
    (found : binarySearch keys key = some index) :
    keys[index]? = some key := by
  unfold binarySearch at found
  dsimp only at found
  split_ifs at found with there
  obtain rfl := Option.some.inj found
  exact there

/-- In a sorted list, a key that is there is found. -/
theorem binarySearch_of_mem {key : κ} (sorted : keys.Pairwise (· ≤ ·)) (member : key ∈ keys) :
    ∃ index, binarySearch keys key = some index := by
  obtain ⟨index, found⟩ := List.mem_iff_getElem?.mp member
  have below := (List.getElem?_eq_some_iff.mp found).1
  refine ⟨narrow keys key keys.length 0 keys.length, if_pos ?_⟩
  exact getElem?_narrow sorted (Nat.le_succ _) (by omega) ⟨index, Nat.zero_le _, by omega, found⟩

end BinarySearch

/-! ## The first free number -/

section FirstFree

variable {α : Type} [DecidableEq α]

/-- The first of the numbers from 1 to `limit` whose name is not taken. -/
def firstFree (name : Nat → α) (taken : List α) (limit : Nat) : Option Nat :=
  (List.range' 1 limit).find? fun number => name number ∉ taken

variable {name : Nat → α}

theorem firstFree_spec {taken : List α}
    {limit number : Nat} (found : firstFree name taken limit = some number) :
    1 ≤ number ∧ number ≤ limit ∧ name number ∉ taken := by
  obtain ⟨free, member, _⟩ := List.find?_range'_eq_some.mp found
  have range := List.mem_range'_1.mp member
  exact ⟨range.1, by omega, of_decide_eq_true free⟩

/-- Fewer names than numbers leave one free. -/
theorem firstFree_isSome {taken : List α} {limit : Nat}
    (injective : ∀ i j, 1 ≤ i → 1 ≤ j → i ≤ limit → j ≤ limit → name i = name j → i = j)
    (few : taken.length < limit) :
    ∃ number, firstFree name taken limit = some number := by
  refine Option.ne_none_iff_exists'.mp fun none => ?_
  have all := List.find?_range'_eq_none.mp none
  have inside : (Finset.Icc 1 limit).image name ⊆ taken.toFinset := by
    intro value member
    obtain ⟨number, range, rfl⟩ := Finset.mem_image.mp member
    obtain ⟨one, upper⟩ := Finset.mem_Icc.mp range
    simpa using all number one (by omega)
  have count : ((Finset.Icc 1 limit).image name).card = limit := by
    rw [Finset.card_image_of_injOn, Nat.card_Icc, Nat.add_sub_cancel]
    intro i iRange j jRange same
    obtain ⟨iOne, iLimit⟩ := Finset.mem_Icc.mp iRange
    obtain ⟨jOne, jLimit⟩ := Finset.mem_Icc.mp jRange
    exact injective i j iOne jOne iLimit jLimit same
  have bound := (Finset.card_le_card inside).trans taken.toFinset_card_le
  omega

/-- With the first so many names taken, the next number is free. -/
theorem firstFree_succ {limit count : Nat}
    (injective : ∀ i j, 1 ≤ i → 1 ≤ j → i ≤ limit → j ≤ limit → name i = name j → i = j)
    (small : count < limit) :
    firstFree name ((List.range' 1 count).map name) limit = some (count + 1) := by
  refine List.find?_range'_eq_some.mpr ⟨?_, ?_, fun j one below => ?_⟩
  · simp only [List.mem_map, List.mem_range'_1, not_exists, not_and, decide_eq_true_eq]
    intro i range same
    have equal := injective i (count + 1) range.1 (by omega) (by omega) (by omega) same
    omega
  · exact List.mem_range'_1.mpr ⟨by omega, by omega⟩
  · simp only [decide_not, Bool.not_not, decide_eq_true_eq]
    exact List.mem_map_of_mem (List.mem_range'_1.mpr ⟨one, by omega⟩)

/-- With all names taken there is no free number. -/
theorem firstFree_eq_none {limit : Nat} :
    firstFree name ((List.range' 1 limit).map name) limit = none := by
  refine List.find?_range'_eq_none.mpr fun number one below => ?_
  simp only [decide_not, Bool.not_not, decide_eq_true_eq]
  exact List.mem_map_of_mem (List.mem_range'_1.mpr ⟨one, below⟩)

end FirstFree

end RetroOS.Lib
