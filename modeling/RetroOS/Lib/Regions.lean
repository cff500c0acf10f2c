import Mathlib.Tactic
import Mathlib.Order.CompletePartialOrder
import Mathlib.Order.Interval.Set.Disjoint

/-!
# Regions of an address space

A region is a half-open interval of addresses.  A list of regions stands for
the set of addresses it covers, its `space`; `Gap` says that one region ends
before the next one starts, with room between them.  Sorted, disjoint and
without neighbours that touch is then `Pairwise Gap`.
-/

namespace RetroOS.Lib

structure Region where
  addr : Nat
  size : Nat
  deriving DecidableEq

namespace Region

variable {first second : Region}

/-- The first address behind a region. -/
def stop (region : Region) : Nat := region.addr + region.size

def extent (region : Region) : Set Nat := Set.Ico region.addr region.stop

theorem mem_extent {region : Region} {address : Nat} :
    address ∈ region.extent ↔ region.addr ≤ address ∧ address < region.stop :=
  Set.mem_Ico

theorem addr_mem {region : Region} (nonempty : 0 < region.size) : region.addr ∈ region.extent :=
  mem_extent.mpr ⟨le_rfl, Nat.lt_add_of_pos_right nonempty⟩

/-- The first region ends before the second starts. -/
def Gap (first second : Region) : Prop := first.stop < second.addr

/-- Of two disjoint regions one comes first. -/
theorem ordered_of_disjoint (nonempty : 0 < first.size) (some : 0 < second.size)
    (disjoint : Disjoint first.extent second.extent) :
    first.stop ≤ second.addr ∨ second.stop ≤ first.addr := by
  have apart := Set.Ico_disjoint_Ico.mp disjoint
  unfold stop at apart ⊢
  omega

theorem disjoint_of_le (before : first.stop ≤ second.addr) :
    Disjoint first.extent second.extent := by
  refine Set.Ico_disjoint_Ico.mpr ?_
  exact (min_le_left _ _).trans (before.trans (le_max_right _ _))

/-- Regions that share no address, as arithmetic. -/
def Apart (first second : Region) : Prop :=
  first.stop ≤ second.addr ∨ second.stop ≤ first.addr ∨ first.size = 0 ∨ second.size = 0

instance : Decidable (Apart first second) := by
  unfold Apart
  infer_instance

theorem disjoint_extent_iff : Disjoint first.extent second.extent ↔ Apart first second := by
  rw [extent, extent, Set.Ico_disjoint_Ico]
  unfold Apart stop
  omega

/-- Two regions that touch, as one. -/
def join (first second : Region) : Region := { first with size := first.size + second.size }

@[simp]
theorem addr_join : (first.join second).addr = first.addr := rfl

@[simp]
theorem size_join : (first.join second).size = first.size + second.size := rfl

theorem stop_join (touch : first.stop = second.addr) : (first.join second).stop = second.stop := by
  unfold stop at touch ⊢
  simp only [addr_join, size_join]
  omega

theorem extent_join (touch : first.stop = second.addr) :
    (first.join second).extent = first.extent ∪ second.extent := by
  have lower : first.addr ≤ first.stop := Nat.le_add_right _ _
  have upper : first.stop ≤ second.stop := touch ▸ Nat.le_add_right _ _
  unfold extent
  rw [addr_join, stop_join touch, ← touch, Set.Ico_union_Ico_eq_Ico lower upper]

end Region

/-- The addresses that a list of regions covers. -/
def space (regions : List Region) : Set Nat :=
  {address | ∃ region ∈ regions, address ∈ region.extent}

section Space

variable {regions others : List Region} {region : Region}

@[simp]
theorem space_nil : space [] = ∅ := by
  ext address
  simp [space]

@[simp]
theorem space_cons : space (region :: regions) = region.extent ∪ space regions := by
  ext address
  simp [space]

@[simp]
theorem space_append : space (regions ++ others) = space regions ∪ space others := by
  ext address
  simp [space, or_and_right, exists_or]

theorem extent_subset_space (member : region ∈ regions) : region.extent ⊆ space regions :=
  fun _ inside => ⟨region, member, inside⟩

/-- Regions inside the space behind a gap are behind the gap. -/
theorem gap_of_space_subset {front : Region} (gaps : ∀ region ∈ regions, front.Gap region)
    (inside : space others ⊆ space regions) (member : region ∈ others)
    (nonempty : 0 < region.size) : front.Gap region := by
  obtain ⟨home, kept, covered⟩ := inside ⟨region, member, Region.addr_mem nonempty⟩
  have lower := (Region.mem_extent.mp covered).1
  have gap := gaps home kept
  unfold Region.Gap at gap ⊢
  omega

/-- A region in front of a gap misses the space behind it. -/
theorem disjoint_space {front : Region} (gaps : ∀ region ∈ regions, front.Gap region) :
    Disjoint front.extent (space regions) := by
  refine Set.disjoint_left.mpr ?_
  rintro address inside ⟨region, member, covered⟩
  have gap := gaps region member
  have upper := (Region.mem_extent.mp inside).2
  have lower := (Region.mem_extent.mp covered).1
  unfold Region.Gap at gap
  omega

end Space

end RetroOS.Lib
