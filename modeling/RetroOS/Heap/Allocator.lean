import RetroOS.Lib.Machine
import RetroOS.Lib.Regions

/-!
# The kernel heap

The heap carves blocks out of a window of addresses.  Its free regions are
kept in the order of their addresses and joined where they touch; a request
takes the first region that is large enough, and the window is claimed page
by page when there is none.

A region that starts one word below a multiple of the alignment is too close
to split off the padding.  The code then takes the padding along and hands
out the start of the region, which is not aligned.  Everything else holds of
every run: blocks lie inside the window, apart from each other and from the
free regions.

The heap belongs to the 32-bit kernel: a free block has two words of four
bytes as its header.  Address sums are those of 32-bit words.
-/

namespace RetroOS.Heap

open Lib

def pageSize : Nat := 4096

/-- The alignment of a free block. -/
def wordSize : Nat := 4

/-- The size of a free block's header. -/
def minBlockSize : Nat := 8

/-- `(val + align - 1) & !(align - 1)` on 32-bit words. -/
def alignUp (val align : Nat) : Nat := (val + align - 1) % 2 ^ 32 &&& (2 ^ 32 - align)

/-- A size and an alignment that a caller may ask for. -/
structure Layout where
  size : Nat
  align : Nat
  size_pos : 0 < size
  align_power : align.isPowerOfTwo
  fits : size + align - 1 < 2 ^ 31
  deriving DecidableEq

structure DemandHeap where
  /-- The free blocks, along their links. -/
  free : List Region
  /-- Top of the range claimed so far. -/
  mappedEnd : Nat
  /-- Ceiling of the window. -/
  heapEnd : Nat
  deriving DecidableEq

/-! ## The free list -/

/-- Put a block in front of a list, joined with the first one if they touch. -/
def coalesceNext (block : Region) : List Region → List Region
  | [] => [block]
  | next :: rest =>
    if block.stop = next.addr then block.join next :: rest
    else block :: next :: rest

/-- Insert a block before the first one with a higher address. -/
def insertBlock (block : Region) : List Region → List Region
  | [] => coalesceNext block []
  | head :: rest =>
    if head.addr > block.addr then coalesceNext block (head :: rest)
    else head :: insertBlock block rest

/-- Join the block at an address with the one before it if they touch. -/
def coalescePrev (addr : Nat) : List Region → List Region
  | prev :: block :: rest =>
    if prev.addr = addr then prev :: block :: rest
    else if block.addr = addr then
      if prev.stop = addr then prev.join block :: rest
      else prev :: block :: rest
    else prev :: coalescePrev addr (block :: rest)
  | short => short

/-- Add a region to the free list. -/
def addFreeRegion (free : List Region) (addr size : Nat) : List Region :=
  if size < minBlockSize then free
  else coalescePrev addr (insertBlock { addr, size } free)

/-- The bytes between the start of a block and the next aligned address. -/
def blockPadding (align : Nat) (block : Region) : Nat :=
  (alignUp block.addr align + 2 ^ 32 - block.addr) % 2 ^ 32

/-- Take a block from the free list. -/
def allocFromList (size align : Nat) : List Region → Option (Nat × List Region)
  | [] => none
  | block :: rest =>
    let alignedAddr := alignUp block.addr align
    let padding := blockPadding align block
    let totalNeeded := (padding + size) % 2 ^ 32
    if block.size ≥ totalNeeded then
      if padding ≥ minBlockSize then
        let front : Region := { block with size := padding }
        let remainderSize := block.size - totalNeeded
        if remainderSize ≥ minBlockSize then
          some (alignedAddr, front :: { addr := alignedAddr + size, size := remainderSize } :: rest)
        else some (alignedAddr, front :: rest)
      else if padding > 0 then
        -- The padding is taken along, and the block starts before it.
        let actualSize := size + padding
        let remainderSize := block.size - actualSize
        if remainderSize ≥ minBlockSize then
          some (block.addr, { addr := block.addr + actualSize, size := remainderSize } :: rest)
        else some (block.addr, rest)
      else
        let remainderSize := block.size - size
        if remainderSize ≥ minBlockSize then
          some (alignedAddr, { addr := alignedAddr + size, size := remainderSize } :: rest)
        else some (alignedAddr, rest)
    else (allocFromList size align rest).map fun found => (found.1, block :: found.2)

/-! ## The heap -/

namespace DemandHeap

def init (base limit : Nat) : DemandHeap where
  free := []
  mappedEnd := base
  heapEnd := limit

/-- Claim up to `left` pages: how many, and the new top. -/
def claimPages (heapEnd : Nat) : Nat → Nat → Nat × Nat
  | 0, mappedEnd => (0, mappedEnd)
  | left + 1, mappedEnd =>
    if mappedEnd ≥ heapEnd then (0, mappedEnd)
    else
      let (pages, top) := claimPages heapEnd left (mappedEnd + pageSize)
      (pages + 1, top)

/-- Claim address space; whether it was as much as asked for. -/
def extendHeap (heap : DemandHeap) (minSize : Nat) : Bool × DemandHeap :=
  let pagesNeeded := max ((minSize + pageSize - 1) / pageSize) 4
  let (regionPages, mappedEnd) := claimPages heap.heapEnd pagesNeeded heap.mappedEnd
  let free :=
    if regionPages > 0 then addFreeRegion heap.free heap.mappedEnd (regionPages * pageSize)
    else heap.free
  (decide (regionPages ≥ pagesNeeded), { heap with free, mappedEnd })

end DemandHeap

/-- The bytes a layout takes, and the alignment it is given. -/
def Layout.blockSize (layout : Layout) : Nat := alignUp (max layout.size minBlockSize) wordSize

def Layout.blockAlign (layout : Layout) : Nat := max layout.align wordSize

namespace DemandHeap

/-- Take a block, with more of the window if there is none. -/
def alloc (heap : DemandHeap) (layout : Layout) : Option Nat × DemandHeap :=
  match allocFromList layout.blockSize layout.blockAlign heap.free with
  | some (pointer, free) => (some pointer, { heap with free })
  | none =>
    let (grown, heap) := heap.extendHeap (layout.blockSize + layout.blockAlign)
    if ¬ grown then (none, heap)
    else
      match allocFromList layout.blockSize layout.blockAlign heap.free with
      | some (pointer, free) => (some pointer, { heap with free })
      | none => (none, heap)

def dealloc (heap : DemandHeap) (pointer : Nat) (layout : Layout) : DemandHeap :=
  { heap with free := addFreeRegion heap.free pointer layout.blockSize }

end DemandHeap

/-! ## Alignment -/

/-- How far an address is below the next multiple of an alignment. -/
def paddingTo (align addr : Nat) : Nat := (align - addr % align) % align

theorem paddingTo_spec {align : Nat} (positive : 0 < align) (addr : Nat) :
    align ∣ addr + paddingTo align addr ∧ paddingTo align addr < align := by
  refine ⟨?_, Nat.mod_lt _ positive⟩
  have below := Nat.mod_lt addr positive
  have parts := Nat.div_add_mod addr align
  unfold paddingTo
  rcases Nat.eq_zero_or_pos (addr % align) with zero | some
  · rw [zero, Nat.sub_zero, Nat.mod_self, Nat.add_zero]
    exact Nat.dvd_of_mod_eq_zero zero
  · rw [Nat.mod_eq_of_lt (by omega)]
    refine ⟨addr / align + 1, ?_⟩
    rw [Nat.mul_add, Nat.mul_one]
    omega

/-- Masking rounds down to a multiple of a power of two. -/
theorem and_mask {value power : Nat} (small : value < 2 ^ 32) (low : power ≤ 32) :
    value &&& (2 ^ 32 - 2 ^ power) = value / 2 ^ power * 2 ^ power := by
  have mask : 2 ^ 32 - 2 ^ power = 2 ^ 32 - (2 ^ power - 1 + 1) := by
    rw [Nat.sub_add_cancel Nat.one_le_two_pow]
  have below : 2 ^ power - 1 < 2 ^ 32 :=
    (Nat.sub_lt Nat.one_le_two_pow one_pos).trans_le (Nat.pow_le_pow_right two_pos low)
  rw [mask, ← Nat.shiftRight_eq_div_pow, ← Nat.shiftLeft_eq]
  refine Nat.eq_of_testBit_eq fun index => ?_
  rw [Nat.testBit_and, Nat.testBit_two_pow_sub_succ below,
    Nat.testBit_two_pow_sub_one, Nat.testBit_shiftLeft,
    Nat.testBit_shiftRight]
  by_cases high : power ≤ index
  · rcases Nat.lt_or_ge index 32 with inside | outside
    · simp [high, inside, Nat.add_sub_cancel' high, Nat.not_lt.mpr high]
    · have zero : value.testBit index = false :=
        Nat.testBit_lt_two_pow (small.trans_le (Nat.pow_le_pow_right two_pos outside))
      simp [zero, high, Nat.add_sub_cancel' high]
  · simp [high, Nat.lt_of_not_le high]

theorem alignUp_eq {align addr : Nat} (power : align.isPowerOfTwo)
    (small : align ≤ 2 ^ 31) (inside : addr + align - 1 < 2 ^ 32) :
    alignUp addr align = addr + paddingTo align addr := by
  obtain ⟨exponent, rfl⟩ := power
  have low : exponent ≤ 31 := (Nat.pow_le_pow_iff_right (by omega)).mp small
  have positive : 0 < 2 ^ exponent := Nat.two_pow_pos exponent
  obtain ⟨divides, short⟩ := paddingTo_spec positive addr
  rw [alignUp, Nat.mod_eq_of_lt inside, and_mask inside (low.trans (by omega))]
  obtain ⟨count, whole⟩ := divides
  rw [whole]
  have quotient : (addr + 2 ^ exponent - 1) / 2 ^ exponent = count := by
    refine Nat.div_eq_of_lt_le ?_ ?_
    · rw [Nat.mul_comm, ← whole]
      omega
    · rw [Nat.succ_mul, Nat.mul_comm, ← whole]
      omega
  rw [quotient, Nat.mul_comm]

/-- An address too high to be rounded up becomes zero. -/
theorem alignUp_wraps {align addr : Nat} (power : align.isPowerOfTwo)
    (small : align ≤ 2 ^ 31) (address : addr < 2 ^ 32)
    (outside : 2 ^ 32 ≤ addr + align - 1) : alignUp addr align = 0 := by
  obtain ⟨exponent, rfl⟩ := power
  have low : exponent ≤ 31 := (Nat.pow_le_pow_iff_right (by omega)).mp small
  have wrapped : (addr + 2 ^ exponent - 1) % 2 ^ 32 = addr + 2 ^ exponent - 1 - 2 ^ 32 := by
    rw [Nat.mod_eq_sub_mod outside, Nat.mod_eq_of_lt (by omega)]
  rw [alignUp, wrapped, and_mask (by omega) (low.trans (by omega)),
    Nat.div_eq_of_lt (by omega), Nat.zero_mul]

/-! ## Regions of the free list -/

/-- A region that can hold its header, on word boundaries. -/
structure WellSized (region : Region) : Prop where
  large : minBlockSize ≤ region.size
  addr_word : wordSize ∣ region.addr
  size_word : wordSize ∣ region.size

variable {region : Region}

theorem WellSized.pos (sized : WellSized region) : 0 < region.size :=
  lt_of_lt_of_le (by decide) sized.large

theorem WellSized.join {first second : Region} (left : WellSized first)
    (right : WellSized second) : WellSized (first.join second) where
  large := left.large.trans (Nat.le_add_right _ _)
  addr_word := left.addr_word
  size_word := dvd_add left.size_word right.size_word

/-- Sorted, without overlap, and joined where regions touch. -/
structure Tidy (free : List Region) : Prop where
  apart : free.Pairwise Region.Gap
  sized : ∀ region ∈ free, WellSized region

theorem tidy_nil : Tidy [] := ⟨.nil, fun _ member => by cases member⟩

theorem Tidy.tail {free : List Region} (tidy : Tidy (region :: free)) : Tidy free :=
  ⟨tidy.apart.tail, fun other member => tidy.sized other (List.mem_cons_of_mem _ member)⟩

theorem Tidy.gap {region other : Region} {free : List Region}
    (tidy : Tidy (region :: free)) (member : other ∈ free) :
    region.Gap other :=
  (List.pairwise_cons.mp tidy.apart).1 other member

theorem Tidy.cons {free : List Region} (sized : WellSized region)
    (gaps : ∀ other ∈ free, region.Gap other) (tidy : Tidy free) : Tidy (region :: free) :=
  ⟨.cons gaps tidy.apart, List.forall_mem_cons.mpr ⟨sized, tidy.sized⟩⟩

variable {block : Region}

/-- How many bytes are free. -/
def freeBytes (free : List Region) : Nat := (free.map Region.size).sum

@[simp]
theorem freeBytes_nil : freeBytes [] = 0 := rfl

@[simp]
theorem freeBytes_cons {free : List Region} :
    freeBytes (region :: free) = region.size + freeBytes free :=
  rfl

section Insert

variable {free after : List Region}

/-- A free list after a block has joined it. -/
structure Added (block : Region) (free after : List Region) : Prop where
  tidy : Tidy after
  covered : space after = block.extent ∪ space free
  addr : after.map Region.addr ⊆ block.addr :: free.map Region.addr
  bytes : freeBytes after = block.size + freeBytes free

/-- A block in front of all others joins the first one if they touch. -/
theorem coalesceNext_added (tidy : Tidy free) (sized : WellSized block)
    (below : ∀ region ∈ free, block.stop ≤ region.addr) :
    Added block free (coalesceNext block free) := by
  cases free with
  | nil => exact ⟨tidy.cons sized (by simp), space_cons, List.Subset.refl _, rfl⟩
  | cons next rest =>
    have some := (tidy.sized next List.mem_cons_self).pos
    have first := below next List.mem_cons_self
    rw [coalesceNext]
    split_ifs with touch
    · refine ⟨tidy.tail.cons (sized.join (tidy.sized next List.mem_cons_self)) ?_, ?_,
        List.cons_subset_cons _ (List.subset_cons_self _ _), Nat.add_assoc _ _ _⟩
      · intro region member
        rw [Region.Gap, Region.stop_join touch]
        exact tidy.gap member
      · rw [space_cons, Region.extent_join touch, space_cons, Set.union_assoc]
    · refine ⟨tidy.cons sized (List.forall_mem_cons.mpr ⟨lt_of_le_of_ne first touch, ?_⟩),
        space_cons, List.Subset.refl _, rfl⟩
      intro region member
      have gap := tidy.gap member
      unfold Region.Gap Region.stop at *
      omega

/-- A region well in front of the block stays as it is. -/
theorem Added.cons {head : Region} (added : Added block free after)
    (tidy : Tidy (head :: free)) (gap : head.Gap block) :
    Added block (head :: free) (head :: after) where
  tidy := by
    refine added.tidy.cons (tidy.sized head List.mem_cons_self) fun region member => ?_
    unfold Region.Gap at gap ⊢
    rcases List.mem_cons.mp (added.addr (List.mem_map_of_mem member)) with same | old
    · rwa [same]
    · obtain ⟨other, inside, same⟩ := List.mem_map.mp old
      exact same ▸ tidy.gap inside
  covered := by rw [space_cons, added.covered, space_cons, Set.union_left_comm]
  addr := List.cons_subset.mpr ⟨by simp,
    List.Subset.trans added.addr (List.cons_subset_cons _ (List.subset_cons_self _ _))⟩
  bytes := by rw [freeBytes_cons, added.bytes, freeBytes_cons, Nat.add_left_comm]

/-- A region that touches the block joins it. -/
theorem Added.join {head first : Region} (added : Added block free (first :: after))
    (sized : WellSized head) (touch : head.stop = first.addr) :
    Added block (head :: free) (head.join first :: after) where
  tidy := by
    refine added.tidy.tail.cons (sized.join (added.tidy.sized first List.mem_cons_self)) ?_
    intro region member
    rw [Region.Gap, Region.stop_join touch]
    exact added.tidy.gap member
  covered := by
    rw [space_cons, Region.extent_join touch, Set.union_assoc, ← space_cons, added.covered,
      space_cons, Set.union_left_comm]
  addr := List.cons_subset.mpr ⟨by simp,
    List.Subset.trans (List.cons_subset.mp added.addr).2
      (List.cons_subset_cons _ (List.subset_cons_self _ _))⟩
  bytes := by
    have bytes := added.bytes
    simp only [freeBytes_cons, Region.size_join] at bytes ⊢
    omega

theorem coalesceNext_head (block : Region) (free : List Region) :
    ∃ first others, coalesceNext block free = first :: others ∧ first.addr = block.addr := by
  cases free with
  | nil => exact ⟨_, _, rfl, rfl⟩
  | cons next rest =>
    rw [coalesceNext]
    split_ifs <;> exact ⟨_, _, rfl, rfl⟩

theorem insertBlock_head (block : Region) (free : List Region) :
    ∃ first others, insertBlock block free = first :: others ∧
      (first.addr = block.addr ∨ first ∈ free ∧ first.addr ≤ block.addr) := by
  cases free with
  | nil => exact ⟨_, _, rfl, .inl rfl⟩
  | cons head rest =>
    rw [insertBlock]
    split_ifs with higher
    · obtain ⟨first, others, known, same⟩ := coalesceNext_head block (head :: rest)
      exact ⟨first, others, known, .inl same⟩
    · exact ⟨_, _, rfl, .inr ⟨List.mem_cons_self, Nat.le_of_not_lt higher⟩⟩

theorem coalescePrev_head {first : Region} {others : List Region} :
    coalescePrev first.addr (first :: others) = first :: others := by
  cases others <;> simp [coalescePrev]

theorem insertBlock_added (tidy : Tidy free) (sized : WellSized block)
    (fresh : Disjoint block.extent (space free)) :
    Added block free (coalescePrev block.addr (insertBlock block free)) := by
  induction free with
  | nil => exact coalesceNext_added tidy sized (by simp)
  | cons head rest induction =>
    have own := tidy.sized head List.mem_cons_self
    have order := Region.ordered_of_disjoint sized.pos own.pos
      (fresh.mono_right (extent_subset_space List.mem_cons_self))
    have some := sized.pos
    rw [insertBlock]
    split_ifs with higher
    · obtain ⟨first, others, known, same⟩ := coalesceNext_head block (head :: rest)
      rw [known, ← same, coalescePrev_head, ← known]
      refine coalesceNext_added tidy sized fun region member => ?_
      rcases List.mem_cons.mp member with rfl | later
      · unfold Region.stop at *
        omega
      · have gap := tidy.gap later
        unfold Region.Gap Region.stop at *
        omega
    · have before : head.stop ≤ block.addr := by
        unfold Region.stop at *
        omega
      have other : ¬ head.addr = block.addr := by
        have large := own.pos
        unfold Region.stop at before
        omega
      obtain ⟨first, others, known, place⟩ := insertBlock_head block rest
      have later := induction tidy.tail (fresh.mono_right (by simp))
      rw [known] at later ⊢
      rw [coalescePrev, if_neg other]
      by_cases same : first.addr = block.addr
      · rw [← same, coalescePrev_head] at later
        rw [if_pos same]
        split_ifs with touch
        · exact later.join own (touch.trans same.symm)
        · exact later.cons tidy (lt_of_le_of_ne before touch)
      · obtain ⟨inside, lower⟩ := place.resolve_left same
        rw [if_neg same]
        exact later.cons tidy (lt_of_lt_of_le (tidy.gap inside) lower)

/-- A freed region joins the free space, which stays tidy. -/
theorem addFreeRegion_added {addr size : Nat} (tidy : Tidy free) (sized : WellSized { addr, size })
    (fresh : Disjoint (Region.extent { addr, size }) (space free)) :
    Added { addr, size } free (addFreeRegion free addr size) := by
  rw [addFreeRegion, if_neg (Nat.not_lt.mpr sized.large)]
  exact insertBlock_added tidy sized fresh

end Insert

/-! ## Taking a block -/

section Take

variable {size align limit : Nat}

/-- A request as `alloc` makes it. -/
structure Request (size align : Nat) : Prop where
  power : align.isPowerOfTwo
  word : wordSize ∣ align
  large : minBlockSize ≤ size
  size_word : wordSize ∣ size
  small : align ≤ 2 ^ 30
  fits : size ≤ 2 ^ 31

theorem Request.align_pos (request : Request size align) : 0 < align := by
  obtain ⟨exponent, rfl⟩ := request.power
  exact Nat.two_pow_pos exponent

/-- In a block that is large enough nothing wraps. -/
theorem Request.accepts (request : Request size align)
    (inside : block.stop ≤ 2 ^ 32) (nonempty : 0 < block.size)
    (enough : (blockPadding align block + size) % 2 ^ 32 ≤ block.size) :
    alignUp block.addr align = block.addr + paddingTo align block.addr ∧
      blockPadding align block = paddingTo align block.addr ∧
      (blockPadding align block + size) % 2 ^ 32 = paddingTo align block.addr + size ∧
      paddingTo align block.addr + size ≤ block.size := by
  have short := (paddingTo_spec request.align_pos block.addr).2
  have small := request.small
  have fits := request.fits
  have large := request.large
  unfold minBlockSize at large
  unfold Region.stop at inside
  rcases Nat.lt_or_ge (block.addr + align - 1) (2 ^ 32) with below | above
  · have aligned := alignUp_eq request.power (small.trans (by decide)) below
    have padding : blockPadding align block = paddingTo align block.addr := by
      unfold blockPadding
      rw [aligned]
      have sum :
          block.addr + paddingTo align block.addr + 2 ^ 32 - block.addr =
            paddingTo align block.addr + 2 ^ 32 := by
        omega
      rw [sum, Nat.add_mod_right, Nat.mod_eq_of_lt (by omega)]
    have total :
        (blockPadding align block + size) % 2 ^ 32 = paddingTo align block.addr + size := by
      rw [padding, Nat.mod_eq_of_lt (by omega)]
    exact ⟨aligned, padding, total, total ▸ enough⟩
  · -- The sum wraps to address zero, and the padding exceeds every block.
    exfalso
    have zero := alignUp_wraps request.power (small.trans (by decide)) (by omega) above
    have padding : blockPadding align block = 2 ^ 32 - block.addr := by
      unfold blockPadding
      rw [zero, Nat.zero_add, Nat.mod_eq_of_lt (by omega)]
    rw [padding, Nat.mod_eq_of_lt (by omega)] at enough
    omega

/-- What taking a block leaves. -/
structure Taken (size align : Nat) (free : List Region) (pointer : Nat)
    (after : List Region) : Prop where
  tidy : Tidy after
  word : wordSize ∣ pointer
  inside : Region.extent { addr := pointer, size } ⊆ space free
  kept : space after ⊆ space free
  apart : Disjoint (Region.extent { addr := pointer, size }) (space after)
  /-- The result is aligned unless a region is one word short of it. -/
  aligned : (∀ region ∈ free, paddingTo align region.addr ≠ wordSize) → align ∣ pointer

/-- A part of a block stays free if it can hold a header. -/
def kept (part : Region) : List Region := if minBlockSize ≤ part.size then [part] else []

section Kept

variable {part : Region} {free : List Region}

theorem eq_of_mem_kept (member : region ∈ kept part) : region = part := by
  unfold kept at member
  split_ifs at member
  · exact List.mem_singleton.mp member
  · cases member

theorem space_kept : space (kept part) ⊆ part.extent := by
  unfold kept
  split_ifs <;> simp

theorem Tidy.kept_append (tidy : Tidy free) (addr_word : wordSize ∣ part.addr)
    (size_word : wordSize ∣ part.size) (gaps : ∀ region ∈ free, part.Gap region) :
    Tidy (kept part ++ free) := by
  unfold kept
  split_ifs with large
  · exact tidy.cons ⟨large, addr_word, size_word⟩ gaps
  · exact tidy

end Kept

/-- Cut a block out of the first region, and keep what is large enough on both sides. -/
theorem taken_cut {rest : List Region} {pointer skip : Nat} (tidy : Tidy (block :: rest))
    (positive : 0 < size) (size_word : wordSize ∣ size) (skip_word : wordSize ∣ skip)
    (fits : skip + size ≤ block.size)
    (place : pointer = block.addr + skip ∨ pointer = block.addr ∧ skip < minBlockSize)
    (aligned :
      (∀ region ∈ block :: rest, paddingTo align region.addr ≠ wordSize) → align ∣ pointer) :
    Taken size align (block :: rest) pointer
      (kept { block with size := skip } ++
        (kept { addr := block.addr + skip + size, size := block.size - (skip + size) } ++
          rest)) := by
  have sized := tidy.sized block List.mem_cons_self
  have start : wordSize ∣ block.addr + skip := dvd_add sized.addr_word skip_word
  have cut : Region.extent { addr := pointer, size } ⊆ block.extent :=
    Set.Ico_subset_Ico (by simp only; omega) (by unfold Region.stop; simp only; omega)
  have whole : block.addr + skip + size + (block.size - (skip + size)) = block.stop := by
    unfold Region.stop
    omega
  have front : Region.extent { block with size := skip } ⊆ block.extent :=
    Set.Ico_subset_Ico_right (by unfold Region.stop; simp only; omega)
  have rear : Set.Ico (block.addr + skip + size) block.stop ⊆ block.extent :=
    Set.Ico_subset_Ico_left (by omega)
  refine ⟨?_, ?_, ?_, ?_, ?_, aligned⟩
  · refine Tidy.kept_append ?_ sized.addr_word skip_word fun region member => ?_
    · refine tidy.tail.kept_append (dvd_add start size_word) ?_ fun _ member => ?_
      · exact Nat.dvd_sub sized.size_word (dvd_add skip_word size_word)
      · exact whole.trans_lt (tidy.gap member)
    · rcases List.mem_append.mp member with piece | later
      · rw [eq_of_mem_kept piece]
        exact Nat.lt_add_of_pos_right positive
      · have gap := tidy.gap later
        unfold Region.Gap Region.stop at *
        simp only
        omega
  · rcases place with rfl | ⟨rfl, -⟩
    · exact start
    · exact sized.addr_word
  · rw [space_cons]
    exact cut.trans Set.subset_union_left
  · rw [space_append, space_append, space_cons]
    refine Set.union_subset ((space_kept.trans front).trans Set.subset_union_left) ?_
    refine Set.union_subset_union_left _ (space_kept.trans ?_)
    rwa [Region.extent, Region.stop, whole]
  · rw [space_append, space_append]
    refine Set.disjoint_union_right.mpr ⟨?_, Set.disjoint_union_right.mpr ⟨?_, ?_⟩⟩
    · rcases place with rfl | ⟨rfl, small⟩
      · exact (Region.disjoint_of_le le_rfl).symm.mono_right space_kept
      · rw [kept, if_neg (Nat.not_le.mpr small)]
        simp
    · refine Disjoint.mono_right space_kept (Region.disjoint_of_le ?_)
      unfold Region.stop
      simp only
      omega
    · exact (disjoint_space fun _ member => tidy.gap member).mono_left cut

/-- A block that is skipped stays where it is. -/
theorem Taken.cons {rest after : List Region} {pointer : Nat} (tidy : Tidy (block :: rest))
    (taken : Taken size align rest pointer after) :
    Taken size align (block :: rest) pointer (block :: after) := by
  have gaps (region : Region) (member : region ∈ rest) : block.Gap region := tidy.gap member
  refine ⟨taken.tidy.cons (tidy.sized block List.mem_cons_self) fun region member => ?_,
    taken.word, ?_, ?_, ?_, fun free => ?_⟩
  · exact gap_of_space_subset gaps taken.kept member (taken.tidy.sized region member).pos
  · rw [space_cons]
    exact taken.inside.trans Set.subset_union_right
  · rw [space_cons, space_cons]
    exact Set.union_subset_union_right _ taken.kept
  · rw [space_cons]
    refine Set.disjoint_union_right.mpr ⟨?_, taken.apart⟩
    exact ((disjoint_space gaps).mono_right taken.inside).symm
  · exact taken.aligned fun region member => free region (List.mem_cons_of_mem _ member)

/-- What is taken from a block that is large enough, and what is kept of it. -/
theorem allocFromList_cons (request : Request size align) {rest : List Region} {skip : Nat}
    (known : paddingTo align block.addr = skip)
    (inside : block.stop ≤ 2 ^ 32) (nonempty : 0 < block.size)
    (enough : (blockPadding align block + size) % 2 ^ 32 ≤ block.size) :
    skip + size ≤ block.size ∧ allocFromList size align (block :: rest) =
      some (if 0 < skip ∧ skip < minBlockSize then block.addr else block.addr + skip,
        kept { block with size := skip } ++
          (kept { addr := block.addr + skip + size, size := block.size - (skip + size) } ++
            rest)) := by
  obtain ⟨aligned, padding, total, fits⟩ := request.accepts inside nonempty enough
  rw [known] at aligned padding total fits
  refine ⟨fits, ?_⟩
  rw [allocFromList]
  dsimp only
  rw [if_pos enough, total, padding, aligned]
  unfold kept
  dsimp only
  clear enough total padding aligned known
  rw [Nat.add_comm size]
  split_ifs <;> simp <;> omega

theorem allocFromList_taken (request : Request size align)
    {free after : List Region} {pointer : Nat} (tidy : Tidy free)
    (inside : ∀ region ∈ free, region.stop ≤ 2 ^ 32)
    (found : allocFromList size align free = some (pointer, after)) :
    Taken size align free pointer after := by
  induction free generalizing after with
  | nil => cases found
  | cons block rest induction =>
    have sized := tidy.sized block List.mem_cons_self
    obtain ⟨divides, short⟩ := paddingTo_spec request.align_pos block.addr
    have skip_word : wordSize ∣ paddingTo align block.addr :=
      (Nat.dvd_add_right sized.addr_word).mp (request.word.trans divides)
    by_cases enough : (blockPadding align block + size) % 2 ^ 32 ≤ block.size
    · obtain ⟨fits, cut⟩ :=
        allocFromList_cons request rfl (inside block List.mem_cons_self) sized.pos enough
      rw [cut] at found
      cases found
      refine taken_cut tidy (lt_of_lt_of_le (by decide) request.large) request.size_word skip_word
        fits ?_ fun free => ?_
      · split_ifs with narrow
        · exact .inr ⟨rfl, narrow.2⟩
        · exact .inl rfl
      · split_ifs with narrow
        · -- One word: it is taken along, and the block is not aligned.
          refine absurd ?_ (free block List.mem_cons_self)
          unfold minBlockSize at narrow
          unfold wordSize at skip_word ⊢
          omega
        · exact divides
    · rw [allocFromList, if_neg enough] at found
      obtain ⟨⟨place, left⟩, known, same⟩ := Option.map_eq_some_iff.mp found
      cases same
      exact (induction tidy.tail
        (fun region member => inside region (List.mem_cons_of_mem _ member))
        known).cons tidy
end Take

end RetroOS.Heap
