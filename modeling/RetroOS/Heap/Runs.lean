import RetroOS.Heap.Allocator

/-!
# Runs of the kernel heap

A run allocates and frees blocks in any order; a block that is freed is live
and is given back with the layout it was asked for.  `Sound` is what the heap
keeps by itself, `Inv` adds the live blocks: they lie inside the part of the
window that was claimed, apart from each other and from the free space.
-/

namespace RetroOS.Heap

open Lib

/-- The window the kernel sets up: whole pages below 2^32. -/
structure Window where
  base : Nat
  limit : Nat
  base_page : base % pageSize = 0
  limit_page : limit % pageSize = 0
  ordered : base ≤ limit
  small : limit < 2 ^ 32

/-- The heap over a window. -/
def Window.heap (window : Window) : DemandHeap := .init window.base window.limit

/-! ## Layouts -/

namespace Layout

variable (layout : Layout)

theorem align_lt : layout.align < 2 ^ 31 := by
  have fits := layout.fits
  have some := layout.size_pos
  omega

theorem align_pos : 0 < layout.align := by
  obtain ⟨exponent, power⟩ := layout.align_power
  rw [power]
  exact Nat.two_pow_pos exponent

theorem blockSize_spec :
    layout.size ≤ layout.blockSize ∧ minBlockSize ≤ layout.blockSize ∧
      wordSize ∣ layout.blockSize ∧ layout.blockSize ≤ 2 ^ 31 := by
  have fits := layout.fits
  have positive := layout.align_pos
  have rounded :=
    alignUp_eq (show wordSize.isPowerOfTwo from ⟨2, rfl⟩) (by decide)
      (show max layout.size minBlockSize + wordSize - 1 < 2 ^ 32 by
        unfold minBlockSize wordSize
        omega)
  obtain ⟨divides, short⟩ :=
    paddingTo_spec (show 0 < wordSize by decide) (max layout.size minBlockSize)
  unfold blockSize
  rw [rounded]
  unfold wordSize at divides short ⊢
  unfold minBlockSize at divides short ⊢
  omega

theorem blockAlign_spec :
    layout.blockAlign.isPowerOfTwo ∧ wordSize ∣ layout.blockAlign ∧
      layout.blockAlign ≤ 2 ^ 30 ∧ layout.align ∣ layout.blockAlign := by
  have below := layout.align_lt
  obtain ⟨exponent, power⟩ := layout.align_power
  rw [power] at below
  have low : exponent < 31 := (Nat.pow_lt_pow_iff_right (by omega)).mp below
  unfold blockAlign
  rw [power]
  rcases Nat.lt_or_ge exponent 2 with small | large
  · have narrow : 2 ^ exponent ≤ wordSize :=
      Nat.pow_le_pow_right two_pos (show exponent ≤ 2 by omega)
    rw [max_eq_right narrow]
    exact ⟨⟨2, rfl⟩, dvd_rfl, by decide, Nat.pow_dvd_pow 2 (show exponent ≤ 2 by omega)⟩
  · have wide : wordSize ≤ 2 ^ exponent := Nat.pow_le_pow_right two_pos large
    rw [max_eq_left wide]
    exact ⟨⟨exponent, rfl⟩, Nat.pow_dvd_pow 2 large,
      Nat.pow_le_pow_right two_pos (by omega), dvd_rfl⟩

theorem request : Request layout.blockSize layout.blockAlign where
  power := layout.blockAlign_spec.1
  word := layout.blockAlign_spec.2.1
  large := layout.blockSize_spec.2.1
  size_word := layout.blockSize_spec.2.2.1
  small := layout.blockAlign_spec.2.2.1
  fits := layout.blockSize_spec.2.2.2

end Layout

/-! ## The heap by itself -/

structure Sound (window : Window) (heap : DemandHeap) : Prop where
  tidy : Tidy heap.free
  heapEnd : heap.heapEnd = window.limit
  base_le : window.base ≤ heap.mappedEnd
  le_limit : heap.mappedEnd ≤ window.limit
  page : heap.mappedEnd % pageSize = 0
  inside : space heap.free ⊆ Set.Ico window.base heap.mappedEnd

theorem Window.heap_sound (window : Window) : Sound window window.heap where
  tidy := tidy_nil
  heapEnd := rfl
  base_le := le_rfl
  le_limit := window.ordered
  page := window.base_page
  inside := by simp [Window.heap, DemandHeap.init]

namespace Sound

variable {window : Window} {heap : DemandHeap} (sound : Sound window heap)

include sound

theorem bounds {region : Region} (member : region ∈ heap.free) :
    window.base ≤ region.addr ∧ region.stop ≤ heap.mappedEnd := by
  have some := (sound.tidy.sized region member).pos
  refine (Set.Ico_subset_Ico_iff (Nat.lt_add_of_pos_right some)).mp ?_
  exact (extent_subset_space member).trans sound.inside

theorem stop_le : ∀ region ∈ heap.free, region.stop ≤ 2 ^ 32 := by
  intro region member
  have upper := (sound.bounds member).2
  have limit := sound.le_limit
  have small := window.small
  omega

end Sound

theorem claimPages_spec {limit : Nat} (page : limit % pageSize = 0)
    (left : Nat) {top : Nat} (top_page : top % pageSize = 0)
    (below : top ≤ limit) :
    (DemandHeap.claimPages limit left top).2 =
        top + (DemandHeap.claimPages limit left top).1 * pageSize ∧
      (DemandHeap.claimPages limit left top).2 ≤ limit := by
  induction left generalizing top with
  | zero => simpa [DemandHeap.claimPages] using below
  | succ left induction =>
    rw [DemandHeap.claimPages]
    split
    · simpa using below
    · have next := @induction (top + pageSize)
        (by unfold pageSize at *; omega) (by unfold pageSize at *; omega)
      dsimp only
      rw [Nat.add_mul, Nat.one_mul]
      omega

/-- What a heap may use after it has grown to another top. -/
def reach (heap grown : DemandHeap) : Set Nat :=
  space heap.free ∪ Set.Ico heap.mappedEnd grown.mappedEnd

section Grow

variable {window : Window} {heap : DemandHeap} (sound : Sound window heap)

include sound

theorem extendHeap_sound (minSize : Nat) :
    Sound window (heap.extendHeap minSize).2 ∧
      heap.mappedEnd ≤ (heap.extendHeap minSize).2.mappedEnd ∧
      space (heap.extendHeap minSize).2.free = reach heap (heap.extendHeap minSize).2 ∧
      (heap.extendHeap minSize).2.free.map Region.addr ⊆
        heap.mappedEnd :: heap.free.map Region.addr ∧
      freeBytes (heap.extendHeap minSize).2.free + heap.mappedEnd =
        freeBytes heap.free + (heap.extendHeap minSize).2.mappedEnd := by
  have claimed :=
    claimPages_spec (sound.heapEnd ▸ window.limit_page)
      (max ((minSize + pageSize - 1) / pageSize) 4) sound.page
      (sound.heapEnd ▸ sound.le_limit)
  unfold DemandHeap.extendHeap reach
  dsimp only
  generalize DemandHeap.claimPages heap.heapEnd
    (max ((minSize + pageSize - 1) / pageSize) 4) heap.mappedEnd = answer at claimed ⊢
  obtain ⟨pages, top⟩ := answer
  obtain ⟨moved, limit⟩ := claimed
  dsimp only at moved limit ⊢
  rw [sound.heapEnd] at limit
  have grows : heap.mappedEnd ≤ top := by omega
  have page : top % pageSize = 0 := by
    have known := sound.page
    unfold pageSize at moved known ⊢
    omega
  split
  · rename_i some
    have new : Region.extent { addr := heap.mappedEnd, size := pages * pageSize } =
          Set.Ico heap.mappedEnd top := by
      rw [Region.extent, Region.stop, moved]
    have sized : WellSized { addr := heap.mappedEnd, size := pages * pageSize } := by
      have known := sound.page
      refine ⟨?_, ?_, ?_⟩
      all_goals
        unfold pageSize at *
        simp only [minBlockSize, wordSize]
        omega
    have fresh : Disjoint (Region.extent { addr := heap.mappedEnd, size := pages * pageSize })
          (space heap.free) := by
      rw [new]
      refine Disjoint.mono_right sound.inside ?_
      refine Set.Ico_disjoint_Ico.mpr ?_
      exact (min_le_right _ _).trans (le_max_left _ _)
    obtain ⟨tidy, covered, addr, bytes⟩ := addFreeRegion_added sound.tidy sized fresh
    rw [new, Set.union_comm] at covered
    dsimp only at bytes
    refine ⟨⟨tidy, sound.heapEnd, sound.base_le.trans grows, limit, page, ?_⟩,
      grows, covered, addr, by omega⟩
    rw [covered]
    refine Set.union_subset (sound.inside.trans ?_) ?_
    · exact Set.Ico_subset_Ico_right grows
    · exact Set.Ico_subset_Ico_left sound.base_le
  · rename_i none
    have zero : pages = 0 := by omega
    have same : top = heap.mappedEnd := by rw [moved, zero]; simp
    subst same
    refine ⟨⟨sound.tidy, sound.heapEnd, sound.base_le, limit, page,
      sound.inside⟩, le_rfl, by simp, List.subset_cons_self _ _, rfl⟩

/-- What an allocation leaves, and what it hands out. -/
structure Allocated (window : Window) (heap : DemandHeap) (layout : Layout)
    (answer : Option Nat × DemandHeap) : Prop where
  sound : Sound window answer.2
  grows : heap.mappedEnd ≤ answer.2.mappedEnd
  kept : space answer.2.free ⊆ reach heap answer.2
  block :
    ∀ pointer, answer.1 = some pointer →
      wordSize ∣ pointer ∧
      Region.extent { addr := pointer, size := layout.blockSize } ⊆ reach heap answer.2 ∧
      Disjoint (Region.extent { addr := pointer, size := layout.blockSize }) (space answer.2.free) ∧
      ((∀ region ∈ heap.free, paddingTo layout.blockAlign region.addr ≠ wordSize) →
          layout.blockAlign ∣ pointer)

omit sound in
/-- A page boundary is never one word short of an alignment. -/
theorem paddingTo_page {align top : Nat} (power : align.isPowerOfTwo)
    (page : top % pageSize = 0) : paddingTo align top ≠ wordSize := by
  intro word
  obtain ⟨exponent, rfl⟩ := power
  obtain ⟨divides, short⟩ := paddingTo_spec (Nat.two_pow_pos exponent) top
  rw [word] at divides short
  rcases Nat.lt_or_ge exponent 13 with small | large
  · have covers : 2 ^ exponent ∣ top :=
      (Nat.pow_dvd_pow 2 (show exponent ≤ 12 by omega)).trans (Nat.dvd_of_mod_eq_zero page)
    have bound := Nat.le_of_dvd (by decide) ((Nat.dvd_add_right covers).mp divides)
    omega
  · have split : pageSize ∣ top + wordSize :=
      (Nat.pow_dvd_pow 2 (show 12 ≤ exponent by omega)).trans divides
    unfold pageSize at page split
    unfold wordSize at split
    omega

/-- A block taken from a heap that is sound stays inside it. -/
theorem taken_allocated {grown : DemandHeap} {layout : Layout}
    {pointer : Nat} {free : List Region} (grown_sound : Sound window grown)
    (grows : heap.mappedEnd ≤ grown.mappedEnd)
    (covered : space grown.free ⊆ reach heap grown)
    (starts : grown.free.map Region.addr ⊆ heap.mappedEnd :: heap.free.map Region.addr)
    (found : allocFromList layout.blockSize layout.blockAlign grown.free = some (pointer, free)) :
    Allocated window heap layout (some pointer, { grown with free }) := by
  have taken := allocFromList_taken layout.request grown_sound.tidy grown_sound.stop_le found
  refine ⟨⟨taken.tidy, grown_sound.heapEnd, grown_sound.base_le,
    grown_sound.le_limit, grown_sound.page,
    taken.kept.trans grown_sound.inside⟩, grows, taken.kept.trans covered, ?_⟩
  intro answer same
  cases same
  refine ⟨taken.word, taken.inside.trans covered, taken.apart,
    fun clear => taken.aligned fun region member => ?_⟩
  rcases List.mem_cons.mp (starts (List.mem_map_of_mem member)) with top | start
  · rw [top]
    exact paddingTo_page layout.request.power sound.page
  · obtain ⟨old, inside, same⟩ := List.mem_map.mp start
    exact same ▸ clear old inside

theorem alloc_allocated (layout : Layout) : Allocated window heap layout (heap.alloc layout) := by
  unfold DemandHeap.alloc
  split
  · rename_i pointer free found
    exact taken_allocated sound sound le_rfl Set.subset_union_left
      (List.subset_cons_self _ _) found
  · obtain ⟨grown_sound, grows, covered, starts, -⟩ :=
      extendHeap_sound sound (layout.blockSize + layout.blockAlign)
    dsimp only
    split
    · exact ⟨grown_sound, grows, covered.subset, by simp⟩
    · split
      · rename_i pointer free found
        exact taken_allocated sound grown_sound grows covered.subset starts found
      · exact ⟨grown_sound, grows, covered.subset, by simp⟩

end Grow

/-! ## Live blocks -/

/-- A block that was handed out. -/
structure Block where
  addr : Nat
  layout : Layout
  deriving DecidableEq

/-- The bytes a block was asked for. -/
def Block.asked (block : Block) : Region where
  addr := block.addr
  size := block.layout.size

/-- The bytes the heap accounts a block for. -/
def Block.region (block : Block) : Region where
  addr := block.addr
  size := block.layout.blockSize

theorem Block.asked_subset (block : Block) : block.asked.extent ⊆ block.region.extent :=
  Set.Ico_subset_Ico_right (Nat.add_le_add_left block.layout.blockSize_spec.1 _)

/-- A heap and its live blocks. -/
structure World where
  heap : DemandHeap
  live : List Block
  deriving DecidableEq

inductive HeapCall where
  | alloc (layout : Layout)
  | dealloc (block : Block)
  deriving DecidableEq

/-- The heap under a sequence of calls. -/
def heapMachine : Machine World HeapCall (Option Nat)
  | world, .alloc layout =>
    match world.heap.alloc layout with
    | (some pointer, heap) =>
      (some pointer, { heap, live := { addr := pointer, layout } :: world.live })
    | (none, heap) => (none, { world with heap })
  | world, .dealloc block =>
    (none, { heap := world.heap.dealloc block.addr block.layout, live := world.live.erase block })

theorem heapMachine_alloc (world : World) (layout : Layout) :
    (heapMachine world (.alloc layout)).1 = (world.heap.alloc layout).1 ∧
      (heapMachine world (.alloc layout)).2.heap = (world.heap.alloc layout).2 := by
  simp only [heapMachine]
  split <;> rename_i known <;> simp [known]

/-- A heap without blocks. -/
def Window.world (window : Window) : World where
  heap := window.heap
  live := []

structure Inv (window : Window) (world : World) : Prop where
  sound : Sound window world.heap
  inside : ∀ block ∈ world.live, block.region.extent ⊆ Set.Ico window.base world.heap.mappedEnd
  word : ∀ block ∈ world.live, wordSize ∣ block.addr
  apart : world.live.Pairwise fun first second => Disjoint first.region.extent second.region.extent
  free : ∀ block ∈ world.live, Disjoint block.region.extent (space world.heap.free)

/-- A block that is freed is live, and comes with its layout. -/
def Proper (world : World) : HeapCall → Prop
  | .alloc _ => True
  | .dealloc block => block ∈ world.live

instance (world : World) (call : HeapCall) : Decidable (Proper world call) := by
  unfold Proper
  cases call <;> infer_instance

/-- No free region starts one word below a multiple of the alignment. -/
def Clear (world : World) (layout : Layout) : Prop :=
  ∀ region ∈ world.heap.free, paddingTo layout.blockAlign region.addr ≠ wordSize

instance (world : World) (layout : Layout) : Decidable (Clear world layout) :=
  inferInstanceAs (Decidable (∀ region ∈ world.heap.free, _))

/-- What the heap promises of one call. -/
structure HeapMove (window : Window)
    (move : Move World HeapCall (Option Nat)) : Prop where
  aligned :
    ∀ layout pointer, move.input = .alloc layout → move.answer = some pointer →
        Clear move.before layout → layout.align ∣ pointer
  inside :
    ∀ layout pointer, move.input = .alloc layout → move.answer = some pointer →
        window.base ≤ pointer ∧ pointer + layout.size ≤ window.limit
  apart :
    ∀ layout pointer, move.input = .alloc layout → move.answer = some pointer →
        (∀ block ∈ move.before.live,
          Disjoint (Region.extent { addr := pointer, size := layout.size }) block.asked.extent) ∧
        ∀ region ∈ move.after.heap.free,
          Disjoint (Region.extent { addr := pointer, size := layout.size }) region.extent
  tidy : Tidy move.after.heap.free

section Step

variable {window : Window} {world : World} (inv : Inv window world)

include inv

/-- What a live block keeps clear of: the free space and what is claimed. -/
theorem live_disjoint_reach {grown : DemandHeap} {block : Block} (member : block ∈ world.live) :
    Disjoint block.region.extent (reach world.heap grown) := by
  refine Set.disjoint_union_right.mpr ⟨inv.free block member, ?_⟩
  refine Disjoint.mono_left (inv.inside block member) ?_
  refine Set.Ico_disjoint_Ico.mpr ?_
  exact (min_le_left _ _).trans (le_max_right _ _)

/-- The live blocks of a heap that has only given space away or claimed it. -/
theorem live_kept {grown : DemandHeap} (sound : Sound window grown)
    (grows : world.heap.mappedEnd ≤ grown.mappedEnd)
    (kept : space grown.free ⊆ reach world.heap grown) :
    Inv window { world with heap := grown } where
  sound := sound
  inside block member := (inv.inside block member).trans (Set.Ico_subset_Ico_right grows)
  word := inv.word
  apart := inv.apart
  free _ member := (live_disjoint_reach inv member).mono_right kept

theorem alloc_inv (layout : Layout) : Inv window (heapMachine world (.alloc layout)).2 := by
  obtain ⟨sound, grows, kept, block⟩ := alloc_allocated inv.sound layout
  have rest := live_kept inv sound grows kept
  simp only [heapMachine]
  generalize world.heap.alloc layout = answer at *
  obtain ⟨pointer, grown⟩ := answer
  cases pointer with
  | none => exact rest
  | some pointer =>
    obtain ⟨word, inside, apart, -⟩ := block pointer rfl
    have within :
        Region.extent { addr := pointer, size := layout.blockSize } ⊆
          Set.Ico window.base grown.mappedEnd := by
      refine inside.trans (Set.union_subset ?_ ?_)
      · exact inv.sound.inside.trans (Set.Ico_subset_Ico_right grows)
      · exact Set.Ico_subset_Ico_left inv.sound.base_le
    refine ⟨sound, ?_, ?_, ?_, ?_⟩
    · exact List.forall_mem_cons.mpr ⟨within, rest.inside⟩
    · exact List.forall_mem_cons.mpr ⟨word, rest.word⟩
    · refine List.pairwise_cons.mpr ⟨fun other member => ?_, rest.apart⟩
      exact ((live_disjoint_reach inv member).mono_right inside).symm
    · exact List.forall_mem_cons.mpr ⟨apart, rest.free⟩

theorem dealloc_added {block : Block} (member : block ∈ world.live) :
    Added block.region world.heap.free (world.heap.dealloc block.addr block.layout).free := by
  obtain ⟨-, large, word, -⟩ := block.layout.blockSize_spec
  exact addFreeRegion_added inv.sound.tidy ⟨large, inv.word block member, word⟩
    (inv.free block member)

theorem dealloc_inv {block : Block} (member : block ∈ world.live) :
    Inv window (heapMachine world (.dealloc block)).2 := by
  obtain ⟨tidy, covered, -⟩ := dealloc_added inv member
  obtain ⟨gone, apart⟩ :=
    List.pairwise_cons.mp ((List.perm_cons_erase member).pairwise_iff (fun order => order.symm)
        |>.mp inv.apart)
  refine ⟨⟨tidy, inv.sound.heapEnd, inv.sound.base_le, inv.sound.le_limit,
    inv.sound.page, ?_⟩, ?_, ?_, apart, ?_⟩
  · rw [heapMachine, covered]
    exact Set.union_subset (inv.inside block member) inv.sound.inside
  · exact fun other kept => inv.inside other (List.mem_of_mem_erase kept)
  · exact fun other kept => inv.word other (List.mem_of_mem_erase kept)
  · intro other kept
    rw [heapMachine, covered]
    refine Set.disjoint_union_right.mpr ⟨(gone other kept).symm, ?_⟩
    exact inv.free other (List.mem_of_mem_erase kept)

theorem heapMachine_inv (call : HeapCall) (proper : Proper world call) :
    Inv window (heapMachine world call).2 := by
  cases call with
  | alloc layout => exact alloc_inv inv layout
  | dealloc block => exact dealloc_inv inv proper

/-- What an answered allocation promises. -/
theorem alloc_moves {layout : Layout} {pointer : Nat}
    (answered : (heapMachine world (.alloc layout)).1 = some pointer) :
    (Clear world layout → layout.align ∣ pointer) ∧
      (window.base ≤ pointer ∧ pointer + layout.size ≤ window.limit) ∧
      (∀ block ∈ world.live, Disjoint (Region.extent { addr := pointer, size := layout.size })
          block.asked.extent) ∧
      ∀ region ∈ (heapMachine world (.alloc layout)).2.heap.free,
        Disjoint (Region.extent { addr := pointer, size := layout.size })
          region.extent := by
  obtain ⟨answer, heap⟩ := heapMachine_alloc world layout
  have allocated := alloc_allocated inv.sound layout
  obtain ⟨-, inside, apart, aligned⟩ := allocated.block pointer (answer ▸ answered)
  have asked := Block.asked_subset { addr := pointer, layout }
  refine ⟨fun clear => ?_, ?_, fun block member => ?_, fun region member => ?_⟩
  · exact layout.blockAlign_spec.2.2.2.trans (aligned clear)
  · have reached : reach world.heap (world.heap.alloc layout).2 ⊆
        Set.Ico window.base window.limit := by
      refine Set.union_subset (inv.sound.inside.trans ?_) (Set.Ico_subset_Ico inv.sound.base_le ?_)
      · exact Set.Ico_subset_Ico_right inv.sound.le_limit
      · exact allocated.sound.le_limit
    refine (Set.Ico_subset_Ico_iff (Nat.lt_add_of_pos_right layout.size_pos)).mp ?_
    exact asked.trans (inside.trans reached)
  · exact ((live_disjoint_reach inv member).mono_right inside).symm.mono asked block.asked_subset
  · rw [heap] at member
    exact apart.mono asked (extent_subset_space member)

theorem heapMachine_moves (call : HeapCall) (proper : Proper world call) :
    HeapMove window (heapMachine.move world call) where
  aligned layout pointer input answer := by
    cases input
    exact (alloc_moves inv answer).1
  inside layout pointer input answer := by
    cases input
    exact (alloc_moves inv answer).2.1
  apart layout pointer input answer := by
    cases input
    exact (alloc_moves inv answer).2.2
  tidy := (heapMachine_inv inv call proper).sound.tidy

end Step

theorem Window.world_inv (window : Window) : Inv window window.world where
  sound := window.heap_sound
  inside _ member := by cases member
  word _ member := by cases member
  apart := .nil
  free _ member := by cases member

/--
On every run that frees live blocks only: blocks lie inside the window, apart
from all live blocks and free regions, and the free list stays tidy.  A block
is aligned when no free region started one word below a multiple of its
alignment.
-/
theorem heap_blocks_apart_and_aligned (window : Window) {calls : List HeapCall}
    (proper : heapMachine.Meets Proper window.world calls) :
    ∀ move ∈ heapMachine.run window.world calls, HeapMove window move :=
  Machine.forall_run (fun _ call inv proper => heapMachine_inv inv call proper)
    (fun _ call inv proper => heapMachine_moves inv call proper)
    window.world_inv proper

/-! ## Two runs -/

/-- A window of one megabyte. -/
def sampleWindow : Window where
  base := 0xc1000000
  limit := 0xc1100000
  base_page := by decide
  limit_page := by decide
  ordered := by decide
  small := by decide

def wordLayout : Layout where
  size := 12
  align := 4
  size_pos := by decide
  align_power := ⟨2, rfl⟩
  fits := by decide

def doubleLayout : Layout where
  size := 8
  align := 8
  size_pos := by decide
  align_power := ⟨3, rfl⟩
  fits := by decide

/-- Blocks are taken, freed and taken again. -/
theorem blocks_are_reused :
    let calls : List HeapCall :=
      [.alloc doubleLayout, .alloc wordLayout,
        .dealloc { addr := 0xc1000000, layout := doubleLayout },
        .alloc doubleLayout]
    (heapMachine.run sampleWindow.world calls).map Move.answer =
        [some 0xc1000000, some 0xc1000008, none, some 0xc1000000] ∧
      ∀ move ∈ heapMachine.run sampleWindow.world calls, HeapMove sampleWindow move := by
  intro calls
  refine ⟨by decide +kernel, ?_⟩
  exact heap_blocks_apart_and_aligned sampleWindow (by decide +kernel)

/--
After a block of 12 bytes the free region starts 4 bytes below a multiple of
8, and the next block with alignment 8 starts there.
-/
theorem second_block_is_misaligned :
    let calls : List HeapCall := [.alloc wordLayout, .alloc doubleLayout]
    heapMachine.Meets Proper sampleWindow.world calls ∧
      (heapMachine.run sampleWindow.world calls).map Move.answer =
        [some 0xc1000000, some 0xc100000c] ∧
      ¬ doubleLayout.align ∣ 0xc100000c := by
  refine ⟨?_, ?_, ?_⟩ <;> decide +kernel

end RetroOS.Heap
