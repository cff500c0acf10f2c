import RetroOS.Heap.Runs

/-!
# What the heap loses

A block is accounted for its size.  Two parts of the region it is cut from
belong to nobody afterwards: a word in front of it, which is too small to stay
free, and a rest that is too small for a header.  Every other byte is free or
part of a live block.

So the bytes that are missing after a run are those that its allocations have
wasted.  When all blocks are given back, the free list is the whole range that
was claimed just if there are none.
-/

namespace RetroOS.Heap

open Lib

/-- The bytes that are lost when a block is cut from the first region with room. -/
def waste (size align : Nat) : List Region → Nat
  | [] => 0
  | block :: rest =>
    let padding := blockPadding align block
    let totalNeeded := (padding + size) % 2 ^ 32
    if block.size ≥ totalNeeded then
      let remainderSize := block.size - totalNeeded
      (if padding < minBlockSize then padding else 0) +
        if remainderSize < minBlockSize then remainderSize else 0
    else waste size align rest

/-- The bytes that an allocation loses. -/
def DemandHeap.wasted (heap : DemandHeap) (layout : Layout) : Nat :=
  match allocFromList layout.blockSize layout.blockAlign heap.free with
  | some _ => waste layout.blockSize layout.blockAlign heap.free
  | none =>
    let (grown, heap) := heap.extendHeap (layout.blockSize + layout.blockAlign)
    if ¬ grown then 0 else waste layout.blockSize layout.blockAlign heap.free

/-- A free list of one region, from the base to the top of what is claimed. -/
def DemandHeap.Whole (base : Nat) (heap : DemandHeap) : Prop :=
  heap.free =
    if heap.mappedEnd = base then [] else [{ addr := base, size := heap.mappedEnd - base }]

/-- An allocation that loses nothing. -/
def Thrifty (world : World) : HeapCall → Prop
  | .alloc layout => world.heap.wasted layout = 0
  | .dealloc _ => True

instance (world : World) : (call : HeapCall) → Decidable (Thrifty world call)
  | .alloc _ => inferInstanceAs (Decidable (_ = 0))
  | .dealloc _ => .isTrue trivial

/-! ## The free list -/

section List

variable {block : Region} {free : List Region} {size align : Nat}

theorem freeBytes_kept (part : Region) (free : List Region) :
    freeBytes (kept part ++ free) =
      (if minBlockSize ≤ part.size then part.size else 0) + freeBytes free := by
  unfold kept
  split_ifs <;> simp

/-- What is taken from the free list is the block and what is lost. -/
theorem freeBytes_allocFromList (request : Request size align) (tidy : Tidy free)
    (inside : ∀ region ∈ free, region.stop ≤ 2 ^ 32) :
    (allocFromList size align free).elim (waste size align free = 0) fun found =>
      freeBytes found.2 + size + waste size align free = freeBytes free := by
  induction free with
  | nil => rfl
  | cons block rest induction =>
    rw [waste]
    dsimp only
    by_cases enough : (blockPadding align block + size) % 2 ^ 32 ≤ block.size
    · have sized := tidy.sized block List.mem_cons_self
      have room := inside block List.mem_cons_self
      obtain ⟨-, padding, total, -⟩ := request.accepts room sized.pos enough
      obtain ⟨fits, cut⟩ := allocFromList_cons request rfl room sized.pos enough
      rw [cut, if_pos enough, total, padding]
      simp only [Option.elim, freeBytes_kept, freeBytes_cons]
      split_ifs <;> omega
    · have later := induction tidy.tail
        fun region member => inside region (List.mem_cons_of_mem _ member)
      rw [allocFromList, if_neg enough, if_neg enough]
      cases found : allocFromList size align rest with
      | none => rwa [found] at later
      | some found =>
        simp only [*, Option.map_some, Option.elim, freeBytes_cons] at later ⊢
        omega

/-- Regions with gaps between them leave something of a range unless there is only one. -/
theorem freeBytes_le {low high : Nat} (tidy : Tidy (block :: free))
    (bounds : ∀ region ∈ block :: free, low ≤ region.addr ∧ region.stop ≤ high) :
    low + freeBytes (block :: free) ≤ high ∧
      (low + freeBytes (block :: free) = high → free = [] ∧ block.addr = low) := by
  induction free generalizing block low with
  | nil =>
    have own := bounds block List.mem_cons_self
    unfold Region.stop at own
    rw [freeBytes_cons, freeBytes_nil]
    exact ⟨by omega, fun full => ⟨rfl, by omega⟩⟩
  | cons next rest induction =>
    have own := bounds block List.mem_cons_self
    have later := (induction tidy.tail fun region member =>
      ⟨tidy.gap member, (bounds region (List.mem_cons_of_mem _ member)).2⟩).1
    unfold Region.stop at own later
    rw [freeBytes_cons]
    exact ⟨by omega, fun full => by omega⟩

end List

/-! ## The heap -/

section Heap

variable {window : Window} {heap : DemandHeap} (sound : Sound window heap)

include sound

theorem whole_iff :
    heap.Whole window.base ↔ freeBytes heap.free + window.base = heap.mappedEnd := by
  have base := sound.base_le
  have bounds (region : Region) (member : region ∈ heap.free) := sound.bounds member
  unfold DemandHeap.Whole
  cases known : heap.free with
  | nil =>
    rw [freeBytes_nil, Nat.zero_add]
    split_ifs with none
    · exact iff_of_true rfl none.symm
    · exact iff_of_false (by simp) (Ne.symm none)
  | cons block free =>
    rw [known] at bounds
    obtain ⟨-, single⟩ := freeBytes_le (known ▸ sound.tidy) bounds
    have some := (sound.tidy.sized block (by simp [known])).pos
    refine ⟨fun whole => ?_, fun full => ?_⟩
    · split_ifs at whole
      rw [whole]
      simp only [freeBytes_cons, freeBytes_nil]
      omega
    · obtain ⟨rfl, same⟩ := single (by omega)
      rw [freeBytes_cons, freeBytes_nil] at full
      rw [if_neg (by omega), ← same, show heap.mappedEnd - block.addr = block.size by omega]

theorem freeBytes_alloc (layout : Layout) :
    freeBytes (heap.alloc layout).2.free +
        (heap.alloc layout).1.elim 0 (fun _ => layout.blockSize) +
        heap.wasted layout + heap.mappedEnd =
      freeBytes heap.free + (heap.alloc layout).2.mappedEnd := by
  have here := freeBytes_allocFromList layout.request sound.tidy sound.stop_le
  unfold DemandHeap.alloc DemandHeap.wasted
  cases first : allocFromList layout.blockSize layout.blockAlign heap.free with
  | some found =>
    simp only [first, Option.elim] at here ⊢
    omega
  | none =>
    obtain ⟨grown, -, -, -, more⟩ := extendHeap_sound sound (layout.blockSize + layout.blockAlign)
    have there := freeBytes_allocFromList layout.request grown.tidy grown.stop_le
    dsimp only
    split_ifs
    · cases second : allocFromList layout.blockSize layout.blockAlign
          (heap.extendHeap (layout.blockSize + layout.blockAlign)).2.free <;>
        simp only [second, Option.elim] at there ⊢ <;> omega
    · exact more

end Heap

/-! ## Runs -/

/-- The bytes that are free or part of a live block. -/
def World.kept (world : World) : Nat :=
  freeBytes world.heap.free + (world.live.map fun block => block.layout.blockSize).sum

theorem kept_step {window : Window} {world : World} {call : HeapCall} (inv : Inv window world)
    (proper : Proper world call) :
    (heapMachine world call).2.kept + world.heap.mappedEnd ≤
        world.kept + (heapMachine world call).2.heap.mappedEnd ∧
      ((heapMachine world call).2.kept + world.heap.mappedEnd =
        world.kept + (heapMachine world call).2.heap.mappedEnd ↔ Thrifty world call) := by
  cases call with
  | alloc layout =>
    have taken := freeBytes_alloc inv.sound layout
    simp only [heapMachine, Thrifty, World.kept]
    generalize world.heap.wasted layout = wasted at *
    generalize world.heap.alloc layout = answer at *
    obtain ⟨_ | pointer, heap⟩ := answer <;>
      simp only [Option.elim, List.map_cons, List.sum_cons] at taken ⊢ <;> omega
  | dealloc block =>
    have bytes : freeBytes (addFreeRegion world.heap.free block.addr block.layout.blockSize) =
        block.layout.blockSize + freeBytes world.heap.free := (dealloc_added inv proper).bytes
    have live := ((List.perm_cons_erase proper).map fun block => block.layout.blockSize).sum_eq
    rw [List.map_cons, List.sum_cons] at live
    simp only [heapMachine, DemandHeap.dealloc, World.kept, Thrifty, iff_true, bytes]
    omega

theorem kept_final {window : Window} {world : World} {calls : List HeapCall}
    (inv : Inv window world) (proper : heapMachine.Meets Proper world calls)
    (before : world.kept + window.base ≤ world.heap.mappedEnd) :
    (heapMachine.final world calls).kept + window.base =
        (heapMachine.final world calls).heap.mappedEnd ↔
      world.kept + window.base = world.heap.mappedEnd ∧ heapMachine.Meets Thrifty world calls := by
  induction calls generalizing world with
  | nil => exact (and_iff_left trivial).symm
  | cons call rest induction =>
    obtain ⟨less, exact⟩ := kept_step inv proper.1
    rw [Machine.final, Machine.Meets, ← exact,
      induction (heapMachine_inv inv call proper.1) proper.2 (by omega), ← and_assoc]
    refine and_congr_left fun _ => ?_
    omega

/-- When all blocks are given back, nothing is missing just if no allocation lost anything. -/
theorem heap_whole_iff (window : Window) (calls : List HeapCall)
    (proper : heapMachine.Meets Proper window.world calls)
    (freed : (heapMachine.final window.world calls).live = []) :
    (heapMachine.final window.world calls).heap.Whole window.base ↔
      heapMachine.Meets Thrifty window.world calls := by
  have step : ∀ world call, Inv window world → Proper world call →
      Inv window (heapMachine world call).2 := fun _ call inv => heapMachine_inv inv call
  have sound := (Machine.invariant_final step window.world_inv proper).sound
  have start : window.world.kept + window.base = window.world.heap.mappedEnd := Nat.zero_add _
  have final := kept_final window.world_inv proper start.le
  rw [and_iff_right start] at final
  rw [whole_iff sound, ← final, World.kept, freed]
  rfl

/-- Blocks are taken, freed and taken again. -/
theorem reused_heap_whole :
    let calls : List HeapCall :=
      [.alloc doubleLayout, .alloc wordLayout,
        .dealloc { addr := 0xc1000000, layout := doubleLayout },
        .dealloc { addr := 0xc1000008, layout := wordLayout }]
    (heapMachine.final sampleWindow.world calls).heap.Whole sampleWindow.base :=
  (heap_whole_iff sampleWindow _ (by decide +kernel) (by decide +kernel)).mpr (by decide +kernel)

/-- A block that leaves one word of four pages, which nobody gives back. -/
def almostAll : Layout where
  size := 16380
  align := 4
  size_pos := by decide
  align_power := wordLayout.align_power
  fits := by decide

theorem last_word_lost :
    let calls : List HeapCall :=
      [.alloc almostAll, .dealloc { addr := 0xc1000000, layout := almostAll }]
    heapMachine.Meets Proper sampleWindow.world calls ∧
      (heapMachine.final sampleWindow.world calls).live = [] ∧
      ¬ (heapMachine.final sampleWindow.world calls).heap.Whole sampleWindow.base := by
  unfold DemandHeap.Whole
  decide +kernel

end RetroOS.Heap
