import RetroOS.Linux.AddressSpace

/-!
# Regions of a Linux process do not collide

The kernel keeps no list of mappings, so the ledger of a run does: the
addresses of every region that a call returned and no later call gave back.
The law of one call compares the region it returns with that ledger and with
the heap.

Two cursors suffice while every region lies above the mapping cursor or below
the heap.  The regions the kernel picks do.  Those a caller names, by a fixed
mapping or by shrinking a mapping in place, are never looked at, and a length
for which a sum wraps passes the only check there is.  `memory_calls_apart`
asks this much of the calls and no more of the state they meet.
-/

namespace RetroOS.Linux

open Lib
open Kernel

/-! ## The ledger -/

section Ledger

variable (width : PointerWidth)

/-- The pages that an address and a length name. -/
def pagesOf (addr length : Nat) : Region where
  addr
  size := pageBytes length

/-- Whether a call asks for an address of its own choice. -/
def MemoryCall.requestsFixed : MemoryCall → Bool
  | .mmap _ args => args.a3.toUInt32 &&& mapFixed != 0
  | _ => false

/-- The region that a call returned. -/
def MemoryCall.returned : MemoryCall → Answer → Option Region
  | .mmap _ args, .value base => some (pagesOf base (usize width args.a1))
  | .mremap args, .value base => some (pagesOf base (usize width args.a2))
  | _, _ => none

/-- The addresses that a call gave back. -/
def MemoryCall.released : MemoryCall → Answer → Set Nat
  | .mremap args, .value _ | .munmap args, .value _ =>
    (pagesOf (usize width args.a0) (usize width args.a1)).extent
  | _, _ => ∅

/-- A process and the addresses that calls returned to it. -/
structure Ledger (μ φ : Type) where
  world : World μ φ
  mapped : Set Nat

def LinuxState.heap (linux : LinuxState) : Region where
  addr := linux.heapBase
  size := linux.heapEnd - linux.heapBase

variable {μ φ : Type} (bytes : GuestBytes μ) (files : Files φ)

/-- The calls, with the ledger kept beside them. -/
def ledgerMachine : Machine (Ledger μ φ) MemoryCall Answer :=
  fun ledger call =>
    let (answer, world) := memoryMachine width bytes files ledger.world call
    let kept := ledger.mapped \ call.released width answer
    let mapped :=
      match call.returned width answer with
      | none => kept
      | some region => kept ∪ region.extent
    (answer, { world, mapped })

/-- What a call may return, and where the heap may end after it. -/
structure RegionLaw (move : Move (Ledger μ φ) MemoryCall Answer) :
    Prop where
  aligned :
    ∀ region ∈ move.input.returned width move.answer,
      move.input.requestsFixed = false → region.addr % pageSize = 0
  offHeap :
    ∀ region ∈ move.input.returned width move.answer, move.input.requestsFixed = false →
        Disjoint region.extent move.after.world.linux.heap.extent
  fresh :
    ∀ region ∈ move.input.returned width move.answer, move.input.requestsFixed = false →
        Disjoint region.extent (move.before.mapped \ move.input.released width move.answer)
  fits : ∀ region ∈ move.input.returned width move.answer, region.stop ≤ 2 ^ width.bits
  heapBelow :
    ∀ address ∈ move.after.mapped, move.after.world.linux.heapBase ≤ address →
        move.after.world.linux.heapEnd ≤ address

/-! ## The calls that keep the law -/

/-- A region above the mapping cursor or below the heap. -/
def LinuxState.Settled (linux : LinuxState) (region : Region) : Prop :=
  region.stop ≤ 2 ^ width.bits ∧ (linux.mmapCursor ≤ region.addr ∨ region.stop ≤ linux.heapBase)

instance (linux : LinuxState) (region : Region) : Decidable (linux.Settled width region) :=
  inferInstanceAs (Decidable (_ ∧ _))

/-- A length that can be added to the end of the heap. -/
def LinuxState.Addable (linux : LinuxState) (length : Nat) : Prop :=
  linux.heapEnd + pageBytes length < 2 ^ width.bits

instance (linux : LinuxState) (length : Nat) : Decidable (linux.Addable width length) :=
  inferInstanceAs (Decidable (_ < _))

/--
A region that the caller places is settled, and a length that the kernel
places does not wrap.
-/
def MemoryOrderly (ledger : Ledger μ φ) : MemoryCall → Prop
  | .brk _ | .munmap _ => True
  | .mmap _ args =>
    if args.a3.toUInt32 &&& mapFixed ≠ 0 ∧ usize width args.a0 ≠ 0 then
      ledger.world.linux.Settled width (pagesOf (usize width args.a0 / pageSize * pageSize)
          (usize width args.a1))
    else ledger.world.linux.Addable width (usize width args.a1)
  | .mremap args =>
    if usize width args.a2 ≤ usize width args.a1 then
      ledger.world.linux.Settled width (pagesOf (usize width args.a0) (usize width args.a2))
    else ledger.world.linux.Addable width (usize width args.a2)

instance (ledger : Ledger μ φ) : (call : MemoryCall) → Decidable (MemoryOrderly width ledger call)
  | .brk _ | .munmap _ => .isTrue trivial
  | .mmap _ _ | .mremap _ => inferInstanceAs (Decidable (ite _ _ _))

/-- The heap ends below the cursor, and the ledger lies around both. -/
structure Ledger.Sound (ledger : Ledger μ φ) : Prop where
  ordered : ledger.world.linux.heapBase ≤ ledger.world.linux.heapEnd
  below : ledger.world.linux.heapEnd ≤ ledger.world.linux.mmapCursor
  cursor_lt : ledger.world.linux.mmapCursor < 2 ^ width.bits
  aligned : ledger.world.linux.mmapCursor % pageSize = 0
  around :
    ∀ address ∈ ledger.mapped, ledger.world.linux.mmapCursor ≤ address ∨
        address < ledger.world.linux.heapBase

end Ledger

/-! ## One call -/

section Step

variable {μ φ : Type} {width : PointerWidth} {bytes : GuestBytes μ}
    {files : Files φ} {ledger : Ledger μ φ} {call : MemoryCall}

/-- A move of the heap end and the cursor that keeps their order. -/
structure LinuxState.Narrows (before after : LinuxState) : Prop where
  base : after.heapBase = before.heapBase
  ordered : after.heapBase ≤ after.heapEnd
  below : after.heapEnd ≤ after.mmapCursor
  cursor : after.mmapCursor ≤ before.mmapCursor
  aligned : after.mmapCursor % pageSize = 0

theorem Ledger.Sound.narrows_self (sound : ledger.Sound width) :
    ledger.world.linux.Narrows ledger.world.linux :=
  ⟨rfl, sound.ordered, sound.below, le_rfl, sound.aligned⟩

/-- What a call has to show of the region it returns. -/
structure Placed (width : PointerWidth) (ledger : Ledger μ φ)
    (call : MemoryCall) (result : Answer × World μ φ) : Prop where
  narrows : ledger.world.linux.Narrows result.2.linux
  settled : ∀ region ∈ call.returned width result.1, result.2.linux.Settled width region
  aligned :
    ∀ region ∈ call.returned width result.1, call.requestsFixed = false → region.addr % pageSize = 0
  fresh :
    ∀ region ∈ call.returned width result.1, call.requestsFixed = false →
        Disjoint region.extent (ledger.mapped \ call.released width result.1)

/-- A settled region lies off the heap. -/
theorem LinuxState.Settled.offHeap {linux : LinuxState} {region : Region}
    (settled : linux.Settled width region)
    (ordered : linux.heapBase ≤ linux.heapEnd)
    (below : linux.heapEnd ≤ linux.mmapCursor) :
    Disjoint region.extent linux.heap.extent := by
  rcases settled.2 with above | under
  · refine (Region.disjoint_of_le ?_).symm
    change linux.heapBase + (linux.heapEnd - linux.heapBase) ≤ region.addr
    omega
  · exact Region.disjoint_of_le under

/-- The addresses of a settled region lie around the cursors. -/
theorem LinuxState.Settled.around {linux : LinuxState} {region : Region}
    (settled : linux.Settled width region) {address : Nat}
    (inside : address ∈ region.extent) :
    linux.mmapCursor ≤ address ∨ address < linux.heapBase := by
  obtain ⟨lower, upper⟩ := Region.mem_extent.mp inside
  rcases settled.2 with above | under
  · exact .inl (above.trans lower)
  · exact .inr (upper.trans_le under)

section Placement

variable (sound : ledger.Sound width) (placed :
      Placed width ledger call (memoryMachine width bytes files ledger.world call))

include sound placed

/-- The ledger after a call lies around the cursors again. -/
theorem Placed.around {address : Nat} (member :
      address ∈ (ledgerMachine width bytes files ledger call).2.mapped) :
    (memoryMachine width bytes files ledger.world call).2.linux.mmapCursor ≤ address ∨
      address < (memoryMachine width bytes files ledger.world call).2.linux.heapBase
    := by
  have kept : address ∈ ledger.mapped →
      (memoryMachine width bytes files ledger.world call).2.linux.mmapCursor ≤ address ∨
        address < (memoryMachine width bytes files ledger.world call).2.linux.heapBase
      := by
    intro earlier
    rw [placed.narrows.base]
    exact (sound.around address earlier).imp_left placed.narrows.cursor.trans
  simp only [ledgerMachine] at member
  split at member
  case h_1 nothing => exact kept member.1
  case h_2 region found =>
    rcases member with earlier | inside
    · exact kept earlier.1
    · exact (placed.settled region found).around inside

theorem Placed.keeps : (ledgerMachine width bytes files ledger call).2.Sound width where
  ordered := placed.narrows.ordered
  below := placed.narrows.below
  cursor_lt := placed.narrows.cursor.trans_lt sound.cursor_lt
  aligned := placed.narrows.aligned
  around _ member := placed.around sound member

theorem Placed.law : RegionLaw width ((ledgerMachine width bytes files).move ledger call) where
  aligned := placed.aligned
  offHeap region found _ :=
    (placed.settled region found).offHeap placed.narrows.ordered placed.narrows.below
  fresh := placed.fresh
  fits region found := (placed.settled region found).1
  heapBelow address member above := by
    rcases placed.around sound member with higher | lower
    · exact placed.narrows.below.trans higher
    · exact absurd above lower.not_ge

end Placement

/-- A call that returns no region only has to keep the order. -/
theorem Placed.of_none {result : Answer × World μ φ}
    (narrows : ledger.world.linux.Narrows result.2.linux)
    (nothing : call.returned width result.1 = none) :
    Placed width ledger call result where
  narrows
  settled region found := by simp [nothing] at found
  aligned region found := by simp [nothing] at found
  fresh region found := by simp [nothing] at found

section

variable (sound : ledger.Sound width)

include sound

theorem sysBrk_placed (args : Args) :
    Placed width ledger (.brk args) (sysBrk width ledger.world args) := by
  refine .of_none ?_ ?_
  · have ordered := sound.ordered
    have below := sound.below
    unfold sysBrk
    dsimp only
    split_ifs
    · exact sound.narrows_self
    · refine ⟨rfl, ?_, min_le_right _ _, le_rfl, sound.aligned⟩
      exact le_min (le_max_right _ _) (ordered.trans below)
  · unfold sysBrk
    dsimp only
    split_ifs <;> rfl

theorem sysMunmap_placed (args : Args) :
    Placed width ledger (.munmap args) (sysMunmap width ledger.world args) := by
  unfold sysMunmap
  split_ifs <;> exact .of_none sound.narrows_self rfl

/-- What lies directly below the cursor, as far as the heap leaves room. -/
structure Taken (width : PointerWidth) (ledger : Ledger μ φ) (length : Nat)
    (taken : LinuxState) : Prop where
  narrows : ledger.world.linux.Narrows taken
  settled : taken.Settled width (pagesOf taken.mmapCursor length)
  fresh : Disjoint (pagesOf taken.mmapCursor length).extent ledger.mapped

/-- Addresses taken below the cursor are new. -/
theorem takeBelow_taken {length : Nat} (addable : ledger.world.linux.Addable width length)
    {taken : LinuxState}
    (took : takeBelow width ledger.world.linux (pageBytes length % 2 ^ width.bits) = some taken) :
    Taken width ledger length taken := by
  obtain ⟨room, rfl⟩ := takeBelow_eq_some sound.cursor_lt addable took
  have ordered := sound.ordered
  have cursor_lt := sound.cursor_lt
  have stop :
      ledger.world.linux.mmapCursor - pageBytes length + pageBytes length =
        ledger.world.linux.mmapCursor :=
    Nat.sub_add_cancel (by omega)
  refine ⟨⟨rfl, ordered, ?_, Nat.sub_le _ _, ?_⟩, ⟨?_, .inl le_rfl⟩, ?_⟩
  · exact Nat.le_sub_of_add_le room
  · -- Both the cursor and the size are whole pages.
    exact Nat.sub_mod_eq_zero_of_mod_eq (sound.aligned.trans (pageBytes_mod length).symm)
  · exact stop.le.trans cursor_lt.le
  · refine Set.disjoint_left.mpr fun address inside earlier => ?_
    obtain ⟨lower, upper⟩ := Region.mem_extent.mp inside
    change ledger.world.linux.mmapCursor - pageBytes length ≤ address at lower
    change address < ledger.world.linux.mmapCursor - pageBytes length + pageBytes length at upper
    have around := sound.around address earlier
    omega

theorem sysMremap_placed (args : Args) (orderly : MemoryOrderly width ledger (.mremap args)) :
    Placed width ledger (.mremap args) (sysMremap width bytes ledger.world args) := by
  unfold sysMremap
  dsimp only
  split_ifs with invalid shrinks fixed
  · exact .of_none sound.narrows_self rfl
  · -- The region stays, and its addresses were the caller's before.
    rw [MemoryOrderly, if_pos shrinks] at orderly
    have page : usize width args.a0 % pageSize = 0 := by
      by_contra odd
      exact invalid (.inl odd)
    have inside :
        (pagesOf (usize width args.a0) (usize width args.a2)).extent ⊆
          (pagesOf (usize width args.a0) (usize width args.a1)).extent :=
      Set.Ico_subset_Ico_right (Nat.add_le_add_left (pageBytes_mono shrinks) _)
    refine ⟨sound.narrows_self, ?_, ?_, ?_⟩ <;> rintro region ⟨⟩
    · exact orderly
    · exact fun _ => page
    · exact fun _ => Set.disjoint_left.mpr fun _ member outside => outside.2 (inside member)
  · exact .of_none sound.narrows_self rfl
  · rw [MemoryOrderly, if_neg shrinks] at orderly
    split
    case h_1 full => exact .of_none sound.narrows_self rfl
    case h_2 linux took =>
      have taken := takeBelow_taken sound orderly took
      refine ⟨taken.narrows, ?_, ?_, ?_⟩ <;> rintro region ⟨⟩
      · exact taken.settled
      · exact fun _ => taken.narrows.aligned
      · exact fun _ => taken.fresh.mono_right Set.sdiff_subset

omit sound in
/-- A mapping is placed where its base is. -/
theorem fillMapping_placed {table : SyscallTable} {args : Args}
    {world : World μ φ} {base allocSize offset : Nat}
    (narrows : ledger.world.linux.Narrows world.linux)
    (settled : world.linux.Settled width (pagesOf base (usize width args.a1)))
    (free :
      (MemoryCall.mmap table args).requestsFixed = false →
        base % pageSize = 0 ∧ Disjoint (pagesOf base (usize width args.a1)).extent ledger.mapped) :
    Placed width ledger (.mmap table args)
      (fillMapping bytes files world args base (usize width args.a1) allocSize offset) := by
  obtain ⟨linux, value⟩ :=
    fillMapping_spec bytes files world args base (usize width args.a1) allocSize offset
  have only :
      ∀ region ∈ (MemoryCall.mmap table args).returned width
          (fillMapping bytes files world args base (usize width args.a1) allocSize offset).1,
        region = pagesOf base (usize width args.a1) := by
    intro region found
    cases answer :
        (fillMapping bytes files world args base (usize width args.a1) allocSize offset).1 with
    | value result =>
      rw [answer] at found
      obtain rfl := value result answer
      exact (Option.some.inj found).symm
    | failed errno => rw [answer] at found; cases found
    | halted => rw [answer] at found; cases found
  refine ⟨linux ▸ narrows, ?_, ?_, ?_⟩ <;> intro region found
  · rw [only region found, linux]
    exact settled
  · rw [only region found]
    exact fun chosen => (free chosen).1
  · rw [only region found]
    exact fun chosen => (free chosen).2.mono_right Set.sdiff_subset

theorem sysMmap2_placed (table : SyscallTable) (args : Args)
    (orderly : MemoryOrderly width ledger (.mmap table args))
    (offset : Nat) :
    Placed width ledger (.mmap table args)
      (sysMmap2 width bytes files ledger.world args offset) := by
  unfold sysMmap2
  dsimp only
  split_ifs with empty fixed
  · exact .of_none sound.narrows_self rfl
  · rw [MemoryOrderly, if_pos fixed] at orderly
    refine fillMapping_placed sound.narrows_self orderly fun chosen => ?_
    simp [MemoryCall.requestsFixed, fixed.1] at chosen
  · rw [MemoryOrderly, if_neg fixed] at orderly
    split
    case h_1 full => exact .of_none sound.narrows_self rfl
    case h_2 linux took =>
      have taken := takeBelow_taken sound orderly took
      exact fillMapping_placed taken.narrows taken.settled
        fun _ => ⟨taken.narrows.aligned, taken.fresh⟩

theorem memoryMachine_placed (orderly : MemoryOrderly width ledger call) :
    Placed width ledger call (memoryMachine width bytes files ledger.world call) := by
  cases call with
  | brk args => exact sysBrk_placed sound args
  | mmap table args => exact sysMmap2_placed sound table args orderly _
  | mremap args => exact sysMremap_placed sound args orderly
  | munmap args => exact sysMunmap_placed sound args

/-- An orderly call keeps the order and obeys the law. -/
theorem ledgerMachine_step (orderly : MemoryOrderly width ledger call) :
    (ledgerMachine width bytes files ledger call).2.Sound width ∧
      RegionLaw width ((ledgerMachine width bytes files).move ledger call) :=
  have placed := memoryMachine_placed sound orderly
  ⟨placed.keeps sound, placed.law sound⟩

end

end Step

/-! ## Runs -/

/-- A process as it starts, with no region returned yet. -/
def World.fresh {μ φ : Type} (heapBase mmapCursor : Nat) (memory : μ)
    (files : φ) (fds : Nat → FdKind) : World μ φ where
  linux := { heapBase, heapEnd := heapBase, mmapCursor }
  memory
  files
  fds

/-- No region collides in any run of orderly calls. -/
theorem memory_calls_apart {μ φ : Type} (width : PointerWidth)
    (bytes : GuestBytes μ) (files : Files φ) (heapBase mmapCursor : Nat)
    (memory : μ) (content : φ) (fds : Nat → FdKind)
    (below : heapBase ≤ mmapCursor) (cursor_lt : mmapCursor < 2 ^ width.bits)
    (aligned : mmapCursor % pageSize = 0) (calls : List MemoryCall)
    (orderly :
      (ledgerMachine width bytes files).Meets (MemoryOrderly width)
        ⟨.fresh heapBase mmapCursor memory content fds, ∅⟩ calls) :
    ∀ move ∈ (ledgerMachine width bytes files).run
        ⟨.fresh heapBase mmapCursor memory content fds, ∅⟩ calls,
      RegionLaw width move := by
  have start : Ledger.Sound width ⟨World.fresh heapBase mmapCursor memory content fds, ∅⟩ :=
    ⟨le_rfl, below, cursor_lt, aligned, fun _ member => member.elim⟩
  exact Machine.forall_run (fun _ _ sound meets => (ledgerMachine_step sound meets).1)
    (fun _ _ sound meets => (ledgerMachine_step sound meets).2) start orderly

/-- Guest memory as a plain array of bytes. -/
def plainBytes : GuestBytes (Nat → UInt8) where
  copyTo memory addr data address :=
    if addr ≤ address ∧ address < addr + data.length then data.getD (address - addr) 0
    else memory address
  zero memory addr length address :=
    if addr ≤ address ∧ address < addr + length then 0 else memory address
  copyWithin memory src dst length address :=
    if dst ≤ address ∧ address < dst + length then memory (src + (address - dst))
    else memory address

/-- A file layer in which every file is empty. -/
def emptyFiles : Files Unit where
  seek content _ _ := content
  read content _ _ := (0, [], content)
  grants _ _ := true

/-- An anonymous mapping at an address of the kernel's choice. -/
def anonymous (length : UInt64) : MemoryCall := .mmap .x8664 { a1 := length, a3 := 0x22 }

/-- An anonymous mapping at an address of the caller's choice. -/
def anonymousAt (addr length : UInt64) : MemoryCall :=
  .mmap .x8664 { a0 := addr, a1 := length, a3 := 0x32 }

def resized (addr old new : UInt64) : MemoryCall :=
  .mremap { a0 := addr, a1 := old, a2 := new, a3 := 1 }

/-- A process with its image below 0x8050000, and its ledger. -/
def smallProcess (mmapCursor : Nat) : Ledger (Nat → UInt8) Unit :=
  ⟨.fresh 0x8050000 mmapCursor (fun _ => 0) () fun _ => .none, ∅⟩

/-- Grow the heap, map, replace a part, resize twice, unmap, and map again. -/
def tidyMappings : List MemoryCall :=
  [.brk { a0 := 0x8060123 }, anonymous 0x5000,
    anonymousAt 0xBEFFC000 0x1000, resized 0xBEFFB000 0x1000 0x2000,
    resized 0xBEFF9000 0x2000 0x1000, .munmap { a0 := 0xBEFFC000, a1 := 1 },
    anonymous 1, .brk { a0 := 0x8051000 }, .mmap .i386 { a1 := 1, a4 := 3 }]

theorem tidy_mappings_apart :
    ((ledgerMachine .bits32 plainBytes emptyFiles).run
        (smallProcess 0xBF000000) tidyMappings).map Move.answer =
        [.value 0x8060123, .value 0xBEFFB000, .value 0xBEFFC000,
          .value 0xBEFF9000, .value 0xBEFF9000, .value 0,
          .value 0xBEFF8000, .value 0x8051000, .failed ebadf] ∧
      ∀ move ∈ (ledgerMachine .bits32 plainBytes emptyFiles).run
          (smallProcess 0xBF000000) tidyMappings,
        RegionLaw .bits32 move :=
  ⟨by decide +kernel, memory_calls_apart .bits32 plainBytes emptyFiles 0x8050000 0xBF000000
      (fun _ => 0) () (fun _ => .none) (by decide) (by decide) (by decide)
      tidyMappings (by decide +kernel)⟩

/--
A mapping lands on a fixed one; the heap grows over a fixed one; a length
that wraps succeeds at both widths; a mapping shrinks inside the heap; and an
odd cursor gives an odd mapping.
-/
theorem mappings_collide :
    (¬ ∀ move ∈ (ledgerMachine .bits32 plainBytes emptyFiles).run (smallProcess 0xBF000000)
        [anonymousAt 0xBEFFF000 0x1000, anonymous 0x1000],
      RegionLaw .bits32 move) ∧
    (¬ ∀ move ∈ (ledgerMachine .bits32 plainBytes emptyFiles).run (smallProcess 0xBF000000)
        [anonymousAt 0x8060000 0x1000, .brk { a0 := 0x8070000 }],
      RegionLaw .bits32 move) ∧
    (¬ ∀ move ∈ (ledgerMachine .bits32 plainBytes emptyFiles).run
        (smallProcess 0xBF000000) [anonymous 0xFFFFFFFF],
      RegionLaw .bits32 move) ∧
    (¬ ∀ move ∈ (ledgerMachine .bits64 plainBytes emptyFiles).run
        (smallProcess 0xBF000000) [anonymous 0xFFFFFFFFFFFFFFFF],
      RegionLaw .bits64 move) ∧
    (¬ ∀ move ∈ (ledgerMachine .bits32 plainBytes emptyFiles).run (smallProcess 0xBF000000)
        [.brk { a0 := 0x8060000 }, resized 0x8050000 0x2000 0x1000],
      RegionLaw .bits32 move) ∧
    ¬ ∀ move ∈ (ledgerMachine .bits32 plainBytes emptyFiles).run
        (smallProcess 0xBF000001) [anonymous 0x1000],
      RegionLaw .bits32 move := by
  refine ⟨?_, ?_, ?_, ?_, ?_, ?_⟩ <;> intro law
  · have last := (law _ (Machine.last_mem_run _ (smallProcess 0xBF000000)
      [anonymousAt 0xBEFFF000 0x1000] (anonymous 0x1000))).fresh
      ⟨0xBEFFF000, 0x1000⟩ (by decide +kernel) (by decide)
    have inside : 0xBEFFF000 ∈ (⟨0xBEFFF000, 0x1000⟩ : Region).extent :=
      Region.mem_extent.mpr (by decide)
    refine Set.disjoint_left.mp last inside ⟨.inr ?_, id⟩
    exact Region.mem_extent.mpr (by decide +kernel)
  · have last := (law _ (Machine.last_mem_run _ (smallProcess 0xBF000000)
      [anonymousAt 0x8060000 0x1000] (.brk { a0 := 0x8070000 }))).heapBelow
      0x8060000 ⟨.inr (Region.mem_extent.mpr (by decide +kernel)), id⟩
      (by decide +kernel)
    revert last
    decide +kernel
  · have last := (law _ (Machine.last_mem_run _ (smallProcess 0xBF000000)
      [] (anonymous 0xFFFFFFFF))).fits ⟨0xBF000000, 0x100000000⟩
      (by decide +kernel)
    revert last
    decide +kernel
  · have last := (law _ (Machine.last_mem_run _ (smallProcess 0xBF000000)
      [] (anonymous 0xFFFFFFFFFFFFFFFF))).fits
      ⟨0xBF000000, 0x10000000000000000⟩ (by decide +kernel)
    revert last
    decide +kernel
  · have last := (law _ (Machine.last_mem_run _ (smallProcess 0xBF000000)
      [.brk { a0 := 0x8060000 }] (resized 0x8050000 0x2000 0x1000))).offHeap
      ⟨0x8050000, 0x1000⟩ (by decide +kernel) rfl
    have inside : 0x8050000 ∈ (⟨0x8050000, 0x1000⟩ : Region).extent :=
      Region.mem_extent.mpr (by decide)
    exact Set.disjoint_left.mp last inside (Region.mem_extent.mpr (by decide +kernel))
  · have last := (law _ (Machine.last_mem_run _ (smallProcess 0xBF000001)
      [] (anonymous 0x1000))).aligned ⟨0xBEFFF001, 0x1000⟩
      (by decide +kernel) (by decide)
    revert last
    decide +kernel

end RetroOS.Linux
