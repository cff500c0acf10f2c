import RetroOS.Dos.Registers
import RetroOS.Lib.Bytes
import RetroOS.Lib.Machine
import RetroOS.Lib.Memory

/-!
# Extended memory blocks

The XMS driver hands out blocks of the linear range from 0x120000 to 0x500000
under sixteen handles and moves bytes between blocks and conventional memory
on behalf of the guest.  A move takes its operands from a structure in guest
memory; a side is a handle with an offset, or handle 0 with a segment and an
offset.

The kernel is built with pointers of 32 and of 64 bits, and the two backends
order the bytes of a copy differently.  Both are parameters.  The upper
memory blocks of the same interface are not part of the model.
-/

namespace RetroOS.Dos

open Lib Lib.Bytes

inductive PointerWidth where
  | bits32
  | bits64
  deriving DecidableEq

/-- One more than the largest `usize`. -/
def PointerWidth.limit : PointerWidth → Nat
  | .bits32 => 2 ^ 32
  | .bits64 => 2 ^ 64

inductive CopyBackend where
  | interp
  | metal
  deriving DecidableEq

/-- The kernel build a guest runs on. -/
structure Platform where
  width : PointerWidth
  backend : CopyBackend

/-! ## Guest memory -/

/-- The little-endian number of some bytes at an address. -/
def readLe (memory : Memory UInt8) (address width : Nat) : Nat :=
  leNat ((List.range width).map fun index => memory ((address + index) % 2 ^ 32))

/-- Whether a copy starts at its last byte. -/
def Platform.copiesBackward (platform : Platform) (src dst length : Nat) : Bool :=
  match platform.backend with
  | .interp => src < dst
  | .metal => src < dst ∧ dst < (src + length) % platform.width.limit

def Platform.copyWithin (platform : Platform) (src dst length : Nat)
    (memory : Memory UInt8) : Memory UInt8 :=
  let indices :=
    if platform.copiesBackward src dst length then (List.range length).reverse
    else List.range length
  Memory.copy (fun index => (src + index) % 2 ^ 32)
    (fun index => (dst + index) % 2 ^ 32) indices memory

/-- Inside the address space a copy acts as if its source were read first. -/
theorem Platform.copyWithin_eq (platform : Platform) {src dst length : Nat}
    (memory : Memory UInt8) (src_fits : src + length < 2 ^ 32)
    (dst_fits : dst + length < 2 ^ 32) :
    platform.copyWithin src dst length memory = Memory.moved memory src dst length := by
  have sources : ∀ index < length, (src + index) % 2 ^ 32 = src + index :=
    fun index inside => Nat.mod_eq_of_lt (by omega)
  have targets : ∀ index < length, (dst + index) % 2 ^ 32 = dst + index :=
    fun index inside => Nat.mod_eq_of_lt (by omega)
  have wide : 2 ^ 32 ≤ platform.width.limit := by cases platform.width <;> decide
  have whole : (src + length) % platform.width.limit = src + length := Nat.mod_eq_of_lt (by omega)
  unfold copyWithin
  split_ifs with backward
  · refine Memory.copy_reverse_range sources targets memory ?_
    cases backend : platform.backend <;>
      simp only [copiesBackward, backend, decide_eq_true_eq] at backward <;>
      omega
  · refine Memory.copy_range sources targets memory ?_
    cases backend : platform.backend <;>
      simp only [copiesBackward, backend, decide_eq_true_eq, whole] at backward <;>
      omega

/-! ## Handles -/

def xmsBase : Nat := 0x120000

def xmsEnd : Nat := 0x500000

def xmsTotalKb : Nat := (xmsEnd - xmsBase) / 1024

def maxXmsHandles : Nat := 16

/-- A block of the extended memory. -/
structure XmsHandle where
  base : Nat
  sizeKb : Nat
  locked : Bool
  low : xmsBase ≤ base
  high : base + sizeKb * 1024 ≤ xmsEnd

/-- The blocks by slot; handle `n` is slot `n - 1`. -/
abbrev XmsState : Type := Fin maxXmsHandles → Option XmsHandle

namespace XmsState

def empty : XmsState := fun _ => none

/-- The slot of a handle, if it has one. -/
def slot (handle : Nat) : Option (Fin maxXmsHandles) :=
  if inside : 1 ≤ handle ∧ handle - 1 < maxXmsHandles then some ⟨handle - 1, inside.2⟩
  else none

/-- The block of a handle. -/
def block (state : XmsState) (handle : Nat) : Option XmsHandle := (slot handle).bind state

def live (state : XmsState) : List XmsHandle := (List.finRange maxXmsHandles).filterMap state

/-- Add a range behind those that do not start after it. -/
def insertRange (sorted : List XmsHandle) (range : XmsHandle) : List XmsHandle :=
  sorted.takeWhile (fun other => other.base ≤ range.base) ++
    range :: sorted.dropWhile (fun other => other.base ≤ range.base)

/-- The allocated ranges in the order of their bases. -/
def ranges (state : XmsState) : List XmsHandle := state.live.foldl insertRange []

/-- The first gap of a size, from `start` on. -/
def findGap (size : Nat) : Nat → List XmsHandle → Option Nat
  | start, [] => if size ≤ xmsEnd - start then some start else none
  | start, range :: rest =>
    if size ≤ range.base - start then some start
    else findGap size (range.base + range.sizeKb * 1024) rest

def findFree (state : XmsState) (size : Nat) : Option Nat :=
  if size = 0 then some xmsBase
  else findGap size xmsBase state.ranges

def freeKb (state : XmsState) : Nat := xmsTotalKb - (state.live.map XmsHandle.sizeKb).sum % 2 ^ 16

/-- The largest gap, from `start` on. -/
def largestGap : Nat → Nat → List XmsHandle → Nat
  | largest, start, [] => max largest (xmsEnd - start)
  | largest, start, range :: rest =>
    largestGap (max largest (range.base - start)) (range.base + range.sizeKb * 1024) rest

def largestFreeKb (state : XmsState) : Nat := largestGap 0 xmsBase state.ranges / 1024 % 2 ^ 16

theorem findGap_spec {size start base : Nat} {sorted : List XmsHandle}
    (low : xmsBase ≤ start) (high : start ≤ xmsEnd)
    (found : findGap size start sorted = some base) :
    xmsBase ≤ base ∧ base + size ≤ xmsEnd := by
  induction sorted generalizing start with
  | nil =>
    simp only [findGap] at found
    split_ifs at found with fits
    cases found
    exact ⟨low, by omega⟩
  | cons range rest induction =>
    have range_low := range.low
    have range_high := range.high
    simp only [findGap] at found
    split_ifs at found with fits
    · cases found
      exact ⟨low, by omega⟩
    · exact induction (by omega) (by omega) found

/-- A free range lies in the extended memory. -/
theorem findFree_spec {state : XmsState} {size base : Nat}
    (found : state.findFree size = some base) :
    xmsBase ≤ base ∧ base + size ≤ xmsEnd := by
  unfold findFree at found
  split_ifs at found with zero
  · cases found
    subst zero
    decide
  · exact findGap_spec le_rfl (by decide) found

end XmsState

/-! ## Calls -/

/-- The functions of the driver that work on blocks. -/
inductive XmsFunction where
  | queryFree
  | allocate
  | free
  | move
  | lock
  | unlock
  | info
  | reallocate
  deriving DecidableEq

/-- The blocks of a guest and its memory. -/
structure XmsWorld where
  handles : XmsState
  memory : Memory UInt8

/-- A call with its registers; a move finds its operands at `address`. -/
structure XmsCall where
  function : XmsFunction
  regs : Regs
  address : Nat

/-- The registers of a failed call. -/
def Regs.fail (regs : Regs) (code : Nat) : Regs :=
  { regs with rax := setWord regs.rax 0, rbx := setLowByte regs.rbx code }

/-- The registers of a call that only reports success. -/
def Regs.succeed (regs : Regs) : Regs := { regs with rax := setWord regs.rax 1 }

def xmsQueryFree (handles : XmsState) (regs : Regs) : Regs :=
  { regs with
    rax := setWord regs.rax handles.largestFreeKb
    rdx := setWord regs.rdx handles.freeKb }

def xmsAllocate (handles : XmsState) (regs : Regs) : Regs × XmsState :=
  let sizeKb := word regs.rdx
  match (List.finRange maxXmsHandles).find? fun slot =>
      (handles slot).isNone with
  | some slot =>
    match found : handles.findFree (sizeKb * 1024) with
    | some base =>
      ({ regs.succeed with rdx := setWord regs.rdx (slot + 1) }, Function.update handles slot (some
            { base, sizeKb
              locked := false
              low := (XmsState.findFree_spec found).1
              high := (XmsState.findFree_spec found).2 }))
    | none => (regs.fail 0xA0, handles)
  | none => (regs.fail 0xA1, handles)

/-- A call on the block of the handle in `dx`. -/
def withBlock (handles : XmsState) (regs : Regs)
    (use : Fin maxXmsHandles → XmsHandle → Regs × XmsState) :
    Regs × XmsState :=
  match XmsState.slot (word regs.rdx) with
  | some slot =>
    match handles slot with
    | some block => use slot block
    | none => (regs.fail 0xA2, handles)
  | none => (regs.fail 0xA2, handles)

def xmsFree (handles : XmsState) (regs : Regs) : Regs × XmsState :=
  withBlock handles regs fun slot _ => (regs.succeed, Function.update handles slot none)

def xmsLock (handles : XmsState) (regs : Regs) : Regs × XmsState :=
  withBlock handles regs fun slot block =>
    ({ regs with
       rax := setWord regs.rax 1
       rbx := setWord regs.rbx (word block.base)
       rdx := setWord regs.rdx (block.base / 2 ^ 16) },
      Function.update handles slot (some { block with locked := true }))

def xmsUnlock (handles : XmsState) (regs : Regs) : Regs × XmsState :=
  withBlock handles regs fun slot block =>
    (regs.succeed, Function.update handles slot (some { block with locked := false }))

def xmsInfo (handles : XmsState) (regs : Regs) : Regs × XmsState :=
  withBlock handles regs fun _ block =>
    let lockCount := if block.locked then 1 else 0
    let freeHandles := (List.finRange maxXmsHandles).countP fun slot => (handles slot).isNone
    ({ regs with
       rax := setWord regs.rax 1
       rbx := setWord regs.rbx (lockCount * 2 ^ 8 + freeHandles)
       rdx := setWord regs.rdx block.sizeKb },
      handles)

/-- A fresh block under the same handle; the old one stays when none fits. -/
def xmsReallocate (handles : XmsState) (regs : Regs) : Regs × XmsState :=
  withBlock handles regs fun slot old =>
    let newKb := word regs.rbx
    let without := Function.update handles slot none
    match found : XmsState.findFree without (newKb * 1024) with
    | some base =>
      (regs.succeed, Function.update handles slot (some
            { base
              sizeKb := newKb
              locked := old.locked
              low := (XmsState.findFree_spec found).1
              high := (XmsState.findFree_spec found).2 }))
    | none => (regs.fail 0xA0, handles)

/-! ## Moves -/

/-- One side of a move. -/
structure MoveSide where
  handle : Nat
  offset : Nat

/-- The structure a move finds in guest memory. -/
structure MoveOperands where
  length : Nat
  src : MoveSide
  dst : MoveSide

def MoveOperands.read (memory : Memory UInt8) (address : Nat) : MoveOperands where
  length := readLe memory address 4
  src :=
    { handle := readLe memory (address + 4) 2, offset := readLe memory (address + 6) 4 }
  dst :=
    { handle := readLe memory (address + 10) 2, offset := readLe memory (address + 12) 4 }

/-- The linear address of a segment and an offset packed in one word. -/
def segmentAddress (packed : Nat) : Nat := packed / 2 ^ 16 * 2 ^ 4 + packed % 2 ^ 16

/-- The linear address of a side, unless it is refused. -/
def resolve (platform : Platform) (handles : XmsState) (side : MoveSide)
    (length : Nat) : Option Nat :=
  if side.handle = 0 then some (segmentAddress side.offset)
  else
    match handles.block side.handle with
    | some block =>
      if (side.offset + length) % platform.width.limit ≤ block.sizeKb * 1024 then
        some ((block.base + side.offset) % 2 ^ 32)
      else none
    | none => none

def xmsMove (platform : Platform) (world : XmsWorld) (regs : Regs)
    (address : Nat) : Regs × Memory UInt8 :=
  let operands := MoveOperands.read world.memory address
  let done : Regs :=
    { regs with rax := setWord regs.rax 1, rbx := setWord regs.rbx 0 }
  if operands.length = 0 then (done, world.memory)
  else
    match resolve platform world.handles operands.src operands.length with
    | none => (regs.fail 0xA3, world.memory)
    | some src =>
      match resolve platform world.handles operands.dst operands.length
      with
      | none => (regs.fail 0xA5, world.memory)
      | some dst => (done, platform.copyWithin src dst operands.length world.memory)

def xmsDispatch (platform : Platform) : Machine XmsWorld XmsCall Regs :=
  fun world call =>
    let onHandles (result : Regs × XmsState) : Regs × XmsWorld :=
      (result.1, { world with handles := result.2 })
    match call.function with
    | .queryFree => (xmsQueryFree world.handles call.regs, world)
    | .allocate => onHandles (xmsAllocate world.handles call.regs)
    | .free => onHandles (xmsFree world.handles call.regs)
    | .move =>
      let (regs, memory) := xmsMove platform world call.regs call.address
      (regs, { world with memory })
    | .lock => onHandles (xmsLock world.handles call.regs)
    | .unlock => onHandles (xmsUnlock world.handles call.regs)
    | .info => onHandles (xmsInfo world.handles call.regs)
    | .reallocate => onHandles (xmsReallocate world.handles call.regs)

end RetroOS.Dos
