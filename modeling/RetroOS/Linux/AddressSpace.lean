import RetroOS.Kernel.Descriptors
import RetroOS.Kernel.Pipe
import RetroOS.Lib.Machine
import RetroOS.Lib.Regions

/-!
# The address space of a Linux process

A process has a heap that grows upward from the end of its image and mappings
that grow downward from a cursor below the stack.  `brk` moves the end of the
heap, `mmap` and `mremap` move the cursor, and nothing else is recorded: a
mapping at an address the process chose moves neither.

The kernel is built without overflow checks, so sums and products wrap at the
width of `usize`, which is 32 bits on one target and 64 on the other.  Guest
memory and the file layer are parameters.  Protection bits are ignored by the
source and do not appear.
-/

namespace RetroOS.Linux

open Lib
open Kernel

def pageSize : Nat := 0x1000

def ebadf : Nat := 9

def enomem : Nat := 12

def einval : Nat := 22

def mapFixed : UInt32 := 0x10

def mapAnonymous : UInt32 := 0x20

def mremapMaymove : UInt32 := 1

/-- The registers a system call takes its arguments from. -/
structure Args where
  a0 : UInt64 := 0
  a1 : UInt64 := 0
  a2 : UInt64 := 0
  a3 : UInt64 := 0
  a4 : UInt64 := 0
  a5 : UInt64 := 0

/-- The part of the process state that lays out its memory. -/
structure LinuxState where
  heapBase : Nat
  heapEnd : Nat
  mmapCursor : Nat
  deriving DecidableEq

/-- What the calls do to guest memory. -/
structure GuestBytes (μ : Type) where
  copyTo : μ → Nat → List UInt8 → μ
  zero : μ → Nat → Nat → μ
  copyWithin : μ → Nat → Nat → Nat → μ

/-- The file layer, and the buffers the kernel heap has room for. -/
structure Files (φ : Type) where
  seek : φ → Nat → Int → φ
  read : φ → Nat → Nat → Int × List UInt8 × φ
  grants : φ → Nat → Bool

structure World (μ φ : Type) where
  linux : LinuxState
  memory : μ
  files : φ
  fds : Nat → FdKind

/-- A system call returns a value or an error, or the kernel stops. -/
inductive Answer where
  | value (value : Nat)
  | failed (errno : Nat)
  | halted
  deriving DecidableEq

/-- The pages that hold so many bytes. -/
def divCeil (length : Nat) : Nat := (length + (pageSize - 1)) / pageSize

/-- The size of these pages. -/
def pageBytes (length : Nat) : Nat := divCeil length * pageSize

section Calls

variable {μ φ : Type} (width : PointerWidth) (bytes : GuestBytes μ) (files : Files φ)

/-- An argument cut to the width of `usize`. -/
def usize (value : UInt64) : Nat := value.toNat % 2 ^ width.bits

def sysBrk (world : World μ φ) (args : Args) : Answer × World μ φ :=
  let addr := usize width args.a0
  if addr = 0 then (.value world.linux.heapEnd, world)
  else
    let newEnd := min (max addr world.linux.heapBase) world.linux.mmapCursor
    (.value newEnd, { world with linux := { world.linux with heapEnd := newEnd } })

/-- The next addresses below the cursor, unless they would meet the heap. -/
def takeBelow (linux : LinuxState) (allocSize : Nat) : Option LinuxState :=
  if linux.mmapCursor < (linux.heapEnd + allocSize) % 2 ^ width.bits then none
  else
    some { linux with
      mmapCursor := (linux.mmapCursor + (2 ^ width.bits - allocSize)) % 2 ^ width.bits }

/-- The contents of a new mapping: zeros, or the bytes of a file. -/
def fillMapping (world : World μ φ) (args : Args)
    (base length allocSize offsetBytes : Nat) : Answer × World μ φ :=
  if args.a3.toUInt32 &&& mapAnonymous = 0 then
    let fd := asI32 args.a4.toNat
    if fd < 0 ∨ maxFds ≤ fd.toNat then (.failed ebadf, world)
    else
      match world.fds fd.toNat with
      | .vfs handle =>
        let sought := files.seek world.files handle (asI32 offsetBytes)
        if files.grants sought length then
          let (count, buffer, after) := files.read sought handle length
          let memory :=
            if 0 < count then bytes.copyTo world.memory base (buffer.take count.toNat)
            else world.memory
          (.value base, { world with memory, files := after })
        else (.halted, { world with files := sought })
      | _ => (.failed ebadf, world)
  else (.value base, { world with memory := bytes.zero world.memory base allocSize })

def sysMmap2 (world : World μ φ) (args : Args) (offsetBytes : Nat) : Answer × World μ φ :=
  let addrHint := usize width args.a0
  let length := usize width args.a1
  if divCeil length = 0 then (.failed einval, world)
  else
    let allocSize := pageBytes length % 2 ^ width.bits
    if args.a3.toUInt32 &&& mapFixed ≠ 0 ∧ addrHint ≠ 0 then
      -- A fixed mapping moves no cursor.
      fillMapping bytes files world args (addrHint / pageSize * pageSize)
        length allocSize offsetBytes
    else
      match takeBelow width world.linux allocSize with
      | none => (.failed enomem, world)
      | some linux =>
        fillMapping bytes files { world with linux } args linux.mmapCursor
          length allocSize offsetBytes

def sysMremap (world : World μ φ) (args : Args) : Answer × World μ φ :=
  let oldAddr := usize width args.a0
  let oldLen := usize width args.a1
  let newLen := usize width args.a2
  if oldAddr % pageSize ≠ 0 ∨ newLen = 0 then (.failed einval, world)
  else if newLen ≤ oldLen then
    -- A mapping that shrinks stays where the caller says it is.
    (.value oldAddr, world)
  else if args.a3.toUInt32 &&& mremapMaymove = 0 then (.failed enomem, world)
  else
    let allocSize := pageBytes newLen % 2 ^ width.bits
    match takeBelow width world.linux allocSize with
    | none => (.failed enomem, world)
    | some linux =>
      let zeroed := bytes.zero world.memory linux.mmapCursor allocSize
      (.value linux.mmapCursor,
        { world with linux, memory := bytes.copyWithin zeroed oldAddr linux.mmapCursor oldLen })

/-- Unmapping checks its address and leaves everything as it is. -/
def sysMunmap (world : World μ φ) (args : Args) : Answer × World μ φ :=
  if usize width args.a0 % pageSize ≠ 0 then (.failed einval, world)
  else (.value 0, world)

/-- The table a call number was looked up in. -/
inductive SyscallTable where
  | i386
  | x8664
  deriving DecidableEq

/-- The file offset is a number of pages in one table, of bytes in the other. -/
def offsetBytes (args : Args) : SyscallTable → Nat
  | .i386 => usize width args.a5 * pageSize % 2 ^ width.bits
  | .x8664 => usize width args.a5

inductive MemoryCall where
  | brk (args : Args)
  | mmap (table : SyscallTable) (args : Args)
  | mremap (args : Args)
  | munmap (args : Args)

/-- The calls that lay out the memory of a process. -/
def memoryMachine : Machine (World μ φ) MemoryCall Answer
  | world, .brk args => sysBrk width world args
  | world, .mmap table args => sysMmap2 width bytes files world args (offsetBytes width args table)
  | world, .mremap args => sysMremap width bytes world args
  | world, .munmap args => sysMunmap width world args

end Calls

/-! ## What one call does to the layout -/

section Layout

variable {μ φ : Type} {width : PointerWidth} {bytes : GuestBytes μ} {files : Files φ}

@[simp]
theorem pageBytes_mod (length : Nat) : pageBytes length % pageSize = 0 := Nat.mul_mod_left _ _

theorem pageBytes_mono {short long : Nat} (le : short ≤ long) :
    pageBytes short ≤ pageBytes long := by
  unfold pageBytes divCeil pageSize
  omega

/-- Where the sum does not wrap, the cursor goes down by what was asked. -/
theorem takeBelow_eq_some {linux taken : LinuxState} {size : Nat}
    (below : linux.mmapCursor < 2 ^ width.bits)
    (small : linux.heapEnd + size < 2 ^ width.bits)
    (took : takeBelow width linux (size % 2 ^ width.bits) = some taken) :
    linux.heapEnd + size ≤ linux.mmapCursor ∧
      taken = { linux with mmapCursor := linux.mmapCursor - size } := by
  have size_lt : size < 2 ^ width.bits := by omega
  rw [takeBelow, Nat.mod_eq_of_lt size_lt, Nat.mod_eq_of_lt small] at took
  split_ifs at took with short
  have room : linux.heapEnd + size ≤ linux.mmapCursor := by omega
  have cursor :
      (linux.mmapCursor + (2 ^ width.bits - size)) % 2 ^ width.bits = linux.mmapCursor - size := by
    rw [show linux.mmapCursor + (2 ^ width.bits - size) =
        linux.mmapCursor - size + 2 ^ width.bits by omega,
      Nat.add_mod_right, Nat.mod_eq_of_lt (by omega)]
  rw [cursor] at took
  exact ⟨room, (Option.some.inj took).symm⟩

/-- Filling a mapping moves no cursor, and returns its base or no value. -/
theorem fillMapping_spec (bytes : GuestBytes μ) (files : Files φ)
    (world : World μ φ) (args : Args) (base length allocSize offset : Nat) :
    (fillMapping bytes files world args base length allocSize offset).2.linux = world.linux ∧
      ∀ value, (fillMapping bytes files world args base length allocSize offset).1 = .value value →
          value = base := by
  unfold fillMapping
  split
  case isTrue backed =>
    dsimp only
    split
    case isTrue closed => exact ⟨rfl, by simp⟩
    case isFalse opened =>
      split
      case h_1 handle found =>
        split
        case isTrue granted => exact ⟨rfl, by simp [eq_comm]⟩
        case isFalse refused => exact ⟨rfl, by simp⟩
      case h_2 other => exact ⟨rfl, by simp⟩
  case isFalse anonymous => exact ⟨rfl, by simp [eq_comm]⟩

end Layout

end RetroOS.Linux
