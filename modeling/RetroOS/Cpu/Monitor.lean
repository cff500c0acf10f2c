import RetroOS.Lib.Machine

/-!
# The monitor of sensitive instructions

Instructions that touch the interrupt flag trap, and the monitor does them in
the place of the processor.  The interrupt flag of the guest is kept in bit 19
of the saved flags; bit 9 is the flag of the host.  The guest finds its own
flag in bit 9 of every flags word on its stack.

A run takes the guest from one trap to the next.  In between the guest may
change its memory, its registers and its segments in any way, except for the
four bits that only traps can change.

The bits of the host stay as they are, and the flag that the guest finds on
its stack is the one that it has last established (`interrupt_flag_virtual`).
-/

namespace RetroOS.Cpu

open Lib

/-! ## Memory and registers -/

/-- Linear memory. -/
abbrev Memory : Type := Nat → BitVec 8

namespace Memory

def read16 (memory : Memory) (addr : Nat) : BitVec 16 := memory (addr + 1) ++ memory addr

def read32 (memory : Memory) (addr : Nat) : BitVec 32 :=
  memory.read16 (addr + 2) ++ memory.read16 addr

def write16 (memory : Memory) (addr : Nat) (value : BitVec 16) : Memory :=
  Function.update (Function.update memory addr (value.extractLsb' 0 8))
    (addr + 1) (value.extractLsb' 8 8)

def write32 (memory : Memory) (addr : Nat) (value : BitVec 32) : Memory :=
  (memory.write16 addr (value.extractLsb' 0 16)).write16 (addr + 2) (value.extractLsb' 16 16)

end Memory

/-- The saved frame, with the other registers that are read. -/
structure Regs where
  rip : BitVec 64
  cs : BitVec 64
  rflags : BitVec 64
  rsp : BitVec 64
  ss : BitVec 64
  rcx : BitVec 64
  rdx : BitVec 64

inductive UserMode where
  | mode64
  | vm86
  | mode32
  deriving DecidableEq

def ifFlag : BitVec 32 := 1#32 <<< 9

def tfFlag : BitVec 32 := 1#32 <<< 8

def ioplMask : BitVec 32 := 3#32 <<< 12

def vmFlag : BitVec 32 := 1#32 <<< 17

def ofFlag : BitVec 32 := 1#32 <<< 11

def vifFlag : BitVec 32 := 1#32 <<< 19

/-- What the guest cannot change. -/
def preservedFlags : BitVec 32 := ioplMask ||| vmFlag ||| ifFlag

namespace Regs

def userCs64 : BitVec 64 := 0x33

def ip32 (regs : Regs) : BitVec 32 := regs.rip.setWidth 32

def setIp32 (regs : Regs) (ip : BitVec 32) : Regs := { regs with rip := ip.setWidth 64 }

def setCs32 (regs : Regs) (cs : BitVec 32) : Regs := { regs with cs := cs.setWidth 64 }

def flags32 (regs : Regs) : BitVec 32 := regs.rflags.setWidth 32

def setFlags32 (regs : Regs) (flags : BitVec 32) : Regs := { regs with rflags := flags.setWidth 64 }

def setFlag32 (regs : Regs) (mask : BitVec 32) : Regs := regs.setFlags32 (regs.flags32 ||| mask)

def clearFlag32 (regs : Regs) (mask : BitVec 32) : Regs :=
  regs.setFlags32 (regs.flags32 &&& ~~~mask)

def sp32 (regs : Regs) : BitVec 32 := regs.rsp.setWidth 32

def setSp32 (regs : Regs) (sp : BitVec 32) : Regs := { regs with rsp := sp.setWidth 64 }

def codeSeg (regs : Regs) : BitVec 16 := regs.cs.setWidth 16

def stackSeg (regs : Regs) : BitVec 16 := regs.ss.setWidth 16

/-- A 64-bit code segment comes before the flag of virtual 8086 mode. -/
def mode (regs : Regs) : UserMode :=
  if regs.cs = userCs64 then .mode64
  else if regs.rflags.getLsbD 17 then .vm86
  else .mode32

/-- The flags as the guest finds them. -/
def guestFlags (regs : Regs) : BitVec 32 :=
  (regs.flags32 &&& ~~~(ifFlag ||| vifFlag)) ||| if regs.flags32 &&& vifFlag ≠ 0 then ifFlag else 0

/-- Take over the flags that the guest supplies. -/
def applyGuestFlags (regs : Regs) (popped : BitVec 32) : Regs :=
  regs.setFlags32 (if popped &&& ifFlag ≠ 0 then
      (popped &&& ~~~(preservedFlags ||| vifFlag)) ||| (regs.flags32 &&& preservedFlags) ||| vifFlag
    else
      ((popped &&& ~~~(preservedFlags ||| vifFlag)) |||
        (regs.flags32 &&& preservedFlags)) &&& ~~~vifFlag)

def getSp (regs : Regs) (wide : Bool) : BitVec 32 :=
  if wide then regs.sp32 else regs.sp32 &&& 0xFFFF

def setSp (regs : Regs) (wide : Bool) (value : BitVec 32) : Regs :=
  regs.setSp32 (if wide then value else (regs.sp32 &&& ~~~0xFFFF) ||| (value &&& 0xFFFF))

def advanceIp (regs : Regs) (wide : Bool) (count : BitVec 32) : Regs :=
  regs.setIp32 (if wide then regs.ip32 + count else (regs.ip32 + count) &&& 0xFFFF)

end Regs

structure Vcpu where
  regs : Regs
  memory : Memory

/-! ## Segments -/

/-- What the backend knows about descriptors and interrupt redirection. -/
structure Segments where
  segBase : BitVec 16 → BitVec 32
  segIs32 : BitVec 16 → Bool
  intIntercepted : BitVec 8 → Bool

/-- Where a segment begins, and whether it is a 32-bit one. -/
structure SegmentView where
  base : BitVec 32
  wide : Bool

/-- The beginning of a segment in virtual 8086 mode. -/
def realBase (segment : BitVec 16) : BitVec 32 := segment.setWidth 32 <<< 4

def segmentView (segments : Segments) (regs : Regs) (segment : BitVec 16) : SegmentView :=
  if regs.mode = .vm86 then { base := realBase segment, wide := false }
  else { base := segments.segBase segment, wide := segments.segIs32 segment }

def codeView (segments : Segments) (regs : Regs) : SegmentView :=
  segmentView segments regs regs.codeSeg

def stackView (segments : Segments) (regs : Regs) : SegmentView :=
  segmentView segments regs regs.stackSeg

namespace Vcpu

/-! ## The stack -/

def push16 (vcpu : Vcpu) (view : SegmentView) (value : BitVec 16) : Vcpu where
  regs := vcpu.regs.setSp view.wide (vcpu.regs.getSp view.wide - 2)
  memory := vcpu.memory.write16 (view.base + (vcpu.regs.getSp view.wide - 2)).toNat value

def push32 (vcpu : Vcpu) (view : SegmentView) (value : BitVec 32) : Vcpu where
  regs := vcpu.regs.setSp view.wide (vcpu.regs.getSp view.wide - 4)
  memory := vcpu.memory.write32 (view.base + (vcpu.regs.getSp view.wide - 4)).toNat value

def pop16 (vcpu : Vcpu) (view : SegmentView) : BitVec 16 × Vcpu :=
  (vcpu.memory.read16 (view.base + vcpu.regs.getSp view.wide).toNat,
    { vcpu with regs := vcpu.regs.setSp view.wide (vcpu.regs.getSp view.wide + 2) })

def pop32 (vcpu : Vcpu) (view : SegmentView) : BitVec 32 × Vcpu :=
  (vcpu.memory.read32 (view.base + vcpu.regs.getSp view.wide).toNat,
    { vcpu with regs := vcpu.regs.setSp view.wide (vcpu.regs.getSp view.wide + 4) })

/-- A word in the size of the operands. -/
def pop (vcpu : Vcpu) (view : SegmentView) (op32 : Bool) : BitVec 32 × Vcpu :=
  if op32 then vcpu.pop32 view
  else ((vcpu.pop16 view).1.setWidth 32, (vcpu.pop16 view).2)

def push (vcpu : Vcpu) (view : SegmentView) (op32 : Bool) (value : BitVec 32) : Vcpu :=
  if op32 then vcpu.push32 view value
  else vcpu.push16 view (value.setWidth 16)

/-- Deliver an interrupt through the vector table in low memory. -/
def swReflectVm86Int (vcpu : Vcpu) (vector : BitVec 8) : Vcpu :=
  let view : SegmentView := { base := realBase vcpu.regs.stackSeg, wide := false }
  let pushed :=
    ((vcpu.push16 view (vcpu.regs.guestFlags.setWidth 16)).push16 view
      vcpu.regs.codeSeg).push16 view (vcpu.regs.ip32.setWidth 16)
  { pushed with
    regs :=
      (((pushed.regs.clearFlag32 vifFlag).clearFlag32 tfFlag).setCs32
        ((vcpu.memory.read16 (vector.toNat * 4 + 2)).setWidth 32)).setIp32
        ((vcpu.memory.read16 (vector.toNat * 4)).setWidth 32) }

end Vcpu

/-! ## Decoding -/

inductive IoSize where
  | byte
  | word
  | dword
  deriving DecidableEq

inductive KernelEvent where
  | fault
  | hlt
  | softInt (vector : BitVec 8)
  | portIn (port : BitVec 16) (size : IoSize)
  | portOut (port : BitVec 16) (size : IoSize)
  | ins (size : IoSize) (rep addr32 : Bool)
  | outs (size : IoSize) (rep addr32 : Bool)
  deriving DecidableEq

inductive MonitorResult where
  | resume
  | event (event : KernelEvent)
  deriving DecidableEq

/-- Opcodes; ports are given in the instruction or in a register. -/
inductive Operation where
  | cli
  | sti
  | pushf
  | popf
  | iret
  | int
  | int3
  | into
  | icebp
  | hlt
  | inImm (wide : Bool)
  | outImm (wide : Bool)
  | inDx (wide : Bool)
  | outDx (wide : Bool)
  | ins (wide : Bool)
  | outs (wide : Bool)
  | other
  deriving DecidableEq

def operationOf (opcode : BitVec 8) : Operation :=
  match opcode.toNat with
  | 0xFA => .cli
  | 0xFB => .sti
  | 0x9C => .pushf
  | 0x9D => .popf
  | 0xCF => .iret
  | 0xCD => .int
  | 0xCC => .int3
  | 0xCE => .into
  | 0xF1 => .icebp
  | 0xF4 => .hlt
  | 0xE4 => .inImm false
  | 0xE5 => .inImm true
  | 0xE6 => .outImm false
  | 0xE7 => .outImm true
  | 0xEC => .inDx false
  | 0xED => .inDx true
  | 0xEE => .outDx false
  | 0xEF => .outDx true
  | 0x6C => .ins false
  | 0x6D => .ins true
  | 0x6E => .outs false
  | 0x6F => .outs true
  | _ => .other

/-- What stands before an opcode. -/
structure Modifiers where
  advance : BitVec 32
  opSize : Bool
  addrSize : Bool
  rep : Bool

/-- The byte at an offset from the instruction pointer. -/
def peek (segments : Segments) (vcpu : Vcpu) (offset : BitVec 32) : BitVec 8 :=
  vcpu.memory ((codeView segments vcpu.regs).base + (vcpu.regs.ip32 + offset)).toNat

/--
Skip what stands before an opcode.  Offsets wrap: where none of the bytes ends
it, the source goes round forever.
-/
def scan (segments : Segments) (vcpu : Vcpu) : (fuel : Nat) → Modifiers → Option Modifiers
  | 0, _ => none
  | fuel + 1, seen =>
    match (peek segments vcpu seen.advance).toNat with
    | 0x66 => scan segments vcpu fuel { seen with opSize := true, advance := seen.advance + 1 }
    | 0x67 => scan segments vcpu fuel { seen with addrSize := true, advance := seen.advance + 1 }
    | 0xF2 | 0xF3 => scan segments vcpu fuel { seen with rep := true, advance := seen.advance + 1 }
    | _ => some seen

structure Decoded where
  operation : Operation
  /-- The offset behind the opcode. -/
  advance : BitVec 32
  op32 : Bool
  addr32 : Bool
  rep : Bool

def decode (segments : Segments) (vcpu : Vcpu) : Option Decoded :=
  (scan segments vcpu (2 ^ 32)
    { advance := 0, opSize := false, addrSize := false, rep := false }).map
    fun seen =>
      { operation := operationOf (peek segments vcpu seen.advance)
        advance := seen.advance + 1
        op32 := (codeView segments vcpu.regs).wide ^^ seen.opSize
        addr32 := (codeView segments vcpu.regs).wide ^^ seen.addrSize
        rep := seen.rep }

/-! ## Execution -/

section Execution

variable (segments : Segments) (vcpu : Vcpu) (decoded : Decoded)

/-- Go behind the instruction, which has some more bytes after its opcode. -/
def Vcpu.advance (more : BitVec 32) : Vcpu :=
  { vcpu with
    regs := vcpu.regs.advanceIp (codeView segments vcpu.regs).wide (decoded.advance + more) }

def Vcpu.mapRegs (change : Regs → Regs) : Vcpu := { vcpu with regs := change vcpu.regs }

def ioSize (wide : Bool) : IoSize := if wide then if decoded.op32 then .dword else .word else .byte

/-- One element; a repeated one traps again until the count is used up. -/
def stringIo (event : KernelEvent) : MonitorResult × Vcpu :=
  if decoded.rep then
    if (if decoded.addr32 then vcpu.regs.rcx.setWidth 32
        else vcpu.regs.rcx.setWidth 32 &&& 0xFFFF) = 0 then
      (.resume, vcpu.advance segments decoded 0)
    else (.event event, vcpu)
  else (.event event, vcpu.advance segments decoded 0)

/-- The words that `iret` pops, and the state behind them. -/
structure ReturnFrame where
  ip : BitVec 32
  cs : BitVec 16
  flags : BitVec 32
  after : Vcpu

def popReturn (view : SegmentView) : ReturnFrame where
  ip := (vcpu.pop view decoded.op32).1
  cs := ((vcpu.pop view decoded.op32).2.pop view decoded.op32).1.setWidth 16
  flags := (((vcpu.pop view decoded.op32).2.pop view decoded.op32).2.pop view decoded.op32).1
  after := (((vcpu.pop view decoded.op32).2.pop view decoded.op32).2.pop view decoded.op32).2

/-- A null code segment is refused, but for 16-bit frames of real mode. -/
def ReturnFrame.refused (frame : ReturnFrame) (op32 : Bool) : Bool :=
  frame.cs = 0 ∧ (op32 = true ∨ frame.after.regs.mode ≠ .vm86)

def iret : MonitorResult × Vcpu :=
  let frame := popReturn vcpu decoded (stackView segments vcpu.regs)
  if frame.refused decoded.op32 then (.event .fault, frame.after)
  else
    (.resume, frame.after.mapRegs fun regs =>
        ((regs.setIp32 frame.ip).setCs32 (frame.cs.setWidth 32)).applyGuestFlags frame.flags)

/-- An interrupt that the monitor delivers itself. -/
def reflects (vector : BitVec 8) : Bool :=
  vcpu.regs.mode = .vm86 ∧ segments.intIntercepted vector = false

/-- The byte after the opcode. -/
def immediate : BitVec 8 := peek segments vcpu decoded.advance

def softInt (vector : BitVec 8) (more : BitVec 32) : MonitorResult × Vcpu :=
  (.event (.softInt vector), vcpu.advance segments decoded more)

def execute : MonitorResult × Vcpu :=
  match decoded.operation with
  | .cli => (.resume, (vcpu.advance segments decoded 0).mapRegs (·.clearFlag32 vifFlag))
  | .sti => (.resume, (vcpu.advance segments decoded 0).mapRegs (·.setFlag32 vifFlag))
  | .pushf =>
    (.resume, (vcpu.advance segments decoded 0).push (stackView segments vcpu.regs)
        decoded.op32 vcpu.regs.guestFlags)
  | .popf =>
    let popped := (vcpu.advance segments decoded 0).pop (stackView segments vcpu.regs) decoded.op32
    (.resume, popped.2.mapRegs (·.applyGuestFlags popped.1))
  | .iret => iret segments vcpu decoded
  | .int =>
    if reflects segments (vcpu.advance segments decoded 1) (immediate segments vcpu decoded) then
      (.resume, (vcpu.advance segments decoded 1).swReflectVm86Int
          (immediate segments vcpu decoded))
    else softInt segments vcpu decoded (immediate segments vcpu decoded) 1
  | .int3 => softInt segments vcpu decoded 3 0
  | .into =>
    if vcpu.regs.flags32 &&& ofFlag ≠ 0 then softInt segments vcpu decoded 4 0
    else (.resume, vcpu.advance segments decoded 0)
  | .icebp => softInt segments vcpu decoded 1 0
  | .hlt => (.event .hlt, vcpu.advance segments decoded 0)
  | .inImm wide =>
    (.event (.portIn ((immediate segments vcpu decoded).setWidth 16) (ioSize decoded wide)),
      vcpu.advance segments decoded 1)
  | .outImm wide =>
    (.event (.portOut ((immediate segments vcpu decoded).setWidth 16) (ioSize decoded wide)),
      vcpu.advance segments decoded 1)
  | .inDx wide =>
    (.event (.portIn (vcpu.regs.rdx.setWidth 16) (ioSize decoded wide)),
      vcpu.advance segments decoded 0)
  | .outDx wide =>
    (.event (.portOut (vcpu.regs.rdx.setWidth 16) (ioSize decoded wide)),
      vcpu.advance segments decoded 0)
  | .ins wide =>
    stringIo segments vcpu decoded (.ins (ioSize decoded wide) decoded.rep decoded.addr32)
  | .outs wide =>
    stringIo segments vcpu decoded (.outs (ioSize decoded wide) decoded.rep decoded.addr32)
  | .other => (.event .fault, vcpu)

end Execution

/-- One trap, or nothing where the monitor does not come back. -/
def monitor (segments : Segments) (vcpu : Vcpu) : Option MonitorResult × Vcpu :=
  match decode segments vcpu with
  | none => (none, vcpu)
  | some decoded => (some (execute segments vcpu decoded).1, (execute segments vcpu decoded).2)

/-! ## From trap to trap -/

/-- Traps for instructions, and exceptions that the kernel reflects. -/
inductive Trap where
  | instruction
  | exception (vector : BitVec 8)

/-- What the guest has come to when it traps. -/
structure Turn where
  guest : Vcpu
  segments : Segments
  trap : Trap

/-- The bits that only a trap can change. -/
def trapFlags : BitVec 32 := preservedFlags ||| vifFlag

/-- The guest runs on its own, up to the next trap. -/
def Vcpu.runGuest (vcpu guest : Vcpu) : Vcpu :=
  guest.mapRegs (·.setFlags32 ((vcpu.regs.flags32 &&& trapFlags) |||
        (guest.regs.flags32 &&& ~~~trapFlags)))

/-- Serve a trap of the guest as it is. -/
def serveTrap (vcpu : Vcpu) (segments : Segments) (trap : Trap) : Option MonitorResult × Vcpu :=
  match trap with
  | .instruction => monitor segments vcpu
  | .exception vector => (some .resume, vcpu.swReflectVm86Int vector)

def monitorMachine : Machine Vcpu Turn (Option MonitorResult) :=
  fun vcpu turn => serveTrap (vcpu.runGuest turn.guest) turn.segments turn.trap

/-! ## What the guest establishes and what it finds -/

/-- A word of the stack, counted from its top. -/
def Vcpu.stackWord (vcpu : Vcpu) (view : SegmentView) (op32 : Bool) : Nat → BitVec 32
  | 0 => (vcpu.pop view op32).1
  | index + 1 => (vcpu.pop view op32).2.stackWord view op32 index

/-- The stack of real mode. -/
def realView (regs : Regs) : SegmentView where
  base := realBase regs.stackSeg
  wide := false

section Observation

variable (segments : Segments) (vcpu : Vcpu) (decoded : Decoded)

/-- The interrupt flag that an instruction sets, if it does. -/
def Decoded.establishes : Option Bool :=
  match decoded.operation with
  | .cli => some false
  | .sti => some true
  | .popf => some ((vcpu.stackWord (stackView segments vcpu.regs) decoded.op32 0).getLsbD 9)
  | .iret =>
    if (popReturn vcpu decoded (stackView segments vcpu.regs)).refused decoded.op32 then none
    else some ((vcpu.stackWord (stackView segments vcpu.regs) decoded.op32 2).getLsbD 9)
  | .int =>
    if reflects segments vcpu (immediate segments vcpu decoded) then some false
    else none
  | _ => none

/-- The interrupt flag in the image that an instruction leaves, if any. -/
def Decoded.visible (after : Vcpu) : Option Bool :=
  match decoded.operation with
  | .pushf => some ((after.stackWord (stackView segments after.regs) decoded.op32 0).getLsbD 9)
  | .int =>
    if reflects segments vcpu (immediate segments vcpu decoded) then
      some ((after.stackWord (realView after.regs) false 2).getLsbD 9)
    else none
  | _ => none

/-- The image that an instruction pushes does not wrap a 16-bit stack. -/
def Decoded.HasRoom : Prop :=
  match decoded.operation with
  | .pushf =>
    (stackView segments vcpu.regs).wide = true ∨
      (if decoded.op32 then 4 else 2) ≤ (vcpu.regs.getSp false).toNat
  | .int =>
    reflects segments vcpu (immediate segments vcpu decoded) = true →
      2 ≤ (vcpu.regs.getSp false).toNat
  | _ => True

instance : Decidable (decoded.HasRoom segments vcpu) := by
  unfold Decoded.HasRoom
  split <;> infer_instance

end Observation

/-- What a turn establishes, in the state that the guest has come to. -/
def establishes (vcpu : Vcpu) (segments : Segments) (trap : Trap) : Option Bool :=
  match trap with
  | .instruction => (decode segments vcpu).bind fun decoded => decoded.establishes segments vcpu
  | .exception _ => some false

def visible (vcpu : Vcpu) (segments : Segments) (trap : Trap) : Option Bool :=
  match trap with
  | .instruction =>
    (decode segments vcpu).bind fun decoded =>
      decoded.visible segments vcpu (serveTrap vcpu segments trap).2
  | .exception _ =>
    some (((serveTrap vcpu segments trap).2.stackWord
        (realView (serveTrap vcpu segments trap).2.regs) false 2).getLsbD 9)

def TrapHasRoom (vcpu : Vcpu) (segments : Segments) (trap : Trap) : Prop :=
  match trap with
  | .instruction => ∀ decoded ∈ decode segments vcpu, decoded.HasRoom segments vcpu
  | .exception _ => 2 ≤ (vcpu.regs.getSp false).toNat

/-- Room on the stack, as the guest leaves it when it traps. -/
def HasRoom (vcpu : Vcpu) (turn : Turn) : Prop :=
  TrapHasRoom (vcpu.runGuest turn.guest) turn.segments turn.trap

instance (vcpu : Vcpu) (segments : Segments) (trap : Trap) :
    Decidable (TrapHasRoom vcpu segments trap) := by
  unfold TrapHasRoom
  split <;> infer_instance

/-- The interrupt flag that has last been established in a run. -/
def lastEstablished : Bool → Vcpu → List Turn → Bool
  | flag, _, [] => flag
  | flag, vcpu, turn :: rest =>
    lastEstablished ((establishes (vcpu.runGuest turn.guest) turn.segments turn.trap).getD flag)
      (monitorMachine vcpu turn).2 rest

/-! ## Flags -/

namespace Regs

/-- The bits of the host. -/
def hostFlags (regs : Regs) : BitVec 32 := regs.flags32 &&& preservedFlags

/-- The interrupt flag of the guest. -/
def vif (regs : Regs) : Bool := regs.flags32.getLsbD 19

@[simp]
theorem flags32_setFlags32 (regs : Regs) (flags : BitVec 32) :
    (regs.setFlags32 flags).flags32 = flags := by
  simp [flags32, setFlags32]

/-- Only the bits of the host count. -/
theorem hostFlags_congr {first second : Regs}
    (same : ∀ index (bound : index < 32),
      preservedFlags[index] = true → first.flags32[index] = second.flags32[index]) :
    first.hostFlags = second.hostFlags := by
  ext index bound
  cases host : preservedFlags[index] with
  | false => simp [hostFlags, host]
  | true => simp [hostFlags, host, same index bound host]

theorem preserved_disjoint {mask : BitVec 32}
    (apart : preservedFlags &&& mask = 0) {index : Nat} (bound : index < 32)
    (host : preservedFlags[index] = true) :
    mask[index] = false := by
  have bit := congrArg (BitVec.getLsbD · index) apart
  simpa [host, bound] using bit

theorem hostFlags_clearFlag32 (regs : Regs) {mask : BitVec 32}
    (apart : preservedFlags &&& mask = 0) :
    (regs.clearFlag32 mask).hostFlags = regs.hostFlags :=
  hostFlags_congr fun _ bound host => by simp [clearFlag32, preserved_disjoint apart bound host]

theorem hostFlags_setFlag32 (regs : Regs) {mask : BitVec 32} (apart : preservedFlags &&& mask = 0) :
    (regs.setFlag32 mask).hostFlags = regs.hostFlags :=
  hostFlags_congr fun _ bound host => by simp [setFlag32, preserved_disjoint apart bound host]

theorem vif_disjoint : preservedFlags &&& vifFlag = 0 := by
  decide

theorem tf_disjoint : preservedFlags &&& tfFlag = 0 := by
  decide

theorem hostFlags_applyGuestFlags (regs : Regs) (popped : BitVec 32) :
    (regs.applyGuestFlags popped).hostFlags = regs.hostFlags := by
  refine hostFlags_congr fun index bound host => ?_
  have apart := preserved_disjoint vif_disjoint bound host
  unfold applyGuestFlags
  split_ifs <;> simp [host, apart]

theorem vif_clear (regs : Regs) : (regs.clearFlag32 vifFlag).vif = false := by
  have bit : vifFlag[19] = true := by decide
  simp [vif, clearFlag32, bit]

theorem vif_clear_tf (regs : Regs) : (regs.clearFlag32 tfFlag).vif = regs.vif := by
  have bit : tfFlag[19] = false := by decide
  simp [vif, clearFlag32, bit]

theorem vif_set (regs : Regs) : (regs.setFlag32 vifFlag).vif = true := by
  have bit : vifFlag[19] = true := by decide
  simp [vif, setFlag32, bit]

/-- One bit of a word. -/
theorem and_twoPow_ne_zero (word : BitVec 32) {index : Nat} (bound : index < 32) :
    word &&& BitVec.twoPow 32 index ≠ 0 ↔ word.getLsbD index = true := by
  rw [BitVec.and_twoPow]
  cases word.getLsbD index with
  | false => simp
  | true =>
    have nonzero : BitVec.twoPow 32 index ≠ 0 := by
      intro zero
      have bit := congrArg (BitVec.getLsbD · index) zero
      simp [bound] at bit
    simpa using nonzero

theorem vif_applyGuestFlags (regs : Regs) (popped : BitVec 32) :
    (regs.applyGuestFlags popped).vif = popped.getLsbD 9 := by
  have bit : vifFlag[19] = true := by decide
  have wanted : popped &&& ifFlag ≠ 0 ↔ popped.getLsbD 9 = true :=
    and_twoPow_ne_zero popped (by decide)
  simp only [applyGuestFlags, wanted]
  cases popped.getLsbD 9 <;> simp [vif, bit]

/-- The guest finds its own flag in the place of the host's. -/
theorem guestFlags_if (regs : Regs) : regs.guestFlags.getLsbD 9 = regs.vif := by
  have bit : ifFlag[9] = true := by decide
  have shown : regs.flags32 &&& vifFlag ≠ 0 ↔ regs.vif = true :=
    and_twoPow_ne_zero regs.flags32 (by decide)
  simp only [guestFlags, shown]
  cases regs.vif <;> simp [bit]

end Regs

/-- The host keeps its bits; the guest keeps its flag or has set it. -/
structure FlagsStep (before after : Regs) (established : Option Bool) :
    Prop where
  host : after.hostFlags = before.hostFlags
  vif : after.vif = established.getD before.vif

theorem FlagsStep.same {before after : Regs} (flags : after.flags32 = before.flags32) :
    FlagsStep before after none where
  host := by rw [Regs.hostFlags, Regs.hostFlags, flags]
  vif := by rw [Regs.vif, flags]; rfl

theorem FlagsStep.of_flags {before middle after : Regs}
    {established : Option Bool} (step : FlagsStep middle after established)
    (flags : middle.flags32 = before.flags32) :
    FlagsStep before after established where
  host := step.host.trans (FlagsStep.same flags).host
  vif := by rw [step.vif, (FlagsStep.same flags).vif]; rfl

section Steps

variable (segments : Segments) (vcpu : Vcpu) (decoded : Decoded)

theorem flags32_advance (more : BitVec 32) :
    (vcpu.advance segments decoded more).regs.flags32 = vcpu.regs.flags32 :=
  rfl

theorem reflects_advance (more : BitVec 32) (vector : BitVec 8) :
    reflects segments (vcpu.advance segments decoded more) vector = reflects segments vcpu vector :=
  rfl

theorem flags32_pop (view : SegmentView) (op32 : Bool) :
    (vcpu.pop view op32).2.regs.flags32 = vcpu.regs.flags32 := by
  cases op32 <;> rfl

theorem flags32_push (view : SegmentView) (op32 : Bool) (value : BitVec 32) :
    (vcpu.push view op32 value).regs.flags32 = vcpu.regs.flags32 := by
  cases op32 <;> rfl

theorem flagsStep_applyGuestFlags (regs : Regs) (popped : BitVec 32) :
    FlagsStep regs (regs.applyGuestFlags popped) (some (popped.getLsbD 9)) where
  host := regs.hostFlags_applyGuestFlags popped
  vif := regs.vif_applyGuestFlags popped

theorem flagsStep_reflect (vector : BitVec 8) :
    FlagsStep vcpu.regs (vcpu.swReflectVm86Int vector).regs (some false) where
  host := by
    change ((Regs.clearFlag32 _ vifFlag).clearFlag32 tfFlag).hostFlags = _
    rw [Regs.hostFlags_clearFlag32 _ Regs.tf_disjoint,
      Regs.hostFlags_clearFlag32 _ Regs.vif_disjoint]
    rfl
  vif := by
    change ((Regs.clearFlag32 _ vifFlag).clearFlag32 tfFlag).vif = _
    rw [Regs.vif_clear_tf, Regs.vif_clear]
    rfl

/-- Only the third word of a frame has flags, and only if it is taken. -/
theorem flagsStep_iret (isIret : decoded.operation = .iret) :
    FlagsStep vcpu.regs (iret segments vcpu decoded).2.regs
      (decoded.establishes segments vcpu) := by
  have popped :
      (popReturn vcpu decoded (stackView segments vcpu.regs)).after.regs.flags32
        = vcpu.regs.flags32 := by
    simp only [popReturn, flags32_pop]
  unfold iret Decoded.establishes
  simp only [isIret]
  split_ifs
  · exact .same popped
  · exact (flagsStep_applyGuestFlags _ _).of_flags popped

theorem flagsStep_stringIo (event : KernelEvent) :
    FlagsStep vcpu.regs (stringIo segments vcpu decoded event).2.regs
      none := by
  apply FlagsStep.same
  unfold stringIo
  split_ifs <;> rfl

theorem flagsStep_execute :
    FlagsStep vcpu.regs (execute segments vcpu decoded).2.regs
      (decoded.establishes segments vcpu) := by
  unfold execute
  cases operation : decoded.operation with
  | cli =>
    simp only [Decoded.establishes, operation]
    exact ⟨Regs.hostFlags_clearFlag32 _ Regs.vif_disjoint, Regs.vif_clear _⟩
  | sti =>
    simp only [Decoded.establishes, operation]
    exact ⟨Regs.hostFlags_setFlag32 _ Regs.vif_disjoint, Regs.vif_set _⟩
  | pushf =>
    simp only [Decoded.establishes, operation]
    exact .same (flags32_push _ _ _ _)
  | popf =>
    simp only [Decoded.establishes, operation]
    have word :
        ((vcpu.advance segments decoded 0).pop (stackView segments vcpu.regs) decoded.op32).1 =
          vcpu.stackWord (stackView segments vcpu.regs) decoded.op32 0 := by
      cases decoded.op32 <;> rfl
    rw [← word]
    exact (flagsStep_applyGuestFlags _ _).of_flags (flags32_pop _ _ _)
  | iret => exact flagsStep_iret segments vcpu decoded operation
  | int =>
    simp only [Decoded.establishes, operation]
    rw [reflects_advance]
    split_ifs
    · exact (flagsStep_reflect _ _).of_flags (flags32_advance segments vcpu decoded 1)
    · exact .same (flags32_advance segments vcpu decoded 1)
  | into =>
    simp only [Decoded.establishes, operation]
    apply FlagsStep.same
    split_ifs <;> rfl
  | ins wide =>
    simp only [Decoded.establishes, operation]
    exact flagsStep_stringIo segments vcpu decoded _
  | outs wide =>
    simp only [Decoded.establishes, operation]
    exact flagsStep_stringIo segments vcpu decoded _
  | _ =>
    simp only [Decoded.establishes, operation]
    exact .same rfl

theorem flagsStep_serveTrap (trap : Trap) :
    FlagsStep vcpu.regs (serveTrap vcpu segments trap).2.regs (establishes vcpu segments trap) := by
  cases trap with
  | exception vector => exact flagsStep_reflect vcpu vector
  | instruction =>
    unfold serveTrap monitor establishes
    cases decode segments vcpu with
    | none => exact .same rfl
    | some decoded => exact flagsStep_execute segments vcpu decoded

end Steps

/-- Between traps none of the bits changes. -/
theorem flagsStep_runGuest (vcpu guest : Vcpu) :
    FlagsStep vcpu.regs (vcpu.runGuest guest).regs none where
  host := by
    refine Regs.hostFlags_congr fun index bound host => ?_
    simp [Vcpu.runGuest, Vcpu.mapRegs, trapFlags, host]
  vif := by
    have trapped : trapFlags[19] = true := by decide
    simp [Regs.vif, Vcpu.runGuest, Vcpu.mapRegs, trapped]

theorem flagsStep_monitorMachine (vcpu : Vcpu) (turn : Turn) :
    FlagsStep vcpu.regs (monitorMachine vcpu turn).2.regs
      (establishes (vcpu.runGuest turn.guest) turn.segments turn.trap) := by
  have own := flagsStep_runGuest vcpu turn.guest
  have served := flagsStep_serveTrap turn.segments (vcpu.runGuest turn.guest) turn.trap
  exact ⟨served.host.trans own.host, by
    rw [monitorMachine, served.vif, own.vif]; rfl⟩

/-! ## Images on the stack -/

namespace Memory

variable (memory : Memory)

/-- Bit 9 of a word is in its second byte. -/
theorem read16_if (addr : Nat) :
    (memory.read16 addr).getLsbD 9 = (memory (addr + 1)).getLsbD 1 := by
  rw [read16, BitVec.getLsbD_append]
  rfl

theorem read32_if (addr : Nat) :
    (memory.read32 addr).getLsbD 9 = (memory (addr + 1)).getLsbD 1 := by
  rw [← read16_if, read32, BitVec.getLsbD_append]
  rfl

theorem write16_if (addr : Nat) (value : BitVec 16) :
    (memory.write16 addr value (addr + 1)).getLsbD 1 = value.getLsbD 9 := by
  simp [write16]

theorem write16_other {addr other : Nat} (value : BitVec 16)
    (first : other ≠ addr) (second : other ≠ addr + 1) :
    memory.write16 addr value other = memory other := by
  simp [write16, first, second]

theorem write32_if (addr : Nat) (value : BitVec 32) :
    (memory.write32 addr value (addr + 1)).getLsbD 1 = value.getLsbD 9 := by
  rw [write32, write16_other _ _ (by omega) (by omega), write16_if]
  simp

end Memory

theorem toNat_low16 (word : BitVec 32) : (word &&& 0xFFFF).toNat = word.toNat % 2 ^ 16 := by
  rw [BitVec.toNat_and]
  exact Nat.and_two_pow_sub_one_eq_mod word.toNat 16

/-- The masked part of a word that has been replaced. -/
theorem merge_and (word value mask : BitVec 32) :
    ((word &&& ~~~mask) ||| (value &&& mask)) &&& mask = value &&& mask := by
  ext index bound
  cases low : mask[index] with
  | false => simp [low]
  | true => simp [low]

theorem getSp_setSp (regs : Regs) (wide : Bool) (value : BitVec 32) :
    (regs.setSp wide value).getSp wide = if wide then value else value &&& 0xFFFF := by
  cases wide with
  | true => simp [Regs.getSp, Regs.setSp, Regs.sp32, Regs.setSp32]
  | false =>
    have sp32 (sp : BitVec 32) : (regs.setSp32 sp).sp32 = sp := by simp [Regs.sp32, Regs.setSp32]
    change (Regs.setSp32 regs _).sp32 &&& 0xFFFF = _
    rw [sp32]
    exact merge_and regs.sp32 value 0xFFFF

theorem toNat_getSp_lt (regs : Regs) : (regs.getSp false).toNat < 2 ^ 16 := by
  change (regs.sp32 &&& 0xFFFF).toNat < _
  rw [toNat_low16]
  exact Nat.mod_lt _ (by decide)

theorem toNat_getSp_setSp (regs : Regs) (value : BitVec 32) :
    ((regs.setSp false value).getSp false).toNat = value.toNat % 2 ^ 16 := by
  rw [getSp_setSp, ← toNat_low16]
  rfl

/-- Where a push leaves the stack pointer, if there is room for it. -/
theorem getSp_setSp_sub {regs : Regs} {wide : Bool} {size : BitVec 32}
    (room : wide = true ∨ size.toNat ≤ (regs.getSp false).toNat) :
    (regs.setSp wide (regs.getSp wide - size)).getSp wide = regs.getSp wide - size := by
  cases wide with
  | true => exact getSp_setSp regs true _
  | false =>
    have fits : size.toNat ≤ (regs.getSp false).toNat := by simpa using room
    have bound := toNat_getSp_lt regs
    apply BitVec.eq_of_toNat_eq
    rw [toNat_getSp_setSp, BitVec.toNat_sub]
    omega

theorem pop_if (vcpu : Vcpu) (view : SegmentView) (op32 : Bool) :
    (vcpu.pop view op32).1.getLsbD 9 =
      (vcpu.memory ((view.base + vcpu.regs.getSp view.wide).toNat + 1)).getLsbD 1 := by
  cases op32 with
  | true => exact Memory.read32_if _ _
  | false =>
    rw [← Memory.read16_if]
    simp [Vcpu.pop, Vcpu.pop16]

/-- A pushed word is found at the top of the stack. -/
theorem pop_push_if (vcpu : Vcpu) (view : SegmentView) (op32 : Bool) (value : BitVec 32) (room :
      view.wide = true ∨ (if op32 then 4 else 2) ≤ (vcpu.regs.getSp false).toNat) :
    ((vcpu.push view op32 value).pop view op32).1.getLsbD 9 = value.getLsbD 9 := by
  rw [pop_if]
  cases op32 with
  | true =>
    change (Memory.write32 _ _ _ ((view.base + (vcpu.regs.setSp view.wide
            (vcpu.regs.getSp view.wide - 4)).getSp view.wide).toNat +
          1)).getLsbD 1 = _
    rw [getSp_setSp_sub (by simpa using room), Memory.write32_if]
  | false =>
    change (Memory.write16 _ _ _ ((view.base + (vcpu.regs.setSp view.wide
            (vcpu.regs.getSp view.wide - 2)).getSp view.wide).toNat +
          1)).getLsbD 1 = _
    rw [getSp_setSp_sub (by simpa using room), Memory.write16_if]
    simp

theorem toNat_realBase (segment : BitVec 16) :
    (realBase segment).toNat = segment.toNat * 2 ^ 4 := by
  have bound := segment.isLt
  rw [realBase, BitVec.toNat_shiftLeft, BitVec.toNat_setWidth, Nat.shiftLeft_eq]
  omega

/-- The flags of a reflected interrupt are the third word of the stack. -/
theorem stackWord_reflect_if (vcpu : Vcpu) (vector : BitVec 8)
    (room : 2 ≤ (vcpu.regs.getSp false).toNat) :
    ((vcpu.swReflectVm86Int vector).stackWord (realView vcpu.regs) false
      2).getLsbD 9 = vcpu.regs.vif := by
  -- The stack pointers after each push, and then after each pop.
  let pushed (regs : Regs) : Regs := regs.setSp false (regs.getSp false - 2)
  let popped (regs : Regs) : Regs := regs.setSp false (regs.getSp false + 2)
  have pushed_sp (regs : Regs) :
      ((pushed regs).getSp false).toNat =
        (2 ^ 32 - 2 + (regs.getSp false).toNat) % 2 ^ 32 % 2 ^ 16 := by
    rw [toNat_getSp_setSp, BitVec.toNat_sub]
    rfl
  have popped_sp (regs : Regs) :
      ((popped regs).getSp false).toNat = ((regs.getSp false).toNat + 2) % 2 ^ 32 % 2 ^ 16 := by
    rw [toNat_getSp_setSp, BitVec.toNat_add]
    rfl
  have two : (2 : BitVec 32).toNat = 2 := rfl
  have bound := toNat_getSp_lt vcpu.regs
  have segment := vcpu.regs.stackSeg.isLt
  have base := toNat_realBase vcpu.regs.stackSeg
  have top :
      (popped (popped (pushed (pushed (pushed vcpu.regs))))).getSp false =
        vcpu.regs.getSp false - 2 := by
    apply BitVec.eq_of_toNat_eq
    rw [popped_sp, popped_sp, pushed_sp, pushed_sp, pushed_sp, BitVec.toNat_sub, two]
    omega
  have second := pushed_sp vcpu.regs
  have third := pushed_sp (pushed vcpu.regs)
  change BitVec.getLsbD (Vcpu.pop _ (realView vcpu.regs) false).1 9 = _
  rw [pop_if]
  change (Memory.write16 (Memory.write16 (Memory.write16 vcpu.memory (realBase vcpu.regs.stackSeg +
            (vcpu.regs.getSp false - 2)).toNat _)
        (realBase vcpu.regs.stackSeg + ((pushed vcpu.regs).getSp false - 2)).toNat _)
      (realBase vcpu.regs.stackSeg + ((pushed (pushed vcpu.regs)).getSp false - 2)).toNat _
      ((realBase vcpu.regs.stackSeg + (popped (popped (pushed (pushed (pushed vcpu.regs))))).getSp
          false).toNat + 1)).getLsbD 1 = _
  rw [top, Memory.write16_other, Memory.write16_other, Memory.write16_if]
  · rw [← Regs.guestFlags_if]
    simp
  all_goals
    simp only [BitVec.toNat_add, BitVec.toNat_sub, two]
    omega

/-- What the guest finds is the flag it had. -/
theorem visible_eq {vcpu : Vcpu} {segments : Segments} {trap : Trap}
    {image : Bool} (room : TrapHasRoom vcpu segments trap)
    (found : visible vcpu segments trap = some image) :
    image = vcpu.regs.vif := by
  cases trap with
  | exception vector =>
    cases found
    exact stackWord_reflect_if vcpu vector room
  | instruction =>
    unfold visible at found
    obtain ⟨decoded, known, found⟩ := Option.bind_eq_some_iff.mp found
    have fits : decoded.HasRoom segments vcpu := room decoded known
    have served : (serveTrap vcpu segments .instruction).2 = (execute segments vcpu decoded).2 := by
      simp only [serveTrap, monitor, known]
    rw [served] at found
    unfold Decoded.visible execute at found
    unfold Decoded.HasRoom at fits
    cases operation : decoded.operation with
    | pushf =>
      simp only [operation] at found fits
      cases found
      rw [← Regs.guestFlags_if]
      have view :
          stackView segments ((vcpu.advance segments decoded 0).push
              (stackView segments vcpu.regs) decoded.op32
              vcpu.regs.guestFlags).regs =
            stackView segments vcpu.regs := by
        cases decoded.op32 <;> rfl
      rw [view]
      exact pop_push_if (vcpu.advance segments decoded 0) _ _ _ fits
    | int =>
      cases own : reflects segments vcpu (immediate segments vcpu decoded) with
      | true =>
        simp only [operation, reflects_advance, own, ↓reduceIte] at found fits
        cases found
        exact stackWord_reflect_if (vcpu.advance segments decoded 1) _ (fits trivial)
      | false =>
        simp only [operation, own, Bool.false_eq_true, ↓reduceIte] at found
        cases found
    | _ =>
      simp only [operation] at found
      cases found

/-! ## Runs -/

theorem final_flags (start : Vcpu) (flag : Bool) (turns : List Turn)
    (known : flag = start.regs.vif) :
    (monitorMachine.final start turns).regs.hostFlags = start.regs.hostFlags ∧
      (monitorMachine.final start turns).regs.vif = lastEstablished flag start turns := by
  induction turns generalizing start flag with
  | nil => exact ⟨rfl, known.symm⟩
  | cons turn rest induction =>
    have step := flagsStep_monitorMachine start turn
    have flags :
        (establishes (start.runGuest turn.guest) turn.segments
          turn.trap).getD flag = (monitorMachine start turn).2.regs.vif := by
      rw [step.vif, known]
    obtain ⟨host, vif⟩ := induction _ _ flags
    exact ⟨host.trans step.host, vif⟩

/--
After any turns, the bits of the host are those of the start, and where there
is room for it the guest finds the flag that it has last established.
-/
theorem interrupt_flag_virtual (start : Vcpu) (turns : List Turn) (next : Turn) :
    (monitorMachine.final start turns).regs.hostFlags = start.regs.hostFlags ∧
      (HasRoom (monitorMachine.final start turns) next →
        ∀ image, visible ((monitorMachine.final start turns).runGuest next.guest)
              next.segments next.trap = some image →
            image = lastEstablished start.regs.vif start turns) := by
  obtain ⟨host, vif⟩ := final_flags start start.regs.vif turns rfl
  refine ⟨host, ?_⟩
  intro room image found
  rw [visible_eq room found, ← vif]
  exact (flagsStep_runGuest _ next.guest).vif

section Runs

/-- Real mode at 2000:0000 with `cli` and `pushf`, and a stack at 1000:0000. -/
def realGuest (ip sp : BitVec 64) : Vcpu where
  regs :=
    { rip := ip, cs := 0x2000, rflags := 0xA0202, rsp := sp, ss := 0x1000, rcx := 0, rdx := 0 }
  memory addr :=
    if addr = 0x20000 then 0xFA
    else if addr = 0x20001 then 0x9C
    else 0xFF

def flatSegments : Segments where
  segBase _ := 0
  segIs32 _ := true
  intIntercepted _ := false

def realTurn (ip sp : BitVec 64) : Turn where
  guest := realGuest ip sp
  segments := flatSegments
  trap := .instruction

/--
With an empty 64K stack, the flags pushed after `cli` are written below the
stack segment, and at the top of the stack the guest finds what was there.
-/
theorem pushed_flags_astray :
    visible ((monitorMachine.final (realGuest 0 0) [realTurn 0 0]).runGuest (realGuest 1 0))
        flatSegments .instruction = some true ∧
      lastEstablished (realGuest 0 0).regs.vif (realGuest 0 0) [realTurn 0 0] = false := by
  decide +kernel

/-- With room on the stack, the flags pushed after `cli` show it. -/
theorem pushed_flags_found :
    visible ((monitorMachine.final (realGuest 0 0x100)
          [realTurn 0 0x100]).runGuest (realGuest 1 0x100))
        flatSegments .instruction = some false ∧
      (monitorMachine.final (realGuest 0 0x100) [realTurn 0 0x100]).regs.hostFlags =
          (realGuest 0 0x100).regs.hostFlags ∧
      false =
        lastEstablished (realGuest 0 0x100).regs.vif (realGuest 0 0x100) [realTurn 0 0x100] := by
  refine (and_iff_left_of_imp fun found => ?_).mpr (by decide +kernel)
  have room :
      TrapHasRoom ((monitorMachine.final (realGuest 0 0x100)
          [realTurn 0 0x100]).runGuest (realGuest 1 0x100))
        flatSegments .instruction := by
    decide +kernel
  obtain ⟨host, shown⟩ :=
    interrupt_flag_virtual (realGuest 0 0x100) [realTurn 0 0x100] (realTurn 1 0x100)
  exact ⟨host, shown room false found⟩

end Runs

end RetroOS.Cpu
