import RetroOS.Dos.Registers
import RetroOS.Lib.Bytes
import RetroOS.Lib.Machine
import RetroOS.Lib.Memory

/-!
# Descriptors of DPMI clients

A DPMI client and its host share one local descriptor table.  The host fills
five low slots before the client runs; the client gets slots from 16 on and
edits them with INT 31h, functions 0000h to 000Ch.  Every call checks the
selector it is given by itself, against the map of allocated slots, in which
the slots of the host are marked as well.

The host keeps its slots in every run in which no call that sets a base, a
limit, access rights or a whole descriptor names one of them
(`host_slots_kept`).  The guest's memory is apart from the table.
-/

namespace RetroOS.Dos

open Lib Lib.Bytes

def ldtEntries : Nat := 8192

def vectorStubLdtIdx : Nat := 4

def lowMemLdtIdx : Nat := 5

def specialStubLdtIdx : Nat := 7

def hostStackPm16LdtIdx : Nat := 8

def hostStackPm32LdtIdx : Nat := 9

def pspLdtIdx : Nat := 18

/-! ## Selectors and descriptors -/

/-- The selector of a slot, at the privilege of the client. -/
def idxToSel (idx : Nat) : Nat := idx * 2 ^ 3 % 2 ^ 16 + 7

def selToIdx (sel : Nat) : Nat := sel / 2 ^ 3

/-- Whether a selector is one of the local table. -/
def isLocal (sel : Nat) : Bool := sel / 2 ^ 2 % 2 = 1

def clientDpl (access : BitVec 8) : BitVec 8 := access &&& ~~~0x60#8 ||| 0x60

def buildDescriptor (base limit : BitVec 32) (access flags : BitVec 64) : BitVec 64 :=
  (limit &&& 0xFFFF).setWidth 64 ||| (base &&& 0xFFFF).setWidth 64 <<< 16 |||
    ((base >>> 16) &&& 0xFF).setWidth 64 <<< 32 |||
    (access &&& 0xFF) <<< 40 |||
    (((limit >>> 16) &&& 0x0F).setWidth 64 ||| flags &&& 0xF0) <<< 48 |||
    ((base >>> 24) &&& 0xFF).setWidth 64 <<< 56

/-- A limit and the granularity bit it is stored with. -/
def granularLimit (limit : BitVec 32) : BitVec 32 × BitVec 64 :=
  if limit > 0xFFFFF then (limit >>> 12, 1) else (limit, 0)

/-- A segment with an access byte and the D/B bit. -/
def makeDesc (access : BitVec 64) (base limit : BitVec 32) (db : Bool) : BitVec 64 :=
  buildDescriptor base (granularLimit limit).1 access
    ((granularLimit limit).2 <<< 7 ||| (if db then 1 else 0) <<< 6)

def makeDataDescEx (base limit : BitVec 32) (db : Bool) : BitVec 64 := makeDesc 0xF2 base limit db

def makeCodeDescEx (base limit : BitVec 32) (db : Bool) : BitVec 64 := makeDesc 0xFA base limit db

def descBase (desc : BitVec 64) : BitVec 32 :=
  ((desc >>> 16) &&& 0xFFFF).setWidth 32 ||| ((desc >>> 32) &&& 0xFF).setWidth 32 <<< 16 |||
    ((desc >>> 56) &&& 0xFF).setWidth 32 <<< 24

def setDescBase (desc : BitVec 64) (base : BitVec 32) : BitVec 64 :=
  desc &&& ~~~0xFF0000FFFFFF0000#64 ||| (base &&& 0xFFFF).setWidth 64 <<< 16 |||
    ((base >>> 16) &&& 0xFF).setWidth 64 <<< 32 |||
    ((base >>> 24) &&& 0xFF).setWidth 64 <<< 56

def setDescLimit (desc : BitVec 64) (limit : BitVec 32) : BitVec 64 :=
  desc &&& ~~~0x000F00000000FFFF#64 &&& ~~~(1#64 <<< 55) |||
    ((granularLimit limit).1 &&& 0xFFFF).setWidth 64 |||
    (((granularLimit limit).1 >>> 16) &&& 0x0F).setWidth 64 <<< 48 |||
    (granularLimit limit).2 <<< 55

/-- Access rights from the low and the high byte of a register. -/
def setDescRights (desc : BitVec 64) (low high : BitVec 8) : BitVec 64 :=
  desc &&& ~~~0x00F0FF0000000000#64 ||| (0x10 ||| clientDpl low).setWidth 64 <<< 40 |||
    (high &&& 0xD0).setWidth 64 <<< 48

/-- A descriptor of the client, made a non-system one of its privilege. -/
def clientDesc (desc : BitVec 64) : BitVec 64 :=
  (desc ||| 1#64 <<< 44) &&& ~~~(0xFF#64 <<< 40) |||
    (clientDpl (((desc ||| 1#64 <<< 44) >>> 40).setWidth 8)).setWidth 64 <<< 40

/-- Whether a descriptor maps 64 KiB at a base below 16 MiB. -/
def descIsSegAlias (desc : BitVec 64) (base : BitVec 32) : Bool :=
  desc.setWidth 16 = 0xFFFF ∧
    (desc >>> 48).setWidth 8 = (0 : BitVec 8) ∧
    (desc >>> 56).setWidth 8 = (0 : BitVec 8) ∧
    (desc >>> 16).setWidth 16 = base.setWidth 16 ∧
    (desc >>> 32).setWidth 8 = (base >>> 16).setWidth 8

/-! ## The table -/

structure DpmiClient where
  clientUse32 : Bool
  envLdtIdx : Nat

structure DescriptorState where
  ldt : Nat → BitVec 64
  /-- The bit of every slot in the allocation map. -/
  ldtAlloc : Nat → Bool
  dpmi : Option DpmiClient
  memory : Memory UInt8

/-- The registers of a client, with the segments a freed selector leaves. -/
structure ClientRegs extends Regs where
  fs : Nat := 0
  gs : Nat := 0

def allocLdt (ldtAlloc : Nat → Bool) : Option Nat :=
  (List.range' 16 (ldtEntries - 16)).find? fun idx => !ldtAlloc idx

/-- The first of a number of free slots in a row. -/
def allocLdtRange (ldtAlloc : Nat → Bool) (count : Nat) : Option Nat :=
  if count = 0 ∨ ldtEntries ≤ count then none
  else
    (List.range' 16 (ldtEntries - count + 1 - 16)).find? fun first =>
      (List.range' first count).all fun idx => !ldtAlloc idx

def ldtIsAllocated (ldtAlloc : Nat → Bool) (idx : Nat) : Bool :=
  if ldtEntries ≤ idx then false else ldtAlloc idx

def validLdtSelectorIdx (ldtAlloc : Nat → Bool) (sel : Nat) : Option Nat :=
  if isLocal sel then
    if ldtIsAllocated ldtAlloc (selToIdx sel) then some (selToIdx sel)
    else none
  else none

namespace DescriptorState

variable (state : DescriptorState)

def setDesc (idx : Nat) (desc : BitVec 64) : DescriptorState :=
  { state with ldt := Function.update state.ldt idx desc }

/-- Mark slots in a row as allocated and fill them with a descriptor. -/
def install (first count : Nat) (desc : BitVec 64) : DescriptorState :=
  { state with
    ldt := fun idx =>
      if first ≤ idx ∧ idx < first + count then desc else state.ldt idx
    ldtAlloc := fun idx =>
      if first ≤ idx ∧ idx < first + count then true else state.ldtAlloc idx }

def freeLdt (idx : Nat) : DescriptorState :=
  if 0 < idx ∧ idx < ldtEntries then
    { state with
      ldt := Function.update state.ldt idx 0
      ldtAlloc := Function.update state.ldtAlloc idx false }
  else state

def segBase (sel : Nat) : BitVec 32 :=
  if isLocal sel then
    if ldtEntries ≤ selToIdx sel then 0 else descBase (state.ldt (selToIdx sel))
  else 0

def flatAddr (seg offset : Nat) (use32 : Bool) : Nat :=
  (state.segBase seg + BitVec.ofNat 32 (if use32 then offset else word offset)).toNat

def readU16 (address : Nat) : Nat := leNat [state.memory address, state.memory (address + 1)]

def readU64 (address : Nat) : BitVec 64 :=
  BitVec.ofNat 64 (leNat ((List.range 8).map fun index => state.memory (address + index)))

def writeU64 (address : Nat) (value : BitVec 64) : DescriptorState :=
  { state with
    memory := fun here =>
      if address ≤ here ∧ here < address + 8 then (leBytes 8 value.toNat).getD (here - address) 0
      else state.memory here }

end DescriptorState

section Host

variable (hostBase hostSize : BitVec 32)

/-- The slots of the host, with the descriptors it puts there. -/
def hostSlots : List (Nat × BitVec 64) :=
  [(vectorStubLdtIdx, makeCodeDescEx 0 0x0FFF false),
    (specialStubLdtIdx, makeCodeDescEx 0 0x0FFF false),
    (lowMemLdtIdx, makeDataDescEx 0 0xFFFFF false),
    (hostStackPm16LdtIdx, makeDataDescEx hostBase (hostSize - 1) false),
    (hostStackPm32LdtIdx, makeDataDescEx hostBase (hostSize - 1) true)]

namespace DescriptorState

/-- Fill the slots of the host, and reserve the one of the PSP. -/
def installKernelLdtSlots (state : DescriptorState) : DescriptorState :=
  let marked :=
    (hostSlots hostBase hostSize).foldl (fun state slot => state.install slot.1 1 slot.2) state
  { marked with ldtAlloc := Function.update marked.ldtAlloc pspLdtIdx true }

end DescriptorState

end Host

/-! ## The calls -/

inductive DescriptorFunction where
  | allocate
  | free
  | segmentToDescriptor
  | selectorIncrement
  | getBase
  | setBase
  | setLimit
  | setRights
  | createAlias
  | getDescriptor
  | setDescriptor
  | unsupported
  deriving DecidableEq

/-- The functions 0000h to 000Ch; 0004h and 0005h have no arm. -/
def DescriptorFunction.ofAx : Nat → DescriptorFunction
  | 0x0000 => .allocate
  | 0x0001 => .free
  | 0x0002 => .segmentToDescriptor
  | 0x0003 => .selectorIncrement
  | 0x0006 => .getBase
  | 0x0007 => .setBase
  | 0x0008 => .setLimit
  | 0x0009 => .setRights
  | 0x000A => .createAlias
  | 0x000B => .getDescriptor
  | 0x000C => .setDescriptor
  | _ => .unsupported

structure DescriptorAnswer where
  regs : ClientRegs
  carry : Bool

def ClientRegs.setAx (regs : ClientRegs) (value : Nat) : ClientRegs :=
  { regs with rax := setWord regs.rax value }

/-- Clear the segment registers that hold a selector. -/
def scrubFreedSelector (regs : ClientRegs) (sel : Nat) : ClientRegs :=
  { regs with
    ds := if word regs.ds = sel then 0 else regs.ds
    es := if word regs.es = sel then 0 else regs.es
    fs := if word regs.fs = sel then 0 else regs.fs
    gs := if word regs.gs = sel then 0 else regs.gs }

namespace DescriptorState

variable (state : DescriptorState) (client : DpmiClient) (regs : ClientRegs)

/-- The answer of a call that fails and changes nothing. -/
def refuse : DescriptorAnswer × DescriptorState := ({ regs, carry := true }, state)

def allocate : DescriptorAnswer × DescriptorState :=
  match allocLdtRange state.ldtAlloc (word regs.rcx) with
  | some idx =>
    ({ regs := regs.setAx (idxToSel idx), carry := false }, state.install idx (word regs.rcx)
        (makeDataDescEx 0 0 client.clientUse32))
  | none => state.refuse regs

def free : DescriptorAnswer × DescriptorState :=
  if ¬ isLocal (word regs.rbx) ∨ selToIdx (word regs.rbx) < 16 ∨
      ¬ ldtIsAllocated state.ldtAlloc (selToIdx (word regs.rbx)) then
    ({ regs, carry := false }, state)
  else
    ({ regs := scrubFreedSelector regs (word regs.rbx), carry := false },
      state.freeLdt (selToIdx (word regs.rbx)))

/-- The slot that already maps a segment. -/
def segAlias (base : BitVec 32) : Option Nat :=
  (List.range' 1 (ldtEntries - 1)).find? fun idx =>
    ldtIsAllocated state.ldtAlloc idx && descIsSegAlias (state.ldt idx) base

def segmentToDescriptor : DescriptorAnswer × DescriptorState :=
  match state.segAlias (BitVec.ofNat 32 (word regs.rbx) <<< 4) with
  | some idx => ({ regs := regs.setAx (idxToSel idx), carry := false }, state)
  | none =>
    match allocLdt state.ldtAlloc with
    | some idx =>
      ({ regs := regs.setAx (idxToSel idx), carry := false }, state.install idx 1
          (makeDataDescEx (BitVec.ofNat 32 (word regs.rbx) <<< 4) 0xFFFF false))
    | none => state.refuse regs

def getBase : DescriptorAnswer × DescriptorState :=
  match validLdtSelectorIdx state.ldtAlloc (word regs.rbx) with
  | some idx =>
    ({ regs :=
         { regs with
           rcx := setWord regs.rcx ((descBase (state.ldt idx)).toNat / 2 ^ 16)
           rdx := setWord regs.rdx ((descBase (state.ldt idx)).toNat % 2 ^ 16) }
       carry := false },
      state)
  | none => state.refuse regs

/-- Edit the descriptor that BX names. -/
def edit (change : BitVec 64 → BitVec 64) : DescriptorAnswer × DescriptorState :=
  match validLdtSelectorIdx state.ldtAlloc (word regs.rbx) with
  | some idx => ({ regs, carry := false }, state.setDesc idx (change (state.ldt idx)))
  | none => state.refuse regs

/-- The address in CX:DX. -/
def argument : BitVec 32 := BitVec.ofNat 32 (pair regs.rcx regs.rdx)

/--
The base a 16-bit client gets when it takes the selector of its environment
for a segment, and the base it asked for otherwise.
-/
def environmentBase (base : BitVec 32) : BitVec 32 :=
  let envSel := state.readU16 (descBase (state.ldt pspLdtIdx) + 0x2C).toNat
  if ¬ client.clientUse32 ∧ client.envLdtIdx ≠ 0 ∧ base &&& 0xF = 0 ∧
      envSel ≠ 0 ∧ BitVec.ofNat 32 envSel <<< 4 = base ∧
      ldtIsAllocated state.ldtAlloc (selToIdx envSel) then
    descBase (state.ldt (selToIdx envSel))
  else base

def setBase : DescriptorAnswer × DescriptorState :=
  state.edit regs fun desc => setDescBase desc (state.environmentBase client (argument regs))

def setLimit : DescriptorAnswer × DescriptorState :=
  state.edit regs fun desc => setDescLimit desc (argument regs)

def setRights : DescriptorAnswer × DescriptorState :=
  state.edit regs fun desc =>
    setDescRights desc (BitVec.ofNat 8 regs.rcx) (BitVec.ofNat 8 (regs.rcx / 2 ^ 8))

def createAlias : DescriptorAnswer × DescriptorState :=
  match validLdtSelectorIdx state.ldtAlloc (word regs.rbx) with
  | some source =>
    match allocLdt state.ldtAlloc with
    | some idx =>
      ({ regs := regs.setAx (idxToSel idx), carry := false }, state.install idx 1
          (state.ldt source &&& ~~~(1#64 <<< 43) ||| 1#64 <<< 41))
    | none => state.refuse regs
  | none => state.refuse regs

def getDescriptor : DescriptorAnswer × DescriptorState :=
  match validLdtSelectorIdx state.ldtAlloc (word regs.rbx) with
  | some idx =>
    ({ regs, carry := false }, state.writeU64
        (state.flatAddr (word regs.es) regs.rdi client.clientUse32)
        (state.ldt idx))
  | none => state.refuse regs

def setDescriptor : DescriptorAnswer × DescriptorState :=
  state.edit regs fun _ =>
    clientDesc (state.readU64 (state.flatAddr (word regs.es) regs.rdi client.clientUse32))

def dpmiApiInner : DescriptorAnswer × DescriptorState :=
  match DescriptorFunction.ofAx (word regs.rax) with
  | .allocate => state.allocate client regs
  | .free => state.free regs
  | .segmentToDescriptor => state.segmentToDescriptor regs
  | .selectorIncrement => ({ regs := regs.setAx 8, carry := false }, state)
  | .getBase => state.getBase regs
  | .setBase => state.setBase client regs
  | .setLimit => state.setLimit regs
  | .setRights => state.setRights regs
  | .createAlias => state.createAlias regs
  | .getDescriptor => state.getDescriptor client regs
  | .setDescriptor => state.setDescriptor client regs
  | .unsupported => ({ regs := regs.setAx 0x8001, carry := true }, state)

end DescriptorState

/-- The descriptor calls of INT 31h. -/
def dpmiApi : Machine DescriptorState ClientRegs DescriptorAnswer :=
  fun state regs =>
    match state.dpmi with
    | some client => state.dpmiApiInner client regs
    | none => state.refuse regs

end RetroOS.Dos
