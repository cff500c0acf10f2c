import RetroOS.Lib.Bytes
import RetroOS.Lib.Overlay
import RetroOS.Linux.AddressSpace

/-!
# Loading an executable

The loader reads the program headers of an ELF file of either class, copies
the file bytes of every loadable segment to its address plus a bias and fills
the rest with zeros, and then gives the pages of every segment its rights,
first for the segments that are not executable and then for those that are.

The loader is the list of calls it makes to the machine.  A page of the guest
is absent until something is written to it; absent pages read as zeros, keep
no rights, and become writable and not executable when they are touched.

Fields of 64 bits are cut to the width of `usize`, and sums wrap there.  Where
a wrapped sum makes the parser read a header outside the file, or take a slice
whose end is before its start, the model says `fault`.  The physical address
and the alignment of a segment are read by no one and left out.
-/

namespace RetroOS.Linux

open Lib Lib.Bytes
open Kernel

/-! ## The file -/

inductive ElfError where
  | invalidMagic
  | invalidClass
  | invalidEndian
  | invalidType
  | invalidMachine
  deriving DecidableEq

inductive ElfClass where
  | elf32
  | elf64
  deriving DecidableEq

namespace ElfClass

/-- The size of the file header. -/
def headerSize : ElfClass → Nat
  | .elf32 => 52
  | .elf64 => 64

/-- The size of a program header. -/
def programHeaderSize : ElfClass → Nat
  | .elf32 => 32
  | .elf64 => 56

def expectedMachine : ElfClass → Nat
  | .elf32 => 3
  | .elf64 => 0x3E

end ElfClass

def elfMagic : Nat := 0x464C457F

def ptLoad : Nat := 1

structure Elf where
  data : Bytes
  elfClass : ElfClass

/-- A program header, with the values that stand in the file. -/
structure ProgramHeader where
  typ : Nat
  flags : Nat
  off : Nat
  vaddr : Nat
  filesz : Nat
  memsz : Nat
  deriving DecidableEq

def programHeader (data : Bytes) (start : Nat) : ElfClass → ProgramHeader
  | .elf32 =>
    { typ := leAt 4 data start
      flags := leAt 4 data (start + 24)
      off := leAt 4 data (start + 4)
      vaddr := leAt 4 data (start + 8)
      filesz := leAt 4 data (start + 16)
      memsz := leAt 4 data (start + 20) }
  | .elf64 =>
    { typ := leAt 4 data start
      flags := leAt 4 data (start + 4)
      off := leAt 8 data (start + 8)
      vaddr := leAt 8 data (start + 16)
      filesz := leAt 8 data (start + 32)
      memsz := leAt 8 data (start + 40) }

namespace ProgramHeader

def isWritable (header : ProgramHeader) : Bool := header.flags &&& 2 != 0

def isExecutable (header : ProgramHeader) : Bool := header.flags &&& 1 != 0

end ProgramHeader

namespace Elf

def parse (data : Bytes) : Except ElfError Elf :=
  if data.length < 16 then .error .invalidMagic
  else if leAt 4 data 0 ≠ elfMagic then .error .invalidMagic
  else if byteAt data 5 ≠ 1 then .error .invalidEndian
  else
    let known : Option ElfClass :=
      if byteAt data 4 = 1 then some .elf32
      else if byteAt data 4 = 2 then some .elf64
      else none
    match known with
    | none => .error .invalidClass
    | some elfClass =>
      if data.length < elfClass.headerSize then .error .invalidMagic
      else if leAt 2 data 16 ≠ 2 ∧ leAt 2 data 16 ≠ 3 then .error .invalidType
      else if leAt 2 data 18 ≠ elfClass.expectedMachine then .error .invalidMachine
      else .ok { data, elfClass }

def entry (elf : Elf) : Nat :=
  match elf.elfClass with
  | .elf32 => leAt 4 elf.data 24
  | .elf64 => leAt 8 elf.data 24

variable (width : PointerWidth)

/-- Offset, entry size and entry count of the program headers. -/
def phTable (elf : Elf) : Nat × Nat × Nat :=
  match elf.elfClass with
  | .elf32 => (leAt 4 elf.data 28 % 2 ^ width.bits, leAt 2 elf.data 42, leAt 2 elf.data 44)
  | .elf64 => (leAt 8 elf.data 32 % 2 ^ width.bits, leAt 2 elf.data 54, leAt 2 elf.data 56)

/-- The headers from an index on, unless one is read outside the file. -/
def headersFrom (elf : Elf) (offset size : Nat) : List Nat → Option (List ProgramHeader)
  | [] => some []
  | index :: rest =>
    let start := (offset + index * size) % 2 ^ width.bits
    let stop := start + elf.elfClass.programHeaderSize
    if elf.data.length < stop % 2 ^ width.bits then
      -- A header behind the end of the file is passed over.
      headersFrom elf offset size rest
    else if elf.data.length < stop then none
    else (headersFrom elf offset size rest).map (programHeader elf.data start elf.elfClass :: ·)

/-- The headers of the loadable segments, in the order of the table. -/
def loadHeaders (elf : Elf) : Option (List ProgramHeader) :=
  let (offset, size, count) := elf.phTable width
  (elf.headersFrom width offset size (List.range count)).map (·.filter (·.typ == ptLoad))

end Elf

/-! ## Segments -/

structure Segment where
  vaddr : Nat
  memsz : Nat
  writable : Bool
  executable : Bool
  data : Option Bytes

section Loader

variable (width : PointerWidth) (file : Bytes)

namespace ProgramHeader

/-- The end of the file bytes, as the parser adds it up. -/
def fileEnd (header : ProgramHeader) : Nat :=
  (header.off % 2 ^ width.bits + header.filesz % 2 ^ width.bits) % 2 ^ width.bits

/-- Whether the parser takes the file bytes of a segment. -/
def hasData (header : ProgramHeader) : Bool :=
  0 < header.filesz % 2 ^ width.bits ∧ header.fileEnd width ≤ file.length

/-- Whether these bytes are a slice that ends before it starts. -/
def misSliced (header : ProgramHeader) : Bool :=
  header.hasData width file ∧ header.fileEnd width < header.off % 2 ^ width.bits

def segment (header : ProgramHeader) : Segment where
  vaddr := header.vaddr % 2 ^ width.bits
  memsz := header.memsz % 2 ^ width.bits
  writable := header.isWritable
  executable := header.isExecutable
  data :=
    if header.hasData width file then
      some (slice file (header.off % 2 ^ width.bits)
        (header.fileEnd width - header.off % 2 ^ width.bits))
    else none

end ProgramHeader

/-- What the loader asks of the machine. -/
inductive ArchCall where
  | copyTo (addr : Nat) (data : Bytes)
  | zero (addr length : Nat)
  | setPageFlags (startPage count : Nat) (writable executable : Bool)
  deriving DecidableEq

namespace Segment

/-- The address a segment is loaded at. -/
def place (segment : Segment) (bias : Nat) : Nat := (segment.vaddr + bias) % 2 ^ width.bits

def stop (segment : Segment) (bias : Nat) : Nat :=
  (segment.place width bias + segment.memsz) % 2 ^ width.bits

/-- The first pass over a segment. -/
def copyCalls (segment : Segment) (bias : Nat) : List ArchCall :=
  match segment.data with
  | none => []
  | some data =>
    .copyTo (segment.place width bias) data ::
      if data.length < segment.memsz then
        [.zero ((segment.place width bias + data.length) % 2 ^ width.bits)
          (segment.memsz - data.length)]
      else []

def startPage (segment : Segment) (bias : Nat) : Nat := segment.place width bias / pageSize

def pageCount (segment : Segment) (bias : Nat) : Nat :=
  (divCeil (segment.stop width bias) + (2 ^ width.bits - segment.startPage width bias)) %
    2 ^ width.bits

/-- The second pass over a segment. -/
def flagCalls (segment : Segment) (bias : Nat) : List ArchCall :=
  if 0 < segment.pageCount width bias then
    [.setPageFlags (segment.startPage width bias)
      (segment.pageCount width bias) segment.writable segment.executable]
  else []

end Segment

/-- Executable segments come last. -/
def flagOrder (segments : List Segment) : List Segment :=
  segments.filter (!·.executable) ++ segments.filter (·.executable)

def loadCalls (segments : List Segment) (bias : Nat) : List ArchCall :=
  segments.flatMap (·.copyCalls width bias) ++ (flagOrder segments).flatMap (·.flagCalls width bias)

def maxVaddr (segments : List Segment) (bias : Nat) : Nat :=
  let highest := segments.foldl (fun top segment => max top (segment.stop width bias)) 0
  (highest + (pageSize - 1)) % 2 ^ width.bits / pageSize * pageSize

structure LoadedElf where
  entry : Nat
  elfClass : ElfClass
  maxVaddr : Nat
  phdrVaddr : Nat
  phentsize : Nat
  phnum : Nat
  deriving DecidableEq

inductive LoadOutcome where
  | loaded (info : LoadedElf) (calls : List ArchCall)
  | failed (error : ElfError)
  | fault
  deriving DecidableEq

def loadElf (bias : Nat) : LoadOutcome :=
  match Elf.parse file with
  | .error error => .failed error
  | .ok elf =>
    match elf.loadHeaders width with
    | none => .fault
    | some headers =>
      if headers.any (·.misSliced width file) then .fault
      else
        let segments := headers.map (·.segment width file)
        let (phoff, phentsize, phnum) := elf.phTable width
        .loaded
          { entry := (elf.entry + bias) % 2 ^ 64
            elfClass := elf.elfClass
            maxVaddr := maxVaddr width segments bias
            phdrVaddr := (bias + phoff) % 2 ^ width.bits
            phentsize
            phnum }
          (loadCalls width segments bias)

end Loader

/-! ## The guest -/

structure Rights where
  writable : Bool
  executable : Bool
  deriving DecidableEq

/-- What a page gets that is touched while it is absent. -/
def Rights.demanded : Rights where
  writable := true
  executable := false

/-- User memory and its page entries.  Absent pages hold zeros. -/
structure Guest where
  bytes : Nat → UInt8
  entries : Nat → Option Rights
  blank : ∀ address, entries (address / pageSize) = none → bytes address = 0

/-- Whether a page holds one of so many bytes from an address on. -/
def spans (addr length page : Nat) : Bool :=
  0 < length ∧ addr / pageSize ≤ page ∧ page * pageSize < addr + length

theorem spans_iff {addr length page : Nat} :
    spans addr length page = true ↔
      ∃ address, address / pageSize = page ∧ addr ≤ address ∧ address < addr + length := by
  unfold spans pageSize
  rw [decide_eq_true_iff]
  constructor
  · rintro ⟨some, lower, upper⟩
    exact ⟨max addr (page * 0x1000), by omega, by omega, by omega⟩
  · rintro ⟨address, rfl, lower, upper⟩
    omega

namespace ArchCall

/-- The byte that a call puts at an address. -/
def byteAt : ArchCall → Nat → Option UInt8
  | .copyTo addr data, address =>
    if addr ≤ address then data[address - addr]? else none
  | .zero addr length, address =>
    if addr ≤ address ∧ address < addr + length then some 0 else none
  | .setPageFlags .., _ => none

/-- The rights that a call gives a page. -/
def rightsOn : ArchCall → Nat → Option Rights
  | .setPageFlags startPage count writable executable, page =>
    if startPage ≤ page ∧ page < startPage + count then some { writable, executable }
    else none
  | _, _ => none

/-- Whether a call puts a byte on a page. -/
def fills : ArchCall → Nat → Bool
  | .copyTo addr data, page => spans addr data.length page
  | .zero addr length, page => spans addr length page
  | .setPageFlags .., _ => false

/-- A page is filled where one of its addresses gets a byte. -/
theorem fills_iff {call : ArchCall} {page : Nat} :
    call.fills page = true ↔
      ∃ address, address / pageSize = page ∧ (call.byteAt address).isSome := by
  cases call with
  | copyTo addr data =>
    simp only [fills, spans_iff, byteAt]
    refine exists_congr fun address => and_congr_right fun _ => ?_
    split_ifs with lower
    · rw [Option.isSome_iff_ne_none, ne_eq, List.getElem?_eq_none_iff]
      omega
    · simp [lower]
  | zero addr length =>
    simp only [fills, spans_iff, byteAt]
    refine exists_congr fun address => and_congr_right fun _ => ?_
    split_ifs with inside <;> simp [inside]
  | setPageFlags => simp [fills, byteAt]

end ArchCall

/-- The guest after a call. -/
def Guest.apply (guest : Guest) (call : ArchCall) : Guest where
  bytes := overlay ArchCall.byteAt guest.bytes call
  entries page :=
    if call.fills page then some ((guest.entries page).getD .demanded)
    else (guest.entries page).map fun old => (call.rightsOn page).getD old
  blank address absent := by
    split_ifs at absent with fills
    have untouched : call.byteAt address = none := by
      by_contra written
      exact fills (ArchCall.fills_iff.mpr ⟨address, rfl, Option.isSome_iff_ne_none.mpr written⟩)
    rw [overlay, untouched]
    exact guest.blank address (Option.map_eq_none_iff.mp absent)

/-- The guest after some calls. -/
def Guest.applyAll (guest : Guest) (calls : List ArchCall) : Guest := calls.foldl Guest.apply guest

/-- The rights of a page, those of a touch where it is absent. -/
def Guest.rights (guest : Guest) (page : Nat) : Rights := (guest.entries page).getD .demanded

end RetroOS.Linux
