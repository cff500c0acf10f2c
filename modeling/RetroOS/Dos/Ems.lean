import RetroOS.Dos.Registers
import RetroOS.Lib.Bytes
import RetroOS.Lib.Machine

/-!
# Expanded memory

The EMS driver (INT 67h) hands out logical pages of 16 KiB under sixteen
handles and shows them in the four windows of a page frame in upper memory.
A logical page is four pages of a backing region; to map it, the page-table
entries of the window and of the backing pages are swapped.

The model keeps the entries as the pages they name.  `none` as the answer of
a call means that the kernel stopped at an index outside a page list.
-/

namespace RetroOS.Dos

open Lib Lib.Bytes
open Function (update update_of_ne update_self)

def maxEmsHandles : Nat := 16

def emsTotalPages : Nat := 256

/-- The first page of the backing region. -/
def emsBackingVpage : Nat := 0x500

/-- The pages of a guest: the byte at an offset of a page. -/
abbrev GuestPages : Type := Nat → Nat → UInt8

namespace GuestPages

def read (pages : GuestPages) (address : Nat) : UInt8 :=
  pages (address % 2 ^ 32 / 4096) (address % 4096)

def readWord (pages : GuestPages) (address : Nat) : Nat :=
  leNat [pages.read address, pages.read (address + 1)]

def write (pages : GuestPages) (address : Nat) (byte : UInt8) : GuestPages :=
  update pages (address % 2 ^ 32 / 4096)
    (update (pages (address % 2 ^ 32 / 4096)) (address % 4096) byte)

def writeWord (pages : GuestPages) (address value : Nat) : GuestPages :=
  (pages.write address (UInt8.ofNat value)).write (address + 1) (UInt8.ofNat (value / 2 ^ 8))

/-- Swap two page-table entries. -/
def swap (pages : GuestPages) (left right : Nat) : GuestPages :=
  update (update pages left (pages right)) right (pages left)

def swapPageEntries (pages : GuestPages) (left right count : Nat) : GuestPages :=
  (List.range count).foldl (fun pages index => pages.swap (left + index) (right + index)) pages

end GuestPages

/-- The state of the driver. -/
structure EmsState where
  /-- The backing page of each logical page of a handle. -/
  handles : Fin maxEmsHandles → Option (List Nat)
  /-- The handle and the logical page a window shows. -/
  frame : Fin 4 → Option (Fin maxEmsHandles × Nat)
  nextPage : Nat

namespace EmsState

def new : EmsState where
  handles := fun _ => none
  frame := fun _ => none
  nextPage := 0

/-- The pages that are left, as far as a `u16` counts them. -/
def allocPages (state : EmsState) : Nat :=
  let used :=
    (List.finRange maxEmsHandles).foldl (fun used slot =>
        match state.handles slot with
        | some pages => (used + pages.length) % 2 ^ 16
        | none => used)
      0
  emsTotalPages - used

def setFrame (state : EmsState) (window : Fin 4)
    (shown : Option (Fin maxEmsHandles × Nat)) : EmsState :=
  { state with frame := update state.frame window shown }

def setHandle (state : EmsState) (slot : Fin maxEmsHandles)
    (pages : Option (List Nat)) : EmsState :=
  { state with handles := update state.handles slot pages }

section Updates

variable (state : EmsState)

@[simp]
theorem frame_setFrame_self (window : Fin 4) (shown : Option (Fin maxEmsHandles × Nat)) :
    (state.setFrame window shown).frame window = shown :=
  update_self _ _ _

theorem frame_setFrame_of_ne {window other : Fin 4} (apart : other ≠ window)
    (shown : Option (Fin maxEmsHandles × Nat)) :
    (state.setFrame window shown).frame other = state.frame other :=
  update_of_ne apart _ _

@[simp]
theorem handles_setHandle_self (slot : Fin maxEmsHandles) (pages : Option (List Nat)) :
    (state.setHandle slot pages).handles slot = pages :=
  update_self _ _ _

theorem handles_setHandle_of_ne {slot other : Fin maxEmsHandles}
    (apart : other ≠ slot) (pages : Option (List Nat)) :
    (state.setHandle slot pages).handles other = state.handles other :=
  update_of_ne apart _ _

end Updates

/-- Backing pages that come next, and the counter behind them. -/
def takePages (state : EmsState) (count : Nat) : List Nat × EmsState :=
  ((List.range count).map fun index =>
      emsBackingVpage + (state.nextPage + index) % 2 ^ 16 * 4,
    { state with nextPage := (state.nextPage + count) % 2 ^ 16 })

end EmsState

structure EmsWorld where
  ems : EmsState
  pages : GuestPages

/-- A call of INT 67h; `dpmi` when the guest is a DPMI client. -/
structure EmsCall where
  regs : Regs
  dpmi : Bool

/-- The slot of a handle number. -/
def emsSlot (handle : Nat) : Option (Fin maxEmsHandles) :=
  if inside : handle < maxEmsHandles then some ⟨handle, inside⟩ else none

/-- The window of a physical page number. -/
def emsWindow (number : Nat) : Option (Fin 4) :=
  if inside : number < 4 then some ⟨number, inside⟩ else none

def Regs.setAh (regs : Regs) (code : Nat) : Regs := { regs with rax := setHighByte regs.rax code }

section Driver

variable (basePage : Nat)

/-- The segment of the page frame. -/
def emsFrameSeg : Nat := basePage % 2 ^ 16 * 0x100 % 2 ^ 16

def swapEmsWindow (pages : GuestPages) (window : Fin 4) (backing : Nat) : GuestPages :=
  pages.swapPageEntries backing (basePage + window * 4) 4

/-- Put what a window shows back into its backing pages. -/
def saveWindow (world : EmsWorld) (window : Fin 4) : Option EmsWorld :=
  match world.ems.frame window with
  | some (slot, page) =>
    match world.ems.handles slot with
    | some list =>
      match list[page]? with
      | some backing =>
        some { world with pages := swapEmsWindow basePage world.pages window backing }
      | none => none
    | none => some world
  | none => some world

/-- Show a logical page with a backing page in a window. -/
def loadWindow (world : EmsWorld) (window : Fin 4)
    (slot : Fin maxEmsHandles) (page backing : Nat) : EmsWorld where
  ems := world.ems.setFrame window (some (slot, page))
  pages := swapEmsWindow basePage world.pages window backing

def emsAllocate (world : EmsWorld) (regs : Regs) : Regs × EmsWorld :=
  let pagesNeeded := word regs.rbx
  match (List.finRange maxEmsHandles).find? fun slot =>
      (world.ems.handles slot).isNone with
  | some slot =>
    if (world.ems.nextPage + pagesNeeded) % 2 ^ 16 > emsTotalPages then (regs.setAh 0x88, world)
    else
      let (pages, ems) := world.ems.takePages pagesNeeded
      ({ regs.setAh 0 with rdx := setWord regs.rdx slot },
        { world with ems := ems.setHandle slot (some pages) })
  | none => (regs.setAh 0x85, world)

def emsMap (world : EmsWorld) (regs : Regs) : Option (Regs × EmsWorld) :=
  let logPage := word regs.rbx
  match emsWindow (lowByte regs.rax) with
  | none => some (regs.setAh 0x8B, world)
  | some window =>
    if logPage = 0xFFFF then
      match saveWindow basePage world window with
      | some world => some (regs.setAh 0, { world with ems := world.ems.setFrame window none })
      | none => none
    else
      match emsSlot (word regs.rdx) with
      | none => some (regs.setAh 0x83, world)
      | some slot =>
        match world.ems.handles slot with
        | some list =>
          match list[logPage]? with
          | some backing =>
            match saveWindow basePage world window with
            | some world =>
              some (regs.setAh 0, loadWindow basePage world window slot logPage backing)
            | none => none
          | none => some (regs.setAh 0x8A, world)
        | none => some (regs.setAh 0x83, world)

/-- Unmap the windows that show pages of a handle. -/
def unmapWindows (slot : Fin maxEmsHandles) : List (Fin 4) → EmsWorld → Option EmsWorld
  | [], world => some world
  | window :: rest, world =>
    match world.ems.frame window with
    | some (shown, _) =>
      if shown = slot then
        match saveWindow basePage world window with
        | some world => unmapWindows slot rest { world with ems := world.ems.setFrame window none }
        | none => none
      else unmapWindows slot rest world
    | none => unmapWindows slot rest world

def emsRelease (world : EmsWorld) (regs : Regs) : Option (Regs × EmsWorld) :=
  match emsSlot (word regs.rdx) with
  | none => some (regs.setAh 0x83, world)
  | some slot =>
    match world.ems.handles slot with
    | none => some (regs.setAh 0x83, world)
    | some _ =>
      match unmapWindows basePage slot (List.finRange 4) world with
      | some world => some (regs.setAh 0, { world with ems := world.ems.setHandle slot none })
      | none => none

/-- The number of pages of one handle. -/
def emsHandlePages (world : EmsWorld) (regs : Regs) : Regs :=
  match emsSlot (word regs.rdx) with
  | none => regs.setAh 0x83
  | some slot =>
    match world.ems.handles slot with
    | some list => { regs.setAh 0 with rbx := setWord regs.rbx list.length }
    | none => regs.setAh 0x83

/-- Write the live handles with their page counts at an address. -/
def writeHandles (ems : EmsState) : List (Fin maxEmsHandles) → Nat → GuestPages → Nat × GuestPages
  | [], _, pages => (0, pages)
  | slot :: rest, address, pages =>
    match ems.handles slot with
    | some list =>
      let (count, pages) :=
        writeHandles ems rest (address + 4) ((pages.writeWord address slot).writeWord (address + 2)
            (list.length % 2 ^ 16))
      (count + 1, pages)
    | none => writeHandles ems rest address pages

/-- The linear address of a segment and an index register. -/
def bufferAddress (segment index : Nat) : Nat :=
  (segment % 2 ^ 32 * 2 ^ 4 + index % 2 ^ 32) % 2 ^ 32

def emsAllPages (world : EmsWorld) (regs : Regs) : Regs × EmsWorld :=
  let (count, pages) :=
    writeHandles world.ems (List.finRange maxEmsHandles)
      (bufferAddress regs.es regs.rdi) world.pages
  ({ regs.setAh 0 with rbx := setWord regs.rbx count }, { world with pages })

/-- One entry of a mapping array, as numbers of a logical page and a window. -/
def mapEntry (pages : GuestPages) (al base index : Nat) : Nat × Nat :=
  let logPage := pages.readWord (base + index * 4)
  let physRaw := pages.readWord (base + index * 4 + 2)
  let physPage :=
    if al = 0 then lowByte physRaw
    else lowByte ((physRaw + 2 ^ 16 - emsFrameSeg basePage) % 2 ^ 16 / 0x400)
  (logPage, physPage)

/-- Map the entries of an array one by one; the code of the result. -/
def mapEntries (al base : Nat) (slot : Fin maxEmsHandles) :
    List Nat → EmsWorld → Option (Nat × EmsWorld)
  | [], world => some (0, world)
  | index :: rest, world =>
    let (logPage, physPage) := mapEntry basePage world.pages al base index
    match emsWindow physPage with
    | none => some (0x8B, world)
    | some window =>
      match saveWindow basePage world window with
      | none => none
      | some world =>
        if logPage = 0xFFFF then
          mapEntries al base slot rest { world with ems := world.ems.setFrame window none }
        else
          match (world.ems.handles slot).bind (·[logPage]?) with
          | some backing =>
            mapEntries al base slot rest (loadWindow basePage world window slot logPage backing)
          | none => some (0x8A, world)

/-- The address of the array of a call that maps several pages. -/
def mapArray (regs : Regs) : Nat := word regs.ds * 2 ^ 4 + word regs.rsi

def emsMapMultiple (world : EmsWorld) (regs : Regs) : Option (Regs × EmsWorld) :=
  match emsSlot (word regs.rdx) with
  | none => some (regs.setAh 0x83, world)
  | some slot =>
    match world.ems.handles slot with
    | none => some (regs.setAh 0x83, world)
    | some _ =>
      match
        mapEntries basePage (lowByte regs.rax) (mapArray regs) slot
          (List.range (word regs.rcx)) world
      with
      | some (code, world) => some (regs.setAh code, world)
      | none => none

def emsReallocate (world : EmsWorld) (regs : Regs) : Regs × EmsWorld :=
  let newCount := word regs.rbx
  match emsSlot (word regs.rdx) with
  | none => (regs.setAh 0x83, world)
  | some slot =>
    match world.ems.handles slot with
    | none => (regs.setAh 0x83, world)
    | some list =>
      let done : Regs := { regs.setAh 0 with rbx := setWord regs.rbx newCount }
      if newCount > list.length then
        let more := newCount - list.length
        if (world.ems.nextPage + more) % 2 ^ 16 > emsTotalPages then (regs.setAh 0x88, world)
        else
          let (pages, ems) := world.ems.takePages more
          (done, { world with ems := ems.setHandle slot (some (list ++ pages)) })
      else (done, { world with ems := world.ems.setHandle slot (some (list.take newCount)) })

/-- Write the segments of the four windows at an address. -/
def writeWindows (address : Nat) (pages : GuestPages) : GuestPages :=
  (List.range 4).foldl (fun pages index =>
      (pages.writeWord (address + index * 4)
        ((emsFrameSeg basePage + index * 0x400) % 2 ^ 16)).writeWord
          (address + index * 4 + 2) index)
    pages

def emsMappable (world : EmsWorld) (regs : Regs) : Regs × EmsWorld :=
  let done : Regs := { regs.setAh 0 with rcx := setWord regs.rcx 4 }
  if lowByte regs.rax = 0 then
    (done,
      { world with pages := writeWindows basePage (bufferAddress regs.es regs.rdi) world.pages })
  else (done, world)

inductive EmsFunction where
  | status
  | frameSegment
  | freePages
  | allocate
  | map
  | release
  | version
  | handleCount
  | handlePages
  | allPages
  | mapMultiple
  | reallocate
  | mappable
  | unsupported
  deriving DecidableEq

def EmsFunction.ofAh : Nat → EmsFunction
  | 0x40 => .status
  | 0x41 => .frameSegment
  | 0x42 => .freePages
  | 0x43 => .allocate
  | 0x44 => .map
  | 0x45 => .release
  | 0x46 => .version
  | 0x4B => .handleCount
  | 0x4C => .handlePages
  | 0x4D => .allPages
  | 0x50 => .mapMultiple
  | 0x51 => .reallocate
  | 0x58 => .mappable
  | _ => .unsupported

def int67hInner (world : EmsWorld) (regs : Regs) : Option (Regs × EmsWorld) :=
  match EmsFunction.ofAh (highByte regs.rax) with
  | .status => some (regs.setAh 0, world)
  | .frameSegment =>
    some ({ regs.setAh 0 with rbx := setWord regs.rbx (emsFrameSeg basePage) }, world)
  | .freePages =>
    some ({ regs.setAh 0 with
            rbx := setWord regs.rbx world.ems.allocPages
            rdx := setWord regs.rdx emsTotalPages }, world)
  | .allocate => some (emsAllocate world regs)
  | .map => emsMap basePage world regs
  | .release => emsRelease basePage world regs
  | .version => some ({ regs with rax := setLowByte (setHighByte regs.rax 0) 0x40 }, world)
  | .handleCount =>
    some ({ regs.setAh 0 with
            rbx :=
              setWord regs.rbx ((List.finRange maxEmsHandles).countP fun slot =>
                  (world.ems.handles slot).isSome) }, world)
  | .handlePages => some (emsHandlePages world regs, world)
  | .allPages => some (emsAllPages world regs)
  | .mapMultiple => emsMapMultiple basePage world regs
  | .reallocate => some (emsReallocate world regs)
  | .mappable => some (emsMappable basePage world regs)
  | .unsupported => some (regs.setAh 0x84, world)

def int67h (world : EmsWorld) (call : EmsCall) : Option (Regs × EmsWorld) :=
  if call.dpmi then some (call.regs.setAh 0x80, world)
  else int67hInner basePage world call.regs

/-- The driver as a machine; a call that stops the kernel changes nothing. -/
def emsMachine : Machine EmsWorld EmsCall (Option Regs) :=
  fun world call =>
    match int67h basePage world call with
    | some (regs, after) => (some regs, after)
    | none => (none, world)

end Driver

end RetroOS.Dos
