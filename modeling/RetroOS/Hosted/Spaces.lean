import RetroOS.Hosted.Frames
import RetroOS.Lib.Machine

/-!
# Address spaces of the hosted backend

A space is a page directory of up to 1024 page tables with 1024 entries each.
The calls of the source work on ranges of pages; here each is the list of
what it does to one page after the other, and the accessors of guest memory
are lists of what they do to one byte.

The entries of a table stand in the table itself and not in the memory of its
frame.  A panic of the source, on a space that does not exist, leaves
everything as it was.
-/

namespace RetroOS.Hosted

open Lib
open Function (update update_of_ne update_eq_self)

def entriesPerTable : Nat := 1024

/-- The pages of a 32-bit address space. -/
def pageCount : Nat := 1048576

def pageSize : Nat := 4096

/-- User addresses end at 3 GiB. -/
def userPages : Nat := 0xC0000

/-- The lowest addresses are never committed on a fault. -/
def nullGuard : Nat := 0x10000

/-! ## Page tables -/

/-- What an entry of a page table says; bits nobody tests are left out. -/
structure Pte where
  frame : Nat
  present : Bool
  writable : Bool
  cow : Bool
  cacheDisable : Bool
  deriving DecidableEq

namespace Pte

def zero : Pte := ⟨0, false, false, false, false⟩

def plain (frame : Nat) (writable : Bool) : Pte := ⟨frame, true, writable, false, false⟩

def copyOnWrite (frame : Nat) : Pte := ⟨frame, true, false, true, false⟩

/-- Not present, with the mark of a device. -/
def mmio : Pte := ⟨0, false, false, false, true⟩

end Pte

structure PageTable where
  frame : Nat
  entries : Nat → Pte

structure Space where
  pd : Nat
  tables : Nat → Option PageTable

namespace Space

/-- The entry of a page, zero if it has no table. -/
def pteRaw (space : Space) (page : Nat) : Pte :=
  match space.tables (page / entriesPerTable) with
  | none => .zero
  | some table => table.entries (page % entriesPerTable)

/-- The frame of a page, if it is present. -/
def translate (space : Space) (page : Nat) : Option Nat :=
  if (space.pteRaw page).present then some (space.pteRaw page).frame
  else none

/-- Write the entry of a page that has a table. -/
def writeEntry (space : Space) (page : Nat) (pte : Pte) : Space :=
  match space.tables (page / entriesPerTable) with
  | none => space
  | some table =>
    { space with
      tables :=
        update space.tables (page / entriesPerTable) (some
            { table with entries := update table.entries (page % entriesPerTable) pte }) }

/-- The table of a page is there. -/
def HasTable (space : Space) (page : Nat) : Prop := (space.tables (page / entriesPerTable)).isSome

/-- The pages that are present, in the order of their addresses. -/
def presentPages (space : Space) : List Nat :=
  (List.range entriesPerTable).flatMap fun index =>
    match space.tables index with
    | none => []
    | some table =>
      ((List.range entriesPerTable).filter fun entry =>
        (table.entries entry).present).map fun entry => index * entriesPerTable + entry

section Entries

variable {space : Space} {page : Nat}

theorem hasTable_of_present (present : (space.pteRaw page).present) : space.HasTable page := by
  unfold pteRaw at present
  unfold HasTable
  cases known : space.tables (page / entriesPerTable) with
  | none =>
    rw [known] at present
    cases present
  | some table => rfl

theorem translate_eq_some {frame : Nat} :
    space.translate page = some frame ↔
      (space.pteRaw page).present ∧ (space.pteRaw page).frame = frame := by
  unfold translate
  split_ifs with present <;> simp [present]

theorem translate_eq_none : space.translate page = none ↔ (space.pteRaw page).present = false := by
  unfold translate
  split_ifs with present <;> simp [present]

theorem hasTable_of_translate {frame : Nat}
    (found : space.translate page = some frame) : space.HasTable page :=
  hasTable_of_present (translate_eq_some.mp found).1

/-- Writing an entry changes that entry only. -/
theorem pteRaw_writeEntry {pte : Pte} (table : space.HasTable page ∨ pte = .zero) :
    (space.writeEntry page pte).pteRaw = update space.pteRaw page pte := by
  cases known : space.tables (page / entriesPerTable) with
  | none =>
    have zero : pte = .zero := by
      refine table.resolve_left ?_
      simp [HasTable, known]
    have before : space.pteRaw page = pte := by simp [pteRaw, known, zero]
    simp only [writeEntry, known]
    rw [← before, update_eq_self]
  | some found =>
    funext other
    simp only [writeEntry, known]
    by_cases same : other = page
    · simp [pteRaw, same]
    · rw [update_of_ne same]
      unfold pteRaw
      by_cases index : other / entriesPerTable = page / entriesPerTable
      · have entry : other % entriesPerTable ≠ page % entriesPerTable := by
          intro equal
          apply same
          rw [← Nat.div_add_mod other entriesPerTable,
            ← Nat.div_add_mod page entriesPerTable, index, equal]
        simp [index, known, update_of_ne entry]
      · simp [update_of_ne index]

/-- The last of two writes to an entry is what counts. -/
theorem writeEntry_writeEntry (space : Space) (page : Nat) (first second : Pte) :
    (space.writeEntry page first).writeEntry page second = space.writeEntry page second := by
  unfold writeEntry
  cases known : space.tables (page / entriesPerTable) with
  | none => simp [known]
  | some table => simp

@[simp]
theorem pd_writeEntry (pte : Pte) : (space.writeEntry page pte).pd = space.pd := by
  unfold writeEntry
  split <;> rfl

/-- The frame of each table. -/
def tableFrame (space : Space) (index : Nat) : Option Nat :=
  (space.tables index).map PageTable.frame

@[simp]
theorem tableFrame_writeEntry (space : Space) (page : Nat) (pte : Pte) :
    (space.writeEntry page pte).tableFrame = space.tableFrame := by
  funext index
  unfold writeEntry tableFrame
  split
  · rfl
  · next table known =>
      rcases eq_or_ne index (page / entriesPerTable) with rfl | other
      · simp [known]
      · simp [update_of_ne other]

theorem hasTable_writeEntry (other : Nat) (pte : Pte) :
    (space.writeEntry page pte).HasTable other ↔ space.HasTable other := by
  have same := congrFun (tableFrame_writeEntry space page pte) (other / entriesPerTable)
  unfold tableFrame at same
  unfold HasTable
  rw [← Option.isSome_map (f := PageTable.frame), same, Option.isSome_map]

/-- The list of present pages has all of them. -/
theorem mem_presentPages :
    page ∈ space.presentPages ↔ page < pageCount ∧ (space.pteRaw page).present := by
  unfold presentPages pteRaw
  simp only [List.mem_flatMap, List.mem_range]
  constructor
  · rintro ⟨index, small, member⟩
    cases known : space.tables index with
    | none => simp [known] at member
    | some table =>
      simp only [known, List.mem_map, List.mem_filter, List.mem_range] at member
      obtain ⟨entry, ⟨below, present⟩, rfl⟩ := member
      have quotient : (index * entriesPerTable + entry) / entriesPerTable = index := by
        unfold entriesPerTable at *
        omega
      have remainder : (index * entriesPerTable + entry) % entriesPerTable = entry := by
        unfold entriesPerTable at *
        omega
      rw [quotient, remainder, known]
      refine ⟨?_, present⟩
      unfold entriesPerTable pageCount at *
      omega
  · rintro ⟨inside, present⟩
    refine ⟨page / entriesPerTable, ?_, ?_⟩
    · unfold entriesPerTable pageCount at *
      omega
    · cases known : space.tables (page / entriesPerTable) with
      | none =>
        rw [known] at present
        cases present
      | some table =>
        rw [known] at present
        simp only [List.mem_map, List.mem_filter, List.mem_range]
        refine ⟨page % entriesPerTable, ⟨?_, present⟩, ?_⟩
        · exact Nat.mod_lt _ (by decide)
        · exact Nat.div_add_mod' page entriesPerTable

end Entries

end Space

/-- A space and the frames it takes its own from. -/
structure Cell where
  frames : Frames
  space : Space

def allocTable (frames : Frames) : Nat × Frames :=
  let (frame, frames) := frames.alloc
  (frame, frames.zeroFrame frame)

namespace Cell

/-- Give a page the table its entry stands in. -/
def ensureTable (cell : Cell) (page : Nat) : Cell :=
  match cell.space.tables (page / entriesPerTable) with
  | some _ => cell
  | none =>
    let (frame, frames) := allocTable cell.frames
    { frames
      space :=
        { cell.space with
          tables :=
            update cell.space.tables (page / entriesPerTable)
              (some { frame, entries := fun _ => .zero }) } }

def writeEntry (cell : Cell) (page : Nat) (pte : Pte) : Cell :=
  { cell with space := cell.space.writeEntry page pte }

def freeFrame (cell : Cell) (frame : Nat) : Cell :=
  { cell with frames := cell.frames.freeFrame frame }

def incRef (cell : Cell) (frame : Nat) : Cell := { cell with frames := cell.frames.incRef frame }

def mapPage (cell : Cell) (page frame : Nat) (writable : Bool) : Cell :=
  (cell.ensureTable page).writeEntry page (.plain frame writable)

def mapPageCow (cell : Cell) (page frame : Nat) : Cell :=
  (cell.ensureTable page).writeEntry page (.copyOnWrite frame)

def unmapPage (cell : Cell) (page : Nat) : Cell := cell.writeEntry page .zero

/-- Map a page onto a frame of its own. -/
def mapFresh (cell : Cell) (page : Nat) : Cell :=
  let (frame, frames) := cell.frames.alloc
  mapPage { cell with frames } page frame true

def mapMmio (cell : Cell) (page : Nat) : Cell :=
  let cell := cell.ensureTable page
  match cell.space.translate page with
  | some old => (cell.freeFrame old).writeEntry page .mmio
  | none => cell.writeEntry page .mmio

def setWritable (cell : Cell) (page : Nat) (writable : Bool) : Cell :=
  let pte := cell.space.pteRaw page
  if pte.present then cell.writeEntry page { pte with writable } else cell

/-- Resolve a fault on an absent page; false for an illegal access. -/
def demand (cell : Cell) (vaddr : Nat) : Bool × Cell :=
  let page := vaddr / pageSize
  if (cell.space.translate page).isSome then (true, cell)
  else if (cell.space.pteRaw page).cacheDisable then (false, cell)
  else if vaddr < nullGuard ∨ userPages ≤ page then (false, cell)
  else (true, cell.mapFresh page)

/-- Resolve a write to a page that is not writable. -/
def cowFault (cell : Cell) (page : Nat) : Bool × Cell :=
  let pte := cell.space.pteRaw page
  if ¬ pte.present ∨ ¬ pte.cow then (false, cell)
  else if cell.frames.isShared pte.frame then
    let (new, frames) := cell.frames.alloc
    let frames := frames.copyFrame pte.frame new
    let cell := { cell with frames }
    (true, (cell.writeEntry page (.plain new true)).freeFrame pte.frame)
  else (true, cell.writeEntry page (.plain pte.frame true))

/-- Map one page onto the frame of another. -/
def copyEntry (cell : Cell) (source target : Nat) : Cell :=
  let cell :=
    match cell.space.translate target with
    | some old => cell.freeFrame old
    | none => cell
  match cell.space.translate source with
  | some frame => (cell.mapPage target frame (cell.space.pteRaw source).writable).incRef frame
  | none => cell.unmapPage target

def swapEntries (cell : Cell) (first second : Nat) : Cell :=
  let cell := (cell.ensureTable first).ensureTable second
  let firstPte := cell.space.pteRaw first
  let secondPte := cell.space.pteRaw second
  (cell.writeEntry first secondPte).writeEntry second firstPte

/-- The frame behind a page for the kernel, committed if it was absent. -/
def resolve (cell : Cell) (page : Nat) : Nat × Cell :=
  match cell.space.translate page with
  | some frame => (frame, cell)
  | none => (cell.frames.alloc.1, cell.mapFresh page)

def setByte (cell : Cell) (frame offset : Nat) (byte : UInt8) : Cell :=
  { cell with frames := cell.frames.setByte frame offset byte }

/-- One byte of a read through the accessors. -/
def readByte (cell : Cell) (vaddr : Nat) : UInt8 × Cell :=
  let (frame, cell) := cell.resolve (vaddr / pageSize)
  (cell.frames.memory frame (vaddr % pageSize), cell)

/-- One byte of a write through the accessors. -/
def writeByte (cell : Cell) (vaddr : Nat) (byte : UInt8) : Cell :=
  let (frame, cell) := cell.resolve (vaddr / pageSize)
  cell.setByte frame (vaddr % pageSize) byte

/--
The processor stores to a page that is present and writable.  For any other
page the fault is resolved first, or it goes to the kernel.
-/
def storeFault (cell : Cell) (vaddr : Nat) : Bool × Cell :=
  let pte := cell.space.pteRaw (vaddr / pageSize)
  if pte.present then
    if pte.writable then (true, cell) else cell.cowFault (vaddr / pageSize)
  else cell.demand vaddr

/-- A store of the guest, made again after a fault that was resolved. -/
def store (cell : Cell) (vaddr : Nat) (byte : UInt8) : Bool × Cell :=
  let (resolved, cell) := cell.storeFault vaddr
  if resolved then
    let frame := (cell.space.pteRaw (vaddr / pageSize)).frame
    (true, cell.setByte frame (vaddr % pageSize) byte)
  else (false, cell)

def freePage (cell : Cell) (page : Nat) : Cell :=
  match cell.space.translate page with
  | some frame => (cell.freeFrame frame).writeEntry page .zero
  | none => cell

/-- Free every user page. -/
def freeUserFrames (cell : Cell) : Cell :=
  (cell.space.presentPages.filter (· < userPages)).foldl freePage cell

section Tables

variable {cell : Cell} {page : Nat}

theorem ensureTable_of_hasTable {frames : Frames} {space : Space} (table : space.HasTable page) :
    ensureTable ⟨frames, space⟩ page = ⟨frames, space⟩ := by
  unfold ensureTable
  unfold Space.HasTable at table
  cases known : space.tables (page / entriesPerTable) with
  | none => simp [known] at table
  | some found => rfl

theorem hasTable_ensureTable (cell : Cell) (page : Nat) :
    (cell.ensureTable page).space.HasTable page := by
  unfold ensureTable Space.HasTable
  cases known : cell.space.tables (page / entriesPerTable) with
  | none => simp
  | some found => simp [known]

theorem HasTable.ensureTable {other : Nat} (table : cell.space.HasTable other) :
    (cell.ensureTable page).space.HasTable other := by
  unfold Cell.ensureTable
  unfold Space.HasTable at *
  cases known : cell.space.tables (page / entriesPerTable) with
  | some found => exact table
  | none =>
    rcases eq_or_ne (other / entriesPerTable) (page / entriesPerTable) with same | apart
    · simp [same]
    · simpa [update_of_ne apart] using table

/-- A new table is empty. -/
@[simp]
theorem pteRaw_ensureTable (cell : Cell) (page : Nat) :
    (cell.ensureTable page).space.pteRaw = cell.space.pteRaw := by
  funext other
  unfold ensureTable
  cases known : cell.space.tables (page / entriesPerTable) with
  | some found => rfl
  | none =>
    unfold Space.pteRaw
    rcases eq_or_ne (other / entriesPerTable) (page / entriesPerTable) with same | apart
    · simp [same, known]
    · simp [update_of_ne apart]

@[simp]
theorem translate_ensureTable (cell : Cell) (page : Nat) :
    (cell.ensureTable page).space.translate = cell.space.translate := by
  funext other
  simp only [Space.translate, pteRaw_ensureTable]

/-- Mapping a page changes its entry only. -/
theorem pteRaw_mapEntry (cell : Cell) (page : Nat) (pte : Pte) :
    ((cell.ensureTable page).writeEntry page pte).space.pteRaw =
      update cell.space.pteRaw page pte := by
  simp only [writeEntry]
  rw [Space.pteRaw_writeEntry (.inl (hasTable_ensureTable cell page)), pteRaw_ensureTable]

theorem pteRaw_mapFresh (cell : Cell) (page : Nat) :
    (cell.mapFresh page).space.pteRaw =
      update cell.space.pteRaw page (.plain cell.frames.alloc.1 true) :=
  pteRaw_mapEntry ⟨cell.frames.alloc.2, cell.space⟩ page _

theorem shared_ensureTable (cell : Cell) (page : Nat) :
    (cell.ensureTable page).frames.shared = cell.frames.shared := by
  unfold ensureTable
  cases cell.space.tables (page / entriesPerTable) with
  | some found => rfl
  | none => exact (Frames.alloc_same cell.frames).2

theorem shared_mapFresh (cell : Cell) (page : Nat) :
    (cell.mapFresh page).frames.shared = cell.frames.shared :=
  (shared_ensureTable ⟨cell.frames.alloc.2, cell.space⟩ page).trans
    (Frames.alloc_same cell.frames).2

/-- The frame that is resolved is the one of the page. -/
theorem translate_resolve (cell : Cell) (page : Nat) :
    (cell.resolve page).2.space.translate page = some (cell.resolve page).1 := by
  unfold resolve
  cases found : cell.space.translate page with
  | some frame => exact found
  | none =>
    rw [Space.translate_eq_some, pteRaw_mapFresh]
    simp [Pte.plain]

/-- A store that is made again finds the page writable. -/
theorem storeFault_writable {vaddr : Nat} (resolved : (cell.storeFault vaddr).1 = true) :
    let pte := (cell.storeFault vaddr).2.space.pteRaw (vaddr / pageSize)
    pte.present ∧ pte.writable := by
  simp only [storeFault] at resolved ⊢
  split_ifs at resolved ⊢ with present writable
  · exact ⟨present, writable⟩
  · simp only [cowFault] at resolved ⊢
    split_ifs at resolved ⊢ with refused several
    · simp [freeFrame, writeEntry,
        Space.pteRaw_writeEntry (.inl (Space.hasTable_of_present present)),
        Pte.plain]
    · simp [writeEntry, Space.pteRaw_writeEntry (.inl (Space.hasTable_of_present present)),
        Pte.plain]
  · simp only [demand] at resolved ⊢
    split_ifs at resolved ⊢ with found device illegal
    · rw [Option.isSome_iff_exists] at found
      obtain ⟨frame, found⟩ := found
      exact absurd (Space.translate_eq_some.mp found).1 present
    · simp [pteRaw_mapFresh, Pte.plain]

end Tables

end Cell

/-! ## All spaces -/

/-- The pages every space maps, with the frames they stand on. -/
structure KernelWindows where
  pages : List (Nat × Nat)
  high : ∀ window ∈ pages, userPages ≤ window.1 ∧ window.1 < pageCount

/-- A new page directory with the kernel windows in it. -/
def KernelWindows.newCell (windows : KernelWindows) (frames : Frames) : Cell :=
  let (pd, frames) := allocTable frames
  windows.pages.foldl (fun cell window => cell.mapPage window.1 window.2 true)
    { frames, space := { pd, tables := fun _ => none } }

/-- A fork while it copies the entries of its source. -/
structure Fork where
  source : Space
  target : Cell

def Fork.sharePage (fork : Fork) (page : Nat) : Fork :=
  let pte := fork.source.pteRaw page
  if (fork.target.space.translate page).isSome then fork
  else if pte.writable ∨ pte.cow then
    { source := fork.source.writeEntry page (.copyOnWrite pte.frame)
      target := (fork.target.mapPageCow page pte.frame).incRef pte.frame }
  else { fork with target := (fork.target.mapPage page pte.frame false).incRef pte.frame }

structure Backend where
  frames : Frames
  spaces : Nat → Option Space
  active : Nat
  next : Nat

namespace Backend

def put (backend : Backend) (id : Nat) (cell : Cell) : Backend :=
  { backend with frames := cell.frames, spaces := update backend.spaces id (some cell.space) }

def spaceNew (windows : KernelWindows) (backend : Backend) : Backend :=
  { backend.put backend.next (windows.newCell backend.frames) with next := backend.next + 1 }

/-- Both sides of a fork, the new one under the next id. -/
def putFork (backend : Backend) (src : Nat) (fork : Fork) : Backend where
  frames := fork.target.frames
  spaces :=
    update (update backend.spaces src (some fork.source)) backend.next (some fork.target.space)
  active := backend.active
  next := backend.next + 1

/-- Share every page of a space with a new one. -/
def spaceFork (windows : KernelWindows) (backend : Backend) (src : Nat) : Backend :=
  match backend.spaces src with
  | none => backend
  | some source =>
    backend.putFork src (source.presentPages.foldl Fork.sharePage
        { source, target := windows.newCell backend.frames })

/-- Free the user pages of a space and forget it; space 0 stays. -/
def spaceDestroy (backend : Backend) (id : Nat) : Backend :=
  if id = 0 then backend
  else
    let frames :=
      match backend.spaces id with
      | some space => (Cell.freeUserFrames ⟨backend.frames, space⟩).frames
      | none => backend.frames
    { backend with
      frames
      spaces := update backend.spaces id none
      active := if backend.active = id then 0 else backend.active }

end Backend

/-! ## The machine -/

/-- What a call does to one page or one byte of the active space. -/
inductive CellStep where
  | spaceClean
  | mapFresh (vpage : Nat)
  | mapPhys (vpage ppage : Nat) (writable : Bool)
  | mapMmio (vpage : Nat)
  | setWritable (vpage : Nat) (writable : Bool)
  | unmap (vpage : Nat)
  | copyEntry (src dst : Nat)
  | swapEntries (a b : Nat)
  | demand (vaddr : Nat)
  | cowFault (vaddr : Nat)
  | store (vaddr : Nat) (byte : UInt8)
  | readByte (vaddr : Nat)
  | writeByte (vaddr : Nat) (byte : UInt8)
  | copyByte (src dst : Nat)
  deriving DecidableEq

inductive HostStep where
  | spaceNew
  | spaceSwitch (id : Nat)
  | spaceFork (src : Nat)
  | spaceDestroy (id : Nat)
  | active (step : CellStep)
  deriving DecidableEq

inductive HostAnswer where
  | done
  | space (id : Nat)
  | resolved (success : Bool)
  | byte (value : UInt8)
  deriving DecidableEq

/-- A page number; the address of a page has 32 bits. -/
def pageAt (vpage : Nat) : Nat := vpage % pageCount

/-- An address of 32 bits. -/
def addressAt (vaddr : Nat) : Nat := vaddr % 2 ^ 32

def CellStep.apply (cell : Cell) : CellStep → HostAnswer × Cell
  | .spaceClean => (.done, cell.freeUserFrames)
  | .mapFresh vpage => (.done, cell.mapFresh (pageAt vpage))
  | .mapPhys vpage ppage writable => (.done, cell.mapPage (pageAt vpage) ppage writable)
  | .mapMmio vpage => (.done, cell.mapMmio (pageAt vpage))
  | .setWritable vpage writable => (.done, cell.setWritable (pageAt vpage) writable)
  | .unmap vpage => (.done, cell.unmapPage (pageAt vpage))
  | .copyEntry src dst => (.done, cell.copyEntry (pageAt src) (pageAt dst))
  | .swapEntries a b => (.done, cell.swapEntries (pageAt a) (pageAt b))
  | .demand vaddr =>
    let (success, cell) := cell.demand (addressAt vaddr)
    (.resolved success, cell)
  | .cowFault vaddr =>
    let (success, cell) := cell.cowFault (addressAt vaddr / pageSize)
    (.resolved success, cell)
  | .store vaddr byte =>
    let (success, cell) := cell.store (addressAt vaddr) byte
    (.resolved success, cell)
  | .readByte vaddr =>
    let (value, cell) := cell.readByte (addressAt vaddr)
    (.byte value, cell)
  | .writeByte vaddr byte => (.done, cell.writeByte (addressAt vaddr) byte)
  | .copyByte src dst =>
    let (value, cell) := cell.readByte (addressAt src)
    (.done, cell.writeByte (addressAt dst) value)

def hostMachine (windows : KernelWindows) : Machine Backend HostStep HostAnswer
  | backend, .spaceNew => (.space backend.next, backend.spaceNew windows)
  | backend, .spaceSwitch id => (.done, { backend with active := id })
  | backend, .spaceFork src => (.space backend.next, backend.spaceFork windows src)
  | backend, .spaceDestroy id => (.done, backend.spaceDestroy id)
  | backend, .active step =>
    match backend.spaces backend.active with
    | none => (.done, backend)
    | some space =>
      let (answer, cell) := step.apply ⟨backend.frames, space⟩
      (answer, backend.put backend.active cell)

/-! ## The calls -/

inductive HostCall where
  | single (step : HostStep)
  | spaceMapFresh (vpage count : Nat)
  | spaceMapPhys (vpage count ppage : Nat) (writable : Bool)
  | spaceMapMmio (vpage count : Nat)
  | spaceSetWritable (vpage count : Nat) (writable : Bool)
  | spaceUnmap (vpage count : Nat)
  | spaceCopyEntries (src dst count : Nat)
  | spaceSwapEntries (a b count : Nat)
  | copyFrom (addr len : Nat)
  | copyTo (addr : Nat) (bytes : List UInt8)
  | zero (addr len : Nat)
  | copyWithin (src dst len : Nat)

/-- What a call does, in its order. -/
def HostCall.steps : HostCall → List HostStep
  | .single step => [step]
  | .spaceMapFresh vpage count => (List.range count).map fun i => .active (.mapFresh (vpage + i))
  | .spaceMapPhys vpage count ppage writable =>
    (List.range count).map fun i => .active (.mapPhys (vpage + i) (ppage + i) writable)
  | .spaceMapMmio vpage count => (List.range count).map fun i => .active (.mapMmio (vpage + i))
  | .spaceSetWritable vpage count writable =>
    (List.range count).map fun i => .active (.setWritable (vpage + i) writable)
  | .spaceUnmap vpage count => (List.range count).map fun i => .active (.unmap (vpage + i))
  | .spaceCopyEntries src dst count =>
    (List.range count).map fun i => .active (.copyEntry (src + i) (dst + i))
  | .spaceSwapEntries a b count =>
    (List.range count).map fun i => .active (.swapEntries (a + i) (b + i))
  | .copyFrom addr len => (List.range len).map fun i => .active (.readByte (addr + i))
  | .copyTo addr bytes => bytes.mapIdx fun i byte => .active (.writeByte (addr + i) byte)
  | .zero addr len => (List.range len).map fun i => .active (.writeByte (addr + i) 0)
  | .copyWithin src dst len =>
    -- the direction in which an overlap is read before it is written
    let indices := if src < dst then (List.range len).reverse else List.range len
    indices.map fun i => .active (.copyByte (src + i) (dst + i))

/-- What a list of calls does. -/
def allSteps (calls : List HostCall) : List HostStep := calls.flatMap HostCall.steps

end RetroOS.Hosted
