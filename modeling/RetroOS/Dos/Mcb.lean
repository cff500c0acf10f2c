import RetroOS.Lib.Machine
import RetroOS.Lib.Memory
import Mathlib.Data.List.Sort

/-!
# Memory blocks of a DOS guest

Conventional memory between the start of the heap and segment 0xA000 is
handed out in paragraphs of 16 bytes.  The kernel keeps a list of blocks, in
the order they were made.  In front of the data of each block lies one
paragraph with its header, the memory control block.

After every change the kernel writes the headers into guest memory, with free
headers in the gaps, so that a guest can walk them: a header holds a mark, the
owner and the number of paragraphs, and the next one follows the data.
-/

namespace RetroOS.Dos

open Lib

/-- The segment behind conventional memory. -/
def conventionalEnd : Nat := 0xA000

structure DosMemBlock where
  seg : Nat
  paras : Nat
  owner : Nat
  deriving DecidableEq

namespace DosMemBlock

/-- The first paragraph behind the data, as a `u16`. -/
def stop (block : DosMemBlock) : Nat := min (block.seg + block.paras) 0xFFFF

/-- The paragraph of the header. -/
def mcb (block : DosMemBlock) : Nat := block.seg - 1

end DosMemBlock

/-- The blocks of a guest. -/
structure DosHeap where
  heapBaseSeg : Nat
  heapSeg : Nat
  blocks : List DosMemBlock
  currentPsp : Nat
  deriving DecidableEq

/-! ## The chain in guest memory -/

/-- A header: where it lies, its owner (0 when free) and its size. -/
structure McbEntry where
  seg : Nat
  owner : Nat
  paras : Nat
  deriving DecidableEq

/-- The blocks in the order of their segments. -/
def sortedBlocks (blocks : List DosMemBlock) : List DosMemBlock :=
  blocks.insertionSort fun left right => left.seg ≤ right.seg

/-- The headers from a paragraph on. -/
def chainEntries : Nat → List DosMemBlock → List McbEntry
  | walk, [] =>
    if walk < conventionalEnd then
      [{ seg := walk, owner := 0, paras := conventionalEnd - walk - 1 }]
    else []
  | walk, block :: rest =>
    (if walk < block.mcb then [{ seg := walk, owner := 0, paras := block.mcb - walk - 1 }]
    else
      []) ++
      { seg := block.mcb, owner := block.owner, paras := block.paras } ::
        chainEntries block.stop rest

/-- The mark of a header that another one follows. -/
def markMore : UInt8 := 0x4D

/-- The mark of the last header. -/
def markLast : UInt8 := 0x5A

/-- Write a number of two bytes. -/
def writeWord (memory : Memory UInt8) (address value : Nat) : Memory UInt8 :=
  Function.update (Function.update memory address (UInt8.ofNat value))
    (address + 1) (UInt8.ofNat (value / 2 ^ 8))

/-- Write a header; the rest of its paragraph stays. -/
def writeEntry (memory : Memory UInt8) (mark : UInt8) (entry : McbEntry) : Memory UInt8 :=
  let address := entry.seg * 16
  writeWord (writeWord (Function.update memory address mark) (address + 1) entry.owner)
    (address + 3) entry.paras

def writeEntries : List McbEntry → Memory UInt8 → Memory UInt8
  | [], memory => memory
  | [last], memory => writeEntry memory markLast last
  | entry :: rest, memory => writeEntries rest (writeEntry memory markMore entry)

structure McbWorld where
  heap : DosHeap
  memory : Memory UInt8

section Calls

variable (firstMcb : Nat)

/-- Write the chain, and where it starts at the address of the list head. -/
def syncMcbChain (heap : DosHeap) (memory : Memory UInt8) : Memory UInt8 :=
  writeEntries (chainEntries heap.heapBaseSeg (sortedBlocks heap.blocks))
    (writeWord memory firstMcb heap.heapBaseSeg)

/-- Step over a block whose header starts at the first free paragraph. -/
def advance (blocks : List DosMemBlock) (firstFree : Nat) : Nat :=
  match blocks.find? fun block => block.seg = min (firstFree + 1) 0xFFFF with
  | some block => block.stop
  | none => firstFree

/-- The first paragraph behind the run of blocks at the heap start. -/
def syncHeapSeg (heap : DosHeap) : DosHeap :=
  -- the loop of the source uses another block in each turn but the last
  let firstFree := (advance heap.blocks)^[heap.blocks.length] heap.heapBaseSeg
  { heap with heapSeg := min firstFree conventionalEnd }

def synced (heap : DosHeap) (memory : Memory UInt8) : McbWorld where
  heap := syncHeapSeg heap
  memory := syncMcbChain firstMcb (syncHeapSeg heap) memory

/-- The first block behind a segment, or the end. -/
def nextDosBlockLimit (blocks : List DosMemBlock) (seg : Nat) : Nat :=
  blocks.foldl (fun limit block =>
      if block.seg = seg ∨ block.seg < seg then limit
      else if block.seg < limit then block.seg
      else limit)
    conventionalEnd

/-- The data segment of the first gap of a size, or the largest data size. -/
def findDosGap (total : Nat) : Nat → Nat → List DosMemBlock → Except Nat Nat
  | cur, maxData, [] =>
    if cur < conventionalEnd then
      let region := conventionalEnd - cur
      if region ≥ total then .ok (min (cur + 1) 0xFFFF)
      else .error (max maxData (region - 1))
    else .error maxData
  | cur, maxData, block :: rest =>
    if block.mcb > cur then
      let region := block.mcb - cur
      if region ≥ total then .ok (min (cur + 1) 0xFFFF)
      else findDosGap total block.stop (max maxData (region - 1)) rest
    else findDosGap total block.stop maxData rest

inductive McbAnswer where
  | segment (seg : Nat)
  | done
  | insufficient (largest : Nat)
  | invalidBlock
  deriving DecidableEq

/-- Paragraphs a request takes, with its header. -/
def allocTotal (need : Nat) : Nat := if need = 0 then 1 else min (need + 1) 0xFFFF

/-- A request for no paragraphs finds a place but records no block. -/
def dosAllocBlock (world : McbWorld) (need : Nat) : McbAnswer × McbWorld :=
  let heap := world.heap
  if need ≠ 0 ∧ allocTotal need < need then (.insufficient 0, world)
  else
    match findDosGap (allocTotal need) heap.heapBaseSeg 0 (sortedBlocks heap.blocks)
    with
    | .ok seg =>
      let blocks :=
        if need ≠ 0 then heap.blocks ++ [{ seg, paras := need, owner := heap.currentPsp }]
        else heap.blocks
      (.segment seg, synced firstMcb { heap with blocks } world.memory)
    | .error largest => (.insufficient largest, world)

def dosFreeBlock (world : McbWorld) (seg : Nat) : McbAnswer × McbWorld :=
  if world.heap.blocks.any fun block => block.seg = seg then
    (.done, synced firstMcb
        { world.heap with blocks := world.heap.blocks.eraseP fun block => block.seg = seg }
        world.memory)
  else (.invalidBlock, world)

def dosKeepResidentBlock (world : McbWorld) (seg paras owner : Nat) : McbWorld :=
  let kept := min paras (conventionalEnd - seg)
  if kept = 0 then { world with memory := syncMcbChain firstMcb world.heap world.memory }
  else
    synced firstMcb
      { world.heap with blocks := world.heap.blocks ++ [{ seg, paras := kept, owner }] }
      world.memory

/-- Give the first block at a segment another size. -/
def setParas (seg paras : Nat) : List DosMemBlock → List DosMemBlock
  | [] => []
  | block :: rest =>
    if block.seg = seg then { block with paras } :: rest
    else block :: setParas seg paras rest

/-- The largest size a block at a segment can have. -/
def resizeLimit (blocks : List DosMemBlock) (seg : Nat) : Nat :=
  let nextLimit := nextDosBlockLimit blocks seg
  if nextLimit < conventionalEnd then nextLimit - seg - 1
  else nextLimit - seg

def dosResizeBlock (world : McbWorld) (seg paras : Nat) : McbAnswer × McbWorld :=
  if world.heap.blocks.any fun block => block.seg = seg then
    if paras ≤ resizeLimit world.heap.blocks seg then
      (.done, synced firstMcb { world.heap with blocks := setParas seg paras world.heap.blocks }
          world.memory)
    else (.insufficient (resizeLimit world.heap.blocks seg), world)
  else (.invalidBlock, world)

/-- An empty heap from a segment on. -/
def dosResetBlocks (baseSeg psp : Nat) (memory : Memory UInt8) : McbWorld :=
  let heap : DosHeap :=
    { heapBaseSeg := baseSeg, heapSeg := baseSeg, blocks := [], currentPsp := psp }
  { heap, memory := syncMcbChain firstMcb heap memory }

inductive McbCall where
  | alloc (need : UInt16)
  | free (seg : UInt16)
  | resize (seg paras : UInt16)
  | keepResident (seg paras owner : UInt16)
  deriving DecidableEq

def mcbMachine : Machine McbWorld McbCall McbAnswer :=
  fun world call =>
    match call with
    | .alloc need => dosAllocBlock firstMcb world need.toNat
    | .free seg => dosFreeBlock firstMcb world seg.toNat
    | .resize seg paras => dosResizeBlock firstMcb world seg.toNat paras.toNat
    | .keepResident seg paras owner =>
      (.done, dosKeepResidentBlock firstMcb world seg.toNat paras.toNat owner.toNat)

end Calls

end RetroOS.Dos
