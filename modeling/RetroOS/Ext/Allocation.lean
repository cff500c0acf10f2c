import RetroOS.Ext.Transaction

/-!
# Allocating and releasing blocks and inodes

Allocation and release never touch the transaction: they read descriptors
and bitmaps and return the edited versions as `GroupEdit`s, which the
operation stages together with its other changes.

A group whose bitmap was never written has it computed from the group's
geometry (`initializeBlockBitmap`).  Release uses the same bitmap to refuse
the blocks that hold the group's own structures.
-/

namespace RetroOS.Ext

open Lib Lib.Bytes
open Query (orFail refuseIf)

variable {E : Type}

/-- The edited descriptor of a group, and its edited block bitmap. -/
structure GroupEdit where
  number : Nat
  descriptor : Bytes
  blockBitmap : Option DirtyBlock

/-- Blocks taken so far and the edits of the groups they came from. -/
structure Allocation where
  blocks : List Nat
  groups : List GroupEdit

def Allocation.empty : Allocation where
  blocks := []
  groups := []

/-- The edit of a group in a list. -/
def findGroup (number : Nat) (groups : List GroupEdit) : Option GroupEdit :=
  groups.find? fun edit => edit.number == number

def removeGroup (number : Nat) (groups : List GroupEdit) : List GroupEdit :=
  groups.filter fun edit => edit.number != number

/-- Insert an edit at its place in a list sorted by group. -/
def insertGroup (edit : GroupEdit) (groups : List GroupEdit) : List GroupEdit :=
  groups.takeWhile (fun entry => entry.number < edit.number) ++
    edit :: groups.dropWhile (fun entry => entry.number < edit.number)

namespace Transaction

variable (tx : Transaction)

/-! ## Groups -/

/-- The first block of a group and how many blocks it has. -/
def groupRange (group : Nat) : Query (Error E) (Nat × Nat) := do
  let groupStart ← orFail (checked 64 (tx.superblock.firstDataBlock +
          group * tx.superblock.blocksPerGroup))
      (.corrupt .addressOverflow)
  refuseIf (tx.superblock.blocksCount < groupStart) (.corrupt (.invalidGroup group))
  return (groupStart, min (tx.superblock.blocksCount - groupStart) tx.superblock.blocksPerGroup)

def blockBitmapChecksum (bitmap : Bytes) : Nat :=
  crc32c tx.superblock.checksumSeed (slice bitmap 0
      (min (divCeil tx.superblock.blocksPerGroup 8) bitmap.length))

def verifyBlockBitmapChecksum (group : Nat) (descriptor bitmap : Bytes) : Query (Error E) Unit :=
  refuseIf (tx.blockBitmapChecksum bitmap ≠ split16 descriptor 0x18 0x38)
    (.corrupt (.blockBitmapChecksum group))

/-- The group starts with a copy of the superblock. -/
def hasSuper (group : Nat) : Bool :=
  if group = 0 then true
  else if HasBits tx.superblock.featureCompat compatSparseSuper2 then
    tx.superblock.backupBgs.contains group
  else if group ≤ 1 ∨ ¬ HasBits tx.superblock.featureRoCompat 0x0001 then true
  else group % 2 == 1 && (isPowerOf group 3 || isPowerOf group 5 || isPowerOf group 7)

/-- Superblock copy, descriptor table and its reserve at a group's start. -/
def baseMetadata (group : Nat) : Query (Error E) Nat := do
  let tableBytes ← orFail (checked 64 (tx.superblock.groupCount * tx.superblock.descriptorSize))
      (.corrupt .addressOverflow)
  let descriptorBlocks := divCeil tableBytes tx.superblock.blockSize
  if tx.hasSuper group = true then
    orFail (checked 64 (1 + descriptorBlocks + tx.superblock.reservedGdtBlocks))
      (.corrupt .addressOverflow)
  else return 0

/-- Mark a bitmap block of the group, when it lies in the group. -/
def markBitmapBlock (bitmap : Bytes) (groupStart groupEnd number : Nat) :
    Query (Error E) Bytes := do
  refuseIf (number ≥ tx.superblock.blocksCount) (.corrupt .invalidBlockBitmap)
  if groupStart ≤ number ∧ number < groupEnd then setBitmapRange bitmap (number - groupStart) 1
  else return bitmap

/-- Blocks of a group's inode table. -/
def inodeTableBlocks : Query (Error E) Nat := do
  let tableBytes ← orFail (checked 64 (tx.superblock.inodesPerGroup * tx.superblock.inodeSize))
      (.corrupt .addressOverflow)
  return divCeil tableBytes tx.superblock.blockSize

/-- Mark the part of the group's inode table that lies in the group. -/
def markInodeTable (bitmap : Bytes) (groupStart groupEnd table : Nat) : Query (Error E) Bytes := do
  let blocks ← tx.inodeTableBlocks
  let tableEnd ← orFail ((checked 64 (table + blocks)).filter (· ≤ tx.superblock.blocksCount))
      (.corrupt .invalidInodeTable)
  let overlapStart := max table groupStart
  let overlapEnd := min tableEnd groupEnd
  if overlapStart < overlapEnd then
    setBitmapRange bitmap (overlapStart - groupStart) (overlapEnd - overlapStart)
  else return bitmap

/--
The bitmap of a group that holds nothing but its own structures, padded past
the end of the group, and the number of free blocks it leaves.
-/
def initializeBlockBitmap (group : Nat) (descriptor : Bytes) (groupStart groupBlocks : Nat) :
    Query (Error E) (Bytes × Nat) := do
  let bitmap ← tx.zeroBlock
  let baseMetadata ← tx.baseMetadata group
  refuseIf (baseMetadata > groupBlocks) (.corrupt .invalidBlockBitmap)
  let bitmap ← setBitmapRange bitmap 0 baseMetadata
  let groupEnd ← orFail (checked 64 (groupStart + groupBlocks)) (.corrupt .addressOverflow)
  let bitmap ← tx.markBitmapBlock bitmap groupStart groupEnd (blockBitmapNumber descriptor)
  let bitmap ← tx.markBitmapBlock bitmap groupStart groupEnd (inodeBitmapNumber descriptor)
  let bitmap ← tx.markInodeTable bitmap groupStart groupEnd (inodeTableNumber descriptor)
  let bitmap ← setBitmapRange bitmap groupBlocks (bitmap.length * 8 - groupBlocks)
  return (bitmap, groupBlocks - countSet bitmap groupBlocks)

/-- The computed bitmap of a group that never had one written. -/
def materializeBlockBitmap (group : Nat) (descriptor : Bytes) : Query (Error E) Bytes := do
  refuseIf (group = 0) (.corrupt .invalidBlockBitmap)
  let (groupStart, groupBlocks) ← tx.groupRange group
  let (bitmap, computedFree) ← tx.initializeBlockBitmap group descriptor groupStart groupBlocks
  refuseIf (descriptorFreeBlocks descriptor ≠ computedFree) (.corrupt .invalidFreeBlockCount)
  return bitmap

/-! ## Block allocation -/

/-- The bitmap of a group from storage, checked against its descriptor. -/
def readBlockBitmap (group : Nat) (descriptor : Bytes) : Query (Error E) Bytes := do
  let bitmap ← tx.readOwnedBlock (blockBitmapNumber descriptor)
  tx.verifyBlockBitmapChecksum group descriptor bitmap
  return bitmap

/-- Descriptor and bitmap of a group, from an earlier edit or storage. -/
def openGroup (group : Nat) : Option GroupEdit → Query (Error E) (Bytes × Bytes)
  | some edit =>
    match edit.blockBitmap with
    | some block => do
      refuseIf (block.number ≠ blockBitmapNumber edit.descriptor) (.corrupt .invalidBlockBitmap)
      return (edit.descriptor, block.bytes)
    | none => do
      let bitmap ← tx.readBlockBitmap group edit.descriptor
      return (edit.descriptor, bitmap)
  | none => do
    let descriptor ← tx.filesystem.readGroupDescriptor group
    if HasBits (descriptorFlags descriptor) blockUninit then do
      let bitmap ← tx.materializeBlockBitmap group descriptor
      return (clearDescriptorFlag descriptor blockUninit, bitmap)
    else do
      let bitmap ← tx.readBlockBitmap group descriptor
      return (descriptor, bitmap)

/-- Take clear bits in order until `wanted` blocks are found. -/
def takeClearBits (groupStart : Nat) : (left bit wanted : Nat) → Bytes → List Nat → Bytes × List Nat
  | 0, _, _, bitmap, taken => (bitmap, taken)
  | left + 1, bit, wanted, bitmap, taken =>
    if bitmapBit bitmap bit = true then takeClearBits groupStart left (bit + 1) wanted bitmap taken
    else
      let bitmap := setBit bitmap bit
      let taken := taken ++ [groupStart + bit]
      if wanted ≤ 1 then (bitmap, taken)
      else takeClearBits groupStart left (bit + 1) (wanted - 1) bitmap taken

/-- Seal a descriptor after its block bitmap changed. -/
def sealBlockBitmap (group : Nat) (descriptor bitmap : Bytes) : Bytes :=
  updateGroupDescriptorChecksum tx.superblock.checksumSeed group
    (putBlockBitmapChecksum descriptor (tx.blockBitmapChecksum bitmap))

/-- Take blocks from one group. -/
def extendGroup (target : Nat) (allocation : Allocation) (group : Nat) :
    Query (Error E) Allocation := do
  let existing := findGroup group allocation.groups
  let groups := removeGroup group allocation.groups
  let (descriptor, bitmap) ← tx.openGroup group existing
  let bitmapNumber := blockBitmapNumber descriptor
  let (groupStart, groupBlocks) ← tx.groupRange group
  if descriptorFreeBlocks descriptor = 0 then
    if existing.isSome = true then
      return { allocation with
        groups :=
          insertGroup
            { number := group
              descriptor
              blockBitmap := some { number := bitmapNumber, bytes := bitmap } }
            groups }
    else return allocation
  else
    let (bitmap, taken) :=
      takeClearBits groupStart groupBlocks 0 (target - allocation.blocks.length) bitmap []
    if taken = [] then
      -- An earlier edit of the group is not put back here.
      return { allocation with groups }
    else do
      let descriptor ← decrementDescriptorFreeBlocksBy descriptor taken.length
      let descriptor := tx.sealBlockBitmap group descriptor bitmap
      return {
        blocks := allocation.blocks ++ taken
        groups :=
          insertGroup
            { number := group
              descriptor
              blockBitmap := some { number := bitmapNumber, bytes := bitmap } }
            groups }

def extendGroups (target : Nat) : List Nat → Allocation → Query (Error E) Allocation
  | [], allocation => .done allocation
  | group :: rest, allocation =>
    if allocation.blocks.length = target then .done allocation
    else do
      let allocation ← tx.extendGroup target allocation group
      extendGroups target rest allocation

/-- The groups in the order they are tried: those already edited first. -/
def groupOrder (allocation : Allocation) : List Nat :=
  allocation.groups.map (·.number) ++ (List.range tx.superblock.groupCount).filter fun group =>
      (findGroup group allocation.groups).isNone

/-- Add blocks to an allocation and keep its prospective bitmap edits. -/
def extendAllocation (allocation : Allocation) (wanted : Nat) : Query (Error E) Allocation := do
  let target ← orFail (checked 64 (allocation.blocks.length + wanted)) (.corrupt .addressOverflow)
  .reserve (.reserve (.reserve (.done ())))
  let allocation ← tx.extendGroups target (tx.groupOrder allocation) allocation
  refuseIf (allocation.blocks.length ≠ target) (.corrupt .invalidFreeBlockCount)
  return allocation

def allocateBlocks (wanted : Nat) : Query (Error E) Allocation :=
  tx.extendAllocation Allocation.empty wanted

end Transaction

end RetroOS.Ext
