import RetroOS.Ext.Superblock

/-!
# Reading a mounted filesystem

The mounted state and every reader over it: storage seen through the
recovered overlay, group descriptors, inodes and the three block maps (inline,
legacy indirect, extents).  The readers are queries: they cannot write.

The storage belongs to the caller.  Its length never changes while a
filesystem is mounted, so the mounted state carries it.
-/

namespace RetroOS.Ext

open Lib Lib.Bytes
open Query (orFail refuseIf)

variable {E : Type}

/-! ## Inodes -/

/-- A Unix timestamp. -/
structure Timestamp where
  seconds : Int
  nanoseconds : Nat
  deriving DecidableEq

structure Inode where
  number : Nat
  mode : Nat
  uid : Nat
  gid : Nat
  size : Nat
  links : Nat
  accessed : Timestamp
  modified : Timestamp
  changed : Timestamp
  flags : Nat
  generation : Nat
  blocks512 : Nat
  externalXattrBlock : Nat
  blockMap : Bytes
  inlineData : Option Bytes
  deriving DecidableEq

namespace Inode

variable (inode : Inode)

def IsDirectory : Prop := inode.mode &&& modeTypeMask = modeDirectory

instance : Decidable inode.IsDirectory := inferInstanceAs (Decidable (_ = _))

end Inode

/-- A `u32` read as an `i32`. -/
def signed32 (value : Nat) : Int := if value < 2 ^ 31 then value else (value : Int) - 2 ^ 32

def decodeInodeTimestamp (raw : Bytes) (secondsOffset extraOffset inodeNumber : Nat) :
    Query (Error E) Timestamp := do
  let seconds := signed32 (le32 raw secondsOffset)
  let extra := if extraOffset + 4 ≤ raw.length then le32 raw extraOffset else 0
  let nanoseconds := extra >>> 2
  refuseIf (nanoseconds ≥ 1000000000) (.corrupt (.invalidInode inodeNumber))
  return { seconds := seconds + ((extra &&& 3 : Nat) : Int) * 2 ^ 32, nanoseconds }

/-- Length of an extended-attribute entry, rounded up to four bytes. -/
def xattrEntryLen (nameLen : Nat) : Nat := (16 + nameLen + 3) / 4 * 4

/--
Search the in-inode attributes for `system.data`; every entry is at least
sixteen bytes, so `fuel` bounds the number of rounds.
-/
def findInlineData (inode wanted entries : Nat) (raw data : Bytes) :
    (fuel cursor : Nat) → Query (Error E) Bytes
  | 0, _ => .fail (.corrupt (.invalidInode inode))
  | fuel + 1, cursor =>
    if cursor + 16 ≤ raw.length ∧ le32 raw cursor ≠ 0 then do
      let nameLen := byteAt raw cursor
      let entryEnd := cursor + xattrEntryLen nameLen
      refuseIf (entryEnd > raw.length) (.corrupt (.invalidInode inode))
      if byteAt raw (cursor + 1) = 7 ∧ nameLen = 4 ∧
          slice raw (cursor + 16) 4 = [100, 97, 116, 97] then do
        let valueInum := le32 raw (cursor + 4)
        let valueSize := le32 raw (cursor + 8)
        let value := entries + le16 raw (cursor + 2)
        refuseIf (value + valueSize > raw.length) (.corrupt (.invalidInode inode))
        refuseIf (valueInum ≠ 0 ∨ valueSize ≠ wanted) (.corrupt (.invalidInode inode))
        return data ++ slice raw value valueSize
      else findInlineData inode wanted entries raw data fuel entryEnd
    else .fail (.corrupt (.invalidInode inode))

def parseInlineData (inode mode size : Nat) (raw blockMap : Bytes) : Query (Error E) Bytes := do
  let directory := mode &&& modeTypeMask = modeDirectory
  refuseIf (directory ∧ size < 4) (.corrupt (.invalidInode inode))
  let total := if directory then size - 4 else size
  let prefixStart := if directory then 4 else 0
  let inBlockMap := min total (blockMap.length - prefixStart)
  .reserve (.done ())
  let data := slice blockMap prefixStart inBlockMap
  if size ≤ blockMap.length then
    return data
  refuseIf (raw.length < 0x84) (.corrupt (.invalidInode inode))
  let header := 128 + le16 raw 0x80
  refuseIf (header + 4 > raw.length) (.corrupt (.invalidInode inode))
  refuseIf (le32 raw header ≠ 0xea020000) (.corrupt (.invalidInode inode))
  findInlineData inode (size - blockMap.length) (header + 4) raw data raw.length (header + 4)

/-- The legacy CRC16 checksum of a group descriptor. -/
def legacyGroupDescriptorChecksum (uuid : Bytes) (group : Nat) (descriptor : Bytes) : Nat :=
  crc16 (crc16 (crc16 (crc16 0xffff uuid) (leBytes 4 group))
    (slice descriptor 0 0x1e)) (descriptor.drop 0x20)

/-! ## The mounted state -/

/--
A mounted filesystem: its superblock, the blocks recovered from the journal
(sorted by number) and the length of the storage it was mounted from.
-/
structure Ext4 where
  superblock : Superblock
  overlay : List (Nat × Bytes)
  storageLen : Nat
  deriving DecidableEq

namespace Ext4

variable (fs : Ext4)

/-- Copy the part of one overlay block that falls into a read. -/
def patchBlock (offset : Nat) (dst : Bytes) (number : Nat) : Query (Error E) Bytes :=
  match fs.overlay.lookup number with
  | none => .done dst
  | some block => do
    let blockStart ← orFail (checked 64 (number * fs.superblock.blockSize))
        (.corrupt .addressOverflow)
    let blockEnd ← orFail (checked 64 (blockStart + fs.superblock.blockSize))
        (.corrupt .addressOverflow)
    let start := max offset blockStart
    let stop := min (offset + dst.length) blockEnd
    if start < stop then
      return put dst (start - offset) (slice block (start - blockStart) (stop - start))
    else return dst

/-- Copy the overlay blocks of the list into a read, in order. -/
def patchBlocks (offset : Nat) : Bytes → List Nat → Query (Error E) Bytes
  | dst, [] => .done dst
  | dst, number :: rest => do
    let dst ← fs.patchBlock offset dst number
    patchBlocks offset dst rest

/-- Read storage through the recovered overlay. -/
def readStorage (offset length : Nat) : Query (Error E) Bytes := do
  let dst ← checkedRead fs.storageLen offset length
  if length = 0 then
    return dst
  let first := offset / fs.superblock.blockSize
  let last := (offset + length - 1) / fs.superblock.blockSize
  fs.patchBlocks offset dst (List.range' first (last + 1 - first))

def newBlockBuffer : Query (Error E) Bytes := .reserve (.done (zeros fs.superblock.blockSize))

/-- The checksum of a group descriptor with the checksum field as zero. -/
def groupDescriptorChecksum (group : Nat) (descriptor : Bytes) : Nat :=
  crc32c fs.superblock.checksumSeed (leBytes 4 group ++ slice descriptor 0 0x1e ++ leBytes 2 0 ++
      descriptor.drop 0x20) % 2 ^ 16

def readGroupDescriptor (group : Nat) : Query (Error E) Bytes := do
  refuseIf (group ≥ fs.superblock.groupCount) (.corrupt (.invalidGroup group))
  let offset ← orFail (fs.superblock.descriptorOffset group) (.corrupt .addressOverflow)
  .reserve (.done ())
  let descriptor ← fs.readStorage offset fs.superblock.descriptorSize
  if fs.superblock.HasMetadataChecksums then do
    refuseIf (fs.groupDescriptorChecksum group descriptor ≠ le16 descriptor 0x1e)
      (.corrupt (.groupDescriptorChecksum group))
    return descriptor
  else if HasBits fs.superblock.featureRoCompat roCompatGdtCsum then do
    refuseIf (legacyGroupDescriptorChecksum fs.superblock.uuid group descriptor ≠
        le16 descriptor 0x1e)
      (.corrupt (.groupDescriptorChecksum group))
    return descriptor
  else return descriptor

/-- Checksum prefix shared by the structures that belong to an inode. -/
def inodeChecksumBase (number generation : Nat) : Nat :=
  crc32c fs.superblock.checksumSeed (leBytes 4 number ++ leBytes 4 generation)

/-- The two checksum fields of a raw inode cleared, as they are hashed. -/
def clearInodeChecksum (raw : Bytes) : Bytes :=
  let raw := fill raw 0x7c 2 0
  if raw.length ≥ 0x84 then fill raw 0x82 2 0 else raw

/-- The checksum of a raw inode, cut to the fields it has room for. -/
def rawInodeChecksum (number : Nat) (raw : Bytes) : Nat :=
  let actual := crc32c (fs.inodeChecksumBase number (le32 raw 0x64)) (clearInodeChecksum raw)
  if raw.length ≥ 0x84 then actual else actual % 2 ^ 16

/-- The checksum stored in a raw inode. -/
def storedInodeChecksum (raw : Bytes) : Nat :=
  if raw.length ≥ 0x84 then le16 raw 0x7c ||| (le16 raw 0x82 <<< 16)
  else le16 raw 0x7c

/-- First block of a group's inode table, from its descriptor. -/
def inodeTable (descriptor : Bytes) : Nat :=
  le32 descriptor 8 ||| (if HasBits fs.superblock.featureIncompat incompat64Bit then
      le32 descriptor 40 <<< 32
    else 0)

/-- The raw inode, its checksum fields cleared when checksums are on. -/
def readRawInode (number : Nat) : Query (Error E) Bytes := do
  refuseIf (number = 0 ∨ number > fs.superblock.inodesCount) (.corrupt (.invalidInode number))
  let zeroBased := number - 1
  let group := zeroBased / fs.superblock.inodesPerGroup
  let index := zeroBased % fs.superblock.inodesPerGroup
  let descriptor ← fs.readGroupDescriptor group
  let inodeTable := fs.inodeTable descriptor
  refuseIf (inodeTable = 0 ∨ inodeTable ≥ fs.superblock.blocksCount) (.corrupt .invalidInodeTable)
  let offset ← orFail (checked 64 (inodeTable * fs.superblock.blockSize +
          index * fs.superblock.inodeSize))
      (.corrupt .addressOverflow)
  .reserve (.done ())
  let raw ← fs.readStorage offset fs.superblock.inodeSize
  if fs.superblock.HasMetadataChecksums then do
    refuseIf (fs.rawInodeChecksum number raw ≠ storedInodeChecksum raw)
      (.corrupt (.inodeChecksum number))
    return clearInodeChecksum raw
  else return raw

def isInlineKind (mode : Nat) : Bool :=
  let kind := mode &&& modeTypeMask
  kind == modeRegular || kind == modeDirectory || kind == modeSymlink

/-- The inline contents of an inode that has some. -/
def decodeInlineData (number mode size flags : Nat) (raw blockMap : Bytes) :
    Query (Error E) (Option Bytes) :=
  if HasBits flags inlineDataFl ∧ isInlineKind mode = true then do
    let data ← parseInlineData number mode size raw blockMap
    return some data
  else return none

/-- Access, change and modification times. -/
def decodeTimes (number flags : Nat) (raw : Bytes) :
    Query (Error E) (Timestamp × Timestamp × Timestamp) :=
  if HasBits flags eaInodeFl then
    let zero : Timestamp := { seconds := 0, nanoseconds := 0 }
    return (zero, zero, zero)
  else do
    let accessed ← decodeInodeTimestamp raw 0x08 0x8c number
    let changed ← decodeInodeTimestamp raw 0x0c 0x84 number
    let modified ← decodeInodeTimestamp raw 0x10 0x88 number
    return (accessed, changed, modified)

/-- The fields of an inode from its raw bytes. -/
def decodeInode (number : Nat) (raw : Bytes) : Query (Error E) Inode := do
  let generation := le32 raw 0x64
  let mode := le16 raw 0
  refuseIf (mode = 0) (.corrupt (.invalidInode number))
  let size := lowHigh32 raw 4 0x6c
  let uid := le16 raw 2 ||| (le16 raw 0x78 <<< 16)
  let gid := le16 raw 0x18 ||| (le16 raw 0x7a <<< 16)
  let blockMap := slice raw 0x28 60
  let flags := le32 raw 0x20
  let inlineData ← decodeInlineData number mode size flags raw blockMap
  let blocks512 := le32 raw 0x1c ||| (le16 raw 0x74 <<< 32)
  let externalXattrBlock :=
    le32 raw 0x68 ||| (if HasBits fs.superblock.featureIncompat incompat64Bit then
        le16 raw 0x76 <<< 32
      else 0)
  let (accessed, changed, modified) ← decodeTimes number flags raw
  return {
    number
    mode
    uid
    gid
    size
    links := le16 raw 0x1a
    accessed
    modified
    changed
    flags
    generation
    blocks512
    externalXattrBlock
    blockMap
    inlineData }

def loadInode (number : Nat) : Query (Error E) Inode := do
  let raw ← fs.readRawInode number
  fs.decodeInode number raw

/-! ## Block maps -/

def validateLegacyPointer (physical : Nat) : Query (Error E) (Option Nat) :=
  if physical = 0 then .done none
  else if physical < fs.superblock.blocksCount then .done (some physical)
  else .fail (.corrupt .invalidLegacyBlockMap)

/-- Follow the pointers of indirect blocks at the given indexes. -/
def followLegacyPointers : Nat → List Nat → Query (Error E) (Option Nat)
  | physical, [] => fs.validateLegacyPointer physical
  | physical, index :: rest =>
    if physical = 0 then .done none
    else do
      refuseIf (physical ≥ fs.superblock.blocksCount ∨ index ≥ fs.superblock.blockSize / 4)
        (.corrupt .invalidLegacyBlockMap)
      let offset ← orFail (checked 64 (physical * fs.superblock.blockSize))
          (.corrupt .addressOverflow)
      let block ← fs.readStorage offset fs.superblock.blockSize
      followLegacyPointers (le32 block (index * 4)) rest

def followLegacyIndirect (physical : Nat) (indexes : List Nat) : Query (Error E) (Option Nat) := do
  let _ ← fs.newBlockBuffer
  fs.followLegacyPointers physical indexes

def directBlocks : Nat := 12

def mapLegacyBlock (inode : Inode) (logical : Nat) : Query (Error E) (Option Nat) :=
  let pointers := fs.superblock.blockSize / 4
  let doubleCapacity := pointers * pointers
  let tripleCapacity := doubleCapacity * pointers
  if logical < directBlocks then fs.validateLegacyPointer (le32 inode.blockMap (logical * 4))
  else
    let remaining := logical - directBlocks
    if remaining < pointers then fs.followLegacyIndirect (le32 inode.blockMap (12 * 4)) [remaining]
    else
      let remaining := remaining - pointers
      if remaining < doubleCapacity then
        fs.followLegacyIndirect (le32 inode.blockMap (13 * 4))
          [remaining / pointers, remaining % pointers]
      else
        let remaining := remaining - doubleCapacity
        if remaining < tripleCapacity then
          fs.followLegacyIndirect (le32 inode.blockMap (14 * 4)) [remaining / doubleCapacity,
              remaining % doubleCapacity / pointers,
              remaining % pointers]
        else .fail (.corrupt .invalidLegacyBlockMap)

/-- Scan the leaf records from `index` for the one that holds `logical`. -/
def scanLeaf (node : Bytes) (logical : Nat) :
    (left index : Nat) → Option Nat → Query (Error E) (Option Nat)
  | 0, _, _ => .done none
  | left + 1, index, previous => do
    let record := 12 + index * 12
    let startLogical := le32 node record
    refuseIf (previous.any (startLogical ≤ ·) = true) (.corrupt .invalidExtentTree)
    let encodedLen := le16 node (record + 4)
    refuseIf (encodedLen = 0) (.corrupt .invalidExtentTree)
    let length := if encodedLen ≤ 32768 then encodedLen else encodedLen - 32768
    if startLogical ≤ logical ∧ logical - startLogical < length then
      if encodedLen ≤ 32768 then do
        let physicalStart := le32 node (record + 8) ||| (le16 node (record + 6) <<< 32)
        let physical ← orFail (checked 64 (physicalStart + (logical - startLogical)))
            (.corrupt .addressOverflow)
        refuseIf (physical ≥ fs.superblock.blocksCount) (.corrupt .extentPastEnd)
        return some physical
      else return none
    else scanLeaf node logical left (index + 1) (some startLogical)

/-- Scan the index records from `index` for the last one at or below. -/
def scanIndex (node : Bytes) (logical : Nat) :
    (left index : Nat) → Option Nat → Option Nat → Query (Error E) (Option Nat)
  | 0, _, _, child => .done child
  | left + 1, index, previous, child => do
    let record := 12 + index * 12
    let startLogical := le32 node record
    refuseIf (previous.any (startLogical ≤ ·) = true) (.corrupt .invalidExtentTree)
    if startLogical ≤ logical then
      scanIndex node logical left (index + 1) (some startLogical)
        (some (le32 node (record + 4) ||| (le16 node (record + 8) <<< 32)))
    else return child

/-- Check the header of an extent node; returns entries, maximum, depth. -/
def checkExtentHeader (node : Bytes) (traversed : Nat) (inode : Inode) (external : Bool) :
    Query (Error E) (Nat × Nat) := do
  refuseIf (node.length < 12 ∨ le16 node 0 ≠ extentMagic) (.corrupt .invalidExtentHeader)
  let entries := le16 node 2
  let maximum := le16 node 4
  let depth := le16 node 6
  refuseIf (depth > 5 ∨ traversed > 5) (.unsupported .extentTreeTooDeep)
  let capacity := (node.length - 12) / 12
  refuseIf (entries > maximum ∨ maximum > capacity) (.corrupt .invalidExtentTree)
  if external = true ∧ fs.superblock.HasMetadataChecksums then do
    let checksumOffset := 12 + maximum * 12
    refuseIf (checksumOffset + 4 > node.length) (.corrupt .invalidExtentTree)
    refuseIf (crc32c (fs.inodeChecksumBase inode.number inode.generation)
          (slice node 0 checksumOffset) ≠ le32 node checksumOffset)
      (.corrupt (.extentChecksum inode.number))
    return (entries, depth)
  else return (entries, depth)

/--
Walk an extent tree from a node.  `fuel` bounds the levels still allowed;
the header check refuses a node below five traversed levels, so
`extentLevels` of fuel are never exhausted.
-/
def mapExtentNode (inode : Inode) (logical : Nat) :
    (fuel : Nat) → (node : Bytes) → (traversed : Nat) → Bool → Query (Error E) (Option Nat)
  | 0, _, _, _ => .fail (.unsupported .extentTreeTooDeep)
  | fuel + 1, node, traversed, external => do
    let (entries, depth) ← fs.checkExtentHeader node traversed inode external
    if depth = 0 then fs.scanLeaf node logical entries 0 none
    else do
      let child ← scanIndex node logical entries 0 none none
      match child with
      | none => return none
      | some child => do
        refuseIf (child = 0 ∨ child ≥ fs.superblock.blocksCount) (.corrupt .extentPastEnd)
        let _ ← fs.newBlockBuffer
        let offset ← orFail (checked 64 (child * fs.superblock.blockSize))
            (.corrupt .addressOverflow)
        let bytes ← fs.readStorage offset fs.superblock.blockSize
        refuseIf (le16 bytes 6 + 1 ≠ depth) (.corrupt .invalidExtentTree)
        mapExtentNode inode logical fuel bytes (traversed + 1) true

/-- Levels of an extent tree the walker can visit. -/
def extentLevels : Nat := 7

def mapFileBlock (inode : Inode) (logical : Nat) : Query (Error E) (Option Nat) :=
  if ¬ HasBits inode.flags extentsFl then fs.mapLegacyBlock inode logical
  else fs.mapExtentNode inode logical extentLevels inode.blockMap 0 false

/-! ## File contents -/

/--
Fill `dst` from position `done` on; every round advances, so `fuel` bounds
the number of rounds.
-/
def readBlocks (inode : Inode) (offset wanted : Nat) :
    (fuel done : Nat) → (dst : Bytes) → Query (Error E) (Nat × Bytes)
  | 0, done, dst => .done (done, dst)
  | fuel + 1, done, dst =>
    if done < wanted then do
      let position := offset + done
      let logical := position / fs.superblock.blockSize
      let within := position % fs.superblock.blockSize
      let amount := min (wanted - done) (fs.superblock.blockSize - within)
      let mapped ← fs.mapFileBlock inode logical
      match mapped with
      | some physical => do
        let diskOffset ← orFail (checked 64 (physical * fs.superblock.blockSize + within))
            (.corrupt .addressOverflow)
        let bytes ← fs.readStorage diskOffset amount
        readBlocks inode offset wanted fuel (done + amount) (put dst done bytes)
      | none => readBlocks inode offset wanted fuel (done + amount) (fill dst done amount 0)
    else .done (done, dst)

/-- Read file contents into a buffer; the count and the buffer after it. -/
def readInodeData (inode : Inode) (offset : Nat) (dst : Bytes) : Query (Error E) (Nat × Bytes) :=
  match inode.inlineData with
  | some data =>
    if offset ≥ inode.size ∨ dst.length = 0 then .done (0, dst)
    else
      let amount := min dst.length (data.length - offset)
      .done (amount, put dst 0 (slice data offset amount))
  | none => do
    refuseIf (HasBits inode.flags inlineDataFl) (.unsupported .inlineData)
    refuseIf (HasBits inode.flags encryptFl) (.unsupported .encryption)
    if offset ≥ inode.size ∨ dst.length = 0 then return (0, dst)
    else
      let wanted := min (inode.size - offset) dst.length
      fs.readBlocks inode offset wanted wanted 0 dst

end Ext4

end RetroOS.Ext
