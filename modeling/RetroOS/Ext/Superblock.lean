import RetroOS.Ext.Basic

/-!
# The filesystem superblock

`Superblock.parse` reads the fields of the 1024-byte record first
(`RawSuperblock.ofBytes`) and then applies the mount-time checks to them
(`RawSuperblock.check`), in the order of the engine.  The group geometry
derived from an accepted superblock is here as well.
-/

namespace RetroOS.Ext

open Lib Lib.Bytes
open Query hiding bind done eval fail read

/-! ## Constants -/

def superblockOffset : Nat := 1024
def superblockSize : Nat := 1024
def ext4Magic : Nat := 0xef53

def incompatFiletype : Nat := 0x0002
def incompatRecover : Nat := 0x0004
def incompatMetaBg : Nat := 0x0010
def incompatExtents : Nat := 0x0040
def incompat64Bit : Nat := 0x0080
def incompatMmp : Nat := 0x0100
def incompatFlexBg : Nat := 0x0200
def incompatEaInode : Nat := 0x0400
def incompatCsumSeed : Nat := 0x2000
def incompatLargeDir : Nat := 0x4000
def incompatInlineData : Nat := 0x8000
def incompatEncrypt : Nat := 0x10000
def incompatCasefold : Nat := 0x20000
def compatHasJournal : Nat := 0x0004
def compatSparseSuper2 : Nat := 0x0200
def roCompatGdtCsum : Nat := 0x0010
def roCompatMetadataCsum : Nat := 0x0400
def roCompatBigalloc : Nat := 0x0200

/-- Incompatible features the reader knows. -/
def readIncompat : Nat :=
  incompatFiletype ||| incompatRecover ||| incompatMetaBg |||
    incompatExtents ||| incompat64Bit ||| incompatMmp ||| incompatFlexBg |||
    incompatEaInode ||| incompatCsumSeed ||| incompatLargeDir |||
    incompatInlineData ||| incompatEncrypt ||| incompatCasefold

/-! ## The record -/

structure Superblock where
  inodesCount : Nat
  blocksCount : Nat
  firstDataBlock : Nat
  blockSize : Nat
  blocksPerGroup : Nat
  inodesPerGroup : Nat
  inodeSize : Nat
  firstInode : Nat
  descriptorSize : Nat
  featureCompat : Nat
  featureIncompat : Nat
  featureRoCompat : Nat
  uuid : Bytes
  checksumSeed : Nat
  journalInode : Nat
  reservedGdtBlocks : Nat
  backupBgs : List Nat
  firstMetaBg : Nat
  deriving DecidableEq

/-- The fields `parse` reads, before any check. -/
structure RawSuperblock where
  magic : Nat
  logBlockSize : Nat
  featureCompat : Nat
  featureIncompat : Nat
  featureRoCompat : Nat
  blocksLo : Nat
  blocksHi : Nat
  firstDataBlock : Nat
  blocksPerGroup : Nat
  inodesCount : Nat
  inodesPerGroup : Nat
  revision : Nat
  inodeSize : Nat
  firstInode : Nat
  descriptorSize : Nat
  uuid : Bytes
  storedChecksum : Nat
  checksum : Nat
  checksumSeed : Nat
  journalInode : Nat
  reservedGdtBlocks : Nat
  backupBgs : List Nat
  firstMetaBg : Nat

/-- The checksum the superblock carries at its end. -/
def superblockChecksum (bytes : Bytes) : Nat := crc32c 0xffffffff (slice bytes 0 0x3fc)

def RawSuperblock.ofBytes (bytes : Bytes) : RawSuperblock where
  magic := le16 bytes 0x38
  logBlockSize := le32 bytes 0x18
  featureCompat := le32 bytes 0x5c
  featureIncompat := le32 bytes 0x60
  featureRoCompat := le32 bytes 0x64
  blocksLo := le32 bytes 0x04
  blocksHi := le32 bytes 0x150
  firstDataBlock := le32 bytes 0x14
  blocksPerGroup := le32 bytes 0x20
  inodesCount := le32 bytes 0x00
  inodesPerGroup := le32 bytes 0x28
  revision := le32 bytes 0x4c
  inodeSize := le16 bytes 0x58
  firstInode := le32 bytes 0x54
  descriptorSize := le16 bytes 0xfe
  uuid := slice bytes 0x68 16
  storedChecksum := le32 bytes 0x3fc
  checksum := superblockChecksum bytes
  checksumSeed := le32 bytes 0x270
  journalInode := le32 bytes 0xe0
  reservedGdtBlocks := le16 bytes 0xce
  backupBgs := [le32 bytes 0x24c, le32 bytes 0x250]
  firstMetaBg := le32 bytes 0x104

namespace RawSuperblock

variable (raw : RawSuperblock)

/-- `1024 << log`, when the shift is legal and the size is one of seven. -/
def blockSize : Option Nat :=
  if raw.logBlockSize < 32 then
    let size := 1024 * 2 ^ raw.logBlockSize % 2 ^ 32
    if size ∈ [1024, 2048, 4096, 8192, 16384, 32768, 65536] then some size
    else none
  else none

def blocksCount : Nat :=
  raw.blocksLo ||| ((if HasBits raw.featureIncompat incompat64Bit then raw.blocksHi else 0) <<< 32)

def effectiveInodeSize : Nat := if raw.revision ≠ 0 then raw.inodeSize else 128

def effectiveFirstInode : Nat := if raw.revision ≠ 0 then raw.firstInode else 11

def effectiveDescriptorSize : Nat :=
  if HasBits raw.featureIncompat incompat64Bit then max raw.descriptorSize 64
  else 32

def blockGroups : Nat := divCeil (raw.blocksCount - raw.firstDataBlock) raw.blocksPerGroup

/-- The mount-time checks. -/
def check {E : Type} (storageLen : Nat) : Query (Error E) Superblock := do
  refuseIf (raw.magic ≠ ext4Magic) (.corrupt .badMagic)
  let blockSize ← orFail raw.blockSize (.corrupt .invalidBlockSize)
  let unknown := clearBits raw.featureIncompat readIncompat
  refuseIf (unknown ≠ 0) (.unsupported (.incompatibleFeatures unknown))
  refuseIf (HasBits raw.featureIncompat incompatCsumSeed ∧
      ¬ HasBits raw.featureRoCompat roCompatMetadataCsum)
    (.corrupt .invalidFeatureCombination)
  refuseIf (raw.blocksCount ≤ raw.firstDataBlock ∨
      raw.blocksPerGroup = 0 ∨
      raw.inodesCount < 2 ∨
      raw.inodesPerGroup = 0 ∨
      raw.effectiveInodeSize < 128 ∨
      raw.effectiveFirstInode = 0 ∨
      raw.effectiveFirstInode > raw.inodesCount ∨
      ¬ 4 ∣ raw.effectiveInodeSize ∨
      raw.effectiveInodeSize > blockSize ∨
      raw.effectiveDescriptorSize < 32 ∨
      ¬ 8 ∣ raw.effectiveDescriptorSize ∨
      raw.effectiveDescriptorSize > blockSize)
    (.corrupt .invalidGeometry)
  let inodeGroups := divCeil raw.inodesCount raw.inodesPerGroup
  refuseIf (inodeGroups > raw.blockGroups ∨ raw.blockGroups > 0xffffffff)
    (.corrupt .invalidGeometry)
  let fsBytes ← orFail (checked 64 (raw.blocksCount * blockSize)) (.corrupt .addressOverflow)
  refuseIf (fsBytes > storageLen) (.corrupt (.filesystemPastEnd fsBytes storageLen))
  refuseIf (HasBits raw.featureRoCompat roCompatMetadataCsum ∧ raw.checksum ≠ raw.storedChecksum)
    (.corrupt .superblockChecksum)
  let descriptorsPerBlock := blockSize / raw.effectiveDescriptorSize
  let descriptorBlocks := divCeil raw.blockGroups descriptorsPerBlock
  refuseIf (HasBits raw.featureIncompat incompatMetaBg ∧ raw.firstMetaBg > descriptorBlocks)
    (.corrupt .invalidGeometry)
  refuseIf (HasBits raw.featureIncompat incompatRecover ∧
      ¬ HasBits raw.featureCompat compatHasJournal)
    (.corrupt .invalidFeatureCombination)
  refuseIf (HasBits raw.featureIncompat incompatRecover ∧ raw.journalInode = 0)
    (.unsupported .externalJournal)
  return {
    inodesCount := raw.inodesCount
    blocksCount := raw.blocksCount
    firstDataBlock := raw.firstDataBlock
    blockSize := blockSize
    blocksPerGroup := raw.blocksPerGroup
    inodesPerGroup := raw.inodesPerGroup
    inodeSize := raw.effectiveInodeSize
    firstInode := raw.effectiveFirstInode
    descriptorSize := raw.effectiveDescriptorSize
    featureCompat := raw.featureCompat
    featureIncompat := raw.featureIncompat
    featureRoCompat := raw.featureRoCompat
    uuid := raw.uuid
    checksumSeed :=
      if HasBits raw.featureIncompat incompatCsumSeed then raw.checksumSeed
      else crc32c 0xffffffff raw.uuid
    journalInode := raw.journalInode
    reservedGdtBlocks := raw.reservedGdtBlocks
    backupBgs := raw.backupBgs
    firstMetaBg := raw.firstMetaBg }

end RawSuperblock

/-- Read a range that must lie inside the storage. -/
def checkedRead {E : Type} (storageLen offset length : Nat) : Query (Error E) Bytes := do
  let stop ← orFail (checked 64 (offset + length)) (.corrupt .addressOverflow)
  refuseIf (stop > storageLen) (.corrupt (.readPastEnd offset length))
  .read offset length .done

namespace Superblock

def parse {E : Type} (bytes : Bytes) (storageLen : Nat) : Query (Error E) Superblock :=
  (RawSuperblock.ofBytes bytes).check storageLen

def load {E : Type} (storageLen : Nat) : Query (Error E) Superblock := do
  let bytes ← checkedRead storageLen superblockOffset superblockSize
  parse bytes storageLen

/-! ## Group geometry -/

variable (superblock : Superblock)

def groupCount : Nat :=
  divCeil (superblock.blocksCount - superblock.firstDataBlock) superblock.blocksPerGroup % 2 ^ 32

def descriptorTableOffset : Nat := (superblock.firstDataBlock + 1) * superblock.blockSize

end Superblock

/-- Divide out `base` at most `fuel` times. -/
def divideOut : Nat → Nat → Nat → Nat
  | 0, value, _ => value
  | fuel + 1, value, base =>
    if base ∣ value then divideOut fuel (value / base) base else value

/-- `value` is a power of `base`; a value has fewer factors than itself. -/
def isPowerOf (value base : Nat) : Bool :=
  if value < 1 then false else divideOut value value base == 1

namespace Superblock

variable (superblock : Superblock)

def groupHasSuper (group : Nat) : Bool :=
  if group = 0 then true
  else if HasBits superblock.featureCompat compatSparseSuper2 then
    superblock.backupBgs.contains group
  else if ¬ HasBits superblock.featureRoCompat 0x0001 then true
  else group == 1 || isPowerOf group 3 || isPowerOf group 5 || isPowerOf group 7

/--
Locate one descriptor in the contiguous table or in the descriptor block at
the head of its meta block group.
-/
def descriptorOffset (group : Nat) : Option Nat := do
  let descriptorsPerBlock := superblock.blockSize / superblock.descriptorSize
  let descriptorBlock := group / descriptorsPerBlock
  let within := group % descriptorsPerBlock
  let block ←
    if ¬ HasBits superblock.featureIncompat incompatMetaBg ∨
        descriptorBlock < superblock.firstMetaBg then
      checked 64 (superblock.firstDataBlock + 1 + descriptorBlock)
    else do
      let firstGroup ← checked 64 (descriptorBlock * descriptorsPerBlock)
      let blocks ← checked 64 (firstGroup * superblock.blocksPerGroup)
      let firstBlock ← checked 64 (superblock.firstDataBlock + blocks)
      checked 64 (firstBlock + (superblock.groupHasSuper (firstGroup % 2 ^ 32)).toNat)
  let start ← checked 64 (block * superblock.blockSize)
  checked 64 (start + within * superblock.descriptorSize)

def HasMetadataChecksums : Prop := HasBits superblock.featureRoCompat roCompatMetadataCsum

def NeedsRecovery : Prop := HasBits superblock.featureIncompat incompatRecover

instance : Decidable superblock.HasMetadataChecksums := inferInstanceAs (Decidable (HasBits _ _))

instance : Decidable superblock.NeedsRecovery := inferInstanceAs (Decidable (HasBits _ _))

/-- What the mount-time checks say about the sizes of a volume. -/
structure Bounded : Prop where
  blocksCount_lt : superblock.blocksCount < 2 ^ 64
  capacity_lt : superblock.blocksCount * superblock.blockSize < 2 ^ 64
  blockSize_pos : 0 < superblock.blockSize
  inodeSize_ge : 128 ≤ superblock.inodeSize
  inodeSize_le : superblock.inodeSize ≤ superblock.blockSize
  uuid_length : superblock.uuid.length = 16

end Superblock

theorem RawSuperblock.blockSize_pos {raw : RawSuperblock} {size : Nat}
    (known : raw.blockSize = some size) : 0 < size := by
  unfold RawSuperblock.blockSize at known
  split at known
  · simp only at known
    split at known
    · rename_i listed
      cases known
      simp only [List.mem_cons, List.not_mem_nil, or_false] at listed
      omega
    · cases known
  · cases known

/-- A mounted superblock is bounded and its blocks are on the storage. -/
theorem Superblock.parse_bounded {E : Type} {bytes : Bytes}
    (length : bytes.length = superblockSize) (storageLen : Nat) :
    (Superblock.parse (E := E) bytes storageLen).All fun superblock =>
      superblock.Bounded ∧ superblock.blocksCount * superblock.blockSize ≤ storageLen := by
  refine all_refuseIf_bind fun _ => ?_
  refine all_orFail_bind fun blockSize sized => ?_
  iterate 2 refine all_refuseIf_bind fun _ => ?_
  refine all_refuseIf_bind fun geometry => ?_
  refine all_refuseIf_bind fun _ => ?_
  refine all_orFail_bind fun fsBytes fits => ?_
  refine all_refuseIf_bind fun inside => ?_
  iterate 4 refine all_refuseIf_bind fun _ => ?_
  rw [checked_eq_some] at fits
  obtain ⟨rfl, capacity⟩ := fits
  have positive := RawSuperblock.blockSize_pos sized
  have inodes :
      128 ≤ (RawSuperblock.ofBytes bytes).effectiveInodeSize ∧
        (RawSuperblock.ofBytes bytes).effectiveInodeSize ≤ blockSize := by
    omega
  have uuid : (slice bytes 0x68 16).length = 16 := length_slice_of_le (by rw [length]; decide)
  refine ⟨⟨?_, capacity, positive, inodes.1, inodes.2, uuid⟩, Nat.le_of_not_lt inside⟩
  exact lt_of_le_of_lt (Nat.le_mul_of_pos_right _ positive) capacity

end RetroOS.Ext
