import RetroOS.Ext.GroupRecord
import RetroOS.Ext.Journal

/-!
# Transactions

A transaction holds private versions of filesystem blocks and a stock of
reserved buffers.  What the engine reads while it plans an operation it reads
through the private view.
-/

namespace RetroOS.Ext

open Lib Lib.Bytes

variable {E : Type}

/--
An isolated set of prospective block changes, sorted by number, and the
number of reserved buffers.  Every buffer is one block long.
-/
structure Transaction where
  filesystem : Ext4
  dirty : List DirtyBlock
  available : Nat
  deriving DecidableEq

/-- The block of a list with a number. -/
def findBlock (number : Nat) (blocks : List DirtyBlock) : Option DirtyBlock :=
  blocks.find? fun block => block.number == number

namespace Transaction

variable (tx : Transaction)

/-- A fresh transaction over a mounted filesystem. -/
def new (filesystem : Ext4) : Transaction where
  filesystem
  dirty := []
  available := 0

/-- The superblock of the mounted filesystem. -/
abbrev superblock : Superblock := tx.filesystem.superblock

/-! ## The private view -/

def blockOffset (number : Nat) : Query (Error E) Nat :=
  Query.orFail (checked 64 (number * tx.superblock.blockSize)) (.corrupt .addressOverflow)

/-- Read one block into a buffer of the given length. -/
def readBlock (number length : Nat) : Query (Error E) Bytes := do
  Query.refuseIf (number ≥ tx.superblock.blocksCount ∨ length ≠ tx.superblock.blockSize)
    .invalidArgument
  match findBlock number tx.dirty with
  | some block => return block.bytes
  | none => do
    let offset ← tx.blockOffset number
    tx.filesystem.readStorage offset length

def readOwnedBlock (number : Nat) : Query (Error E) Bytes := do
  let block ← tx.filesystem.newBlockBuffer
  tx.readBlock number block.length

def zeroBlock : Query (Error E) Bytes := tx.filesystem.newBlockBuffer

/-- Feature bits of volumes the engine mutates. -/
def allowedRoCompat : Nat :=
  0x0001 ||| 0x0002 ||| 0x0008 ||| 0x0020 ||| 0x0040 ||| roCompatMetadataCsum

def allowedIncompat : Nat :=
  incompatFiletype ||| incompatExtents ||| incompat64Bit ||| incompatFlexBg ||| incompatCsumSeed

/-- What the engine asks of a volume before it mutates it. -/
def validateMutationProfile : Query (Error E) Unit :=
  let superblock := tx.superblock
  Query.refuseIf (superblock.blockSize ≠ 4096 ∨
      superblock.descriptorSize ≠ 64 ∨
      ¬ superblock.HasMetadataChecksums ∨
      ¬ HasBits superblock.featureIncompat incompatExtents ∨
      ¬ HasBits superblock.featureIncompat incompat64Bit ∨
      HasBits superblock.featureRoCompat roCompatBigalloc ∨
      clearBits superblock.featureRoCompat allowedRoCompat ≠ 0 ∨
      clearBits superblock.featureIncompat allowedIncompat ≠ 0 ∨
      superblock.firstDataBlock ≠ 0 ∨
      superblock.blocksPerGroup > superblock.blockSize * 8 ∨
      superblock.inodesPerGroup > superblock.blockSize * 8 ∨
      ¬ superblock.descriptorSize ∣ superblock.blockSize ∨
      ¬ superblock.inodeSize ∣ superblock.blockSize)
    (.unsupported .mutationProfile)

end Transaction

end RetroOS.Ext
