import RetroOS.Ext.Filesystem

/-!
# Bitmaps and group descriptors

The free-space records of a group as byte strings: the bitmap with one bit
for each block, and the counter that the descriptor keeps in a split field.
-/

namespace RetroOS.Ext

open Lib Lib.Bytes

variable {E : Type}

/-! ## Bitmaps -/

/-- The bit of a bitmap; bits past its end are clear. -/
def bitmapBit (bitmap : Bytes) (index : Nat) : Bool :=
  (byteAt bitmap (index / 8)).testBit (index % 8)

/-- Replace the byte that holds a bit. -/
def modifyBit (edit : UInt8 → UInt8 → UInt8) (bitmap : Bytes) (index : Nat) : Bytes :=
  bitmap.modify (index / 8) fun byte => edit byte (1 <<< UInt8.ofNat (index % 8))

def setBit (bitmap : Bytes) (index : Nat) : Bytes := modifyBit (· ||| ·) bitmap index

/-- The bits `[start, stop)` that fall into the byte at an index. -/
def rangeMask (start stop index : Nat) : UInt8 :=
  UInt8.ofNat ((List.range 8).foldl (fun mask bit =>
        if start ≤ index * 8 + bit ∧ index * 8 + bit < stop then mask ||| 2 ^ bit
        else mask)
      0)

/-- The loop over the bits of a range, byte by byte. -/
def setBits (bitmap : Bytes) (start stop : Nat) : Bytes :=
  bitmap.mapIdx fun index byte => byte ||| rangeMask start stop index

def setBitmapRange (bitmap : Bytes) (start length : Nat) : Query (Error E) Bytes := do
  let stop ← Query.orFail (checked 64 (start + length)) (.corrupt .addressOverflow)
  Query.refuseIf (stop > bitmap.length * 8) (.corrupt .invalidBlockBitmap)
  return setBits bitmap start stop

/-- The bits of a bitmap, lowest first. -/
def bitmapBits (bitmap : Bytes) : List Bool :=
  bitmap.flatMap fun byte => (List.range 8).map byte.toNat.testBit

/-- How many of the first bits are set. -/
def countSet (bitmap : Bytes) (bits : Nat) : Nat := ((bitmapBits bitmap).take bits).count true

/-! ## Split counters -/

/-- A `u32` kept as two `u16` fields. -/
def split16 (bytes : Bytes) (low high : Nat) : Nat := le16 bytes low ||| (le16 bytes high <<< 16)

def putSplit16 (bytes : Bytes) (low high value : Nat) : Bytes :=
  putLe16 (putLe16 bytes low value) high (value >>> 16)

/-- A block number of a descriptor, as two `u32` fields. -/
def descriptorPointer (descriptor : Bytes) (low : Nat) : Nat :=
  lowHigh32 descriptor low (low + 0x20)

def blockBitmapNumber (descriptor : Bytes) : Nat := descriptorPointer descriptor 0

def inodeBitmapNumber (descriptor : Bytes) : Nat := descriptorPointer descriptor 4

def inodeTableNumber (descriptor : Bytes) : Nat := descriptorPointer descriptor 8

def descriptorFreeBlocks (descriptor : Bytes) : Nat := split16 descriptor 0x0c 0x2c

/-- The block bitmap of a group that was never written. -/
def blockUninit : Nat := 0x0002

def descriptorFlags (descriptor : Bytes) : Nat := le16 descriptor 0x12

def clearDescriptorFlag (descriptor : Bytes) (flag : Nat) : Bytes :=
  putLe16 descriptor 0x12 (clearBits (descriptorFlags descriptor) flag)

/-- Replace a counter of a descriptor by a checked value. -/
def updateCounter (descriptor : Bytes) (low high : Nat)
    (value : Option Nat) : Query (Error E) Bytes := do
  let value ← Query.orFail value (.corrupt .invalidFreeBlockCount)
  return putSplit16 descriptor low high value

/-- Subtraction that refuses to go below zero. -/
def checkedSub (value amount : Nat) : Option Nat :=
  if amount ≤ value then some (value - amount) else none

def decrementDescriptorFreeBlocksBy (descriptor : Bytes) (amount : Nat) : Query (Error E) Bytes :=
  updateCounter descriptor 0x0c 0x2c ((checkedSub (descriptorFreeBlocks descriptor) amount).filter
      (· ≤ 0xffffffff))

def updateGroupDescriptorChecksum (seed group : Nat) (descriptor : Bytes) : Bytes :=
  let descriptor := putLe16 descriptor 0x1e 0
  putLe16 descriptor 0x1e (crc32c seed (leBytes 4 group ++ descriptor))

/-- Store the checksum of a bitmap in its descriptor. -/
def putBlockBitmapChecksum (descriptor : Bytes) (checksum : Nat) : Bytes :=
  putSplit16 descriptor 0x18 0x38 checksum

end RetroOS.Ext
