import RetroOS.Lib.Query

/-!
# Vocabulary of the ext filesystem engine

Errors, on-disk constants and the integer conventions shared by the modules
of the engine.  Machine integers are natural numbers; a place where the
engine checks for overflow or truncates says so.  `usize` has 64 bits.
-/

namespace RetroOS.Ext

open Lib Lib.Bytes

/-! ## Errors -/

/-- Findings about a damaged image. -/
inductive Corrupt where
  | badMagic
  | invalidBlockSize
  | invalidGeometry
  | invalidFeatureCombination
  | addressOverflow
  | superblockChecksum
  | groupDescriptorChecksum (group : Nat)
  | blockBitmapChecksum (group : Nat)
  | inodeBitmapChecksum (group : Nat)
  | inodeChecksum (number : Nat)
  | directoryChecksum (number : Nat)
  | extentChecksum (number : Nat)
  | filesystemPastEnd (fsBytes storageLen : Nat)
  | readPastEnd (offset len : Nat)
  | invalidGroup (group : Nat)
  | invalidInode (number : Nat)
  | invalidInodeTable
  | invalidExtentHeader
  | invalidExtentTree
  | invalidLegacyBlockMap
  | invalidBlockBitmap
  | invalidFreeBlockCount
  | extentPastEnd
  | invalidDirectory
  | invalidPath
  | invalidJournal
  | journalChecksum
  | invalidExtendedAttributes (number : Nat)
  | extendedAttributeChecksum (number : Nat)
  deriving DecidableEq, Repr

/-- Images the engine understands but declines to handle. -/
inductive Unsupported where
  | incompatibleFeatures (bits : Nat)
  | externalJournal
  | journalFeatures (compat incompat roCompat : Nat)
  | journalWriteProfile
  | extentTreeTooDeep
  | mutationProfile
  | extentMutation
  | inlineData
  | encryption
  deriving DecidableEq, Repr

/-- Errors of the engine over a storage whose own errors are in `E`. -/
inductive Error (E : Type) where
  | storage (error : E)
  | corrupt (finding : Corrupt)
  | unsupported (feature : Unsupported)
  | outOfMemory
  | notFound
  | notDirectory
  | invalidArgument
  | reservationExhausted
  | alreadyExists
  | notEmpty
  deriving DecidableEq, Repr

/-! ## Integers -/

/-- Some bit of `mask` is set in `value`. -/
def HasBits (value mask : Nat) : Prop := value &&& mask ≠ 0

instance (value mask : Nat) : Decidable (HasBits value mask) := inferInstanceAs (Decidable (_ ≠ _))

/-- The bits of a `u32` that are not in `mask`. -/
def clearBits (value mask : Nat) : Nat := value &&& (0xffffffff ^^^ mask)

/-- The value, unless it does not fit an unsigned integer of `bits` bits. -/
def checked (bits value : Nat) : Option Nat := if value < 2 ^ bits then some value else none

theorem checked_eq_some {bits value result : Nat} :
    checked bits value = some result ↔ value = result ∧ value < 2 ^ bits := by
  unfold checked
  split
  · rename_i fits
    simp [fits]
  · rename_i overflow
    simp [overflow]

theorem checked_of_lt {bits value : Nat} (fits : value < 2 ^ bits) :
    checked bits value = some value :=
  if_pos fits

/-- Division rounding up. -/
def divCeil (value divisor : Nat) : Nat := (value + divisor - 1) / divisor

/-- Little-endian `u16` at an offset. -/
abbrev le16 (bytes : Bytes) (offset : Nat) : Nat := leAt 2 bytes offset

/-- Little-endian `u32` at an offset. -/
abbrev le32 (bytes : Bytes) (offset : Nat) : Nat := leAt 4 bytes offset

/-- Store the low 16 bits of a value, little-endian. -/
abbrev putLe16 (bytes : Bytes) (offset value : Nat) : Bytes := putLe 2 bytes offset value

/-- Store the low 32 bits of a value, little-endian. -/
abbrev putLe32 (bytes : Bytes) (offset value : Nat) : Bytes := putLe 4 bytes offset value

/-- A `u64` split into two little-endian `u32` fields. -/
def lowHigh32 (bytes : Bytes) (low high : Nat) : Nat := le32 bytes low ||| (le32 bytes high <<< 32)

/-! ## Filesystem constants -/

def extentsFl : Nat := 0x00080000
def eaInodeFl : Nat := 0x00200000
def encryptFl : Nat := 0x00000800
def inlineDataFl : Nat := 0x10000000
def extentMagic : Nat := 0xf30a
def modeTypeMask : Nat := 0xf000
def modeDirectory : Nat := 0x4000
def modeRegular : Nat := 0x8000
def modeSymlink : Nat := 0xa000

/-! ## Checksums -/

/-- One bit of the reflected Castagnoli division. -/
def crc32cBit (crc : Nat) : Nat :=
  (crc >>> 1) ^^^ (0x82f63b78 &&& ((2 ^ 32 - (crc &&& 1)) % 2 ^ 32))

/-- One byte of the reflected Castagnoli division. -/
def crc32cByte (crc : Nat) (byte : UInt8) : Nat :=
  crc32cBit (crc32cBit (crc32cBit (crc32cBit (crc32cBit (crc32cBit
    (crc32cBit (crc32cBit (crc ^^^ byte.toNat))))))))

/--
CRC32C from a running value, without a final inversion.  The engine's
`Checksum` digest follows the same convention: `crc32c seed` over the bytes
fed to it.
-/
def crc32c (crc : Nat) (bytes : Bytes) : Nat := bytes.foldl crc32cByte crc

example : crc32c 0xffffffff [49, 50, 51, 52, 53, 54, 55, 56, 57] = 0x1cf96d7c := by
  decide +kernel

example : crc32c 0xffffffff (leBytes 4 1 ++ leBytes 4 2) = 0x858c13d3 := by
  decide +kernel

@[simp]
theorem crc32c_nil (crc : Nat) : crc32c crc [] = crc := rfl

/-- Feeding two parts one after the other is feeding their concatenation. -/
theorem crc32c_append (crc : Nat) (first second : Bytes) :
    crc32c crc (first ++ second) = crc32c (crc32c crc first) second := by
  simp [crc32c, List.foldl_append]

/-- A checksum over a record with one field cleared, piece by piece. -/
theorem crc32c_fill (crc : Nat) (bytes : Bytes) (start width : Nat) :
    crc32c crc (fill bytes start width 0) =
      crc32c (crc32c (crc32c crc (slice bytes 0 start)) (zeros width))
        (bytes.drop (start + width)) := by
  simp [fill, put, crc32c_append, slice, zeros]

theorem crc32cBit_lt {crc : Nat} (bound : crc < 2 ^ 32) : crc32cBit crc < 2 ^ 32 := by
  have shifted : crc >>> 1 < 2 ^ 32 := by
    rw [Nat.shiftRight_eq_div_pow]
    omega
  have masked : 0x82f63b78 &&& ((2 ^ 32 - (crc &&& 1)) % 2 ^ 32) < 2 ^ 32 :=
    Nat.and_lt_two_pow _ (Nat.mod_lt _ (by decide))
  exact Nat.xor_lt_two_pow shifted masked

theorem crc32cByte_lt {crc : Nat} (bound : crc < 2 ^ 32) (byte : UInt8) :
    crc32cByte crc byte < 2 ^ 32 := by
  have small : byte.toNat < 2 ^ 32 := lt_trans byte.toNat_lt (by decide)
  have start : crc ^^^ byte.toNat < 2 ^ 32 := Nat.xor_lt_two_pow (n := 32) bound small
  unfold crc32cByte
  repeat apply crc32cBit_lt
  exact start

/-- A checksum of 32 bits stays one. -/
theorem crc32c_lt {crc : Nat} (bound : crc < 2 ^ 32) (bytes : Bytes) :
    crc32c crc bytes < 2 ^ 32 := by
  induction bytes generalizing crc with
  | nil => exact bound
  | cons byte rest induction => exact induction (crc32cByte_lt bound byte)

/-- One byte of the reflected CRC16 used by legacy group descriptors. -/
def crc16Byte (checksum : Nat) (byte : UInt8) : Nat :=
  (List.range 8).foldl (fun value _ =>
      if value &&& 1 ≠ 0 then (value >>> 1) ^^^ 0xa001 else value >>> 1)
    (checksum ^^^ byte.toNat)

def crc16 (checksum : Nat) (bytes : Bytes) : Nat := bytes.foldl crc16Byte checksum

end RetroOS.Ext
