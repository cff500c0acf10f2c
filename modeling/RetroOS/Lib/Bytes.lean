import Mathlib.Tactic

/-!
# Byte strings with fixed-width integers

A byte string is a list of `UInt8`.  `slice` and `put` are the two ways a
record format touches one: read a range, and overwrite a range in place.
Integers of a fixed width are stored in either byte order; `leAt` and `beAt`
read them at an offset, `putLe` and `putBe` store the low digits of a natural
number there.

The laws are stated for `put` once and then hold for every field: a range
read back where it was written, a range disjoint from the written one, and
the length.
-/

namespace RetroOS.Lib

/-- A byte string. -/
abbrev Bytes := List UInt8

namespace Bytes

/-! ## Digits -/

/-- Value of a byte string whose first byte is the least significant. -/
def leNat : Bytes → Nat
  | [] => 0
  | byte :: rest => byte.toNat + 256 * leNat rest

/-- The `width` low base-256 digits of `value`, least significant first. -/
def leBytes : Nat → Nat → Bytes
  | 0, _ => []
  | width + 1, value => UInt8.ofNat value :: leBytes width (value / 256)

/-- Value of a byte string whose first byte is the most significant. -/
def beNat (bytes : Bytes) : Nat := leNat bytes.reverse

/-- The `width` low base-256 digits of `value`, most significant first. -/
def beBytes (width value : Nat) : Bytes := (leBytes width value).reverse

@[simp]
theorem length_leBytes (width value : Nat) : (leBytes width value).length = width := by
  induction width generalizing value with
  | zero => rfl
  | succ width induction => simp [leBytes, induction]

@[simp]
theorem length_beBytes (width value : Nat) : (beBytes width value).length = width := by
  simp [beBytes]

theorem leNat_lt (bytes : Bytes) : leNat bytes < 256 ^ bytes.length := by
  induction bytes with
  | nil => simp [leNat]
  | cons byte rest induction =>
    have digit : byte.toNat < 256 := byte.toNat_lt
    simp only [leNat, List.length_cons, pow_succ]
    omega

theorem leNat_leBytes (width value : Nat) : leNat (leBytes width value) = value % 256 ^ width := by
  induction width generalizing value with
  | zero => simp [leBytes, leNat, Nat.mod_one]
  | succ width induction =>
    have digit : (UInt8.ofNat value).toNat = value % 256 := by simp
    have split : value % 256 ^ (width + 1) = value % 256 + 256 * (value / 256 % 256 ^ width) := by
      rw [pow_succ', Nat.mod_mul]
    simp only [leBytes, leNat, induction, digit, split]

theorem leBytes_leNat (bytes : Bytes) : leBytes bytes.length (leNat bytes) = bytes := by
  induction bytes with
  | nil => rfl
  | cons byte rest induction =>
    have digit : byte.toNat < 256 := byte.toNat_lt
    have quotient : (byte.toNat + 256 * leNat rest) / 256 = leNat rest := by omega
    have remainder : UInt8.ofNat (byte.toNat + 256 * leNat rest) = byte := by
      apply UInt8.toNat_inj.mp
      simp only [UInt8.toNat_ofNat', Nat.reducePow]
      omega
    simp only [List.length_cons, leNat, leBytes, quotient, remainder,
      induction]

theorem beNat_lt (bytes : Bytes) : beNat bytes < 256 ^ bytes.length := by
  have bound := leNat_lt bytes.reverse
  simpa [beNat] using bound

theorem beNat_beBytes (width value : Nat) : beNat (beBytes width value) = value % 256 ^ width := by
  simp [beNat, beBytes, leNat_leBytes]

theorem beBytes_beNat (bytes : Bytes) : beBytes bytes.length (beNat bytes) = bytes := by
  have inverse := leBytes_leNat bytes.reverse
  simp only [List.length_reverse] at inverse
  simp [beNat, beBytes, inverse]

/-! ## Ranges -/

/-- The `length` bytes from `start` on. -/
def slice (bytes : Bytes) (start length : Nat) : Bytes := (bytes.drop start).take length

/-- Overwrite the bytes from `start` on with `source`. -/
def put (bytes : Bytes) (start : Nat) (source : Bytes) : Bytes :=
  bytes.take start ++ (source ++ bytes.drop (start + source.length))

/-- Overwrite `length` bytes from `start` on with one byte value. -/
def fill (bytes : Bytes) (start length : Nat) (byte : UInt8) : Bytes :=
  put bytes start (List.replicate length byte)

/-- `length` zero bytes. -/
def zeros (length : Nat) : Bytes := List.replicate length 0

/-- A record: fields at increasing offsets, zeros elsewhere. -/
def layout (total : Nat) : (position : Nat) → List (Nat × Bytes) → Bytes
  | position, [] => zeros (total - position)
  | position, field :: rest =>
    zeros (field.1 - position) ++ (field.2 ++ layout total (field.1 + field.2.length) rest)

@[simp]
theorem length_zeros (length : Nat) : (zeros length).length = length := by
  simp [zeros]

theorem length_slice (bytes : Bytes) (start length : Nat) :
    (slice bytes start length).length = min length (bytes.length - start) := by
  simp [slice]

variable {bytes : Bytes} {start length : Nat}

theorem length_slice_of_le (fits : start + length ≤ bytes.length) :
    (slice bytes start length).length = length := by
  rw [length_slice]
  omega

@[simp]
theorem slice_all (bytes : Bytes) : slice bytes 0 bytes.length = bytes := by
  simp [slice]

theorem slice_all_of_length {length : Nat} (whole : bytes.length = length) :
    slice bytes 0 length = bytes := by
  subst whole
  exact slice_all bytes

theorem slice_slice (bytes : Bytes) {start length inner count : Nat}
    (inside : inner + count ≤ length) :
    slice (slice bytes start length) inner count = slice bytes (start + inner) count := by
  simp only [slice, List.drop_take, List.take_take, List.drop_drop]
  congr 1
  omega

theorem slice_append_of_le {first second : Bytes} (inside : start + length ≤ first.length) :
    slice (first ++ second) start length = slice first start length := by
  have cut : length ≤ (first.drop start).length := by
    rw [List.length_drop]
    omega
  rw [slice, slice, List.drop_append_of_le_length (by omega), List.take_append_of_le_length cut]

theorem slice_append_of_ge {first second : Bytes} (past : first.length ≤ start) :
    slice (first ++ second) start length = slice second (start - first.length) length := by
  rw [slice, slice, List.drop_append, List.drop_eq_nil_of_le past, List.nil_append]

variable {bytes source : Bytes}

theorem length_put (fits : start + source.length ≤ bytes.length) :
    (put bytes start source).length = bytes.length := by
  simp only [put, List.length_append, List.length_take, List.length_drop]
  omega

theorem length_fill (byte : UInt8) (fits : start + length ≤ bytes.length) :
    (fill bytes start length byte).length = bytes.length :=
  length_put (by simpa using fits)

theorem length_front (fits : start ≤ bytes.length) : (bytes.take start).length = start :=
  (List.length_take ..).trans (min_eq_left fits)

/-- A range reads back as it was written. -/
theorem slice_put_same (fits : start + source.length ≤ bytes.length) :
    slice (put bytes start source) start source.length = source := by
  have front := length_front (le_of_add_le_left fits)
  rw [put, slice_append_of_ge front.le, front, Nat.sub_self, slice_append_of_le (by omega),
    slice_all]

theorem slice_put_of_length (whole : source.length = length) (fits : start + length ≤ bytes.length) :
    slice (put bytes start source) start length = source :=
  whole ▸ slice_put_same (whole.symm ▸ fits)

/-- A range that is apart from the written one is not changed. -/
theorem slice_put_of_disjoint {other : Nat} (fits : start + source.length ≤ bytes.length)
    (disjoint : other + length ≤ start ∨ start + source.length ≤ other) :
    slice (put bytes start source) other length = slice bytes other length := by
  have front := length_front (le_of_add_le_left fits)
  rcases disjoint with before | after
  · rw [put, slice_append_of_le (by omega), slice, List.drop_take, List.take_take, slice]
    congr 1
    omega
  · rw [put, slice_append_of_ge (by omega), slice_append_of_ge (by omega), slice, List.drop_drop]
    congr 2
    omega

/-- Two adjacent ranges written one after the other are one range. -/
theorem put_put_adjacent {bytes first second : Bytes} {start next : Nat}
    (fits : start ≤ bytes.length)
    (adjacent : next = start + first.length) :
    put (put bytes start first) next second = put bytes start (first ++ second) := by
  have written : (bytes.take start ++ first).length = next := by
    rw [List.length_append, length_front fits, adjacent]
  have left :
      put bytes start first = (bytes.take start ++ first) ++ bytes.drop (start + first.length) := by
    rw [put, List.append_assoc]
  rw [left, put, List.take_left' written, ← List.drop_drop,
    List.drop_left' written, List.drop_drop, put, List.length_append]
  simp [Nat.add_assoc]

theorem put_slice_same (fits : start + length ≤ bytes.length) :
    put bytes start (slice bytes start length) = bytes := by
  have sliceLength := length_slice_of_le fits
  simp only [put, sliceLength]
  rw [← List.drop_drop]
  simp only [slice]
  rw [List.take_append_drop, List.take_append_drop]

/-! ## Fields -/

/-- The little-endian integer of `width` bytes at `offset`. -/
def leAt (width : Nat) (bytes : Bytes) (offset : Nat) : Nat := leNat (slice bytes offset width)

/-- The big-endian integer of `width` bytes at `offset`. -/
def beAt (width : Nat) (bytes : Bytes) (offset : Nat) : Nat := beNat (slice bytes offset width)

/-- Store the low `width` bytes of `value` at `offset`, little-endian. -/
def putLe (width : Nat) (bytes : Bytes) (offset value : Nat) : Bytes :=
  put bytes offset (leBytes width value)

/-- Store the low `width` bytes of `value` at `offset`, big-endian. -/
def putBe (width : Nat) (bytes : Bytes) (offset value : Nat) : Bytes :=
  put bytes offset (beBytes width value)

/-- One byte as a natural number; bytes past the end read as zero. -/
def byteAt (bytes : Bytes) (offset : Nat) : Nat := (bytes.getD offset 0).toNat

theorem pow_length_slice_le (bytes : Bytes) (offset width : Nat) :
    256 ^ (slice bytes offset width).length ≤ 256 ^ width :=
  Nat.pow_le_pow_right (by decide) (List.length_take_le ..)

theorem leAt_lt (width : Nat) (bytes : Bytes) (offset : Nat) :
    leAt width bytes offset < 256 ^ width :=
  (leNat_lt _).trans_le (pow_length_slice_le bytes offset width)

theorem beAt_lt (width : Nat) (bytes : Bytes) (offset : Nat) :
    beAt width bytes offset < 256 ^ width :=
  (beNat_lt _).trans_le (pow_length_slice_le bytes offset width)

theorem length_putBe {width : Nat} {offset : Nat} (value : Nat)
    (fits : offset + width ≤ bytes.length) :
    (putBe width bytes offset value).length = bytes.length :=
  length_put (by simpa using fits)

theorem beAt_putBe_same {width : Nat} {offset : Nat} (value : Nat)
    (fits : offset + width ≤ bytes.length) :
    beAt width (putBe width bytes offset value) offset = value % 256 ^ width := by
  rw [beAt, putBe, slice_put_of_length (length_beBytes width value) fits, beNat_beBytes]

/-- A field of a range that is known as a whole. -/
theorem beAt_of_slice {bytes record : Bytes} {start width inner : Nat}
    (known : slice bytes start record.length = record)
    (inside : inner + width ≤ record.length) :
    beAt width bytes (start + inner) = beNat (slice record inner width) := by
  rw [beAt, ← slice_slice bytes inside, known]

end Bytes

end RetroOS.Lib
