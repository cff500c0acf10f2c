import RetroOS.Lib.Query

/-!
# A medium of bytes

A medium gives every position a byte.  A device reads it truthfully when
everything it returns is a stretch of the medium; it may still refuse to
answer.
-/

namespace RetroOS.Lib

open Bytes

/-- The bytes of a medium from an offset on. -/
def stretch (medium : Nat → UInt8) (offset length : Nat) : Bytes :=
  (List.range length).map fun index => medium (offset + index)

section Stretch

variable {medium other : Nat → UInt8} {offset length : Nat}

@[simp]
theorem length_stretch : (stretch medium offset length).length = length := by
  simp [stretch]

theorem getElem?_stretch (index : Nat) :
    (stretch medium offset length)[index]? =
      if index < length then some (medium (offset + index)) else none := by
  by_cases inside : index < length
  · simp [stretch, inside]
  · simp [stretch, inside]

theorem stretch_congr {start : Nat}
    (same : ∀ index < length, medium (offset + index) = other (start + index)) :
    stretch medium offset length = stretch other start length :=
  List.map_congr_left fun index member => same index (List.mem_range.mp member)

theorem stretch_const (byte : UInt8) (offset length : Nat) :
    stretch (fun _ => byte) offset length = List.replicate length byte := by
  simp [stretch]

theorem stretch_add (medium : Nat → UInt8) (offset first second : Nat) :
    stretch medium offset (first + second) =
      stretch medium offset first ++ stretch medium (offset + first) second := by
  simp [stretch, List.range_add, Nat.add_assoc]

end Stretch

namespace Bytes

/-- A byte after a range was overwritten. -/
theorem getElem?_put {bytes source : Bytes} {start : Nat} (inside : start ≤ bytes.length)
    (index : Nat) :
    (put bytes start source)[index]? =
      if start ≤ index ∧ index < start + source.length then source[index - start]?
      else bytes[index]? := by
  have front : (bytes.take start).length = start := List.length_take_of_le inside
  unfold put
  split_ifs with within
  · rw [List.getElem?_append_right (by omega), front, List.getElem?_append_left (by omega)]
  · by_cases before : index < start
    · rw [List.getElem?_append_left (by omega), List.getElem?_take_of_lt before]
    · rw [List.getElem?_append_right (by omega), front, List.getElem?_append_right (by omega),
        List.getElem?_drop]
      congr 1
      omega

theorem getElem?_slice (bytes : Bytes) (start length index : Nat) :
    (slice bytes start length)[index]? = if index < length then bytes[start + index]? else none := by
  unfold slice
  split_ifs with inside
  · rw [List.getElem?_take_of_lt inside, List.getElem?_drop]
  · rw [List.getElem?_take_eq_none (by omega)]

/-- What was written so far, and the next bytes. -/
theorem take_put {bytes source : Bytes} {start : Nat} (inside : start ≤ bytes.length) :
    (put bytes start source).take (start + source.length) = bytes.take start ++ source := by
  have front : (bytes.take start ++ source).length = start + source.length := by
    rw [List.length_append, List.length_take_of_le inside]
  rw [put, ← List.append_assoc, List.take_left' front]

end Bytes

namespace Query

/-- Every answer is a stretch of the medium. -/
def Answers.Truthful {ε : Type} (answers : Answers ε) (medium : Nat → UInt8) : Prop :=
  ∀ offset length bytes, answers offset length = .ok bytes → bytes = stretch medium offset length

/-- The device that answers every read. -/
def Answers.ofMedium {ε : Type} (medium : Nat → UInt8) : Answers ε := fun offset length =>
  .ok (stretch medium offset length)

theorem Answers.ofMedium_truthful {ε : Type} (medium : Nat → UInt8) :
    (Answers.ofMedium medium : Answers ε).Truthful medium := by
  intro offset length bytes answered
  cases answered
  rfl

end Query

end RetroOS.Lib
