import RetroOS.Lib.Query

/-!
# A block device

A `Disk` gives every block number a block of the disk's size.  Programs
address it by bytes (`read`) and write whole blocks (`write`).  A writing
program issues `Effect`s; writes are volatile until the next flush.
-/

namespace RetroOS.Lib

open Bytes

/-- Blocks of one size, numbered from zero. -/
structure Disk (blockSize : Nat) where
  block : Nat → Bytes
  length_block : ∀ number, (block number).length = blockSize

/-- One whole-block write. -/
abbrev BlockWrite := Nat × Bytes

namespace Disk

variable {blockSize : Nat}

/-- The bytes of a range, block by block; `fuel` bounds the blocks. -/
def readFrom (disk : Disk blockSize) : (fuel offset length : Nat) → Bytes
  | 0, _, _ => []
  | fuel + 1, offset, length =>
    if length = 0 then []
    else
      let within := offset % blockSize
      let amount := min length (blockSize - within)
      slice (disk.block (offset / blockSize)) within amount ++
        disk.readFrom fuel (offset + amount) (length - amount)

/-- The bytes of a range. -/
def read (disk : Disk blockSize) (offset length : Nat) : Bytes := disk.readFrom length offset length

/-- The device that reads from the disk and never fails. -/
def answers {ε : Type} (disk : Disk blockSize) : Query.Answers ε :=
  fun offset length => .ok (disk.read offset length)

/-- Replace one block; a buffer of another size is not a block. -/
def write (disk : Disk blockSize) (change : BlockWrite) : Disk blockSize where
  block number :=
    if number = change.1 ∧ change.2.length = blockSize then change.2
    else disk.block number
  length_block number := by
    split
    · rename_i replaced
      exact replaced.2
    · exact disk.length_block number

/-- Perform writes in order. -/
def writeAll (disk : Disk blockSize) (changes : List BlockWrite) : Disk blockSize :=
  changes.foldl write disk

/-! ## Reads -/

/-- A read inside one block is a slice of it. -/
theorem read_inside (disk : Disk blockSize) {number within length : Nat}
    (fits : within + length ≤ blockSize) (nonempty : 0 < length) :
    disk.read (number * blockSize + within) length = slice (disk.block number) within length := by
  obtain ⟨fuel, rfl⟩ : ∃ fuel, length = fuel + 1 := ⟨length - 1, by omega⟩
  have positive : 0 < blockSize := by omega
  have inside : within < blockSize := by omega
  have block : (number * blockSize + within) / blockSize = number := by
    rw [Nat.mul_comm, Nat.mul_add_div positive, Nat.div_eq_of_lt inside, Nat.add_zero]
  have offset : (number * blockSize + within) % blockSize = within := by
    rw [Nat.mul_comm, Nat.mul_add_mod, Nat.mod_eq_of_lt inside]
  have whole : min (fuel + 1) (blockSize - within) = fuel + 1 := by omega
  have rest (from' : Nat) : disk.readFrom fuel from' 0 = [] := by cases fuel <;> simp [readFrom]
  simp only [read, readFrom, Nat.add_one_ne_zero, if_false, block, offset,
    whole, Nat.sub_self, rest, List.append_nil]

/-- A whole-block read is the block. -/
theorem read_block (disk : Disk blockSize) (positive : 0 < blockSize) (number : Nat) :
    disk.read (number * blockSize) blockSize = disk.block number := by
  have inside :
      disk.read (number * blockSize + 0) blockSize = slice (disk.block number) 0 blockSize :=
    disk.read_inside (by omega) positive
  rw [Nat.add_zero] at inside
  rw [inside]
  exact slice_all_of_length (disk.length_block number)

end Disk

/-! ## Effects -/

/-- What a writing program asks of its disk. -/
inductive Effect where
  | write (number : Nat) (bytes : Bytes)
  | flush
  deriving DecidableEq

end RetroOS.Lib
