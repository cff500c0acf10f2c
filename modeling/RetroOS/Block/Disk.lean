import RetroOS.Lib.Bytes

/-!
# Disks and volumes

A disk moves sectors of 512 bytes and reports how many it moved.  What it
answers depends on its state, so it may fail any request; `Serves` is the
contract a caller relies on when the reported count is the count asked for.

A volume is an extent of a disk.  Requests are relative to it and cut at its
end: bytes past the end read as zeros and are dropped by a write.
-/

namespace RetroOS.Block

open Lib Lib.Bytes

/-- Sectors that a buffer of a length takes. -/
def sectorsOf (length : Nat) : Nat := (length + 511) / 512

theorem sectorsOf_le {length sectors : Nat} (fits : length ≤ sectors * 512) :
    sectorsOf length ≤ sectors := by
  unfold sectorsOf
  omega

theorem le_sectorsOf (length : Nat) : length ≤ sectorsOf length * 512 := by
  unfold sectorsOf
  omega

/-- A block device with states in `σ`. -/
structure Disk (σ : Type) where
  sectors : Nat
  /-- Read into a buffer: the sectors read and the buffer left. -/
  read : σ → Nat → Bytes → (Nat × Bytes) × σ
  /-- Write a buffer: the sectors written. -/
  write : σ → Nat → Bytes → Nat × σ

/-! ## Contents -/

/-- The bytes of an image from `start` on. -/
def window (image : Nat → UInt8) (start length : Nat) : Bytes :=
  (List.range length).map fun index => image (start + index)

section Window

variable (image : Nat → UInt8)

@[simp]
theorem length_window (start length : Nat) : (window image start length).length = length := by
  simp [window]

@[simp]
theorem window_zero (start : Nat) : window image start 0 = [] := rfl

theorem window_append (start first second : Nat) :
    window image start first ++ window image (start + first) second =
      window image start (first + second) := by
  simp only [window, List.range_add, List.map_append, List.map_map, List.append_cancel_left_eq]
  refine List.map_congr_left fun index _ => ?_
  simp only [Function.comp_apply, Nat.add_assoc]

theorem slice_window {start length within amount : Nat} (fits : within + amount ≤ length) :
    slice (window image start length) within amount = window image (start + within) amount := by
  have cut : length = within + (amount + (length - within - amount)) := by omega
  rw [cut, ← window_append, ← window_append, slice, List.drop_left' (length_window _ _ _),
    List.take_left' (length_window _ _ _)]

theorem window_congr {image other : Nat → UInt8} {start length : Nat} (same :
      ∀ position, start ≤ position → position < start + length → image position = other position) :
    window image start length = window other start length := by
  refine List.map_congr_left fun index member => ?_
  have inside := List.mem_range.mp member
  exact same _ (by omega) (by omega)

/-- An image seen from a byte on. -/
theorem window_shift (shift start length : Nat) :
    window (fun position => image (shift + position)) start length =
      window image (shift + start) length := by
  simp only [window, Nat.add_assoc]

end Window

/--
What a caller may rely on in the states of `valid`: reads change nothing, a
read of the count asked for gave the contents, a write changes only the
sectors it covers, and a write of the count asked for stored its bytes.
-/
structure Disk.Serves {σ : Type} (disk : Disk σ) (valid : σ → Prop)
    (contents : σ → Nat → UInt8) : Prop where
  read_valid : ∀ {state}, valid state → ∀ lba buffer, valid (disk.read state lba buffer).2
  read_contents :
    ∀ {state}, valid state → ∀ lba buffer, contents (disk.read state lba buffer).2 = contents state
  read_length :
    ∀ {state}, valid state → ∀ lba buffer, (disk.read state lba buffer).1.2.length = buffer.length
  read_ok :
    ∀ {state}, valid state → ∀ {lba buffer}, lba + sectorsOf buffer.length ≤ disk.sectors →
        (disk.read state lba buffer).1.1 = sectorsOf buffer.length →
          (disk.read state lba buffer).1.2 = window (contents state) (lba * 512) buffer.length
  write_valid : ∀ {state}, valid state → ∀ lba buffer, valid (disk.write state lba buffer).2
  write_frame :
    ∀ {state}, valid state → ∀ {lba buffer position}, (position < lba * 512 ∨
        (lba + sectorsOf buffer.length) * 512 ≤ position) →
        contents (disk.write state lba buffer).2 position = contents state position
  write_ok :
    ∀ {state}, valid state → ∀ {lba buffer}, lba + sectorsOf buffer.length ≤ disk.sectors →
        (disk.write state lba buffer).1 = sectorsOf buffer.length →
          window (contents (disk.write state lba buffer).2) (lba * 512) buffer.length = buffer

/-! ## Volumes -/

/-- A contiguous extent of a disk. -/
structure Volume (σ : Type) where
  disk : Disk σ
  start : Nat
  sectors : Nat
  inside : sectors ≤ disk.sectors - start

namespace Volume

variable {σ : Type}

/-- The whole disk as one volume. -/
def whole (disk : Disk σ) : Volume σ where
  disk
  start := 0
  sectors := disk.sectors
  inside := by simp

/-- An extent, clamped to the capacity of the disk. -/
def new (disk : Disk σ) (start sectors : Nat) : Volume σ where
  disk
  start
  sectors := min sectors (disk.sectors - start)
  inside := min_le_right _ _

/-- How many of the bytes at a sector fall inside the extent. -/
def clamp (volume : Volume σ) (lba length : Nat) : Nat :=
  let want := sectorsOf length
  let avail := min (volume.sectors - lba) want
  min (avail * 512) length

def read (volume : Volume σ) (state : σ) (lba : Nat) (buffer : Bytes) : (Nat × Bytes) × σ :=
  let n := volume.clamp lba buffer.length
  let pastEnd := zeros (buffer.length - n)
  if n = 0 then ((0, pastEnd), state)
  else
    let ((count, inside), after) := volume.disk.read state (volume.start + lba) (buffer.take n)
    ((count, inside ++ pastEnd), after)

def write (volume : Volume σ) (state : σ) (lba : Nat) (buffer : Bytes) : Nat × σ :=
  let n := volume.clamp lba buffer.length
  if n = 0 then (0, state)
  else volume.disk.write state (volume.start + lba) (buffer.take n)

/-- A volume as a disk of its own. -/
def toDisk (volume : Volume σ) : Disk σ where
  sectors := volume.sectors
  read := volume.read
  write := volume.write

/-! ### What a volume serves -/

theorem clamp_le (volume : Volume σ) (lba length : Nat) : volume.clamp lba length ≤ length :=
  min_le_right _ _

theorem clamp_of_le {volume : Volume σ} {lba length : Nat}
    (fits : lba + sectorsOf length ≤ volume.sectors) :
    volume.clamp lba length = length := by
  have avail : min (volume.sectors - lba) (sectorsOf length) = sectorsOf length :=
    min_eq_right (by omega)
  rw [clamp, avail, min_eq_right (le_sectorsOf length)]

/-- The part of a request that goes to the disk lies on it. -/
theorem clamp_fits {volume : Volume σ} {lba length : Nat} (some : volume.clamp lba length ≠ 0) :
    lba + sectorsOf (volume.clamp lba length) ≤ volume.sectors ∧
      volume.start + lba + sectorsOf (volume.clamp lba length) ≤
        volume.disk.sectors := by
  have inside := volume.inside
  have covered : sectorsOf (volume.clamp lba length) ≤ volume.sectors - lba :=
    sectorsOf_le ((min_le_left _ _).trans (Nat.mul_le_mul_right _ (min_le_left _ _)))
  have positive : 0 < volume.sectors - lba := by
    by_contra none
    have zero : volume.sectors - lba = 0 := by omega
    simp [clamp, zero] at some
  omega

/-- The contents of a volume, from its own start. -/
def contents (volume : Volume σ) (image : σ → Nat → UInt8) (state : σ) : Nat → UInt8 :=
  fun position => image state (volume.start * 512 + position)

/-- What a volume holds at a request: its bytes, then zeros past its end. -/
def holds (volume : Volume σ) (image : σ → Nat → UInt8) (state : σ) (lba length : Nat) : Bytes :=
  window (volume.contents image state) (lba * 512) (volume.clamp lba length) ++
    zeros (length - volume.clamp lba length)

section Serves

variable {volume : Volume σ} {valid : σ → Prop} {image : σ → Nat → UInt8}
    (serves : volume.disk.Serves valid image) {state : σ}
    (valid_state : valid state)

include serves valid_state

theorem read_valid (lba : Nat) (buffer : Bytes) : valid (volume.read state lba buffer).2 := by
  unfold read
  dsimp only
  split
  · exact valid_state
  · exact serves.read_valid valid_state _ _

theorem read_contents (lba : Nat) (buffer : Bytes) :
    image (volume.read state lba buffer).2 = image state := by
  unfold read
  dsimp only
  split
  · rfl
  · exact serves.read_contents valid_state _ _

theorem read_length (lba : Nat) (buffer : Bytes) :
    (volume.read state lba buffer).1.2.length = buffer.length := by
  have clamped := volume.clamp_le lba buffer.length
  unfold read
  dsimp only
  split
  · rename_i nothing
    simp [nothing]
  · simp only [List.length_append, serves.read_length valid_state, List.length_take, length_zeros]
    omega

/-- A read of all sectors inside the volume gave what it holds. -/
theorem read_holds {lba : Nat} {buffer : Bytes} (whole :
      (volume.read state lba buffer).1.1 = sectorsOf (volume.clamp lba buffer.length)) :
    (volume.read state lba buffer).1.2 = volume.holds image state lba buffer.length := by
  have clamped := volume.clamp_le lba buffer.length
  have cut :
      (buffer.take (volume.clamp lba buffer.length)).length = volume.clamp lba buffer.length := by
    rw [List.length_take, min_eq_left clamped]
  unfold read at whole ⊢
  unfold holds
  dsimp only at whole ⊢
  split
  · rename_i nothing
    simp [nothing]
  · rename_i some
    rw [if_neg some] at whole
    simp only at whole ⊢
    rw [serves.read_ok valid_state (by rw [cut]; exact (clamp_fits some).2)
      (by rw [cut]; exact whole), cut]
    unfold contents
    rw [window_shift, Nat.add_mul]

theorem write_valid (lba : Nat) (buffer : Bytes) : valid (volume.write state lba buffer).2 := by
  unfold write
  dsimp only
  split
  · exact valid_state
  · exact serves.write_valid valid_state _ _

theorem write_frame {lba position : Nat} {buffer : Bytes} (outside :
      position < lba * 512 ∨ (lba + sectorsOf (volume.clamp lba buffer.length)) * 512 ≤ position) :
    volume.contents image (volume.write state lba buffer).2 position =
      volume.contents image state position := by
  have clamped := volume.clamp_le lba buffer.length
  unfold write
  dsimp only
  split
  · rfl
  · unfold contents
    refine serves.write_frame valid_state ?_
    rw [List.length_take, min_eq_left clamped]
    omega

/-- A write of all sectors inside the volume stored its bytes. -/
theorem write_holds {lba : Nat} {buffer : Bytes} (whole :
      (volume.write state lba buffer).1 = sectorsOf (volume.clamp lba buffer.length)) :
    window (volume.contents image (volume.write state lba buffer).2)
        (lba * 512) (volume.clamp lba buffer.length) =
      buffer.take (volume.clamp lba buffer.length) := by
  have clamped := volume.clamp_le lba buffer.length
  have cut :
      (buffer.take (volume.clamp lba buffer.length)).length = volume.clamp lba buffer.length := by
    rw [List.length_take, min_eq_left clamped]
  unfold write at whole ⊢
  dsimp only at whole ⊢
  split
  · rename_i nothing
    simp [nothing]
  · rename_i some
    rw [if_neg some] at whole
    have stored :=
      serves.write_ok valid_state (by rw [cut]; exact (clamp_fits some).2)
        (by rw [cut]; exact whole)
    rw [cut] at stored
    unfold contents
    rw [window_shift, ← Nat.add_mul]
    exact stored

omit valid_state in
/-- A volume of a disk that serves its contents serves its part of them. -/
theorem toDisk_serves : volume.toDisk.Serves valid (volume.contents image) where
  read_valid valid_state := read_valid serves valid_state
  read_contents valid_state lba buffer := by
    have same := read_contents serves valid_state lba buffer
    unfold contents
    rw [← same]
    rfl
  read_length valid_state := read_length serves valid_state
  read_ok := by
    intro state valid_state lba buffer fits whole
    have clamped : volume.clamp lba buffer.length = buffer.length := clamp_of_le fits
    have held := read_holds serves valid_state (by rw [clamped]; exact whole)
    rw [holds, clamped, Nat.sub_self] at held
    simp only [zeros, List.replicate_zero, List.append_nil] at held
    exact held
  write_valid valid_state := write_valid serves valid_state
  write_frame := by
    intro state valid_state lba buffer position outside
    have clamped := volume.clamp_le lba buffer.length
    refine write_frame serves valid_state ?_
    have fewer : sectorsOf (volume.clamp lba buffer.length) ≤ sectorsOf buffer.length :=
      sectorsOf_le (clamped.trans (le_sectorsOf _))
    rcases outside with before | behind
    · exact .inl before
    · refine .inr (le_trans ?_ behind)
      exact Nat.mul_le_mul_right _ (by omega)
  write_ok := by
    intro state valid_state lba buffer fits whole
    have clamped : volume.clamp lba buffer.length = buffer.length := clamp_of_le fits
    have stored := write_holds serves valid_state (by rw [clamped]; exact whole)
    rw [clamped, List.take_length] at stored
    exact stored

end Serves

end Volume

end RetroOS.Block
