import RetroOS.Block.Disk
import Mathlib.Data.List.GetD

/-!
# The write overlay

An overlay is a disk over another disk.  It keeps the sectors that were
written in a map of its own and lets them win over what the disk below
reads; the disk below is only ever read.  A write whose length is not a
multiple of 512 fills up its last sector with what the overlay reads there.

`overlay_shows` and `overlay_write` describe the bytes an overlay shows: a
write of a buffer replaces exactly the bytes of the buffer.
-/

namespace RetroOS.Block

open Lib Lib.Bytes

/-- Every read on the disk gives the bytes of its image. -/
structure Disk.Shows {σ : Type} (disk : Disk σ)
    (image : σ → Nat → UInt8) : Prop where
  read_image : ∀ state lba buffer, image (disk.read state lba buffer).2 = image state
  read_shows :
    ∀ state lba buffer, lba + sectorsOf buffer.length ≤ disk.sectors →
      (disk.read state lba buffer).1.2 = window (image state) (lba * 512) buffer.length

/-- One sector of a shadow. -/
abbrev Sector : Type := Fin 512 → UInt8

def Sector.ofBytes (bytes : Bytes) : Sector := fun place => bytes.getD place 0

/-- The shadowed sectors by number. -/
abbrev Shadow : Type := Nat → Option Sector

/-- The part of a buffer that belongs to a sector of the request. -/
def chunk (buffer : Bytes) (index : Nat) : Bytes := slice buffer (512 * index) 512

namespace RamOverlay

/-- Let the shadowed sectors win. -/
def shade (shadow : Shadow) (lba : Nat) (buffer : Bytes) : Bytes :=
  (List.range (sectorsOf buffer.length)).flatMap fun index =>
    match shadow ((lba + index) % 2 ^ 64) with
    | some sector => (List.ofFn sector).take (chunk buffer index).length
    | none => chunk buffer index

section Model

variable {τ : Type} (inner : Disk τ)

def read (state : τ × Shadow) (lba : Nat) (buffer : Bytes) : (Nat × Bytes) × τ × Shadow :=
  let ((count, bytes), below) := inner.read state.1 lba buffer
  ((count, shade state.2 lba bytes), below, state.2)

/-- Absorb one sector of a write. -/
def absorb (lba : Nat) (buffer : Bytes) (state : τ × Shadow) (index : Nat) : τ × Shadow :=
  let sector := (lba + index) % 2 ^ 64
  let piece := chunk buffer index
  if piece.length = 512 then (state.1, Function.update state.2 sector (some (Sector.ofBytes piece)))
  else
    -- a trailing sector starts from what is currently there
    let ((_, seed), after) := read inner state sector (zeros 512)
    (after.1, Function.update after.2 sector (some (Sector.ofBytes (put seed 0 piece))))

def write (state : τ × Shadow) (lba : Nat) (buffer : Bytes) : Nat × τ × Shadow :=
  (sectorsOf buffer.length % 2 ^ 32,
    (List.range (sectorsOf buffer.length)).foldl (absorb inner lba buffer) state)

/-- An overlay over a disk. -/
def wrap : Disk (τ × Shadow) where
  sectors := inner.sectors
  read := read inner
  write := write inner

end Model

/-! ## What an overlay shows -/

/-- An image seen through a shadow. -/
def overlaid (shadow : Shadow) (image : Nat → UInt8) : Nat → UInt8 :=
  fun position =>
    match shadow (position / 512) with
    | some sector => sector ⟨position % 512, Nat.mod_lt _ (by decide)⟩
    | none => image position

/-- An image with the bytes from `start` on replaced. -/
def spliced (image : Nat → UInt8) (start : Nat) (bytes : Bytes) : Nat → UInt8 :=
  fun position =>
    if start ≤ position then bytes.getD (position - start) (image position)
    else image position

@[simp]
theorem spliced_nil (image : Nat → UInt8) (start : Nat) : spliced image start [] = image := by
  funext position
  simp [spliced]

theorem spliced_append (image : Nat → UInt8) (start : Nat) (first second : Bytes) :
    spliced (spliced image start first) (start + first.length) second =
      spliced image start (first ++ second) := by
  funext position
  unfold spliced
  rcases Nat.lt_or_ge position start with before | from_start
  · rw [if_neg (by omega), if_neg (by omega), if_neg (by omega)]
  · rw [if_pos from_start, if_pos from_start]
    rcases Nat.lt_or_ge (position - start) first.length with inside | outside
    · rw [if_neg (by omega), List.getD_append _ _ _ _ inside]
    · rw [if_pos (by omega), List.getD_append_right _ _ _ _ outside,
        List.getD_eq_default _ _ outside, Nat.sub_add_eq]

theorem chunk_window (image : Nat → UInt8) (start length index : Nat) :
    chunk (window image start length) index =
      window image (start + 512 * index) (min 512 (length - 512 * index)) := by
  rcases Nat.le_total (512 * index) length with inside | outside
  · have within : 512 * index + min 512 (length - 512 * index) ≤ length := by
      omega
    have cut :
        slice (window image start length) (512 * index) (min 512 (length - 512 * index)) = _ :=
      slice_window image within
    rw [← cut, chunk, slice, slice, List.take_eq_take_min, List.length_drop, length_window]
  · have none : length - 512 * index = 0 := by omega
    rw [none, Nat.min_zero, window_zero, chunk, slice,
      List.drop_eq_nil_of_le (by simpa using outside), List.take_nil]

variable {shadow : Shadow} {number length : Nat}

/-- A shadowed sector shows its own bytes. -/
theorem take_ofFn_eq_window {sector : Sector} (image : Nat → UInt8)
    (found : shadow number = some sector) (fits : length ≤ 512) :
    (List.ofFn sector).take length = window (overlaid shadow image) (number * 512) length := by
  have whole : ((List.ofFn sector).take length).length = length := by
    rw [List.length_take, List.length_ofFn, min_eq_left fits]
  refine List.ext_getElem (whole.trans (length_window _ _ _).symm) ?_
  intro place inside _
  have small : place < 512 := by rw [whole] at inside; omega
  have number_eq : (number * 512 + place) / 512 = number := by omega
  have place_eq : (number * 512 + place) % 512 = place := by omega
  simp only [List.getElem_take, List.getElem_ofFn, window, overlaid,
    List.getElem_map, List.getElem_range, number_eq, found, place_eq]

/-- A sector that is not shadowed shows the bytes below it. -/
theorem window_overlaid_of_none (image : Nat → UInt8) (missing : shadow number = none)
    (fits : length ≤ 512) :
    window (overlaid shadow image) (number * 512) length = window image (number * 512) length := by
  refine window_congr fun position least most => ?_
  have number_eq : position / 512 = number := by omega
  simp only [overlaid, number_eq, missing]

variable {lba : Nat}

/-- The first sectors of a shaded request. -/
theorem shade_range (shadow : Shadow) (image : Nat → UInt8) :
    ∀ count, lba + count ≤ 2 ^ 64 →
      ((List.range count).flatMap fun index =>
        match shadow ((lba + index) % 2 ^ 64) with
        | some sector =>
          (List.ofFn sector).take (chunk (window image (lba * 512) length) index).length
        | none => chunk (window image (lba * 512) length) index) =
        window (overlaid shadow image) (lba * 512) (min length (512 * count)) := by
  intro count
  induction count with
  | zero =>
    intro _
    rw [List.range_zero, List.flatMap_nil, Nat.mul_zero, Nat.min_zero, window_zero]
  | succ count induction =>
    intro fits
    have number : (lba + count) % 2 ^ 64 = lba + count := Nat.mod_eq_of_lt (by omega)
    have start : lba * 512 + 512 * count = (lba + count) * 512 := by ring
    have short : min 512 (length - 512 * count) ≤ 512 := min_le_left _ _
    have piece :
        (match shadow ((lba + count) % 2 ^ 64) with
          | some sector =>
            (List.ofFn sector).take (chunk (window image (lba * 512) length) count).length
          | none => chunk (window image (lba * 512) length) count) =
          window (overlaid shadow image) ((lba + count) * 512)
            (min 512 (length - 512 * count)) := by
      rw [number, chunk_window, length_window, start]
      split
      · rename_i sector found
        exact take_ofFn_eq_window image found short
      · rename_i missing
        exact (window_overlaid_of_none image missing short).symm
    rw [List.range_succ, List.flatMap_append, induction (by omega), List.flatMap_singleton, piece]
    rcases Nat.le_total (512 * count) length with inside | outside
    · rw [min_eq_right inside, ← start, window_append]
      congr 1
      omega
    · have none : length - 512 * count = 0 := by omega
      rw [none, Nat.min_zero, window_zero, List.append_nil]
      congr 1
      omega

theorem shade_window (shadow : Shadow) (image : Nat → UInt8)
    (fits : lba + sectorsOf length ≤ 2 ^ 64) :
    shade shadow lba (window image (lba * 512) length) =
      window (overlaid shadow image) (lba * 512) length := by
  have covered : length ≤ 512 * sectorsOf length := by
    rw [Nat.mul_comm]
    exact le_sectorsOf length
  unfold shade
  rw [length_window, shade_range shadow image _ fits, min_eq_left covered]

/-! ## What a write changes -/

theorem overlaid_update (shadow : Shadow) (image : Nat → UInt8)
    (number position : Nat) (sector : Sector) :
    overlaid (Function.update shadow number (some sector)) image position =
      if position / 512 = number then sector ⟨position % 512, Nat.mod_lt _ (by decide)⟩
      else
        overlaid shadow image position := by
  unfold overlaid
  rcases eq_or_ne (position / 512) number with here | elsewhere
  · rw [if_pos here, here, Function.update_self]
  · rw [if_neg elsewhere, Function.update_of_ne elsewhere]

/-- A sector that differs from what was shown in its first bytes. -/
theorem overlaid_insert {image : Nat → UInt8} {bytes piece : Bytes} (short : piece.length ≤ 512)
    (same :
      ∀ place < 512, bytes.getD place 0 =
          piece.getD place (overlaid shadow image (number * 512 + place))) :
    overlaid (Function.update shadow number (some (Sector.ofBytes bytes))) image =
      spliced (overlaid shadow image) (number * 512) piece := by
  funext position
  rw [overlaid_update, spliced]
  rcases Nat.lt_trichotomy (position / 512) number with before | here | behind
  · rw [if_neg (by omega), if_neg (by omega)]
  · subst here
    have place : position - position / 512 * 512 = position % 512 := by
      rw [Nat.mul_comm]
      omega
    have back : position / 512 * 512 + position % 512 = position := by omega
    rw [if_pos rfl, if_pos (by omega), place, Sector.ofBytes,
      same _ (Nat.mod_lt _ (by decide)), back]
  · have past : piece.length ≤ position - number * 512 := by
      rw [Nat.mul_comm]
      omega
    rw [if_neg (by omega), if_pos (by omega), List.getD_eq_default _ _ past]

/-- A piece put over the first bytes of a sector. -/
theorem getD_put_zero (seed piece : Bytes) (place : Nat) :
    (put seed 0 piece).getD place 0 = piece.getD place (seed.getD place 0) := by
  simp only [put, List.take_zero, List.nil_append, Nat.zero_add]
  rcases Nat.lt_or_ge place piece.length with inside | outside
  · rw [List.getD_append _ _ _ _ inside, List.getD_eq_getElem _ _ inside,
      List.getD_eq_getElem _ _ inside]
  · rw [List.getD_append_right _ _ _ _ outside, List.getD_eq_default _ _ outside]
    simp only [List.getD_eq_getElem?_getD, List.getElem?_drop]
    congr 2
    omega

theorem getD_window (image : Nat → UInt8) {start place : Nat} (inside : place < length)
    (default : UInt8) :
    (window image start length).getD place default = image (start + place) := by
  rw [List.getD_eq_getElem _ _ (by simpa using inside)]
  simp [window]

theorem length_chunk_le (buffer : Bytes) (index : Nat) : (chunk buffer index).length ≤ 512 :=
  List.length_take_le _ _

section Shows

variable {τ : Type} {inner : Disk τ} {image : τ → Nat → UInt8}
    (shows : inner.Shows image) (small : inner.sectors ≤ 2 ^ 64)

include shows small

/-- An overlay of a disk that shows an image shows it through its shadow. -/
theorem wrap_shows : (wrap inner).Shows fun state => overlaid state.2 (image state.1) where
  read_image state lba buffer := by
    change overlaid state.2 (image (inner.read state.1 lba buffer).2) = _
    rw [shows.read_image]
  read_shows := by
    intro state lba buffer fits
    change shade state.2 lba (inner.read state.1 lba buffer).1.2 = _
    rw [shows.read_shows state.1 lba buffer fits]
    exact shade_window _ _ (fits.trans small)

/-- One sector of a write replaces the bytes it carries. -/
theorem absorb_spliced (lba : Nat) (buffer : Bytes) (state : τ × Shadow)
    (index : Nat) (inside : lba + index < inner.sectors) :
    image (absorb inner lba buffer state index).1 = image state.1 ∧
      overlaid (absorb inner lba buffer state index).2 (image state.1) =
        spliced (overlaid state.2 (image state.1)) ((lba + index) * 512) (chunk buffer index) := by
  have number : (lba + index) % 2 ^ 64 = lba + index := Nat.mod_eq_of_lt (by omega)
  have short := length_chunk_le buffer index
  simp only [absorb, number]
  split_ifs with full
  · refine ⟨rfl, overlaid_insert short fun place small_place => ?_⟩
    have inside : place < (chunk buffer index).length := by omega
    rw [List.getD_eq_getElem _ _ inside, List.getD_eq_getElem _ _ inside]
  · have overlay := wrap_shows shows small
    have seeded :
        (read inner state (lba + index) (zeros 512)).1.2 =
          window (overlaid state.2 (image state.1)) ((lba + index) * 512)
            512 := by
      have seed := overlay.read_shows state (lba + index) (zeros 512)
        (by rw [length_zeros]; exact inside)
      rw [length_zeros] at seed
      exact seed
    refine ⟨shows.read_image _ _ _, overlaid_insert short ?_⟩
    intro place small_place
    rw [getD_put_zero, seeded, getD_window _ small_place]
    rfl

/-- The first sectors of a write replace the bytes they carry. -/
theorem absorb_range (lba : Nat) (buffer : Bytes) (state : τ × Shadow) :
    ∀ count, lba + count ≤ inner.sectors →
      image ((List.range count).foldl (absorb inner lba buffer) state).1 = image state.1 ∧
        overlaid ((List.range count).foldl (absorb inner lba buffer) state).2 (image state.1) =
          spliced (overlaid state.2 (image state.1)) (lba * 512) (buffer.take (512 * count)) := by
  intro count
  induction count with
  | zero =>
    intro _
    refine ⟨rfl, ?_⟩
    funext position
    simp [spliced]
  | succ count induction =>
    intro fits
    obtain ⟨kept, before⟩ := induction (by omega)
    rw [List.range_succ, List.foldl_append]
    obtain ⟨kept_last, last⟩ :=
      absorb_spliced shows small lba buffer
        ((List.range count).foldl (absorb inner lba buffer) state) count
        (by omega)
    rw [kept] at kept_last last
    refine ⟨kept_last, last.trans ?_⟩
    rw [before]
    rcases Nat.le_total (512 * count) buffer.length with inside | outside
    · have size : (buffer.take (512 * count)).length = 512 * count := List.length_take_of_le inside
      have place : (lba + count) * 512 = lba * 512 + (buffer.take (512 * count)).length := by
        rw [size]
        ring
      have next :
          buffer.take (512 * (count + 1)) = buffer.take (512 * count) ++ chunk buffer count := by
        rw [show 512 * (count + 1) = 512 * count + 512 by ring, List.take_add]
        rfl
      rw [place, spliced_append, next]
    · have nothing : chunk buffer count = [] := by
        rw [chunk, slice, List.drop_eq_nil_of_le outside, List.take_nil]
      rw [nothing, spliced_nil, List.take_of_length_le outside, List.take_of_length_le (by omega)]

/-- A write on an overlay replaces exactly the bytes of its buffer. -/
theorem write_spliced {buffer : Bytes} (state : τ × Shadow)
    (fits : lba + sectorsOf buffer.length ≤ inner.sectors) :
    image ((wrap inner).write state lba buffer).2.1 = image state.1 ∧
      overlaid ((wrap inner).write state lba buffer).2.2 (image state.1) =
        spliced (overlaid state.2 (image state.1)) (lba * 512) buffer := by
  have all : buffer.take (512 * sectorsOf buffer.length) = buffer := by
    refine List.take_of_length_le ?_
    rw [Nat.mul_comm]
    exact le_sectorsOf _
  have whole := absorb_range shows small lba buffer state _ fits
  rw [all] at whole
  exact whole

end Shows

end RamOverlay

end RetroOS.Block
