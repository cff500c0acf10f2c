import RetroOS.Block.Overlay

/-!
# Bytes over sectors

A filesystem addresses a volume by bytes.  Requests that start and end on
sector boundaries go to the volume at once; all others go sector by sector,
and a sector that is written in part is read first.

The device may fail any request.  `watched` notes whether it moved fewer
sectors than it was asked for, so that an error can be traced to a request
that is out of range or to a failure of the device.
-/

namespace RetroOS.Block

open Lib Lib.Bytes
open RamOverlay (spliced spliced_nil spliced_append getD_window)

inductive VolumeError where
  | outOfBounds
  | shortRead
  | shortWrite
  deriving DecidableEq

namespace VolumeStorage

variable {τ : Type} (volume : Volume τ)

def len : Nat := min (volume.sectors * 512) (2 ^ 64 - 1)

/-- Whether a range may be accessed: its end is a 64-bit number and not past the volume. -/
def admits (offset length : Nat) : Bool := offset + length < 2 ^ 64 && offset + length ≤ len volume

/-- The bytes of `remaining` positions, sector by sector; `fuel` bounds the sectors. -/
def readSectors : (fuel : Nat) → τ → (position remaining : Nat) → (sector : Bytes) →
    Except VolumeError Bytes × τ
  | 0, state, _, _, _ => (.ok [], state)
  | fuel + 1, state, position, remaining, sector =>
    if remaining = 0 then (.ok [], state)
    else
      let ((count, sector), after) := volume.read state (position / 512) sector
      if count ≠ 1 then (.error .shortRead, after)
      else
        let within := position % 512
        let amount := min remaining (512 - within)
        let (rest, last) := readSectors fuel after (position + amount) (remaining - amount) sector
        (rest.map fun bytes => slice sector within amount ++ bytes, last)

def read (state : τ) (offset : Nat) (dst : Bytes) : Except VolumeError Bytes × τ :=
  if admits volume offset dst.length = false then (.error .outOfBounds, state)
  else if dst = [] then (.ok [], state)
  else if offset % 512 = 0 ∧ dst.length % 512 = 0 then
    let ((count, bytes), after) := volume.read state (offset / 512) dst
    if count ≠ dst.length / 512 then (.error .shortRead, after) else (.ok bytes, after)
  else readSectors volume dst.length state offset dst.length (zeros 512)

def writeSectors : (fuel : Nat) → τ → (position : Nat) → (src sector : Bytes) →
    Except VolumeError Unit × τ
  | 0, state, _, _, _ => (.ok (), state)
  | fuel + 1, state, position, src, sector =>
    if src = [] then (.ok (), state)
    else
      let ((count, sector), loaded) := volume.read state (position / 512) sector
      if count ≠ 1 then (.error .shortRead, loaded)
      else
        let within := position % 512
        let amount := min src.length (512 - within)
        let sector := put sector within (src.take amount)
        let (count, stored) := volume.write loaded (position / 512) sector
        if count ≠ 1 then (.error .shortWrite, stored)
        else writeSectors fuel stored (position + amount) (src.drop amount) sector

def write (state : τ) (offset : Nat) (src : Bytes) : Except VolumeError Unit × τ :=
  if admits volume offset src.length = false then (.error .outOfBounds, state)
  else if src = [] then (.ok (), state)
  else if offset % 512 = 0 ∧ src.length % 512 = 0 then
    let (count, after) := volume.write state (offset / 512) src
    if count ≠ src.length / 512 then (.error .shortWrite, after) else (.ok (), after)
  else writeSectors volume src.length state offset src (zeros 512)

end VolumeStorage

/-! ## Failures -/

/-- A disk that notes whether a request moved fewer sectors than it asked for. -/
def Disk.watched {σ : Type} (disk : Disk σ) : Disk (σ × Bool) where
  sectors := disk.sectors
  read state lba buffer :=
    let (answer, after) := disk.read state.1 lba buffer
    (answer, after, state.2 || answer.1 != sectorsOf buffer.length)
  write state lba buffer :=
    let (count, after) := disk.write state.1 lba buffer
    (count, after, state.2 || count != sectorsOf buffer.length)

def Volume.watched {σ : Type} (volume : Volume σ) : Volume (σ × Bool) :=
  { volume with disk := volume.disk.watched, inside := volume.inside }

/-! ## Images -/

variable {length : Nat}

section Images

variable (image : Nat → UInt8)

theorem eq_spliced {after : Nat → UInt8} {start : Nat} {bytes : Bytes}
    (inside : window after start bytes.length = bytes)
    (outside :
      ∀ position, position < start ∨ start + bytes.length ≤ position →
        after position = image position) :
    after = spliced image start bytes := by
  funext position
  unfold spliced
  by_cases before : start ≤ position
  · rw [if_pos before]
    rcases Nat.lt_or_ge (position - start) bytes.length with covered | past
    · have here : (window after start bytes.length).getD (position - start) (image position) =
          after (start + (position - start)) :=
        getD_window after covered _
      rw [inside, Nat.add_sub_cancel' before] at here
      exact here.symm
    · rw [List.getD_eq_default _ _ past]
      exact outside position (.inr (by omega))
  · rw [if_neg before]
    exact outside position (.inl (by omega))

/-- Putting back what is there. -/
theorem spliced_window (start length : Nat) :
    spliced image start (window image start length) = image :=
  (eq_spliced image (by rw [length_window]) fun _ _ => rfl).symm

/-- A sector with a part replaced, put back. -/
theorem spliced_put_window {start within : Nat} {part : Bytes}
    (fits : within + part.length ≤ length) :
    spliced image start (put (window image start length) within part) =
      spliced image (start + within) part := by
  have head : (window image start length).take within = window image start within := by
    have cut : slice (window image start length) 0 within = window image (start + 0) within :=
      slice_window image (by omega)
    simpa [slice] using cut
  have tail : (window image start length).drop (within + part.length) =
      window image (start + within + part.length) (length - (within + part.length)) := by
    have cut : slice (window image start length) (within + part.length)
        (length - (within + part.length)) = _ :=
      slice_window image (by omega)
    rw [slice, List.take_of_length_le (by simp), ← Nat.add_assoc] at cut
    exact cut
  have same : window image (start + within + part.length) (length - (within + part.length)) =
      window (spliced image (start + within) part) (start + within + part.length)
        (length - (within + part.length)) := by
    refine window_congr fun position from_end _ => ?_
    rw [spliced, if_pos (by omega), List.getD_eq_default _ _ (by omega)]
  rw [put, head, tail, ← spliced_append, length_window, spliced_window, ← spliced_append, same,
    spliced_window]

end Images

/-! ## Requests to the volume -/

section Storage

variable {σ : Type} {volume : Volume σ} {valid : σ → Prop} {image : σ → Nat → UInt8}
    (serves : volume.disk.Serves valid image)

variable {lba : Nat} {buffer : Bytes}

omit serves in
theorem Volume.fits_disk (nonempty : buffer ≠ [])
    (fits : lba + sectorsOf buffer.length ≤ volume.sectors) :
    buffer.length ≠ 0 ∧ volume.watched.clamp lba buffer.length = buffer.length ∧
      volume.start + lba + sectorsOf buffer.length ≤ volume.disk.sectors := by
  have some : buffer.length ≠ 0 := fun none => nonempty (List.length_eq_zero_iff.mp none)
  have clamped : volume.watched.clamp lba buffer.length = buffer.length := clamp_of_le fits
  have covered := (clamp_fits (show volume.watched.clamp lba buffer.length ≠ 0 by omega)).2
  rw [clamped] at covered
  exact ⟨some, clamped, covered⟩

include serves

variable {state : σ}

/-- A read inside the volume fails, or gives the bytes of the image. -/
theorem Volume.watched_read (valid_state : valid state) (nonempty : buffer ≠ [])
    (fits : lba + sectorsOf buffer.length ≤ volume.sectors) :
    ∃ count bytes after, valid after ∧ image after = image state ∧ bytes.length = buffer.length ∧
      volume.watched.read (state, false) lba buffer =
        ((count, bytes), after, count != sectorsOf buffer.length) ∧
      (count = sectorsOf buffer.length →
        bytes = window (image state) ((volume.start + lba) * 512) buffer.length) := by
  obtain ⟨some, clamped, covered⟩ := fits_disk nonempty fits
  refine ⟨_, _, _, serves.read_valid valid_state (volume.start + lba) buffer,
    serves.read_contents valid_state _ _, serves.read_length valid_state _ _, ?_,
    serves.read_ok valid_state covered⟩
  simp only [Volume.read, clamped, if_neg some, List.take_length, Nat.sub_self, zeros,
    List.replicate_zero, List.append_nil]
  rfl

/-- A write of whole sectors inside the volume fails, or replaces their bytes. -/
theorem Volume.watched_write (valid_state : valid state) (nonempty : buffer ≠ [])
    (whole : sectorsOf buffer.length * 512 = buffer.length)
    (fits : lba + sectorsOf buffer.length ≤ volume.sectors) :
    ∃ count after, valid after ∧
      volume.watched.write (state, false) lba buffer =
        (count, after, count != sectorsOf buffer.length) ∧
      (count = sectorsOf buffer.length →
        image after = spliced (image state) ((volume.start + lba) * 512) buffer) := by
  obtain ⟨some, clamped, covered⟩ := fits_disk nonempty fits
  refine ⟨(volume.disk.write state (volume.start + lba) buffer).1, _,
    serves.write_valid valid_state (volume.start + lba) buffer, ?_, fun all => ?_⟩
  · simp only [Volume.write, clamped, if_neg some, List.take_length]
    rfl
  · refine eq_spliced _ (serves.write_ok valid_state covered all) fun position outside => ?_
    refine serves.write_frame valid_state ?_
    rw [Nat.add_mul (volume.start + lba), whole]
    exact outside

/-! ## Sector by sector -/

variable {position : Nat} {sector : Bytes}

/-- The read of the sector of a position. -/
theorem Volume.watched_sector (valid_state : valid state) (inside : position < volume.sectors * 512)
    (length : sector.length = 512) :
    ∃ count bytes after, valid after ∧ image after = image state ∧ bytes.length = 512 ∧
      volume.watched.read (state, false) (position / 512) sector =
        ((count, bytes), after, count != 1) ∧
      (count = 1 → bytes = window (image state) ((volume.start + position / 512) * 512) 512) := by
  have single : sectorsOf sector.length = 1 := by rw [length]; rfl
  have fits : position / 512 + sectorsOf sector.length ≤ volume.sectors := by omega
  have answer := watched_read serves valid_state (List.ne_nil_of_length_eq_add_one length) fits
  rwa [single, length] at answer

namespace VolumeStorage

omit serves

theorem sector_place (start position : Nat) :
    (start + position / 512) * 512 + position % 512 = start * 512 + position := by
  omega

/-- What a read answers: the bytes of the image, or an error after a failure. -/
def ReadAnswer (image : σ → Nat → UInt8) (before : σ) (start length : Nat) :
    Except VolumeError Bytes × σ × Bool → Prop
  | (.ok bytes, after, failed) =>
    failed = false ∧ bytes = window (image before) start length ∧ image after = image before
  | (.error _, _, failed) => failed = true

/-- What a write answers: nothing but its bytes were replaced, or an error after a failure. -/
def WriteAnswer (image : σ → Nat → UInt8) (before : σ) (start : Nat) (src : Bytes) :
    Except VolumeError Unit × σ × Bool → Prop
  | (.ok _, after, failed) => failed = false ∧ image after = spliced (image before) start src
  | (.error _, _, failed) => failed = true

include serves

theorem readSectors_answers {fuel : Nat} {remaining : Nat} (valid_state : valid state)
    (enough : remaining ≤ fuel) (fits : position + remaining ≤ volume.sectors * 512)
    (length : sector.length = 512) :
    ReadAnswer image state (volume.start * 512 + position) remaining
      (readSectors volume.watched fuel (state, false) position remaining sector) := by
  induction fuel generalizing state position remaining sector with
  | zero =>
    obtain rfl : remaining = 0 := by omega
    exact ⟨rfl, rfl, rfl⟩
  | succ fuel induction =>
    by_cases none : remaining = 0
    · subst none
      exact ⟨rfl, rfl, rfl⟩
    · obtain ⟨count, bytes, after, valid_after, same, full, answer, exact⟩ :=
        Volume.watched_sector serves valid_state (show position < _ by omega) length
      simp only [readSectors, if_neg none, answer]
      by_cases one : count = 1
      · subst one
        rw [if_neg (by simp)]
        generalize amounts : min remaining (512 - position % 512) = amount
        have rest : ReadAnswer image after (volume.start * 512 + (position + amount))
            (remaining - amount) _ :=
          induction valid_after (by omega) (by omega) full
        have here : slice bytes (position % 512) amount =
            window (image state) (volume.start * 512 + position) amount := by
          rw [exact rfl, slice_window _ (by omega), sector_place]
        simp only [bne_self_eq_false]
        generalize readSectors volume.watched fuel (after, false) (position + amount)
          (remaining - amount) bytes = answer at rest ⊢
        obtain ⟨error | tail, last, failed⟩ := answer
        · exact rest
        · obtain ⟨fine, tail, kept⟩ := rest
          refine ⟨fine, ?_, kept.trans same⟩
          have whole : amount + (remaining - amount) = remaining := by omega
          rw [here, tail, same, ← Nat.add_assoc]
          dsimp only
          rw [window_append, whole]
      · rw [if_pos one]
        exact bne_iff_ne.mpr one

theorem writeSectors_answers {fuel : Nat} {src : Bytes} (valid_state : valid state)
    (enough : src.length ≤ fuel) (fits : position + src.length ≤ volume.sectors * 512)
    (length : sector.length = 512) :
    WriteAnswer image state (volume.start * 512 + position) src
      (writeSectors volume.watched fuel (state, false) position src sector) := by
  induction fuel generalizing state position src sector with
  | zero =>
    obtain rfl : src = [] := List.length_eq_zero_iff.mp (by omega)
    exact ⟨rfl, (spliced_nil _ _).symm⟩
  | succ fuel induction =>
    by_cases none : src = []
    · subst none
      exact ⟨rfl, (spliced_nil _ _).symm⟩
    · have some : src.length ≠ 0 := fun zero => none (List.length_eq_zero_iff.mp zero)
      have single : sectorsOf 512 = 1 := rfl
      have inside : position / 512 + sectorsOf 512 ≤ volume.sectors := by omega
      obtain ⟨count, bytes, loaded, valid_loaded, same, full, answer, exact⟩ :=
        Volume.watched_sector serves valid_state (show position < _ by omega) length
      simp only [writeSectors, if_neg none, answer]
      by_cases one : count = 1
      · subst one
        rw [if_neg (by simp)]
        generalize amounts : min src.length (512 - position % 512) = amount
        have part : (src.take amount).length = amount := by
          rw [List.length_take]
          omega
        have filled : (put bytes (position % 512) (src.take amount)).length = 512 := by
          rw [length_put (by rw [part]; omega), full]
        obtain ⟨count, stored, valid_stored, answer, replaced⟩ :=
          Volume.watched_write serves valid_loaded (List.ne_nil_of_length_eq_add_one filled)
            (by rw [filled]; rfl) (by rw [filled]; exact inside)
        rw [filled, single] at answer replaced
        simp only [bne_self_eq_false, answer]
        by_cases one : count = 1
        · subst one
          rw [if_neg (by simp)]
          have rest : WriteAnswer image stored (volume.start * 512 + (position + amount))
              (src.drop amount) _ :=
            induction valid_stored (by rw [List.length_drop]; omega)
              (by rw [List.length_drop]; omega) filled
          have here : image stored =
              spliced (image state) (volume.start * 512 + position) (src.take amount) := by
            rw [replaced rfl, same, exact rfl, spliced_put_window _ (by rw [part]; omega),
              sector_place]
          simp only [bne_self_eq_false]
          generalize writeSectors volume.watched fuel (stored, false) (position + amount)
            (src.drop amount) (put bytes (position % 512) (src.take amount)) = answer at rest ⊢
          obtain ⟨error | _, last, failed⟩ := answer
          · exact rest
          · obtain ⟨fine, tail⟩ := rest
            refine ⟨fine, ?_⟩
            have next : volume.start * 512 + (position + amount) =
                volume.start * 512 + position + (src.take amount).length := by
              omega
            rw [tail, here, next, spliced_append, List.take_append_drop]
        · rw [if_pos one]
          exact bne_iff_ne.mpr one
      · rw [if_pos one]
        exact bne_iff_ne.mpr one

/-! ## Byte access -/

omit serves

/-- A range of the volume whose end is a 64-bit number. -/
def InRange (volume : Volume σ) (offset length : Nat) : Prop :=
  offset + length ≤ volume.sectors * 512 ∧ offset + length < 2 ^ 64

variable {offset : Nat}

theorem admits_iff :
    admits volume offset length = true ↔ InRange volume offset length := by
  simp only [admits, len, InRange, Bool.and_eq_true, decide_eq_true_eq, le_min_iff]
  omega

/-- A read in range gives its bytes, unless the device fails; others are refused. -/
def ReadExact (volume : Volume σ) (image : σ → Nat → UInt8) (state : σ) (offset : Nat)
    (dst : Bytes) : Prop :=
  let answer := read volume.watched (state, false) offset dst
  (InRange volume offset dst.length →
      ReadAnswer image state (volume.start * 512 + offset) dst.length answer) ∧
    (¬ InRange volume offset dst.length → answer = (.error .outOfBounds, state, false))

/-- A write in range changes its bytes only, unless the device fails; others are refused. -/
def WriteExact (volume : Volume σ) (image : σ → Nat → UInt8) (state : σ) (offset : Nat)
    (src : Bytes) : Prop :=
  let answer := write volume.watched (state, false) offset src
  (InRange volume offset src.length →
      WriteAnswer image state (volume.start * 512 + offset) src answer) ∧
    (¬ InRange volume offset src.length → answer = (.error .outOfBounds, state, false))

/-- A request is refused, or it is in range and answered. -/
theorem exact_of_answer {β : Type} {answer : Except VolumeError β × σ × Bool}
    {law : Except VolumeError β × σ × Bool → Prop}
    (holds : InRange volume offset length → law answer) :
    let guarded :=
      if admits volume.watched offset length = false then (.error .outOfBounds, state, false)
      else answer
    (InRange volume offset length → law guarded) ∧
      (¬ InRange volume offset length → guarded = (.error .outOfBounds, state, false)) := by
  refine ⟨fun inRange => ?_, fun outside => ?_⟩
  · have admitted : admits volume.watched offset length = true := admits_iff.mpr inRange
    simp only [admitted, Bool.true_eq_false, if_false]
    exact holds inRange
  · have refused : admits volume.watched offset length = false :=
      Bool.eq_false_iff.mpr fun admitted => outside (admits_iff.mp admitted)
    simp only [refused, if_true]

/-- A range of whole sectors. -/
theorem sectors_of_aligned (inRange : InRange volume offset length)
    (aligned : offset % 512 = 0 ∧ length % 512 = 0) :
    sectorsOf length = length / 512 ∧ sectorsOf length * 512 = length ∧
      (volume.start + offset / 512) * 512 = volume.start * 512 + offset ∧
      offset / 512 + sectorsOf length ≤ volume.sectors := by
  have fits := inRange.1
  have sectors : sectorsOf length = length / 512 := by
    unfold sectorsOf
    omega
  rw [sectors, Nat.div_mul_cancel (Nat.dvd_of_mod_eq_zero aligned.2)]
  omega

include serves

theorem read_exact (valid_state : valid state) (offset : Nat) (dst : Bytes) :
    ReadExact volume image state offset dst := by
  refine exact_of_answer fun inRange => ?_
  split_ifs with none aligned
  · subst none
    exact ⟨rfl, rfl, rfl⟩
  · obtain ⟨sectors, -, place, fits⟩ := sectors_of_aligned inRange aligned
    obtain ⟨count, bytes, after, -, same, -, answer, exact⟩ :=
      Volume.watched_read serves valid_state none fits
    rw [sectors] at answer exact
    rw [answer]
    by_cases all : count = dst.length / 512
    · simp only [all, ne_eq, not_true_eq_false, if_false, bne_self_eq_false]
      exact ⟨rfl, place ▸ exact all, same⟩
    · simp only [all, ne_eq, not_false_eq_true, if_true]
      exact bne_iff_ne.mpr all
  · exact readSectors_answers serves valid_state le_rfl inRange.1 (length_zeros 512)

theorem write_exact (valid_state : valid state) (offset : Nat) (src : Bytes) :
    WriteExact volume image state offset src := by
  refine exact_of_answer fun inRange => ?_
  split_ifs with none aligned
  · subst none
    exact ⟨rfl, (spliced_nil _ _).symm⟩
  · obtain ⟨sectors, whole, place, fits⟩ := sectors_of_aligned inRange aligned
    obtain ⟨count, after, -, answer, replaced⟩ :=
      Volume.watched_write serves valid_state none whole fits
    rw [sectors] at answer replaced
    rw [answer]
    by_cases all : count = src.length / 512
    · simp only [all, ne_eq, not_true_eq_false, if_false, bne_self_eq_false]
      exact ⟨rfl, place ▸ replaced all⟩
    · simp only [all, ne_eq, not_false_eq_true, if_true]
      exact bne_iff_ne.mpr all
  · exact writeSectors_answers serves valid_state le_rfl inRange.1 (length_zeros 512)

/-- Byte access is exact. -/
theorem byte_access_exact {state : σ} (valid_state : valid state) (offset : Nat) (bytes : Bytes) :
    ReadExact volume image state offset bytes ∧ WriteExact volume image state offset bytes :=
  ⟨read_exact serves valid_state offset bytes, write_exact serves valid_state offset bytes⟩

end VolumeStorage

end Storage

/-- A disk that is its image. -/
def imageDisk (sectors : Nat) : Disk (Nat → UInt8) where
  sectors
  read image lba buffer :=
    ((sectorsOf buffer.length, window image (lba * 512) buffer.length), image)
  write image lba buffer := (sectorsOf buffer.length, spliced image (lba * 512) buffer)

theorem imageDisk_serves (sectors : Nat) : (imageDisk sectors).Serves (fun _ => True) id where
  read_valid _ _ _ := trivial
  read_contents _ _ _ := rfl
  read_length _ _ _ := length_window _ _ _
  read_ok _ _ _ := fun _ _ => rfl
  write_valid _ _ _ := trivial
  write_frame := by
    intro image _ lba buffer position outside
    have covered := le_sectorsOf buffer.length
    simp only [id_eq, imageDisk, spliced]
    split_ifs with past
    · exact List.getD_eq_default _ _ (by omega)
    · rfl
  write_ok := by
    intro image _ lba buffer _ _
    refine List.ext_getElem (by simp) fun index inside bound => ?_
    simp [window, imageDisk, spliced, bound]

namespace VolumeStorage

/-- Four bytes across the border of two sectors, on a volume that starts at the second sector. -/
theorem border_bytes_exact :
    let volume := Volume.new (imageDisk 8) 1 3
    ((read volume (fun position => UInt8.ofNat position) 510 (zeros 4)).1.toOption =
        some [254, 255, 0, 1]) ∧
      ReadExact volume id (fun position => UInt8.ofNat position) 510 (zeros 4) ∧
        WriteExact volume id (fun position => UInt8.ofNat position) 510 (zeros 4) := by
  intro volume
  exact ⟨by decide +kernel, byte_access_exact (imageDisk_serves 8) trivial 510 (zeros 4)⟩

/-- The last byte of a disk of 2^55 sectors is refused. -/
theorem last_byte_refused :
    let volume := Volume.whole (imageDisk (2 ^ 55))
    volume.disk.Serves (fun _ => True) id ∧ (2 ^ 64 - 1) + 1 ≤ volume.sectors * 512 ∧
      read volume.watched ((fun _ => 0), false) (2 ^ 64 - 1) [0] =
        (.error .outOfBounds, (fun _ => 0), false) := by
  intro volume
  exact ⟨imageDisk_serves _, by decide +kernel, rfl⟩

end VolumeStorage

end RetroOS.Block
