import RetroOS.Block.Overlay
import RetroOS.Lib.Machine
import Mathlib.Logic.Relation

/-!
# Volumes and overlays over a device

A device may be wrapped in overlays and cut into volumes, and a volume may
serve as the disk below either.  `nest` builds such a disk over a device that
notes every access it receives.

`nest_reaches`: a request on a nest reaches the sectors of the device it
names, shifted by where the nest starts, and none with a write when there is
an overlay in between.  `nest_shows`: over a device that shows an image, a
nest shows it through its volumes and shadows.
-/

namespace RetroOS.Block

open Lib Lib.Bytes
open RamOverlay

/-! ## Accesses -/

/-- A request that reached the device. -/
structure Access where
  writes : Bool
  lba : Nat
  sectors : Nat
  deriving DecidableEq

/--
The access stays inside `count` sectors from `first` on and inside a device
of a capacity.
-/
def Access.Within (access : Access) (capacity first count : Nat) : Prop :=
  first ≤ access.lba ∧ access.lba + access.sectors ≤ first + count ∧
    access.lba + access.sectors ≤ capacity

/-- A device that notes the accesses it receives. -/
def Disk.logged {σ : Type} (device : Disk σ) : Disk (σ × List Access) where
  sectors := device.sectors
  read state lba buffer :=
    let (answer, after) := device.read state.1 lba buffer
    (answer, after, state.2 ++ [{ writes := false, lba, sectors := sectorsOf buffer.length }])
  write state lba buffer :=
    let (count, after) := device.write state.1 lba buffer
    (count, after, state.2 ++ [{ writes := true, lba, sectors := sectorsOf buffer.length }])

/-- The log grew by accesses of a kind. -/
def Grown (before after : List Access) (kind : Access → Prop) : Prop :=
  ∃ accesses, after = before ++ accesses ∧ ∀ access ∈ accesses, kind access

namespace Grown

variable {first second third : List Access} {kind other : Access → Prop}

theorem refl (log : List Access) (kind : Access → Prop) : Grown log log kind :=
  ⟨[], by simp, by simp⟩

theorem trans (left : Grown first second kind)
    (right : Grown second third kind) : Grown first third kind := by
  obtain ⟨early, rfl, early_kind⟩ := left
  obtain ⟨late, rfl, late_kind⟩ := right
  refine ⟨early ++ late, List.append_assoc _ _ _, fun access member => ?_⟩
  rcases List.mem_append.mp member with here | there
  · exact early_kind access here
  · exact late_kind access there

theorem mono (grown : Grown first second kind) (weaker : ∀ access, kind access → other access) :
    Grown first second other := by
  obtain ⟨accesses, rfl, all⟩ := grown
  exact ⟨accesses, rfl, fun access member => weaker access (all access member)⟩

end Grown

/--
Requests on the disk reach the same sectors of the device, counted from
`offset`; a dry disk never writes the device.
-/
structure Disk.Reaches {τ : Type} (disk : Disk τ) (log : τ → List Access)
    (capacity offset : Nat) (dry : Bool) : Prop where
  read_reaches :
    ∀ state lba buffer, lba + sectorsOf buffer.length ≤ disk.sectors →
      Grown (log state) (log (disk.read state lba buffer).2) fun access =>
        access.writes = false ∧ access.Within capacity (offset + lba) (sectorsOf buffer.length)
  write_reaches :
    ∀ state lba buffer, lba + sectorsOf buffer.length ≤ disk.sectors →
      Grown (log state) (log (disk.write state lba buffer).2) fun access =>
        (dry = true → access.writes = false) ∧
          access.Within capacity (offset + lba) (sectorsOf buffer.length)

theorem Disk.logged_reaches {σ : Type} (device : Disk σ) :
    device.logged.Reaches Prod.snd device.sectors 0 false where
  read_reaches state lba buffer fits := ⟨_, rfl, by simpa [Access.Within, Disk.logged] using fits⟩
  write_reaches state lba buffer fits := ⟨_, rfl, by simpa [Access.Within, Disk.logged] using fits⟩

section Layers

variable {τ : Type} {log : τ → List Access} {capacity offset : Nat} {dry : Bool}

section Volumes

variable {volume : Volume τ}

/-- What a volume passes on belongs to the request and to the volume. -/
theorem Access.Within.clamped {access : Access} {lba : Nat} {buffer : Bytes}
    (some : volume.clamp lba buffer.length ≠ 0)
    (within :
      access.Within capacity (offset + (volume.start + lba)) (sectorsOf
          (buffer.take (volume.clamp lba buffer.length)).length)) :
    access.Within capacity (offset + volume.start + lba) (sectorsOf buffer.length) ∧
      access.Within capacity (offset + volume.start) volume.sectors := by
  have covered : sectorsOf (volume.clamp lba buffer.length) ≤ sectorsOf buffer.length :=
    sectorsOf_le ((volume.clamp_le _ _).trans (le_sectorsOf _))
  have inside := (Volume.clamp_fits some).1
  obtain ⟨least, most, fits⟩ := within
  rw [List.length_take_of_le (volume.clamp_le _ _)] at most
  exact ⟨⟨by omega, by omega, fits⟩, ⟨by omega, by omega, fits⟩⟩

/-- What a volume passes on lies on the disk below. -/
theorem Volume.take_fits {lba : Nat} {buffer : Bytes} (some : volume.clamp lba buffer.length ≠ 0) :
    volume.start + lba + sectorsOf (buffer.take (volume.clamp lba buffer.length)).length ≤
      volume.disk.sectors := by
  rw [List.length_take_of_le (volume.clamp_le _ _)]
  exact (Volume.clamp_fits some).2

variable (reaches : volume.disk.Reaches log capacity offset dry)

include reaches

/-- A read through a volume reaches sectors of the volume. -/
theorem Volume.read_reaches (state : τ) (lba : Nat) (buffer : Bytes) :
    Grown (log state) (log (volume.read state lba buffer).2) fun access =>
      access.writes = false ∧
        access.Within capacity (offset + volume.start + lba) (sectorsOf buffer.length) ∧
          access.Within capacity (offset + volume.start) volume.sectors := by
  unfold Volume.read
  dsimp only
  split_ifs with nothing
  · exact Grown.refl _ _
  · have grown := reaches.read_reaches state _ _ (Volume.take_fits nothing)
    exact grown.mono fun access allowed => ⟨allowed.1, allowed.2.clamped nothing⟩

/-- A write through a volume reaches sectors of the volume. -/
theorem Volume.write_reaches (state : τ) (lba : Nat) (buffer : Bytes) :
    Grown (log state) (log (volume.write state lba buffer).2) fun access =>
      (dry = true → access.writes = false) ∧
        access.Within capacity (offset + volume.start + lba) (sectorsOf buffer.length) ∧
          access.Within capacity (offset + volume.start) volume.sectors := by
  unfold Volume.write
  dsimp only
  split_ifs with nothing
  · exact Grown.refl _ _
  · have grown := reaches.write_reaches state _ _ (Volume.take_fits nothing)
    exact grown.mono fun access allowed => ⟨allowed.1, allowed.2.clamped nothing⟩

theorem Volume.toDisk_reaches : volume.toDisk.Reaches log capacity (offset + volume.start) dry where
  read_reaches state lba buffer fits := by
    refine (Volume.read_reaches reaches state lba buffer).mono ?_
    rintro access ⟨reads, within, _⟩
    exact ⟨reads, within⟩
  write_reaches state lba buffer fits := by
    refine (Volume.write_reaches reaches state lba buffer).mono ?_
    rintro access ⟨dries, within, _⟩
    exact ⟨dries, within⟩

end Volumes

section Overlays

variable {inner : Disk τ} (reaches : inner.Reaches log capacity offset dry)
    (small : inner.sectors ≤ 2 ^ 64)

include reaches small

/-- One sector of a write on an overlay at most reads it below. -/
theorem RamOverlay.absorb_reaches (lba : Nat) (buffer : Bytes) (state : τ × Shadow) (index : Nat)
    (inside : lba + index < inner.sectors) :
    Grown (log state.1) (log (absorb inner lba buffer state index).1) fun access =>
        access.writes = false ∧ access.Within capacity (offset + (lba + index)) 1 := by
  have number : (lba + index) % 2 ^ 64 = lba + index := Nat.mod_eq_of_lt (by omega)
  simp only [absorb, number]
  split_ifs
  · exact Grown.refl _ _
  · have grown := reaches.read_reaches state.1 (lba + index) (zeros 512)
      (by rw [length_zeros]; exact inside)
    rw [length_zeros] at grown
    exact grown

theorem RamOverlay.write_reaches (state : τ × Shadow) (lba : Nat) (buffer : Bytes) :
    ∀ count, lba + count ≤ inner.sectors →
      Grown (log state.1) (log ((List.range count).foldl (absorb inner lba buffer) state).1)
        fun access =>
          access.writes = false ∧ access.Within capacity (offset + lba) count := by
  intro count
  induction count with
  | zero => exact fun _ => Grown.refl _ _
  | succ count induction =>
    intro fits
    rw [List.range_succ, List.foldl_append]
    refine ((induction (by omega)).mono ?_).trans
      ((absorb_reaches reaches small lba buffer _ count (by omega)).mono ?_)
    · rintro access ⟨reads, least, most, on_device⟩
      exact ⟨reads, least, by omega, on_device⟩
    · rintro access ⟨reads, least, most, on_device⟩
      exact ⟨reads, by omega, by omega, on_device⟩

/-- An overlay is dry. -/
theorem RamOverlay.wrap_reaches :
    (wrap inner).Reaches (fun state => log state.1) capacity offset true where
  read_reaches state lba buffer fits := reaches.read_reaches state.1 lba buffer fits
  write_reaches state lba buffer fits := by
    refine (RamOverlay.write_reaches reaches small state lba buffer _ fits).mono ?_
    rintro access ⟨reads, within⟩
    exact ⟨fun _ => reads, within⟩

end Overlays

end Layers

/-! ## Nests -/

/-- A volume of a disk or an overlay over it. -/
inductive Layer where
  | extent (start sectors : Nat)
  | overlay

section Nests

variable {σ : Type}

/-- The state of a nest: the device with its log, and the shadows. -/
def NestState (σ : Type) : List Layer → Type
  | [] => σ × List Access
  | .extent _ _ :: rest => NestState σ rest
  | .overlay :: rest => NestState σ rest × Shadow

/-- Layers over a device, the outermost one first. -/
def nest (device : Disk σ) : (layers : List Layer) → Disk (NestState σ layers)
  | [] => device.logged
  | .extent start sectors :: rest => (Volume.new (nest device rest) start sectors).toDisk
  | .overlay :: rest => wrap (nest device rest)

/-- The accesses the device received. -/
def accesses : (layers : List Layer) → NestState σ layers → List Access
  | [], state => state.2
  | .extent _ _ :: rest, state => accesses rest state
  | .overlay :: rest, state => accesses rest state.1

/-- The sector of the device at which a nest starts. -/
def offset : List Layer → Nat
  | [] => 0
  | .extent start _ :: rest => offset rest + start
  | .overlay :: rest => offset rest

/-- There is an overlay in the nest. -/
def shielded : List Layer → Bool
  | [] => false
  | .extent _ _ :: rest => shielded rest
  | .overlay :: _ => true

theorem nest_sectors_le (device : Disk σ) (layers : List Layer) :
    (nest device layers).sectors ≤ device.sectors := by
  induction layers with
  | nil => exact le_rfl
  | cons layer rest induction =>
    cases layer with
    | extent start sectors =>
      refine le_trans ?_ induction
      exact (min_le_right _ _).trans (Nat.sub_le _ _)
    | overlay => exact induction

theorem nest_reaches (device : Disk σ) (small : device.sectors ≤ 2 ^ 64) (layers : List Layer) :
    (nest device layers).Reaches (accesses layers) device.sectors
      (offset layers) (shielded layers) := by
  induction layers with
  | nil => exact device.logged_reaches
  | cons layer rest induction =>
    cases layer with
    | extent start sectors => exact Volume.toDisk_reaches induction
    | overlay => exact RamOverlay.wrap_reaches induction ((nest_sectors_le device rest).trans small)

/-! ## What a nest shows -/

/-- The bytes of a nest over a device with an image. -/
def contents (image : σ → Nat → UInt8) : (layers : List Layer) → NestState σ layers → Nat → UInt8
  | [], state => image state.1
  | .extent start _ :: rest, state =>
    fun position => contents image rest state (start * 512 + position)
  | .overlay :: rest, state => overlaid state.2 (contents image rest state.1)

theorem Volume.read_shows {τ : Type} {volume : Volume τ}
    {image : τ → Nat → UInt8} (shows : volume.disk.Shows image) (state : τ)
    (lba : Nat) (buffer : Bytes) :
    (volume.read state lba buffer).1.2 = volume.holds image state lba buffer.length := by
  unfold Volume.read Volume.holds
  dsimp only
  split_ifs with nothing
  · rw [nothing, window_zero, List.nil_append]
  · rw [shows.read_shows state _ _ (Volume.take_fits nothing),
      List.length_take_of_le (volume.clamp_le _ _), Nat.add_mul]
    unfold Volume.contents
    rw [window_shift]

theorem Volume.toDisk_shows {τ : Type} {volume : Volume τ}
    {image : τ → Nat → UInt8} (shows : volume.disk.Shows image) :
    volume.toDisk.Shows (volume.contents image) where
  read_image state lba buffer := by
    have same : image (volume.read state lba buffer).2 = image state := by
      unfold Volume.read
      dsimp only
      split_ifs
      · rfl
      · exact shows.read_image _ _ _
    unfold Volume.contents
    rw [← same]
    rfl
  read_shows state lba buffer fits := by
    have held := Volume.read_shows shows state lba buffer
    rw [Volume.holds, Volume.clamp_of_le fits, Nat.sub_self, zeros,
      List.replicate_zero, List.append_nil] at held
    exact held

theorem nest_shows {device : Disk σ} {image : σ → Nat → UInt8}
    (shows : device.Shows image) (small : device.sectors ≤ 2 ^ 64)
    (layers : List Layer) :
    (nest device layers).Shows (contents image layers) := by
  induction layers with
  | nil =>
    exact
      { read_image := fun state => shows.read_image state.1
        read_shows := fun state => shows.read_shows state.1 }
  | cons layer rest induction =>
    cases layer with
    | extent start sectors => exact Volume.toDisk_shows induction
    | overlay => exact wrap_shows induction ((nest_sectors_le device rest).trans small)

end Nests

end RetroOS.Block
