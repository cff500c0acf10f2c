import Mathlib.Data.List.ReduceOption
import RetroOS.Block.Overlay

/-!
# Partition tables

A scan reads the first sector of a disk and returns the entries of the table
that it finds there, or of the GPT that it announces.  The array of a GPT is
read sector by sector into one buffer; a read that fails leaves the buffer as
it was.

`flakyDisk` is a disk with any contents whose reads fail in any pattern, and
`declared` is what its tables declare in the sectors that could be read.
-/

namespace RetroOS.Block

open Lib Lib.Bytes
open RamOverlay (spliced)

inductive PartKind where
  | linux
  | fat
  | bootBundle
  | other (ty : UInt8)
  deriving DecidableEq

/-- Classify an MBR type byte. -/
def PartKind.fromMbr (ty : UInt8) : PartKind :=
  if ty = 0x83 then .linux
  else if ty ∈ [0x01, 0x04, 0x06, 0x0B, 0x0C, 0x0E] then .fat
  else if ty = 0xDA then .bootBundle
  else .other ty

structure Partition (σ : Type) where
  volume : Volume σ
  kind : PartKind

/-! ## Scanning -/

section Scan

variable {σ : Type} (disk : Volume σ)

def isProtectiveMbr (mbr : Bytes) : Bool :=
  (List.range 4).any fun i => mbr.getD (0x1BE + i * 16 + 4) 0 = 0xEE

/-- The four primary entries. -/
def selfMbr (mbr : Bytes) : List (Partition σ) :=
  (List.range 4).filterMap fun i =>
    let base := 0x1BE + i * 16
    let ty := mbr.getD (base + 4) 0
    let start := leAt 4 mbr (base + 8)
    let sectors := leAt 4 mbr (base + 12)
    if ty = 0 ∨ start = 0 ∨ sectors = 0 then none
    else some { volume := .new disk.disk start sectors, kind := .fromMbr ty }

structure GptHeader where
  entryLba : Nat
  numEntries : Nat
  entrySize : Nat
  deriving DecidableEq

/-- The header of a GPT, with at most 256 entries of a size that divides a sector. -/
def gptHeader (hdr : Bytes) : Option GptHeader :=
  if slice hdr 0 8 ≠ [0x45, 0x46, 0x49, 0x20, 0x50, 0x41, 0x52, 0x54] then none
  else
    let entryLba := leAt 8 hdr 0x48
    let numEntries := min (leAt 4 hdr 0x50) 256
    let entrySize := leAt 4 hdr 0x54
    if entrySize = 0 ∨ entryLba = 0 ∨ 512 % entrySize ≠ 0 then none
    else some { entryLba, numEntries, entrySize }

namespace GptHeader

def perSector (header : GptHeader) : Nat := 512 / header.entrySize

/-- The sectors of the array that a scan visits. -/
def visited (header : GptHeader) : Nat :=
  (header.numEntries + header.perSector - 1) / header.perSector

end GptHeader

/-- The partition of an entry, unless the entry is empty. -/
def gptEntry (buf : Bytes) (off : Nat) : Option (Partition σ) :=
  if (slice buf off 16).all (· = 0) then none
  else
    let first := leAt 8 buf (off + 32)
    let last := leAt 8 buf (off + 40)
    if first = 0 ∨ last < first then none
    else some { volume := .new disk.disk first (last - first + 1), kind := .other 0 }

/-- One slot of the buffer; `none` is an access outside the buffer. -/
def gptSlot (buf : Bytes) (off : Nat) : Option (Option (Partition σ)) :=
  if 512 < off + 16 then none
  else if (slice buf off 16).all (· = 0) then some none
  else if 512 < off + 48 then none
  else some (gptEntry disk buf off)

/-- The slots of `remaining` sectors; `none` is a panic. -/
def gptSectors (header : GptHeader) : (remaining s : Nat) → σ → (buf : Bytes) →
    Option (List (Partition σ))
  | 0, _, _, _ => some []
  | remaining + 1, s, state, buf =>
    if 2 ^ 64 ≤ header.entryLba + s then none
    else
      let ((_, buf), after) := disk.read state (header.entryLba + s) buf
      match (List.range header.perSector).mapM fun e => gptSlot disk buf (e * header.entrySize) with
      | none => none
      | some slots =>
        (gptSectors header remaining (s + 1) after buf).map fun rest => slots.reduceOption ++ rest

def gpt (state : σ) : Option (List (Partition σ)) :=
  let ((_, hdr), after) := disk.read state 1 (zeros 512)
  match gptHeader hdr with
  | none => some []
  | some header => gptSectors disk header header.visited 0 after (zeros 512)

def scan (state : σ) : Option (List (Partition σ)) :=
  let ((_, mbr), after) := disk.read state 0 (zeros 512)
  if isProtectiveMbr mbr then gpt disk after else some (selfMbr disk mbr)

end Scan

/-! ## What is declared -/

/-- A disk that fails a read, by its number and sector, in a pattern. -/
def flakyDisk (sectors : Nat) (image : Nat → UInt8) (fails : Nat → Nat → Bool) : Disk Nat where
  sectors
  read number lba buffer :=
    if fails number lba then ((0, buffer), number + 1)
    else ((sectorsOf buffer.length, window image (lba * 512) buffer.length), number + 1)
  write number _ _ := (0, number)

section Declared

variable (sectors : Nat) (image : Nat → UInt8) (fails : Nat → Nat → Bool)

/-- The contents of a sector, if the read of a number can get them. -/
def readable (number lba : Nat) : Option Bytes :=
  if lba < sectors ∧ fails number lba = false then some (window image (lba * 512) 512) else none

/-- The partition that an entry of the array declares. -/
def declaredEntry (header : GptHeader) (index : Nat) : Option (Partition Nat) :=
  let s := index / header.perSector
  (readable sectors image fails (2 + s) (header.entryLba + s)).bind fun buf =>
    gptEntry (.whole (flakyDisk sectors image fails)) buf
      (index % header.perSector * header.entrySize)

/-- What the tables declare. -/
def declared : List (Partition Nat) :=
  match readable sectors image fails 0 0 with
  | none => []
  | some mbr =>
    if isProtectiveMbr mbr then
      match (readable sectors image fails 1 1).bind gptHeader with
      | none => []
      | some header =>
        (List.range header.numEntries).filterMap (declaredEntry sectors image fails header)
    else selfMbr (.whole (flakyDisk sectors image fails)) mbr

/--
Entries have 16 bytes at least and a used slot has 48 bytes left in its
sector, the sectors of the array have 64-bit numbers, no read of the array
fails behind one that did not, and the slots behind the last entry are empty.
-/
structure ArrayRegular (header : GptHeader) : Prop where
  wide : 0 < header.visited → 16 ≤ header.entrySize
  contained :
    ∀ s < header.visited, ∀ buf ∈ readable sectors image fails (2 + s) (header.entryLba + s),
      ∀ e < header.perSector, (slice buf (e * header.entrySize) 16).all (· = 0) = false →
        e * header.entrySize + 48 ≤ 512
  addressed : header.entryLba + header.visited ≤ 2 ^ 64
  steady :
    ∀ s < header.visited, ∀ t < s, header.entryLba + s < sectors →
      fails (2 + s) (header.entryLba + s) = true → fails (2 + t) (header.entryLba + t) = true
  spare :
    ∀ index < header.visited * header.perSector, header.numEntries ≤ index →
      (declaredEntry sectors image fails header index).isNone = true

/-- A disk whose GPT, if it has one, has a regular array. -/
def TableRegular : Prop :=
  ∀ mbr ∈ readable sectors image fails 0 0, isProtectiveMbr mbr = true →
    ∀ header ∈ (readable sectors image fails 1 1).bind gptHeader,
      ArrayRegular sectors image fails header

end Declared

/-! ## Reading a flaky disk -/

section Flaky

variable {sectors : Nat} {image : Nat → UInt8} {fails : Nat → Nat → Bool}

theorem sectorsOf_512 : sectorsOf 512 = 1 := rfl

theorem flaky_read_past (number : Nat) {lba : Nat} {buffer : Bytes} (past : sectors ≤ lba)
    (length : buffer.length = 512) :
    (Volume.whole (flakyDisk sectors image fails)).read number lba buffer =
      ((0, zeros 512), number) := by
  have none : (Volume.whole (flakyDisk sectors image fails)).clamp lba buffer.length = 0 := by
    have behind : (Volume.whole (flakyDisk sectors image fails)).sectors - lba = 0 :=
      Nat.sub_eq_zero_of_le past
    simp only [Volume.clamp, behind, Nat.zero_min, Nat.zero_mul]
  rw [length] at none
  simp only [Volume.read, length, none, if_true, Nat.sub_zero]

theorem flaky_read_inside (number : Nat) {lba : Nat} {buffer : Bytes} (inside : lba < sectors)
    (length : buffer.length = 512) :
    (Volume.whole (flakyDisk sectors image fails)).read number lba buffer =
      if fails number lba then ((0, buffer), number + 1)
      else ((1, window image (lba * 512) 512), number + 1) := by
  have fits : lba + sectorsOf buffer.length ≤
      (Volume.whole (flakyDisk sectors image fails)).sectors := by
    rw [length, sectorsOf_512]
    exact inside
  have all := Volume.clamp_of_le fits
  have some : buffer.length ≠ 0 := by omega
  simp only [Volume.read, all, if_neg some, List.take_length, Nat.sub_self, zeros,
    List.replicate_zero, List.append_nil]
  simp only [Volume.whole, flakyDisk, Nat.zero_add, length, sectorsOf_512]

theorem flaky_read_readable {number lba : Nat} {bytes : Bytes}
    (read : readable sectors image fails number lba = some bytes) :
    (Volume.whole (flakyDisk sectors image fails)).read number lba (zeros 512) =
      ((1, bytes), number + 1) := by
  unfold readable at read
  split_ifs at read with able
  rw [flaky_read_inside number able.1 (length_zeros 512), able.2, ← Option.some.inj read]
  rfl

theorem flaky_read_unreadable {number lba : Nat}
    (unread : readable sectors image fails number lba = none) :
    ((Volume.whole (flakyDisk sectors image fails)).read number lba (zeros 512)).1.2 =
      zeros 512 := by
  unfold readable at unread
  split_ifs at unread with able
  rcases Nat.lt_or_ge lba sectors with inside | past
  · have failed : fails number lba = true := by simpa [inside] using able
    rw [flaky_read_inside number inside (length_zeros 512), failed]
    rfl
  · rw [flaky_read_past number past (length_zeros 512)]

/-! ## The array -/

variable {header : GptHeader}

theorem empty_zeros (off : Nat) : (slice (zeros 512) off 16).all (· = 0) = true := by
  refine List.all_eq_true.mpr fun byte member => ?_
  have zero := List.eq_of_mem_replicate (List.mem_of_mem_drop (List.mem_of_mem_take member))
  exact decide_eq_true zero

theorem gptEntry_zeros {σ : Type} (disk : Volume σ) (off : Nat) :
    gptEntry disk (zeros 512) off = none := by
  rw [gptEntry, if_pos (empty_zeros off)]

theorem mapM_eq_some_map {α β : Type} {f : α → Option β} {g : α → β} {items : List α}
    (each : ∀ item ∈ items, f item = some (g item)) : items.mapM f = some (items.map g) := by
  induction items with
  | nil => rfl
  | cons item rest induction =>
    rw [List.mapM_cons, each item List.mem_cons_self,
      induction fun other member => each other (List.mem_cons_of_mem _ member)]
    rfl

theorem selfMbr_zeros {σ : Type} (disk : Volume σ) : selfMbr disk (zeros 512) = [] := by
  refine List.filterMap_eq_nil_iff.mpr fun i _ => ?_
  have empty : (zeros 512).getD (0x1BE + i * 16 + 4) 0 = 0 := by
    rw [zeros, List.getD_eq_getElem?_getD, List.getElem?_replicate]
    split_ifs <;> rfl
  simp only [empty, true_or, if_true]

theorem perSector_pos {hdr : Bytes} (parsed : gptHeader hdr = some header) :
    0 < header.perSector := by
  unfold gptHeader at parsed
  dsimp only at parsed
  split_ifs at parsed with unsigned unusable
  obtain rfl := Option.some.inj parsed
  simp only [not_or, not_not] at unusable
  exact Nat.div_pos (Nat.le_of_dvd (by decide) (Nat.dvd_of_mod_eq_zero unusable.2.2))
    (Nat.pos_of_ne_zero unusable.1)

/-- A buffer whose used slots lie inside it. -/
theorem slots_of_contained {σ : Type} (disk : Volume σ) (wide : 16 ≤ header.entrySize) {buf : Bytes}
    (contained :
      ∀ e < header.perSector, (slice buf (e * header.entrySize) 16).all (· = 0) = false →
        e * header.entrySize + 48 ≤ 512) :
    ((List.range header.perSector).mapM fun e => gptSlot disk buf (e * header.entrySize)) =
      some ((List.range header.perSector).map fun e =>
        gptEntry disk buf (e * header.entrySize)) := by
  refine mapM_eq_some_map fun e member => ?_
  have bound := List.mem_range.mp member
  have inside : (e + 1) * header.entrySize ≤ 512 :=
    (Nat.mul_le_mul_right _ bound).trans (Nat.div_mul_le_self 512 _)
  rw [Nat.add_one_mul] at inside
  rw [gptSlot, if_neg (by omega)]
  by_cases empty : (slice buf (e * header.entrySize) 16).all (· = 0) = true
  · rw [if_pos empty, gptEntry, if_pos empty]
  · have fits := contained e bound (Bool.eq_false_iff.mpr empty)
    rw [if_neg empty, if_neg (by omega)]

/-- The entries of a sector of the array. -/
def sectorEntries (sectors : Nat) (image : Nat → UInt8) (fails : Nat → Nat → Bool)
    (header : GptHeader) (s : Nat) : List (Partition Nat) :=
  (List.range header.perSector).filterMap fun e =>
    (readable sectors image fails (2 + s) (header.entryLba + s)).bind fun buf =>
      gptEntry (.whole (flakyDisk sectors image fails)) buf (e * header.entrySize)

/--
The buffer is empty, or a read filled it before; the next read has its number
as long as it is on the disk.
-/
theorem gptSectors_eq (regular : ArrayRegular sectors image fails header) {remaining s : Nat}
    {number : Nat} {buf : Bytes} (rest : s + remaining = header.visited)
    (numbered : header.entryLba + s < sectors → number = 2 + s) (length : buf.length = 512)
    (filled : buf = zeros 512 ∨ ∃ t < s, fails (2 + t) (header.entryLba + t) = false) :
    gptSectors (.whole (flakyDisk sectors image fails)) header remaining s number buf =
      some ((List.range' s remaining).flatMap (sectorEntries sectors image fails header)) := by
  induction remaining generalizing s number buf with
  | zero => rfl
  | succ remaining induction =>
    have addressed := regular.addressed
    -- The entries in the buffer after the read are those that the sector declares.
    have finish : ∀ (count : Nat) (loaded : Bytes) (next : Nat),
        (Volume.whole (flakyDisk sectors image fails)).read number (header.entryLba + s) buf =
          ((count, loaded), next) →
        (∀ off, gptEntry (.whole (flakyDisk sectors image fails)) loaded off =
          (readable sectors image fails (2 + s) (header.entryLba + s)).bind fun buf =>
            gptEntry (.whole (flakyDisk sectors image fails)) buf off) →
        (header.entryLba + (s + 1) < sectors → next = 2 + (s + 1)) →
        loaded.length = 512 →
        (∀ e < header.perSector, (slice loaded (e * header.entrySize) 16).all (· = 0) = false →
          e * header.entrySize + 48 ≤ 512) →
        (loaded = zeros 512 ∨ ∃ t < s + 1, fails (2 + t) (header.entryLba + t) = false) →
        gptSectors (.whole (flakyDisk sectors image fails)) header (remaining + 1) s number buf =
          some ((List.range' s (remaining + 1)).flatMap
            (sectorEntries sectors image fails header)) := by
      intro count loaded next read entries numbered length contained filled
      have tail := induction (by omega) numbered length filled
      rw [gptSectors, if_neg (by omega), read, List.range'_succ, List.flatMap_cons]
      simp only [slots_of_contained _ (regular.wide (by omega)) contained, tail, Option.map_some, List.reduceOption,
        List.filterMap_map, Function.comp_def, id_eq, entries, sectorEntries]
    rcases Nat.lt_or_ge (header.entryLba + s) sectors with inside | past
    · obtain rfl := numbered inside
      have read : (Volume.whole (flakyDisk sectors image fails)).read _ _ _ = _ :=
        flaky_read_inside (2 + s) inside length
      cases failed : fails (2 + s) (header.entryLba + s) with
      | false =>
        simp only [failed, Bool.false_eq_true, if_false] at read
        have able : readable sectors image fails (2 + s) (header.entryLba + s) =
            some (window image ((header.entryLba + s) * 512) 512) :=
          if_pos ⟨inside, failed⟩
        have contained := regular.contained s (by omega) _ (Option.mem_def.mpr able)
        refine finish _ _ _ read (fun off => ?_) (fun _ => rfl) (by simp only [length_window])
          contained (.inr ⟨s, Nat.lt_succ_self s, failed⟩)
        rw [able, Option.bind_some]
      | true =>
        simp only [failed, if_true] at read
        have empty : buf = zeros 512 := by
          rcases filled with empty | ⟨t, before, succeeded⟩
          · exact empty
          · have fell := regular.steady s (by omega) t before inside failed
            rw [succeeded] at fell
            cases fell
        subst empty
        refine finish _ _ _ read (fun off => ?_) (fun _ => rfl) (length_zeros 512) (fun e _ used => ?_)
          (.inl rfl)
        have unread : readable sectors image fails (2 + s) (header.entryLba + s) = none := by
          simp [readable, failed]
        · rw [unread]
          exact gptEntry_zeros _ off
        · exact absurd ((empty_zeros _).symm.trans used) (by decide)
    · refine finish _ _ _ (flaky_read_past number past length) (fun off => ?_) (by omega)
        (length_zeros 512) (fun e _ used => ?_) (.inl rfl)
      · rw [readable, if_neg (by omega)]
        exact gptEntry_zeros _ off
      · exact absurd ((empty_zeros _).symm.trans used) (by decide)

/-- The sectors of an array list the entries of the array in order. -/
theorem flatMap_sectorEntries (positive : 0 < header.perSector) (count : Nat) :
    (List.range count).flatMap (sectorEntries sectors image fails header) =
      (List.range (count * header.perSector)).filterMap
        (declaredEntry sectors image fails header) := by
  induction count with
  | zero => simp
  | succ count induction =>
    rw [List.range_succ, List.flatMap_append, induction, Nat.add_one_mul, List.range_add,
      List.filterMap_append, List.filterMap_map]
    simp only [List.flatMap_cons, List.flatMap_nil, List.append_nil, sectorEntries]
    congr 1
    refine List.filterMap_congr fun e member => ?_
    have inside := List.mem_range.mp member
    have place : (count * header.perSector + e) / header.perSector = count := by
      rw [Nat.mul_comm, Nat.mul_add_div positive, Nat.div_eq_of_lt inside, Nat.add_zero]
    have slot : (count * header.perSector + e) % header.perSector = e := by
      rw [Nat.mul_comm, Nat.mul_add_mod, Nat.mod_eq_of_lt inside]
    simp only [Function.comp_apply, declaredEntry, place, slot]

/-- Behind its last entry the array declares nothing. -/
theorem array_declared (regular : ArrayRegular sectors image fails header)
    (positive : 0 < header.perSector) :
    (List.range header.visited).flatMap (sectorEntries sectors image fails header) =
      (List.range header.numEntries).filterMap (declaredEntry sectors image fails header) := by
  have covers : header.numEntries ≤ header.visited * header.perSector := by
    have divided := Nat.div_add_mod (header.numEntries + header.perSector - 1) header.perSector
    have rest := Nat.mod_lt (header.numEntries + header.perSector - 1) positive
    rw [GptHeader.visited, Nat.mul_comm]
    omega
  obtain ⟨extra, total⟩ := Nat.exists_eq_add_of_le covers
  rw [flatMap_sectorEntries positive, total, List.range_add, List.filterMap_append,
    List.filterMap_map]
  refine (congrArg _ (List.filterMap_eq_nil_iff.mpr fun index member => ?_)).trans
    (List.append_nil _)
  have behind := List.mem_range.mp member
  exact Option.isNone_iff_eq_none.mp
    (regular.spare (header.numEntries + index) (by omega) (Nat.le_add_right _ _))

end Flaky

/-- A disk of zeros but for some bytes. -/
def imageOf (patches : List (Nat × Bytes)) : Nat → UInt8 :=
  patches.foldr (fun patch image => spliced image patch.1 patch.2) fun _ => 0

/-- A protective MBR and the header of a GPT in sector 1. -/
def gptPatches (entryLba numEntries entrySize : Nat) : List (Nat × Bytes) :=
  [(0x1C2, [0xEE]), (512, [0x45, 0x46, 0x49, 0x20, 0x50, 0x41, 0x52, 0x54]),
    (512 + 0x48, leBytes 8 entryLba ++ leBytes 4 numEntries ++ leBytes 4 entrySize)]

/-- An entry for a range of sectors. -/
def entryPatch (position first last : Nat) : Nat × Bytes :=
  (position, [1] ++ zeros 31 ++ leBytes 8 first ++ leBytes 8 last)

/-- What a scan returned, if it did: starts and lengths. -/
def extents (result : Option (List (Partition Nat))) : Option (List (Nat × Nat)) :=
  result.map fun found => found.map fun entry => (entry.volume.start, entry.volume.sectors)

/-- A GPT with two entries of which one ends past the disk. -/
def twoEntries : Nat → UInt8 :=
  imageOf (gptPatches 2 5 128 ++ [entryPatch 1024 6 7, entryPatch 1536 8 99])

end RetroOS.Block
