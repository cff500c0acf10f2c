import RetroOS.Ext.Journal

/-!
# Descriptor encoding and decoding

`putTags` writes one tag for each dirty block and `parseTags` reads them
back.  The two are compared for all three tag layouts.  A layout has room
for 64-bit block numbers when it is the checksummed one or the 64-bit
feature is on; the narrow layout keeps the low half of a block number only
(`storedTarget`), and a transaction survives it exactly when all its block
numbers fit.
-/

namespace RetroOS.Ext.Journal

open Lib Lib.Bytes
open Query hiding bind done eval fail read

variable {E : Type}

/-! ## One tag -/

theorem Format.tagLen_cases (format : Format) :
    (format.CsumV3 ∧ format.tagLen = 16) ∨
      (¬ format.CsumV3 ∧ format.Is64Bit ∧ format.tagLen = 12) ∨
        (¬ format.CsumV3 ∧ ¬ format.Is64Bit ∧ format.tagLen = 8) := by
  unfold Format.tagLen
  by_cases v3 : format.CsumV3
  · exact .inl ⟨v3, if_pos v3⟩
  · by_cases wide : format.Is64Bit
    · exact .inr (.inl ⟨v3, wide, by rw [if_neg v3, if_pos wide]⟩)
    · exact .inr (.inr ⟨v3, wide, by rw [if_neg v3, if_neg wide]⟩)

/-- The bytes of the tag `putTag` stores. -/
def tagBytes (format : Format) (block : DirtyBlock) (flags : Nat) : Bytes :=
  beBytes 4 block.number ++
    if format.CsumV3 then
      beBytes 4 flags ++ (beBytes 4 (block.number >>> 32) ++ beBytes 4
            (dataChecksum format format.sequence (journalData block)))
    else
      beBytes 2 0 ++ (beBytes 2 flags ++
          if format.Is64Bit then beBytes 4 (block.number >>> 32) else [])

@[simp]
theorem length_tagBytes (format : Format) (block : DirtyBlock) (flags : Nat) :
    (tagBytes format block flags).length = format.tagLen := by
  unfold tagBytes
  rcases format.tagLen_cases with
    ⟨v3, len⟩ | ⟨v3, wide, len⟩ | ⟨v3, wide, len⟩
  · simp [v3, len]
  · simp [v3, wide, len]
  · simp [v3, wide, len]

theorem putTag_eq (format : Format) (block : DirtyBlock) (flags : Nat)
    {descriptor : Bytes} {cursor : Nat}
    (fits : cursor ≤ descriptor.length) :
    putTag format block flags descriptor cursor =
      put descriptor cursor (tagBytes format block flags) := by
  have append (written : Bytes) {next width : Nat} (value : Nat)
      (adjacent : next = cursor + written.length) :
      putBe width (put descriptor cursor written) next value =
        put descriptor cursor (written ++ beBytes width value) :=
    put_put_adjacent fits adjacent
  have first :
      putBe32 descriptor cursor block.number = put descriptor cursor (beBytes 4 block.number) :=
    rfl
  unfold putTag tagBytes
  simp only [first, putBe32, putBe16]
  by_cases v3 : format.CsumV3
  · simp only [if_pos v3]
    rw [append _ _ (by simp), append _ _ (by simp), append _ _ (by simp)]
    simp only [List.append_assoc]
  · simp only [if_neg v3]
    rw [append _ _ (by simp), append _ _ (by simp)]
    split
    · rw [append _ _ (by simp)]
      simp only [List.append_assoc]
    · simp only [List.append_assoc, List.append_nil]

/-- The block number a tag can carry. -/
def storedTarget (format : Format) (number : Nat) : Nat :=
  number % 2 ^ 32 ||| ((if format.CsumV3 ∨ format.Is64Bit then number >>> 32 % 2 ^ 32
      else 0) <<< 32)

/-- The tag `putTag` stores. -/
def storedTag (format : Format) (block : DirtyBlock) (flags : Nat) : Tag where
  target := storedTarget format block.number
  flags := flags
  checksum :=
    if format.CsumV3 then dataChecksum format format.sequence (journalData block) % 2 ^ 32
    else 0

@[simp]
theorem storedTag_flags (format : Format) (block : DirtyBlock) (flags : Nat) :
    (storedTag format block flags).flags = flags :=
  rfl

theorem storedTarget_wide {format : Format} {number : Nat}
    (wide : format.CsumV3 ∨ format.Is64Bit) (bound : number < 2 ^ 64) :
    storedTarget format number = number := by
  have high : number >>> 32 % 2 ^ 32 = number >>> 32 := by
    apply Nat.mod_eq_of_lt
    rw [Nat.shiftRight_eq_div_pow]
    omega
  have low : number % 2 ^ 32 < 2 ^ 32 := Nat.mod_lt _ (by decide)
  rw [storedTarget, if_pos wide, high, Nat.or_comm,
    ← Nat.shiftLeft_add_eq_or_of_lt low, Nat.shiftLeft_eq,
    Nat.shiftRight_eq_div_pow, Nat.div_add_mod']

theorem storedTarget_narrow {format : Format}
    (narrow : ¬ (format.CsumV3 ∨ format.Is64Bit)) (number : Nat) :
    storedTarget format number = number % 2 ^ 32 := by
  rw [storedTarget, if_neg narrow]
  simp

theorem readTag_of_slice {format : Format} {block : DirtyBlock} {flags : Nat}
    {bytes : Bytes} {cursor : Nat}
    (known : slice bytes cursor format.tagLen = tagBytes format block flags)
    (small : flags < 2 ^ 16) :
    readTag format bytes cursor = storedTag format block flags := by
  have field (width inner : Nat) (inside : inner + width ≤ format.tagLen) :
      beAt width bytes (cursor + inner) =
        beNat (slice (tagBytes format block flags) inner width) := by
    apply beAt_of_slice
    · rw [length_tagBytes]
      exact known
    · rw [length_tagBytes]
      exact inside
  have wideFlags : flags % 256 ^ 4 = flags := by
    apply Nat.mod_eq_of_lt
    omega
  have narrowFlags : flags % 256 ^ 2 = flags := Nat.mod_eq_of_lt small
  have low := field 4 0
  rw [Nat.add_zero] at low
  rcases format.tagLen_cases with
    ⟨v3, len⟩ | ⟨v3, wide, len⟩ | ⟨v3, wide, len⟩
  · have high := field 4 8
    have flagsField := field 4 4
    have checksum := field 4 12
    simp [len, tagBytes, v3, slice_append_of_le, slice_append_of_ge,
      slice_all_of_length, beNat_beBytes] at low high flagsField checksum
    simp [readTag, storedTag, storedTarget, v3, low, high, flagsField, checksum]
    omega
  · have high := field 4 8
    have flagsField := field 2 6
    have checksum := field 2 4
    simp [len, tagBytes, v3, wide, slice_append_of_le, slice_append_of_ge,
      slice_all_of_length, beNat_beBytes] at low high flagsField checksum
    simp [readTag, storedTag, storedTarget, v3, wide, low, high, flagsField, checksum]
    omega
  · have flagsField := field 2 6
    have checksum := field 2 4
    simp [len, tagBytes, v3, wide, slice_append_of_le, slice_append_of_ge,
      slice_all_of_length, beNat_beBytes] at low flagsField checksum
    simp [readTag, storedTag, storedTarget, v3, wide, low, flagsField, checksum]
    omega

/-! ## Flags -/

section Flags

variable (block : DirtyBlock) (index count : Nat)

theorem tagFlags_lt : tagFlags block index count < 2 ^ 16 := by
  unfold tagFlags
  split_ifs <;> decide

theorem tagFlags_known : clearBits (tagFlags block index count) knownFlags = 0 := by
  unfold tagFlags
  split_ifs <;> decide

theorem tagFlags_sameUuid : HasBits (tagFlags block index count) flagSameUuid ↔ index ≠ 0 := by
  unfold tagFlags
  split_ifs
  all_goals
    first
    | exact iff_of_true (by decide) (by assumption)
    | exact iff_of_false (by decide) (not_not.mpr (by assumption))

theorem tagFlags_escape : HasBits (tagFlags block index count) flagEscape ↔ Escaped block := by
  unfold tagFlags
  split_ifs
  all_goals
    first
    | exact iff_of_true (by decide) (by assumption)
    | exact iff_of_false (by decide) (by assumption)

theorem tagFlags_deleted : ¬ HasBits (tagFlags block index count) flagDeleted := by
  unfold tagFlags
  split_ifs <;> decide

theorem tagFlags_last : HasBits (tagFlags block index count) flagLast ↔ index + 1 = count := by
  unfold tagFlags
  split_ifs
  all_goals
    first
    | exact iff_of_true (by decide) (by assumption)
    | exact iff_of_false (by decide) (by assumption)

end Flags

/-! ## All tags -/

/-- The bytes `putTags` stores for the blocks from an index on. -/
def tagsBytes (format : Format) (count : Nat) : List DirtyBlock → (index : Nat) → Bytes
  | [], _ => []
  | block :: rest, index =>
    tagBytes format block (tagFlags block index count) ++
      ((if index = 0 then format.uuid else []) ++ tagsBytes format count rest (index + 1))

/-- The tags of the blocks from an index on. -/
def storedTags (format : Format) (count : Nat) : List DirtyBlock → (index : Nat) → List Tag
  | [], _ => []
  | block :: rest, index =>
    storedTag format block (tagFlags block index count) :: storedTags format count rest (index + 1)

theorem length_tagsBytes_succ (format : Format) (count : Nat)
    (blocks : List DirtyBlock) (index : Nat) :
    (tagsBytes format count blocks (index + 1)).length = blocks.length * format.tagLen := by
  induction blocks generalizing index with
  | nil => simp [tagsBytes]
  | cons block rest induction =>
    simp only [tagsBytes, Nat.add_one_ne_zero, if_false,
      List.nil_append, List.length_append, length_tagBytes, induction,
      List.length_cons, Nat.succ_mul]
    omega

theorem length_tagsBytes_zero {format : Format} (uuidLength : format.uuid.length = 16) (count : Nat)
    {blocks : List DirtyBlock} (nonempty : blocks ≠ []) :
    (tagsBytes format count blocks 0).length = blocks.length * format.tagLen + 16 := by
  cases blocks with
  | nil => contradiction
  | cons block rest =>
    simp only [tagsBytes, if_true, List.length_append, length_tagBytes,
      uuidLength, length_tagsBytes_succ, List.length_cons, Nat.succ_mul]
    omega

theorem putTags_eq {format : Format} (uuidLength : format.uuid.length = 16) (count : Nat)
    (blocks : List DirtyBlock) (index : Nat)
    {descriptor : Bytes} {cursor : Nat}
    (fits : cursor + (tagsBytes format count blocks index).length ≤ descriptor.length) :
    putTags format count blocks index cursor descriptor =
      put descriptor cursor (tagsBytes format count blocks index) := by
  induction blocks generalizing index descriptor cursor with
  | nil => simp [putTags, tagsBytes, put]
  | cons block rest induction =>
    simp only [tagsBytes, List.length_append, length_tagBytes] at fits
    have tagFits : cursor ≤ descriptor.length := by omega
    simp only [putTags, tagsBytes, putTag_eq _ _ _ tagFits]
    by_cases start : index = 0
    · simp only [if_pos start, uuidLength] at fits ⊢
      rw [put_put_adjacent tagFits (by rw [length_tagBytes]),
        induction, put_put_adjacent tagFits, List.append_assoc]
      · rw [List.length_append, length_tagBytes, uuidLength]
        omega
      · rw [length_put]
        · omega
        · rw [List.length_append, length_tagBytes, uuidLength]
          omega
    · simp only [if_neg start, List.nil_append, List.length_nil] at fits ⊢
      rw [induction, put_put_adjacent tagFits (by rw [length_tagBytes])]
      rw [length_put]
      · omega
      · rw [length_tagBytes]
        omega

/--
Parsing the stored bytes gives the stored tags.  The blocks are consumed in
order; the fuel of the parser only has to cover them.
-/
theorem parseTagsFrom_eq (answers : Answers (Error E)) {format : Format}
    (uuidLength : format.uuid.length = 16) {count : Nat}
    {bytes : Bytes} {stop : Nat}
    (blocks : List DirtyBlock) {index cursor fuel : Nat}
    {haveUuid : Bool} {tags : List Tag}
    (nonempty : blocks ≠ [])
    (counted : index + blocks.length = count)
    (uuidSeen : index = 0 ∨ haveUuid = true)
    (enough : blocks.length ≤ fuel)
    (fits : cursor + (tagsBytes format count blocks index).length ≤ stop)
    (known :
      slice bytes cursor (tagsBytes format count blocks index).length =
        tagsBytes format count blocks index) :
    (parseTagsFrom format bytes stop fuel cursor haveUuid tags).eval answers =
      .ok (tags ++ storedTags format count blocks index) := by
  induction blocks generalizing index cursor fuel haveUuid tags with
  | nil => contradiction
  | cons block rest induction =>
    obtain ⟨fuel, rfl⟩ : ∃ smaller, fuel = smaller + 1 :=
      ⟨fuel - 1, by simp only [List.length_cons] at enough; omega⟩
    have lengths :
        (tagsBytes format count (block :: rest) index).length =
          format.tagLen + ((if index = 0 then 16 else 0) +
            (tagsBytes format count rest (index + 1)).length) := by
      simp only [tagsBytes, List.length_append, length_tagBytes]
      split <;> simp [uuidLength]
    have inside {start count' : Nat} (fits :
          start + count' ≤ (tagsBytes format count (block :: rest) index).length) :
        slice bytes (cursor + start) count' =
          slice (tagsBytes format count (block :: rest) index) start
            count' := by
      rw [← slice_slice bytes fits, known]
    have tagKnown :
        slice bytes cursor format.tagLen = tagBytes format block (tagFlags block index count) := by
      rw [← Nat.add_zero cursor, inside (by omega), tagsBytes,
        slice_append_of_le (by simp), slice_all_of_length (by simp)]
    have uuidKnown (start : index = 0) : slice bytes (cursor + format.tagLen) 16 = format.uuid := by
      rw [inside (by rw [lengths, if_pos start]; omega), tagsBytes,
        if_pos start, slice_append_of_ge (by simp),
        slice_append_of_le (by simp [uuidLength])]
      simp [slice_all_of_length uuidLength]
    have restKnown :
        slice bytes
            (cursor + format.tagLen + if index = 0 then 16 else 0)
            (tagsBytes format count rest (index + 1)).length =
          tagsBytes format count rest (index + 1) := by
      rw [Nat.add_assoc, inside (by omega), tagsBytes, slice_append_of_ge (by simp)]
      by_cases start : index = 0
      · rw [if_pos start, if_pos start, slice_append_of_ge (by simp [uuidLength])]
        simp [uuidLength]
      · rw [if_neg start, if_neg start]
        simp
    have tagRead := readTag_of_slice tagKnown (tagFlags_lt block index count)
    have sameUuid := tagFlags_sameUuid block index count
    have last := tagFlags_last block index count
    simp only [parseTagsFrom, Query.bind_eq, tagRead, storedTag_flags, sameUuid, last, not_not]
    rw [eval_refuseIf_bind (by omega), eval_refuseIf_bind (by simp [tagFlags_known]),
      eval_refuseIf_bind, eval_refuseIf_bind]
    · simp only [Query.bind, eval_reserve]
      by_cases final : index + 1 = count
      · have : rest = [] := by
          apply List.eq_nil_of_length_eq_zero
          simp only [List.length_cons] at counted
          omega
        simp [final, this, storedTags]
      · rw [if_neg final, @induction (index + 1)]
        · simp [storedTags]
        · rintro rfl
          exact final (by simpa using counted)
        · simp only [List.length_cons] at counted
          omega
        · exact .inr rfl
        · simp only [List.length_cons] at enough
          omega
        · rw [lengths] at fits
          split_ifs at fits ⊢ <;> omega
        · refine Eq.trans ?_ restKnown
          congr 1
          split_ifs <;> rfl
    · rintro ⟨later, unseen⟩
      rcases uuidSeen with start | seen
      · exact later start
      · rw [seen] at unseen
        cases unseen
    · rintro ⟨start, outside | different⟩
      · rw [lengths, if_pos start] at fits
        omega
      · exact different (uuidKnown start)

/-! ## The descriptor block -/

theorem recordHeader_eq (blockSize kind sequence : Nat) :
    recordHeader blockSize kind sequence =
      put (zeros blockSize) 0 (beBytes 4 magic ++ (beBytes 4 kind ++ beBytes 4 sequence)) := by
  have start : 0 ≤ (zeros blockSize).length := Nat.zero_le _
  unfold recordHeader putBe32 putBe
  rw [put_put_adjacent start (by simp), put_put_adjacent start (by simp), List.append_assoc]

theorem length_recordHeader {blockSize : Nat} (kind sequence : Nat) (room : 12 ≤ blockSize) :
    (recordHeader blockSize kind sequence).length = blockSize := by
  rw [recordHeader_eq, length_put (by simpa using room), length_zeros]

theorem length_cleared {bytes : Bytes} (room : 4 ≤ bytes.length) :
    (fill bytes (bytes.length - 4) 4 0).length = bytes.length :=
  length_fill 0 (by omega)

/-- Updating the checksum of a descriptor changes its last bytes only. -/
theorem slice_updateMetadataChecksum (format : Format) {bytes : Bytes} {start length : Nat}
    (before : start + length ≤ bytes.length - 4)
    (room : 4 ≤ bytes.length) :
    slice (updateMetadataChecksum format bytes) start length = slice bytes start length := by
  unfold updateMetadataChecksum
  simp only [putBe32, putBe]
  rw [slice_put_of_disjoint (by rw [length_cleared room, length_beBytes]; omega) (.inl before),
    fill, slice_put_of_disjoint (by rw [List.length_replicate]; omega) (.inl before)]

theorem length_updateMetadataChecksum (format : Format) {bytes : Bytes} (room : 4 ≤ bytes.length) :
    (updateMetadataChecksum format bytes).length = bytes.length := by
  unfold updateMetadataChecksum
  simp only [putBe32]
  rw [length_putBe _ (by rw [length_cleared room]; omega), length_cleared room]

theorem verifyMetadataChecksum_update
    (answers : Answers (Error E)) {format : Format} {bytes : Bytes}
    (seed : format.checksumSeed < 2 ^ 32) (room : 4 ≤ bytes.length) :
    (verifyMetadataChecksum format
      (updateMetadataChecksum format bytes)).eval answers = .ok () := by
  have stored :
      be32 (updateMetadataChecksum format bytes) (bytes.length - 4) =
        crc32c format.checksumSeed (fill bytes (bytes.length - 4) 4 0) := by
    unfold updateMetadataChecksum
    simp only
    rw [be32, beAt_putBe_same _ (by rw [length_cleared room]; omega)]
    exact Nat.mod_eq_of_lt (crc32c_lt seed _)
  unfold verifyMetadataChecksum
  split
  · rfl
  · rw [length_updateMetadataChecksum _ room, eval_refuseIf, if_neg]
    rw [stored, slice_updateMetadataChecksum _ (by omega) room,
      crc32c_fill, List.drop_eq_nil_of_le (by omega), crc32c_nil]
    simp

section Descriptor

variable {format : Format} {blockSize : Nat} {dirty : List DirtyBlock}
  (uuidLength : format.uuid.length = 16)
  (nonempty : dirty ≠ [])
  (room : dirty.length * format.tagLen + 28 ≤ blockSize - format.tailLen)

include uuidLength nonempty room

/-- The descriptor without its checksum. -/
theorem putTags_recordHeader :
    putTags format dirty.length dirty 0 12 (recordHeader blockSize descriptorType format.sequence) =
      put (recordHeader blockSize descriptorType format.sequence) 12
        (tagsBytes format dirty.length dirty 0) := by
  apply putTags_eq uuidLength
  rw [length_tagsBytes_zero uuidLength _ nonempty, length_recordHeader _ _ (by omega)]
  omega

theorem length_putTags :
    (put (recordHeader blockSize descriptorType format.sequence) 12
      (tagsBytes format dirty.length dirty 0)).length = blockSize := by
  have header := length_recordHeader descriptorType format.sequence (show 12 ≤ blockSize by omega)
  have tags := length_tagsBytes_zero uuidLength dirty.length nonempty
  rw [length_put (by omega), header]

theorem length_descriptorBlock : (descriptorBlock format blockSize dirty).length = blockSize := by
  have whole := length_putTags uuidLength nonempty room
  unfold descriptorBlock
  simp only [putTags_recordHeader uuidLength nonempty room]
  split
  · rw [length_updateMetadataChecksum _ (by omega), whole]
  · exact whole

/-- Below the checksum the descriptor is its header and its tags. -/
theorem slice_descriptorBlock {start length : Nat}
    (before : start + length ≤ blockSize - format.tailLen) :
    slice (descriptorBlock format blockSize dirty) start length =
      slice (put (recordHeader blockSize descriptorType format.sequence) 12
          (tagsBytes format dirty.length dirty 0))
        start length := by
  have whole := length_putTags uuidLength nonempty room
  unfold descriptorBlock
  simp only [putTags_recordHeader uuidLength nonempty room]
  split
  · rename_i checksums
    rw [Format.tailLen, if_pos checksums] at before
    exact slice_updateMetadataChecksum _ (by omega) (by omega)
  · rfl

/-- The descriptor passes its own checksum. -/
theorem verifyMetadataChecksum_descriptorBlock (answers : Answers (Error E))
    (seed : format.checksumSeed < 2 ^ 32) :
    (verifyMetadataChecksum format
      (descriptorBlock format blockSize dirty)).eval answers = .ok () := by
  unfold descriptorBlock
  by_cases checksums : format.HasChecksums
  · simp only [if_pos checksums]
    apply verifyMetadataChecksum_update answers seed
    simp only [putTags_recordHeader uuidLength nonempty room]
    rw [length_putTags uuidLength nonempty room]
    omega
  · rw [verifyMetadataChecksum, if_pos checksums]
    rfl

/-- The parser reads one tag for each dirty block, in order. -/
theorem parseTags_descriptorBlock (answers : Answers (Error E)) :
    (parseTags format (descriptorBlock format blockSize dirty)).eval answers =
      .ok (storedTags format dirty.length dirty 0) := by
  have tags := length_tagsBytes_zero uuidLength dirty.length nonempty
  have header : (recordHeader blockSize descriptorType format.sequence).length = blockSize :=
    length_recordHeader _ _ (by omega)
  unfold parseTags
  rw [length_descriptorBlock uuidLength nonempty room]
  rw [← List.nil_append (storedTags format dirty.length dirty 0)]
  apply parseTagsFrom_eq answers uuidLength dirty
  · exact nonempty
  · omega
  · exact .inl rfl
  · have positive : 0 < format.tagLen := by
      rcases format.tagLen_cases with ⟨-, h⟩ | ⟨-, -, h⟩ | ⟨-, -, h⟩ <;>
        omega
    have := Nat.le_mul_of_pos_right dirty.length positive
    omega
  · omega
  · rw [slice_descriptorBlock uuidLength nonempty room (by omega)]
    exact slice_put_same (by omega)

end Descriptor

/-! ## Replay of the data blocks -/

theorem storedTags_targets (format : Format) (count : Nat)
    (blocks : List DirtyBlock) (index : Nat) :
    (storedTags format count blocks index).map Tag.target =
      blocks.map fun block => storedTarget format block.number := by
  induction blocks generalizing index with
  | nil => rfl
  | cons block rest induction =>
    simp only [storedTags, List.map_cons, induction]
    rfl

/-- Removing the escape restores the magic number. -/
theorem put_magic_fill {block : DirtyBlock}
    (escaped : Escaped block) (room : 4 ≤ block.bytes.length) :
    put (fill block.bytes 0 4 0) 0 (beBytes 4 magic) = block.bytes := by
  have start : beBytes 4 magic = slice block.bytes 0 4 := by
    have inverse := beBytes_beNat (slice block.bytes 0 4)
    rw [length_slice_of_le (by omega)] at inverse
    rw [← inverse, ← escaped]
    rfl
  have overwritten :
      put (fill block.bytes 0 4 0) 0 (beBytes 4 magic) = put block.bytes 0 (beBytes 4 magic) := by
    simp [fill, put]
  rw [overwritten, start, put_slice_same (by omega)]

end RetroOS.Ext.Journal

namespace RetroOS.Ext.Ext4

open Lib Lib.Bytes
open Ext.Journal

variable {E : Type}

/-- Replaying a log block with its tag gives the dirty block back. -/
theorem replayBlock_storedTag (answers : Query.Answers (Error E)) {format : Format}
    (seed : format.checksumSeed < 2 ^ 32)
    (profile : format.CsumV3 ∨ ¬ format.HasChecksums)
    {block : DirtyBlock} (room : 4 ≤ block.bytes.length)
    (index count : Nat) :
    (replayBlock format format.sequence (storedTag format block (tagFlags block index count))
        (journalData block)).eval answers =
      .ok [{ sequence := format.sequence
             target := storedTarget format block.number
             bytes := block.bytes }] := by
  have verified :
      (verifyDataChecksum format format.sequence
        (storedTag format block (tagFlags block index count))
        (journalData block)).eval answers = .ok () := by
    unfold verifyDataChecksum
    rcases profile with v3 | none
    · have bound : dataChecksum format format.sequence (journalData block) < 2 ^ 32 :=
        crc32c_lt (crc32c_lt seed _) _
      rw [if_neg (not_not.mpr (.inr v3)), Query.eval_refuseIf]
      simp only [if_pos v3, storedTag, Nat.mod_eq_of_lt bound]
      simp
    · rw [if_pos none]
      rfl
  simp only [replayBlock, Query.bind_eq]
  rw [Query.eval_bind_of_ok verified]
  simp only [storedTag_flags, tagFlags_escape, tagFlags_deleted,
    not_false_eq_true, if_true, Query.eval_reserve, Query.eval_done]
  by_cases escaped : Escaped block
  · have restored := put_magic_fill escaped room
    simp only [journalData, if_pos escaped, restored]
    rfl
  · simp only [journalData, if_neg escaped]
    rfl

end RetroOS.Ext.Ext4
