import RetroOS.Ext.JournalCodec

/-!
# What a commit is made of

`planCommit_ok` collects what a commit has established about its log before it
writes.  The section at the end settles when the log can be read back.
-/

namespace RetroOS.Ext.Ext4

open Lib Lib.Bytes
open Ext.Journal
open Query hiding bind done eval fail read

variable {E : Type}

/-! ## The journal superblock -/

variable {format : Format} {fs : Ext4} {journal : Inode}

/-- An accepted journal is the volume's own, and its log starts inside the ring. -/
theorem parseJournalFormat_ok {bytes : Bytes} {answers : Answers (Error E)}
    (ok : (fs.parseJournalFormat journal bytes).eval answers = .ok format) :
    format = Format.ofBytes bytes ∧ format.uuid = fs.superblock.uuid ∧
      (format.start ≠ 0 → format.first ≤ format.start ∧ format.start < format.maxLen) := by
  iterate 4 obtain ⟨-, ok⟩ := eval_refuseIf_bind_ok ok
  obtain ⟨geometry, ok⟩ := eval_refuseIf_bind_ok ok
  iterate 2 obtain ⟨-, ok⟩ := eval_refuseIf_bind_ok ok
  obtain rfl := Except.ok.inj ok
  push Not at geometry
  obtain ⟨-, -, -, -, -, start, uuid⟩ := geometry
  exact ⟨rfl, uuid, start⟩

/-! ## The blocks of the log -/

variable {answers : Answers (Error E)} {dirty : List DirtyBlock}

theorem prepareJournalData_ok {data : List Bytes}
    (ok : (fs.prepareJournalData dirty).eval answers = .ok data) :
    data = dirty.map journalData ∧
      ∀ block ∈ dirty, block.bytes.length = fs.superblock.blockSize ∧
          block.number < fs.superblock.blocksCount := by
  induction dirty generalizing data with
  | nil =>
    have equal : [] = data := by simpa [prepareJournalData] using ok
    subst equal
    simp
  | cons block rest induction =>
    obtain ⟨checks, ok⟩ := eval_refuseIf_bind_ok ok
    obtain ⟨_, -, ok⟩ := eval_bind_ok ok
    obtain ⟨copied, rest_ok, ok⟩ := eval_bind_ok ok
    obtain ⟨equal, bounds⟩ := induction rest_ok
    have result : journalData block :: copied = data := by simpa using ok
    subst result
    subst equal
    simp only [not_or, not_not, ge_iff_le, not_le] at checks
    refine ⟨rfl, ?_⟩
    intro other member
    rcases List.mem_cons.mp member with rfl | later
    · exact checks
    · exact bounds other later

/-! ## The plan -/

/-- What a commit has established about its log before its first write. -/
structure CommitOk
    (fs : Ext4) (answers : Answers (Error E))
    (dirty : List DirtyBlock) (journal : Inode) (plan : CommitPlan) :
    Prop where
  formatLoaded : (fs.loadJournalFormat journal).eval answers = .ok plan.format
  profile : plan.format.CsumV3 ∨ ¬ plan.format.HasChecksums
  nonempty : dirty ≠ []
  fitsDescriptor : dirty.length * plan.format.tagLen + 28 ≤ 4096 - plan.format.tailLen
  blocks : ∀ block ∈ dirty, block.bytes.length = 4096 ∧ block.number < fs.superblock.blocksCount
  journalData : plan.journalData = dirty.map Journal.journalData
  descriptor : plan.descriptor = descriptorBlock plan.format 4096 dirty

theorem planCommit_ok {plan : CommitPlan} (ok : (fs.planCommit dirty).eval answers = .ok plan) :
    ∃ journal, CommitOk fs answers dirty journal plan := by
  obtain ⟨volume, ok⟩ := eval_refuseIf_bind_ok ok
  obtain ⟨journal, -, ok⟩ := eval_bind_ok ok
  obtain ⟨format, formatLoaded, ok⟩ := eval_bind_ok ok
  obtain ⟨formatProfile, ok⟩ := eval_refuseIf_bind_ok ok
  iterate 2 obtain ⟨_, -, ok⟩ := eval_orFail_bind_ok ok
  obtain ⟨tagsLen, tagsLenEq, ok⟩ := eval_orFail_bind_ok ok
  obtain ⟨fits, ok⟩ := eval_refuseIf_bind_ok ok
  obtain ⟨finalSuperblock, found, ok⟩ := eval_orFail_bind_ok ok
  iterate 6 obtain ⟨_, -, ok⟩ := eval_bind_ok ok
  obtain ⟨journalData, dataOk, ok⟩ := eval_bind_ok ok
  iterate 6 obtain ⟨_, -, ok⟩ := eval_bind_ok ok
  obtain ⟨-, ok⟩ := eval_refuseIf_bind_ok ok
  have result := (Except.ok.inj ok).symm
  subst result
  simp only [not_or, not_not] at volume formatProfile
  have blockSize := volume.2.2
  rw [checked_eq_some] at tagsLenEq
  obtain ⟨dataEq, blocks⟩ := prepareJournalData_ok dataOk
  rw [blockSize] at blocks
  refine ⟨journal, formatLoaded, ?_, ?_, ?_, blocks, dataEq, by rw [blockSize]⟩
  · by_cases v3 : format.CsumV3
    · exact .inl v3
    · exact .inr fun has => formatProfile.2.1 ⟨v3, has⟩
  · exact List.ne_nil_of_mem (List.mem_of_find?_eq_some found)
  · change dirty.length * format.tagLen + 28 ≤ 4096 - format.tailLen
    omega

/-- The fields of an accepted journal format. -/
theorem loadJournalFormat_fields (ok : (fs.loadJournalFormat journal).eval answers = .ok format) :
    format.uuid = fs.superblock.uuid ∧ format.checksumSeed < 2 ^ 32 := by
  obtain ⟨bytes, -, ok⟩ := eval_bind_ok ok
  obtain ⟨rfl, uuid, -⟩ := parseJournalFormat_ok ok
  exact ⟨uuid, crc32c_lt (by decide) _⟩

/-! ## Reading a transaction back -/

/--
Recovery of the log blocks of a commit restores the dirty set: the
descriptor passes its checksum, has one tag for each dirty block with its
number, and every log block replays to the dirty block it was made from.
-/
def CommitPlan.RoundTrips (answers : Answers (Error E))
    (plan : CommitPlan) (dirty : List DirtyBlock) : Prop :=
  ∃ tags, (verifyMetadataChecksum plan.format plan.descriptor).eval answers = .ok () ∧
      (parseTags plan.format plan.descriptor).eval answers = .ok tags ∧
      tags.map Tag.target = dirty.map DirtyBlock.number ∧
      List.zipWith (fun tag data =>
            (replayBlock plan.format plan.format.sequence tag data).eval answers)
          tags plan.journalData =
        dirty.map fun block =>
          .ok [{ sequence := plan.format.sequence, target := block.number, bytes := block.bytes }]

theorem zipWith_replayBlock (answers : Answers (Error E)) (seed : format.checksumSeed < 2 ^ 32)
    (profile : format.CsumV3 ∨ ¬ format.HasChecksums)
    (count : Nat) (blocks : List DirtyBlock) (index : Nat)
    (room : ∀ block ∈ blocks, 4 ≤ block.bytes.length) :
    List.zipWith (fun tag data =>
          (replayBlock format format.sequence tag data).eval answers)
        (storedTags format count blocks index)
        (blocks.map journalData) =
      blocks.map fun block =>
        .ok [{ sequence := format.sequence
               target := storedTarget format block.number
               bytes := block.bytes }] := by
  induction blocks generalizing index with
  | nil => rfl
  | cons block rest induction =>
    simp only [storedTags, List.map_cons, List.zipWith_cons_cons]
    rw [replayBlock_storedTag answers seed profile (room block List.mem_cons_self),
      induction _ fun other member => room other (List.mem_cons_of_mem _ member)]

/-- A target list is right when every number survives its tag. -/
theorem map_storedTarget_eq_iff {blocks : List DirtyBlock}
    (bounds : ∀ block ∈ blocks, block.number < 2 ^ 64) :
    (blocks.map fun block => storedTarget format block.number) = blocks.map DirtyBlock.number ↔
      format.CsumV3 ∨ format.Is64Bit ∨ ∀ block ∈ blocks, block.number < 2 ^ 32 := by
  rw [List.map_inj_left, ← or_assoc]
  by_cases wide : format.CsumV3 ∨ format.Is64Bit
  · simp only [wide, true_or, iff_true]
    intro block member
    exact storedTarget_wide wide (bounds block member)
  · simp only [wide, false_or]
    refine forall₂_congr fun block _ => ?_
    rw [storedTarget_narrow wide]
    exact Nat.mod_eq_iff_lt (by decide)

/--
The log of an accepted commit can be read back exactly when its tags are
wide enough for the block numbers.  The narrow layout is accepted for any
volume, and drops the high half of the numbers of a large one.
-/
theorem commit_log_reads_back_iff {fs : Ext4} {answers : Answers (Error E)}
    {dirty : List DirtyBlock} {plan : CommitPlan}
    (bounded : fs.superblock.Bounded)
    (accepted : (fs.planCommit dirty).eval answers = .ok plan) :
    plan.RoundTrips answers dirty ↔
      plan.format.CsumV3 ∨ plan.format.Is64Bit ∨ ∀ block ∈ dirty, block.number < 2 ^ 32 := by
  obtain ⟨journal, ok⟩ := planCommit_ok accepted
  obtain ⟨uuid, seed⟩ := loadJournalFormat_fields ok.formatLoaded
  have uuidLength : plan.format.uuid.length = 16 := by
    rw [uuid]
    exact bounded.uuid_length
  have parsed := parseTags_descriptorBlock uuidLength ok.nonempty ok.fitsDescriptor answers
  have verified :=
    verifyMetadataChecksum_descriptorBlock uuidLength ok.nonempty ok.fitsDescriptor answers seed
  rw [← ok.descriptor] at parsed verified
  have replayed :=
    zipWith_replayBlock answers seed ok.profile dirty.length dirty 0
      (fun block member => by rw [(ok.blocks block member).1]; decide)
  have bounds : ∀ block ∈ dirty, block.number < 2 ^ 64 := by
    intro block member
    exact lt_trans (ok.blocks block member).2 bounded.blocksCount_lt
  constructor
  · rintro ⟨tags, -, parse, targets, -⟩
    have same := Except.ok.inj (parse.symm.trans parsed)
    rw [same, storedTags_targets] at targets
    exact (map_storedTarget_eq_iff bounds).mp targets
  · intro wide
    have targets := (map_storedTarget_eq_iff bounds).mpr wide
    refine ⟨_, verified, parsed, ?_, ?_⟩
    · rw [storedTags_targets]
      exact targets
    · rw [ok.journalData, replayed, List.map_inj_left]
      intro block member
      rw [List.map_inj_left.mp targets block member]

end RetroOS.Ext.Ext4

/-! ## A small volume -/

namespace RetroOS.Ext.Sample

open Lib Lib.Bytes
open Ext.Journal

/-- A superblock of 2^32 + 16 blocks with a journal at inode 8. -/
def superblockBlock : Bytes :=
  layout 4096 0 [ (1024 + 0x00, leBytes 4 16), (1024 + 0x04, leBytes 4 16),
    (1024 + 0x18, leBytes 4 2),
    (1024 + 0x20, leBytes 4 32768),
    (1024 + 0x28, leBytes 4 16),
    (1024 + 0x38, leBytes 2 ext4Magic),
    (1024 + 0x5c, leBytes 4 compatHasJournal),
    (1024 + 0x60, leBytes 4 incompat64Bit),
    (1024 + 0xe0, leBytes 4 8),
    (1024 + 0x150, leBytes 4 1)]

/-- Group 0 has its inode table at block 2. -/
def descriptorTable : Bytes := layout 4096 0 [(8, leBytes 4 2)]

/-- The journal is a regular file of the blocks 3 to 14. -/
def inodeTable : Bytes :=
  layout 4096 0 ([(896, leBytes 2 modeRegular), (896 + 4, leBytes 4 (12 * 4096))] ++
      (List.range 12).map fun index => (896 + 0x28 + 4 * index, leBytes 4 (3 + index)))

/-- A clean journal of twelve blocks without features. -/
def journalSuperblock : Bytes :=
  layout 4096 0 [ (0, beBytes 4 magic), (4, beBytes 4 superblockV2), (0x0c, beBytes 4 4096),
    (0x10, beBytes 4 12),
    (0x14, beBytes 4 1),
    (0x18, beBytes 4 7)]

def block (number : Nat) : Bytes :=
  if number = 0 then superblockBlock
  else if number = 1 then descriptorTable
  else if number = 2 then inodeTable
  else if number = 3 then journalSuperblock
  else zeros 4096

theorem length_block (number : Nat) : (block number).length = 4096 := by
  unfold block
  split_ifs <;> decide +kernel

def disk : Disk 4096 where
  block := block
  length_block := length_block

/-- The volume, mounted. -/
def fs : Ext4 where
  superblock := {
    inodesCount := 16
    blocksCount := 2 ^ 32 + 16
    firstDataBlock := 0
    blockSize := 4096
    blocksPerGroup := 32768
    inodesPerGroup := 16
    inodeSize := 128
    firstInode := 11
    descriptorSize := 64
    featureCompat := compatHasJournal
    featureIncompat := incompat64Bit
    featureRoCompat := 0
    uuid := zeros 16
    checksumSeed := crc32c 0xffffffff (zeros 16)
    journalInode := 8
    reservedGdtBlocks := 0
    backupBgs := [0, 0]
    firstMetaBg := 0 }
  overlay := []
  storageLen := (2 ^ 32 + 16) * 4096

/-- The superblock and one more block. -/
def dirty (number : Nat) : List DirtyBlock :=
  [{ number := 0, bytes := superblockBlock }, { number, bytes := zeros 4096 }]

theorem bounded : fs.superblock.Bounded where
  blocksCount_lt := by decide
  capacity_lt := by decide
  blockSize_pos := by decide
  inodeSize_ge := by decide
  inodeSize_le := by decide
  uuid_length := by decide

/-- Both blocks of a transaction below 2^32 come back. -/
theorem near_commit_reads_back :
    ∃ plan, (fs.planCommit (dirty 15)).eval (disk.answers (ε := Error Empty)) = .ok plan ∧
        plan.RoundTrips (disk.answers (ε := Error Empty)) (dirty 15) := by
  have accepted :
      ((fs.planCommit (dirty 15)).eval (disk.answers (ε := Error Empty))).isOk = true := by
    decide +kernel
  cases planned : (fs.planCommit (dirty 15)).eval (disk.answers (ε := Error Empty)) with
  | error error =>
    rw [planned] at accepted
    cases accepted
  | ok plan =>
    refine ⟨plan, rfl, ?_⟩
    apply (Ext4.commit_log_reads_back_iff bounded planned).mpr
    exact .inr (.inr (by decide))

/--
A commit that touches block 2^32 + 1 is accepted, and its descriptor names
block 1 instead.
-/
theorem far_commit_names_another_block :
    (((fs.commitJournal (dirty (2 ^ 32 + 1))).eval (disk.answers (ε := Error Empty))).map Prod.snd =
      .ok (.ok ())) ∧
    (dirty (2 ^ 32 + 1)).map DirtyBlock.number = [0, 2 ^ 32 + 1] ∧
    ((do
        let plan ← fs.planCommit (dirty (2 ^ 32 + 1))
        let tags ← parseTags plan.format plan.descriptor
        return tags.map Tag.target : Query (Error Empty) (List Nat)).eval disk.answers =
      .ok [0, 1]) := by
  refine ⟨?_, ?_, ?_⟩ <;> decide +kernel

end RetroOS.Ext.Sample
