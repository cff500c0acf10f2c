import RetroOS.Ext.Filesystem
import RetroOS.Lib.Disk

/-!
# The journal

Transaction writing and recovery over the internal journal file.  A
transaction is one descriptor block with a tag for each dirty block, the
dirty blocks themselves, and a commit block.  `commitJournal` reads what it
needs and then issues block writes and flushes; `replayJournal` scans the
log and keeps the committed blocks as the overlay of the mounted state.
-/

namespace RetroOS.Ext

open Lib Lib.Bytes
open Query (orFail refuseIf)

variable {E : Type}

/-! ## Record formats -/

namespace Journal

def magic : Nat := 0xc03b3998
def descriptorType : Nat := 1
def commitType : Nat := 2
def superblockV2 : Nat := 4
def revokeType : Nat := 5

def compatChecksumV1 : Nat := 1
def incompatRevoke : Nat := 1
def incompat64Bit : Nat := 2
def incompatAsyncCommit : Nat := 4
def incompatCsumV2 : Nat := 8
def incompatCsumV3 : Nat := 16
def incompatFastCommit : Nat := 32

def flagEscape : Nat := 1
def flagSameUuid : Nat := 2
def flagDeleted : Nat := 4
def flagLast : Nat := 8
def knownFlags : Nat := flagEscape ||| flagSameUuid ||| flagDeleted ||| flagLast

/-- Big-endian `u16` at an offset. -/
abbrev be16 (bytes : Bytes) (offset : Nat) : Nat := beAt 2 bytes offset

/-- Big-endian `u32` at an offset. -/
abbrev be32 (bytes : Bytes) (offset : Nat) : Nat := beAt 4 bytes offset

/-- Big-endian `u64` at an offset. -/
abbrev be64 (bytes : Bytes) (offset : Nat) : Nat := beAt 8 bytes offset

/-- Store the low 16 bits of a value, big-endian. -/
abbrev putBe16 (bytes : Bytes) (offset value : Nat) : Bytes := putBe 2 bytes offset value

/-- Store the low 32 bits of a value, big-endian. -/
abbrev putBe32 (bytes : Bytes) (offset value : Nat) : Bytes := putBe 4 bytes offset value

/-- The journal superblock's description of the log. -/
structure Format where
  maxLen : Nat
  first : Nat
  sequence : Nat
  start : Nat
  incompat : Nat
  uuid : Bytes
  checksumSeed : Nat
  deriving DecidableEq

namespace Format

variable (format : Format)

abbrev CsumV2 : Prop := HasBits format.incompat incompatCsumV2

abbrev CsumV3 : Prop := HasBits format.incompat incompatCsumV3

abbrev HasChecksums : Prop := format.CsumV2 ∨ format.CsumV3

abbrev Is64Bit : Prop := HasBits format.incompat incompat64Bit

def tagLen : Nat := if format.CsumV3 then 16 else if format.Is64Bit then 12 else 8

/-- Bytes a checksum takes at the end of a descriptor. -/
def tailLen : Nat := if format.HasChecksums then 4 else 0

def advance (block : Nat) : Nat := if block + 1 = format.maxLen then format.first else block + 1

end Format

/-- The fields of the journal superblock, before any check. -/
def Format.ofBytes (bytes : Bytes) : Format where
  maxLen := be32 bytes 0x10
  first := be32 bytes 0x14
  sequence := be32 bytes 0x18
  start := be32 bytes 0x1c
  incompat := be32 bytes 0x28
  uuid := slice bytes 0x30 16
  checksumSeed := crc32c 0xffffffff (slice bytes 0x30 16)

structure LoggedBlock where
  sequence : Nat
  target : Nat
  bytes : Bytes
  deriving DecidableEq

structure Revoke where
  sequence : Nat
  target : Nat
  deriving DecidableEq

structure Tag where
  target : Nat
  flags : Nat
  checksum : Nat
  deriving DecidableEq

/-! ## Checksums -/

def updateMetadataChecksum (format : Format) (bytes : Bytes) : Bytes :=
  let tail := bytes.length - 4
  let bytes := fill bytes tail 4 0
  putBe32 bytes tail (crc32c format.checksumSeed bytes)

def updateCommitChecksum (format : Format) (bytes : Bytes) : Bytes :=
  let bytes := fill bytes 16 4 0
  putBe32 bytes 16 (crc32c format.checksumSeed bytes)

def updateJournalSuperblockChecksum (bytes : Bytes) : Bytes :=
  let bytes := fill bytes 0xfc 4 0
  putBe32 bytes 0xfc (crc32c 0xffffffff (slice bytes 0 1024))

/-- The journal superblock's checksum with its field as zero. -/
def journalSuperblockChecksum (bytes : Bytes) : Nat :=
  crc32c (crc32c (crc32c 0xffffffff (slice bytes 0 0xfc)) (zeros 4))
    (slice bytes 0x100 (1024 - 0x100))

def verifyMetadataChecksum (format : Format) (bytes : Bytes) : Query (Error E) Unit :=
  if ¬ format.HasChecksums then .done ()
  else
    let tail := bytes.length - 4
    refuseIf (crc32c (crc32c format.checksumSeed (slice bytes 0 tail)) (zeros 4) ≠ be32 bytes tail)
      (.corrupt .journalChecksum)

/-- Checksum of a data block in the log. -/
def dataChecksum (format : Format) (sequence : Nat) (bytes : Bytes) : Nat :=
  crc32c (crc32c format.checksumSeed (beBytes 4 sequence)) bytes

def verifyDataChecksum (format : Format) (sequence : Nat) (tag : Tag) (bytes : Bytes) :
    Query (Error E) Unit :=
  if ¬ format.HasChecksums then .done ()
  else
    let checksum := dataChecksum format sequence bytes
    refuseIf (if format.CsumV3 then
        checksum ≠ tag.checksum
      else checksum % 2 ^ 16 ≠ tag.checksum % 2 ^ 16)
      (.corrupt .journalChecksum)

def verifyCommitChecksum (format : Format) (bytes : Bytes) : Query (Error E) Unit :=
  if ¬ format.HasChecksums then .done ()
  else
    refuseIf (crc32c (crc32c (crc32c format.checksumSeed (slice bytes 0 16)) (zeros 4))
          (bytes.drop 20) ≠
        be32 bytes 16)
      (.corrupt .journalChecksum)

/-! ## Descriptors -/

/-- Read the tag at a cursor: low target half, flags, checksum, high half. -/
def readTag (format : Format) (bytes : Bytes) (cursor : Nat) : Tag :=
  let low := be32 bytes cursor
  if format.CsumV3 then
    { target := low ||| (be32 bytes (cursor + 8) <<< 32)
      flags := be32 bytes (cursor + 4)
      checksum := be32 bytes (cursor + 12) }
  else
    { target :=
        low ||| ((if format.Is64Bit then be32 bytes (cursor + 8) else 0) <<< 32)
      flags := be16 bytes (cursor + 6)
      checksum := be16 bytes (cursor + 4) }

/--
Parse tags from a cursor; a tag has at least eight bytes, so `fuel` bounds
the number of rounds.
-/
def parseTagsFrom (format : Format) (bytes : Bytes) (stop : Nat) :
    (fuel cursor : Nat) → (haveUuid : Bool) → List Tag → Query (Error E) (List Tag)
  | 0, _, _, _ => .fail (.corrupt .invalidJournal)
  | fuel + 1, cursor, haveUuid, tags => do
    refuseIf (cursor + format.tagLen > stop) (.corrupt .invalidJournal)
    let tag := readTag format bytes cursor
    refuseIf (clearBits tag.flags knownFlags ≠ 0) (.corrupt .invalidJournal)
    let cursor := cursor + format.tagLen
    let ownUuid := ¬ HasBits tag.flags flagSameUuid
    refuseIf (ownUuid ∧ (cursor + 16 > stop ∨ slice bytes cursor 16 ≠ format.uuid))
      (.corrupt .invalidJournal)
    refuseIf (¬ ownUuid ∧ haveUuid = false) (.corrupt .invalidJournal)
    let cursor := if ownUuid then cursor + 16 else cursor
    .reserve (.done ())
    let tags := tags ++ [tag]
    if HasBits tag.flags flagLast then return tags
    else parseTagsFrom format bytes stop fuel cursor true tags

def parseTags (format : Format) (bytes : Bytes) : Query (Error E) (List Tag) :=
  let stop := bytes.length - format.tailLen
  parseTagsFrom format bytes stop bytes.length 12 false []

/-- Read `count` revoke records from a cursor. -/
def parseRevokesFrom (format : Format) (sequence : Nat) (bytes : Bytes) :
    (count cursor : Nat) → List Revoke → Query (Error E) (List Revoke)
  | 0, _, output => .done output
  | count + 1, cursor, output => do
    let target := if format.Is64Bit then be64 bytes cursor else be32 bytes cursor
    .reserve (.done ())
    parseRevokesFrom format sequence bytes count
      (cursor + if format.Is64Bit then 8 else 4)
      (output ++ [{ sequence, target }])

def parseRevokes (format : Format) (sequence : Nat) (bytes : Bytes) (output : List Revoke) :
    Query (Error E) (List Revoke) := do
  let count := be32 bytes 12
  refuseIf (count < 16 ∨ count > bytes.length - format.tailLen) (.corrupt .invalidJournal)
  let recordLen := if format.Is64Bit then 8 else 4
  refuseIf (¬ recordLen ∣ count - 16) (.corrupt .invalidJournal)
  parseRevokesFrom format sequence bytes ((count - 16) / recordLen) 16 output

def tidGe (left right : Nat) : Bool := (left + 2 ^ 32 - right) % 2 ^ 32 < 0x80000000

end Journal

/-! ## Transaction encoding -/

/-- A block a transaction replaces. -/
structure DirtyBlock where
  number : Nat
  bytes : Bytes
  deriving DecidableEq

namespace Journal

/-- A dirty block whose contents could be taken for a journal record. -/
def Escaped (block : DirtyBlock) : Prop := be32 block.bytes 0 = magic

instance (block : DirtyBlock) : Decidable (Escaped block) := inferInstanceAs (Decidable (_ = _))

/-- The contents of the log block for a dirty block. -/
def journalData (block : DirtyBlock) : Bytes :=
  if Escaped block then fill block.bytes 0 4 0 else block.bytes

/-- The flags of the tag at an index of `count` tags. -/
def tagFlags (block : DirtyBlock) (index count : Nat) : Nat :=
  (if index = 0 then 0 else flagSameUuid) ||| (if Escaped block then flagEscape else 0) |||
    (if index + 1 = count then flagLast else 0)

/-- Store the tag of one dirty block at a cursor. -/
def putTag (format : Format) (block : DirtyBlock) (flags : Nat)
    (descriptor : Bytes) (cursor : Nat) : Bytes :=
  let descriptor := putBe32 descriptor cursor block.number
  if format.CsumV3 then
    let descriptor := putBe32 descriptor (cursor + 4) flags
    let descriptor := putBe32 descriptor (cursor + 8) (block.number >>> 32)
    putBe32 descriptor (cursor + 12) (dataChecksum format format.sequence (journalData block))
  else
    let descriptor := putBe16 descriptor (cursor + 4) 0
    let descriptor := putBe16 descriptor (cursor + 6) flags
    if format.Is64Bit then putBe32 descriptor (cursor + 8) (block.number >>> 32)
    else descriptor

/-- Store the tags of the remaining dirty blocks. -/
def putTags (format : Format) (count : Nat) : List DirtyBlock → (index cursor : Nat) → Bytes → Bytes
  | [], _, _, descriptor => descriptor
  | block :: rest, index, cursor, descriptor =>
    let descriptor := putTag format block (tagFlags block index count) descriptor cursor
    let cursor := cursor + format.tagLen
    if index = 0 then
      putTags format count rest (index + 1) (cursor + 16) (put descriptor cursor format.uuid)
    else putTags format count rest (index + 1) cursor descriptor

/-- A record header in an empty block. -/
def recordHeader (blockSize kind sequence : Nat) : Bytes :=
  putBe32 (putBe32 (putBe32 (zeros blockSize) 0 magic) 4 kind) 8 sequence

/-- The descriptor block of a transaction. -/
def descriptorBlock (format : Format) (blockSize : Nat) (dirty : List DirtyBlock) : Bytes :=
  let descriptor :=
    putTags format dirty.length dirty 0 12 (recordHeader blockSize descriptorType format.sequence)
  if format.HasChecksums then updateMetadataChecksum format descriptor
  else descriptor

/-- The commit block of a transaction. -/
def commitBlock (format : Format) (blockSize : Nat) : Bytes :=
  let commit := recordHeader blockSize commitType format.sequence
  if format.HasChecksums then updateCommitChecksum format commit else commit

/-- The journal superblock with another head of the log. -/
def setHead (format : Format) (sequence start : Nat) (bytes : Bytes) : Bytes :=
  let bytes := putBe32 (putBe32 bytes 0x18 sequence) 0x1c start
  if format.HasChecksums then updateJournalSuperblockChecksum bytes
  else bytes

end Journal

/-- Set or clear the recovery bit in the block that holds the superblock. -/
def setRecoveryFlag (block : Bytes) (enabled : Bool) : Query (Error E) Bytes := do
  let offset := superblockOffset % block.length
  refuseIf (offset + superblockSize > block.length ∨ le16 block (offset + 0x38) ≠ ext4Magic)
    (.corrupt .badMagic)
  let incompat := le32 block (offset + 0x60)
  let incompat :=
    if enabled then incompat ||| incompatRecover
    else clearBits incompat incompatRecover
  let block := putLe32 block (offset + 0x60) incompat
  return putLe32 block (offset + 0x3fc) (superblockChecksum (slice block offset superblockSize))

namespace Ext4

open Journal

variable (fs : Ext4)

/-! ## Reading the log -/

def readJournalBlock (journal : Inode) (logical : Nat) : Query (Error E) Bytes := do
  let buffer ← fs.newBlockBuffer
  let offset ← orFail (checked 64 (logical * fs.superblock.blockSize)) (.corrupt .addressOverflow)
  let (count, bytes) ← fs.readInodeData journal offset buffer
  refuseIf (count ≠ bytes.length) (.corrupt .invalidJournal)
  return bytes

/-- Journal features the engine reads. -/
def knownJournalIncompat : Nat :=
  incompatRevoke ||| Journal.incompat64Bit ||| incompatAsyncCommit |||
    incompatCsumV2 ||| incompatCsumV3 ||| incompatFastCommit

/-- The checks on the journal superblock. -/
def parseJournalFormat (journal : Inode) (bytes : Bytes) : Query (Error E) Format := do
  refuseIf (be32 bytes 0 ≠ magic ∨ be32 bytes 4 ≠ superblockV2) (.corrupt .invalidJournal)
  let blockSize := be32 bytes 0x0c
  let compat := be32 bytes 0x24
  let roCompat := be32 bytes 0x2c
  let format := Format.ofBytes bytes
  refuseIf (HasBits compat compatChecksumV1 ∨
      clearBits compat compatChecksumV1 ≠ 0 ∨
      roCompat ≠ 0 ∨
      clearBits format.incompat knownJournalIncompat ≠ 0 ∨
      HasBits format.incompat incompatFastCommit)
    (.unsupported (.journalFeatures compat format.incompat roCompat))
  refuseIf (HasBits format.incompat incompatCsumV2 ∧ HasBits format.incompat incompatCsumV3)
    (.corrupt .invalidJournal)
  refuseIf (HasBits format.incompat incompatAsyncCommit ∧
      ¬ HasBits format.incompat (incompatCsumV2 ||| incompatCsumV3))
    (.corrupt .invalidJournal)
  refuseIf (blockSize ≠ fs.superblock.blockSize ∨
      format.maxLen < 4 ∨
      format.maxLen > journal.size / blockSize ∨
      format.first = 0 ∨
      format.first ≥ format.maxLen ∨
      (format.start ≠ 0 ∧ (format.start < format.first ∨ format.start ≥ format.maxLen)) ∨
      format.uuid ≠ fs.superblock.uuid)
    (.corrupt .invalidJournal)
  refuseIf (format.HasChecksums ∧ byteAt bytes 0x50 ≠ 4)
    (.unsupported (.journalFeatures compat format.incompat roCompat))
  refuseIf (format.HasChecksums ∧ journalSuperblockChecksum bytes ≠ be32 bytes 0xfc)
    (.corrupt .journalChecksum)
  return format

def loadJournalFormat (journal : Inode) : Query (Error E) Format := do
  let bytes ← fs.readJournalBlock journal 0
  fs.parseJournalFormat journal bytes

/-- Load the journal inode, which must be a regular file. -/
def loadJournal : Query (Error E) Inode := do
  let journal ← fs.loadInode fs.superblock.journalInode
  refuseIf (journal.mode &&& 0xf000 ≠ 0x8000) (.corrupt .invalidJournal)
  return journal

/-! ## Recovery -/

/-- The block a tag stands for, from the log block that follows. -/
def replayBlock (format : Format) (sequence : Nat) (tag : Tag) (data : Bytes) :
    Query (Error E) (List LoggedBlock) := do
  verifyDataChecksum format sequence tag data
  let data :=
    if HasBits tag.flags flagEscape then put data 0 (beBytes 4 magic)
    else data
  if ¬ HasBits tag.flags flagDeleted then
    .reserve (.done [{ sequence, target := tag.target, bytes := data }])
  else return []

/-- Where a scan of the log stands. -/
structure ScanState where
  block : Nat
  sequence : Nat
  visited : Nat
  logged : List LoggedBlock
  revokes : List Revoke
  pendingBlocks : List LoggedBlock
  pendingRevokes : List Revoke
  deriving DecidableEq

/-- Read the data blocks of a descriptor. -/
def replayTags (journal : Inode) (format : Format) :
    List Tag → ScanState → Query (Error E) ScanState
  | [], state => .done state
  | tag :: rest, state => do
    refuseIf (state.visited ≥ format.maxLen - format.first) (.corrupt .invalidJournal)
    let data ← fs.readJournalBlock journal state.block
    let blocks ← replayBlock format state.sequence tag data
    replayTags journal format rest
      { state with
        visited := state.visited + 1
        pendingBlocks := state.pendingBlocks ++ blocks
        block := format.advance state.block }

/--
Scan the log; every round visits at least one block, so `fuel` bounds the
number of rounds.
-/
def scanLog (journal : Inode) (format : Format) :
    (fuel : Nat) → ScanState → Query (Error E) ScanState
  | 0, state => .done state
  | fuel + 1, state =>
    if state.visited < format.maxLen - format.first then do
      let bytes ← fs.readJournalBlock journal state.block
      let state := { state with visited := state.visited + 1 }
      if be32 bytes 0 ≠ magic ∨ be32 bytes 8 ≠ state.sequence then return state
      else if be32 bytes 4 = descriptorType then do
        verifyMetadataChecksum format bytes
        let tags ← parseTags format bytes
        let state ← fs.replayTags journal format tags
            { state with block := format.advance state.block }
        scanLog journal format fuel state
      else if be32 bytes 4 = revokeType then do
        refuseIf (¬ HasBits format.incompat incompatRevoke) (.corrupt .invalidJournal)
        verifyMetadataChecksum format bytes
        let pendingRevokes ← parseRevokes format state.sequence bytes state.pendingRevokes
        scanLog journal format fuel
          { state with pendingRevokes, block := format.advance state.block }
      else if be32 bytes 4 = commitType then do
        verifyCommitChecksum format bytes
        .reserve (.reserve (.done ()))
        scanLog journal format fuel
          { block := format.advance state.block
            sequence := (state.sequence + 1) % 2 ^ 32
            visited := state.visited
            logged := state.logged ++ state.pendingBlocks
            revokes := state.revokes ++ state.pendingRevokes
            pendingBlocks := []
            pendingRevokes := [] }
      else return state
    else .done state

/-- Insert or replace a block in the sorted overlay. -/
def insertOverlay (target : Nat) (bytes : Bytes) : List (Nat × Bytes) → List (Nat × Bytes)
  | [] => [(target, bytes)]
  | entry :: rest =>
    if entry.1 = target then (target, bytes) :: rest
    else if target < entry.1 then (target, bytes) :: entry :: rest
    else entry :: insertOverlay target bytes rest

/-- Room for a target that is not in the overlay yet. -/
def reserveTarget (overlay : List (Nat × Bytes)) (target : Nat) : Query (Error E) Unit :=
  if (overlay.lookup target).isSome then .done () else .reserve (.done ())

/-- Apply the committed updates that no later revoke cancels. -/
def applyLogged (revokes : List Revoke) :
    List LoggedBlock → List (Nat × Bytes) → Query (Error E) (List (Nat × Bytes))
  | [], overlay => .done overlay
  | update :: rest, overlay =>
    if revokes.any (fun revoke =>
        revoke.target == update.target && tidGe revoke.sequence update.sequence) then
      applyLogged revokes rest overlay
    else do
      refuseIf (update.target ≥ fs.superblock.blocksCount) (.corrupt .invalidJournal)
      reserveTarget overlay update.target
      applyLogged revokes rest (insertOverlay update.target update.bytes overlay)

/-- The scan state at the head of the log. -/
def scanStart (format : Format) : ScanState where
  block := format.start
  sequence := format.sequence
  visited := 0
  logged := []
  revokes := []
  pendingBlocks := []
  pendingRevokes := []

/-- Collect the committed blocks of the log into the overlay. -/
def replayJournal : Query (Error E) Ext4 := do
  let journal ← fs.loadJournal
  let format ← fs.loadJournalFormat journal
  if format.start = 0 then
    return fs
  let state ← fs.scanLog journal format (format.maxLen - format.first) (scanStart format)
  let overlay ← fs.applyLogged state.revokes state.logged fs.overlay
  return { fs with overlay }

/-- Mount the filesystem of a storage of the given length. -/
def mount (storageLen : Nat) : Query (Error E) Ext4 := do
  let superblock ← Superblock.load storageLen
  let fs : Ext4 := { superblock, overlay := [], storageLen }
  if superblock.NeedsRecovery then fs.replayJournal
  else return fs

/-! ## Commit -/

/-- A write of one block, refused when it is not a block of the volume. -/
def writePhysicalBlock (physical : Nat) (bytes : Bytes) : Except (Error E) Effect :=
  if physical ≥ fs.superblock.blocksCount ∨ bytes.length ≠ fs.superblock.blockSize then
    .error (.corrupt .invalidJournal)
  else
    match checked 64 (physical * fs.superblock.blockSize) with
    | none => .error (.corrupt .addressOverflow)
    | some _ => .ok (.write physical bytes)

def flushStorage : Except (Error E) Effect := .ok .flush

/-- Check the dirty blocks and copy their log contents. -/
def prepareJournalData : List DirtyBlock → Query (Error E) (List Bytes)
  | [] => .done []
  | block :: rest => do
    refuseIf (block.bytes.length ≠ fs.superblock.blockSize ∨
        block.number ≥ fs.superblock.blocksCount)
      .invalidArgument
    .reserve (.done ())
    let data ← prepareJournalData rest
    return journalData block :: data

/-- Map the log blocks a transaction uses, from a logical block on. -/
def mapJournalBlocks (journal : Inode) (format : Format) (dirty : List DirtyBlock) :
    (left logical : Nat) → List Nat → Query (Error E) (List Nat)
  | 0, _, offsets => .done offsets
  | left + 1, logical, offsets =>
    if logical ≠ 0 ∧ logical < format.first then
      mapJournalBlocks journal format dirty left (logical + 1) offsets
    else do
      let mapped ← fs.mapFileBlock journal logical
      let physical ← orFail mapped (.corrupt .invalidJournal)
      refuseIf (physical ≥ fs.superblock.blocksCount ∨
          (∃ block ∈ dirty, block.number = physical) ∨
          physical ∈ offsets)
        (.corrupt .invalidJournal)
      mapJournalBlocks journal format dirty left (logical + 1) (offsets ++ [physical])

/-- The block number that holds the filesystem superblock. -/
def superblockTarget : Nat := superblockOffset / fs.superblock.blockSize

/-- Where and what a transaction writes, before any write. -/
structure CommitPlan where
  format : Format
  /-- Physical blocks of the journal superblock, descriptor, data, commit. -/
  offsets : List Nat
  journalData : List Bytes
  descriptor : Bytes
  commit : Bytes
  activeJournalSuperblock : Bytes
  cleanJournalSuperblock : Bytes
  activationSuperblock : Bytes
  checkpointSuperblock : Bytes
  finalSuperblock : Bytes

/-- Everything `commitJournal` reads and checks before it writes. -/
def planCommit (dirty : List DirtyBlock) : Query (Error E) CommitPlan := do
  refuseIf (fs.superblock.NeedsRecovery ∨ fs.overlay ≠ [] ∨ fs.superblock.blockSize ≠ 4096)
    (.unsupported .journalWriteProfile)
  let journal ← fs.loadJournal
  let format ← fs.loadJournalFormat journal
  refuseIf (format.start ≠ 0 ∨ (¬ format.CsumV3 ∧ format.HasChecksums) ∨
      HasBits format.incompat incompatAsyncCommit)
    (.unsupported .journalWriteProfile)
  let count ← orFail (checked 32 dirty.length) .invalidArgument
  let commitLogical ← orFail ((checked 32 (format.first + count + 1)).filter (· < format.maxLen))
      (.unsupported .journalWriteProfile)
  let descriptorCapacity := fs.superblock.blockSize - format.tailLen
  let tagsLen ← orFail (checked 64 (dirty.length * format.tagLen + 16 + 12))
      (.corrupt .addressOverflow)
  refuseIf (tagsLen > descriptorCapacity) (.unsupported .journalWriteProfile)
  let finalSuperblock ← orFail (dirty.find? (fun block => block.number == fs.superblockTarget))
      (.unsupported .journalWriteProfile)
  let _ ← fs.newBlockBuffer
  let superblockBytes ← fs.readStorage (fs.superblockTarget * fs.superblock.blockSize)
      fs.superblock.blockSize
  let activationSuperblock ← setRecoveryFlag superblockBytes true
  .reserve (.done ())
  let checkpointSuperblock ← setRecoveryFlag finalSuperblock.bytes true
  .reserve (.reserve (.done ()))
  let journalData ← fs.prepareJournalData dirty
  let _ ← fs.newBlockBuffer
  let descriptor := descriptorBlock format fs.superblock.blockSize dirty
  let _ ← fs.newBlockBuffer
  let commit := commitBlock format fs.superblock.blockSize
  let journalSuperblock ← fs.readJournalBlock journal 0
  let activeJournalSuperblock := setHead format format.sequence format.first journalSuperblock
  .reserve (.done ())
  let cleanJournalSuperblock :=
    setHead format ((format.sequence + 1) % 2 ^ 32) 0 activeJournalSuperblock
  .reserve (.done ())
  let offsets ← fs.mapJournalBlocks journal format dirty (commitLogical + 1) 0 []
  refuseIf (offsets.length ≠ dirty.length + 3) (.corrupt .invalidJournal)
  return {
    format
    offsets
    journalData
    descriptor
    commit
    activeJournalSuperblock
    cleanJournalSuperblock
    activationSuperblock
    checkpointSuperblock
    finalSuperblock := finalSuperblock.bytes }

/-- The writes and flushes of a commit, in order. -/
def commitSteps (dirty : List DirtyBlock) (plan : CommitPlan) : List (Except (Error E) Effect) :=
  let write := fs.writePhysicalBlock
  let journalSuperblockPhysical := plan.offsets.getD 0 0
  let descriptorPhysical := plan.offsets.getD 1 0
  let commitPhysical := plan.offsets.getLastD 0
  -- An ignored transaction while the journal is still clean.
  write descriptorPhysical plan.descriptor ::
    List.zipWith write (plan.offsets.drop 2) plan.journalData ++
  flushStorage ::
  -- Recovery is activated after descriptor and data blocks are durable.
  write fs.superblockTarget plan.activationSuperblock ::
  write journalSuperblockPhysical plan.activeJournalSuperblock ::
  flushStorage ::
  -- The commit block is the visibility boundary.
  write commitPhysical plan.commit ::
  flushStorage ::
  -- The recovery bit stays until every home block is durable.
  dirty.map (fun block =>
    write block.number (if block.number = fs.superblockTarget then
        plan.checkpointSuperblock
      else block.bytes)) ++
  flushStorage ::
  write fs.superblockTarget plan.finalSuperblock ::
  write journalSuperblockPhysical plan.cleanJournalSuperblock ::
  [flushStorage]

/-- The effects before the first refused write, and the refusal. -/
def issue {ε : Type} : List (Except ε Effect) → List Effect × Except ε Unit
  | [] => ([], .ok ())
  | .error error :: _ => ([], .error error)
  | .ok effect :: rest =>
    let (effects, result) := issue rest
    (effect :: effects, result)

/-- Commit a transaction: the effects it issues and how it ends. -/
def commitJournal (dirty : List DirtyBlock) :
    Query (Error E) (List Effect × Except (Error E) Unit) :=
  if dirty = [] then .done ([], .ok ())
  else do
    let plan ← fs.planCommit dirty
    return issue (fs.commitSteps dirty plan)

end Ext4

end RetroOS.Ext
