import RetroOS.Ext.ExtentDecoding
import RetroOS.Ext.Readers

/-!
# The two walkers of an extent tree

A file is read by a walker that follows one path of the raw tree for every
block (`Ext4.mapExtentNode`); it is changed through a tree that is decoded
as a whole (`ExtentTree.load`).  Each makes its own checks.

Both are compared with the tree the bytes stand for.  The reader maps every
block of a well-formed tree as that tree does.  The loader also wants a
block to end right behind the checksum of a full node; a block has that
length for some block sizes only, and a tree with nodes outside the inode
is refused for the others.
-/

namespace RetroOS.Ext

open Lib Lib.Bytes
open Query hiding bind done eval fail read

variable {E : Type}

/-- The place of a block that was written. -/
def writtenPart : Option (Nat × ExtentState) → Option Nat
  | some (physical, .written) => some physical
  | _ => none

/-- Block sizes a superblock may have. -/
def blockSizes : List Nat := [1024, 2048, 4096, 8192, 16384, 32768, 65536]

theorem Superblock.parse_blockSize (bytes : Bytes) (storageLen : Nat) :
    (Superblock.parse (E := E) bytes storageLen).All fun superblock =>
      superblock.blockSize ∈ blockSizes := by
  unfold Superblock.parse RawSuperblock.check
  refine all_refuseIf_bind fun _ => ?_
  refine all_orFail_bind fun size known => ?_
  have admitted : size ∈ blockSizes := by
    unfold RawSuperblock.blockSize at known
    simp only at known
    split_ifs at known with _ member
    rwa [← Option.some.inj known]
  iterate 4 refine all_refuseIf_bind fun _ => ?_
  refine all_orFail_bind fun _ _ => ?_
  iterate 5 refine all_refuseIf_bind fun _ => ?_
  exact admitted

namespace Ext4

open ExtentNode

variable (fs : Ext4)

/-- What the checksums of the extent blocks of an inode are bound to. -/
def extentIdentity (inode : Inode) : ExtentIdentity where
  checksumSeed := fs.superblock.checksumSeed
  inode := inode.number
  generation := inode.generation
  metadataChecksums := decide fs.superblock.HasMetadataChecksums

/-- The tree of an inode, its blocks read one by one. -/
def readExtentTree (inode : Inode) (readOwnedBlock : Nat → Query (Error E) Bytes) :
    Query (Error E) ExtentTree :=
  ExtentTree.load inode.blockMap fs.superblock.blockSize
    fs.superblock.blocksCount (fs.extentIdentity inode) readOwnedBlock

section Walk

variable {fs} {answers : Answers (Error E)} {bytes : Bytes} {logical : Nat}

theorem nodeChecksum_eq (inode : Inode) (capacity : Nat) :
    nodeChecksum (fs.extentIdentity inode) capacity bytes =
      crc32c (fs.inodeChecksumBase inode.number inode.generation)
        (slice bytes 0 (12 + capacity * 12)) := by
  rw [nodeChecksum, crc32c_append]
  rfl

theorem checkExtentHeader_eval {inode : Inode} {capacity depth : Nat}
    {traversed : Nat} {external : Bool}
    (header : HeaderOk capacity depth bytes) (flat : depth ≤ 5)
    (near : traversed ≤ 5)
    (seals :
      external = true →
        12 + capacity * 12 + 4 ≤ bytes.length ∧ SealOk (fs.extentIdentity inode) capacity bytes) :
    (fs.checkExtentHeader (E := E) bytes traversed inode external).eval
        answers = .ok (le16 bytes 2, depth) := by
  have room := header.room
  have entries := header.entries
  refine (eval_refuseIf_bind ?_).trans ?_
  · rw [header.magic]
    simp only [ne_eq, not_true_eq_false, or_false]
    omega
  refine (eval_refuseIf_bind ?_).trans ?_
  · rw [header.depth]
    omega
  refine (eval_refuseIf_bind ?_).trans ?_
  · rw [header.maximum]
    omega
  simp only [header.maximum, header.depth]
  split_ifs with checked
  · obtain ⟨long, sealed⟩ := seals checked.1
    have same := sealed (decide_eq_true checked.2)
    rw [nodeChecksum_eq] at same
    refine (eval_refuseIf_bind (not_lt.mpr long)).trans ?_
    exact eval_refuseIf_bind (not_not.mpr same)
  · rfl

/-! ## A leaf -/

theorem decodedState_eq_written {encoded : Nat} :
    decodedState encoded = .written ↔ encoded ≤ 32768 := by
  unfold decodedState writtenMaxLen
  split_ifs with small
  · exact iff_of_true rfl small
  · exact iff_of_false nofun small

theorem ofExtents_cons (extent : Extent) (rest : List Extent) :
    BlockMap.ofExtents (extent :: rest) logical =
      if extent.covers logical = true then
        some (extent.physical + (logical - extent.logical), extent.state)
      else
        BlockMap.ofExtents rest logical := by
  unfold BlockMap.ofExtents
  cases own : extent.covers logical with
  | true => simp [own]
  | false => simp [own]

/-- One round of the scan, in terms of the record it looks at. -/
theorem scanLeaf_succ (left index : Nat) (previous : Option Nat) :
    fs.scanLeaf (E := E) bytes logical (left + 1) index previous =
      (refuseIf (previous.any (entryKey bytes index ≤ ·) = true)
        (.corrupt .invalidExtentTree)).bind fun _ =>
      (refuseIf (le16 bytes (12 + index * 12 + 4) = 0) (.corrupt .invalidExtentTree)).bind fun _ =>
      if (decodeExtent bytes index).covers logical = true then
        if (decodeExtent bytes index).state = .written then
          (orFail (checked 64 ((decodeExtent bytes index).physical +
                (logical - (decodeExtent bytes index).logical)))
            (.corrupt .addressOverflow)).bind fun physical =>
          (refuseIf (physical ≥ fs.superblock.blocksCount) (.corrupt .extentPastEnd)).bind fun _ =>
          .done (some physical)
        else .done none
      else
        fs.scanLeaf bytes logical left (index + 1) (some (entryKey bytes index)) := by
  rw [scanLeaf]
  refine congrArg (Query.bind _) (funext fun _ => ?_)
  refine congrArg (Query.bind _) (funext fun _ => ?_)
  refine if_congr ?_ (if_congr decodedState_eq_written.symm rfl rfl) rfl
  rw [Extent.covers_iff, Extent.logicalEnd]
  change entryKey bytes index ≤ logical ∧
      logical - entryKey bytes index < (decodeExtent bytes index).length ↔
    entryKey bytes index ≤ logical ∧
      logical < entryKey bytes index + (decodeExtent bytes index).length
  omega

/-- The reader finds in a leaf what the records of the leaf map. -/
theorem scanLeaf_eval {left index : Nat} {previous : Option Nat} (increasing :
      ∀ first second, first < second → second < le16 bytes 2 →
        entryKey bytes first < entryKey bytes second)
    (encodable : ∀ entry < le16 bytes 2, (decodeExtent bytes entry).Encodable)
    (inside :
      ∀ entry < le16 bytes 2, (decodeExtent bytes entry).physical +
          (decodeExtent bytes entry).length ≤ fs.superblock.blocksCount)
    (bound : index + left = le16 bytes 2)
    (early :
      ∀ key ∈ previous, ∀ entry, index ≤ entry → entry < le16 bytes 2 →
        key < entryKey bytes entry) :
    (fs.scanLeaf (E := E) bytes logical left index previous).eval answers =
      .ok (writtenPart (BlockMap.ofExtents
          ((List.range' index left).map (decodeExtent bytes)) logical)) := by
  induction left generalizing index previous with
  | zero => rfl
  | succ left induction =>
    have here : index < le16 bytes 2 := by omega
    have fits := encodable index here
    have ends := inside index here
    rw [scanLeaf_succ, List.range'_succ, List.map_cons, ofExtents_cons]
    refine (eval_refuseIf_bind ?_).trans ?_
    · simp only [Option.any_eq_true, decide_eq_true_eq, not_exists, not_and, not_le]
      intro key known
      exact early key known index le_rfl here
    refine (eval_refuseIf_bind ?_).trans ?_
    · intro empty
      have positive := fits.positive
      simp [decodeExtent, empty, decodedLength] at positive
    by_cases own : (decodeExtent bytes index).covers logical = true
    · rw [if_pos own, if_pos own]
      obtain ⟨low, high⟩ := Extent.covers_iff.mp own
      rw [Extent.logicalEnd] at high
      have place := fits.inside
      cases stated : (decodeExtent bytes index).state with
      | written =>
        rw [if_pos rfl]
        refine (eval_orFail_bind (checked_of_lt (by omega))).trans ?_
        exact eval_refuseIf_bind (by omega)
      | unwritten =>
        rw [if_neg (by simp)]
        rfl
    · rw [if_neg own, if_neg own]
      refine induction (by omega) ?_
      intro key known next after within
      rw [Option.mem_some_iff] at known
      rw [← known]
      exact increasing index next (by omega) within

/-! ## A branch -/

variable (answers logical) in
/--
The reader goes on with the child the decoded tree looks into; when every
child starts later, both keep what they had.
-/
theorem scanIndex_eval {store : Nat → Bytes} {below : Nat}
    {left index : Nat} {previous : Option Nat} (chosen : Option Nat)
    (found : Option (Nat × ExtentState))
    (increasing :
      ∀ first second, first < second → second < le16 bytes 2 →
        entryKey bytes first < entryKey bytes second)
    (starts :
      ∀ entry < le16 bytes 2, (decodeChild store below bytes entry).firstLogical =
          some (entryKey bytes entry))
    (bound : index + left = le16 bytes 2)
    (early :
      ∀ key ∈ previous, ∀ entry, index ≤ entry → entry < le16 bytes 2 →
        key < entryKey bytes entry) :
    ∃ next, (scanIndex (E := E) bytes logical left index previous chosen).eval answers = .ok next ∧
        (next = chosen ∧
            findChild logical found ((List.range' index left).map
                (decodeChild store below bytes)) = found ∨
          ∃ entry < le16 bytes 2, next = some (childNumber bytes entry) ∧
              findChild logical found ((List.range' index left).map
                    (decodeChild store below bytes)) =
                (decodeChild store below bytes entry).find logical) := by
  induction left generalizing index previous chosen found with
  | zero =>
    refine ⟨chosen, rfl, Or.inl ⟨rfl, ?_⟩⟩
    rw [List.range'_zero, List.map_nil, findChild]
  | succ left induction =>
    have here : index < le16 bytes 2 := by omega
    have passes : ¬ (previous.any (le32 bytes (12 + index * 12) ≤ ·) = true) := by
      simp only [Option.any_eq_true, decide_eq_true_eq, not_exists, not_and, not_le]
      intro key known
      exact early key known index le_rfl here
    have begins :
        (decodeChild store below bytes index).startsBy logical = true ↔
          le32 bytes (12 + index * 12) ≤ logical := by
      rw [startsBy, starts index here, Option.any_some, decide_eq_true_eq]
      rfl
    rw [List.range'_succ, List.map_cons, findChild]
    by_cases low : le32 bytes (12 + index * 12) ≤ logical
    · rw [if_pos (begins.mpr low)]
      have later :
          ∀ key ∈ some (entryKey bytes index), ∀ entry, index + 1 ≤ entry → entry < le16 bytes 2 →
              key < entryKey bytes entry := by
        intro key known entry after within
        rw [Option.mem_some_iff] at known
        rw [← known]
        exact increasing index entry (by omega) within
      obtain ⟨next, ok, result⟩ :=
        induction (some (childNumber bytes index))
          ((decodeChild store below bytes index).find logical) (by omega)
          later
      refine ⟨next, ?_, Or.inr ?_⟩
      · refine (eval_refuseIf_bind passes).trans ?_
        rw [if_pos low]
        exact ok
      · rcases result with ⟨same, kept⟩ | other
        · exact ⟨index, here, same, kept⟩
        · exact other
    · rw [if_neg (fun own => low (begins.mp own))]
      refine ⟨chosen, ?_, Or.inl ⟨rfl, rfl⟩⟩
      refine (eval_refuseIf_bind passes).trans ?_
      rw [if_neg low]
      rfl

theorem childNumber_lt (bytes : Bytes) (index : Nat) : childNumber bytes index < 2 ^ 48 := by
  have low : le32 bytes (12 + index * 12 + 4) < 2 ^ 32 := leAt_lt 4 bytes _
  have high : le16 bytes (12 + index * 12 + 8) < 2 ^ 16 := leAt_lt 2 bytes _
  apply Nat.or_lt_two_pow
  · omega
  · rw [Nat.shiftLeft_eq]
    omega

/-! ## Whole trees -/

/-- The blocks of the volume, as the reader and as the loader get them. -/
structure Stored (fs : Ext4) (answers : Answers (Error E))
    (readOwnedBlock : Nat → Query (Error E) Bytes) (store : Nat → Bytes) :
    Prop where
  sized :
    ∀ number, 0 < number → number < fs.superblock.blocksCount →
      (store number).length = fs.superblock.blockSize
  walked :
    ∀ number, 0 < number → number < fs.superblock.blocksCount →
      (fs.readStorage (number * fs.superblock.blockSize)
        fs.superblock.blockSize).eval answers = .ok (store number)
  loaded :
    ∀ number, 0 < number → number < fs.superblock.blocksCount →
      (readOwnedBlock number).eval answers = .ok (store number)

/-- The node a lookup of a sorted leaf answers from. -/
theorem find_leaf {location : NodeLocation} {dirty : Bool}
    {extents : List Extent} (sorted : Sorted extents) :
    (leaf location dirty extents).find logical = BlockMap.ofExtents extents logical := by
  have sound : (ExtentTree.mk (leaf location dirty extents) (rootCapacity + 1) []).Sound :=
    ⟨by rwa [ExtentNode.extents], filled_leaf _ _ _, Nat.lt_succ_self _⟩
  have same := sound.lookup_eq logical
  rwa [ExtentTree.lookup, ExtentTree.blockMap, ExtentNode.extents] at same

variable {readOwnedBlock : Nat → Query (Error E) Bytes} {store : Nat → Bytes} {inode : Inode}

/-- The reader maps a block as the tree does. -/
theorem mapExtentNode_eval (size : fs.superblock.blockSize ∈ blockSizes)
    (blocks : fs.Stored answers readOwnedBlock store) {depth : Nat}
    {location : NodeLocation} {capacity fuel traversed : Nat}
    {external : Bool}
    (ok : NodeOk store fs.superblock.blocksCount
      ((fs.superblock.blockSize - 16) / 12) (fs.extentIdentity inode) depth
      capacity bytes)
    (sorted : Sorted (decode store depth location bytes).extents)
    (inside :
      ∀ extent ∈ (decode store depth location bytes).extents,
        extent.physical + extent.length ≤ fs.superblock.blocksCount)
    (enough : depth < fuel) (levels : traversed + depth ≤ 5)
    (seals :
      external = true →
        12 + capacity * 12 + 4 ≤ bytes.length ∧ SealOk (fs.extentIdentity inode) capacity bytes) :
    (fs.mapExtentNode inode logical fuel bytes traversed external).eval answers =
      .ok (writtenPart ((decode store depth location bytes).find logical)) := by
  have bounds : 1024 ≤ fs.superblock.blockSize ∧ fs.superblock.blockSize ≤ 65536 := by
    simp only [blockSizes, List.mem_cons, List.not_mem_nil, or_false] at size
    omega
  induction depth generalizing fuel bytes location capacity traversed external with
  | zero =>
    obtain ⟨fuel, rfl⟩ := Nat.exists_eq_succ_of_ne_zero enough.ne'
    have increasing := entryKey_lt ok sorted
    refine (eval_bind_of_ok (checkExtentHeader_eval ok.header (by omega) (by omega) seals)).trans ?_
    rw [decode, ExtentNode.extents] at inside sorted
    dsimp only
    rw [if_pos rfl, decode, find_leaf sorted, List.range_eq_range']
    refine scanLeaf_eval increasing ok.2 ?_ (Nat.zero_add _) (by simp)
    intro entry within
    exact inside _ (List.mem_map_of_mem (List.mem_range.mpr within))
  | succ below induction =>
    obtain ⟨fuel, rfl⟩ := Nat.exists_eq_succ_of_ne_zero (Nat.zero_lt_of_lt enough).ne'
    have increasing := entryKey_lt ok sorted
    have starts (entry : Nat) (within : entry < le16 bytes 2) :
        (decodeChild store below bytes entry).firstLogical = some (entryKey bytes entry) := by
      obtain ⟨known, child⟩ := ok.2.2 entry within
      rw [decodeChild, firstLogical_decode child known.inhabited, known.key]
    have first :
        ∀ key ∈ (none : Option Nat), ∀ entry, 0 ≤ entry →
          entry < le16 bytes 2 → key < entryKey bytes entry := by
      simp
    obtain ⟨next, scanned, result⟩ :=
      scanIndex_eval answers logical none none increasing starts (Nat.zero_add _) first
    refine (eval_bind_of_ok (checkExtentHeader_eval ok.header (by omega) (by omega) seals)).trans ?_
    dsimp only
    rw [if_neg (Nat.succ_ne_zero below)]
    refine (eval_bind_of_ok scanned).trans ?_
    rw [← List.range_eq_range'] at result
    rw [decode, find]
    change _ = Except.ok (writtenPart (findChild logical none
      ((List.range (le16 bytes 2)).map (decodeChild store below bytes))))
    rcases result with ⟨rfl, nothing⟩ | ⟨entry, within, rfl, chosen⟩
    · rw [nothing]
      rfl
    · rw [chosen]
      obtain ⟨known, child⟩ := ok.2.2 entry within
      have small := childNumber_lt bytes entry
      have member :
          decodeChild store below bytes entry ∈ (List.range (le16 bytes 2)).map
              (decodeChild store below bytes) :=
        List.mem_map_of_mem (List.mem_range.mpr within)
      refine (eval_refuseIf_bind ?_).trans ?_
      · have positive := known.positive
        have below := known.inside
        omega
      have offset :
          checked 64 (childNumber bytes entry * fs.superblock.blockSize) =
            some (childNumber bytes entry * fs.superblock.blockSize) := by
        apply checked_of_lt
        have product := Nat.mul_lt_mul_of_lt_of_le small bounds.2 (by decide)
        omega
      refine (eval_orFail_bind offset).trans ?_
      refine (eval_bind_of_ok (blocks.walked _ known.positive known.inside)).trans ?_
      refine (eval_refuseIf_bind ?_).trans ?_
      · rw [child.header.depth]
        exact not_not.mpr rfl
      rw [decode, ExtentNode.extents] at sorted inside
      refine induction child (sorted_child sorted member) ?_ (by omega)
        (by omega) fun _ => ⟨?_, known.sealed⟩
      · intro extent own
        exact inside extent (mem_childExtents.mpr ⟨_, member, own⟩)
      · rw [blocks.sized _ known.positive known.inside]
        omega

/-- A tree with a node outside the inode has a block of the exact length. -/
theorem readExtentTree_sized {tree : ExtentTree} {number : Nat}
    (ok : (fs.readExtentTree inode readOwnedBlock).eval answers = .ok tree)
    (outside : 0 < le16 inode.blockMap 6)
    (first : childNumber inode.blockMap 0 = number) :
    ∃ block, (readOwnedBlock number).eval answers = .ok block ∧
        block.length = 12 + (fs.superblock.blockSize - 16) / 12 * 12 + 4 := by
  iterate 2 obtain ⟨-, ok⟩ := eval_refuseIf_bind_ok ok
  obtain ⟨depth, header, ok⟩ := eval_bind_ok ok
  obtain ⟨-, header⟩ := eval_refuseIf_bind_ok header
  obtain ⟨-, ok⟩ := eval_refuseIf_bind_ok ok
  obtain ⟨node, loaded, -⟩ := eval_bind_ok ok
  rw [← Except.ok.inj header] at loaded
  obtain ⟨below, deep⟩ := Nat.exists_eq_succ_of_ne_zero outside.ne'
  rw [deep] at loaded
  obtain ⟨_, -, loaded⟩ := eval_bind_ok loaded
  obtain ⟨-, loaded⟩ := eval_refuseIf_bind_ok loaded
  obtain ⟨some, loaded⟩ := eval_refuseIf_bind_ok loaded
  obtain ⟨_, -, loaded⟩ := eval_bind_ok loaded
  obtain ⟨_, children, -⟩ := eval_bind_ok loaded
  obtain ⟨left, count⟩ := Nat.exists_eq_succ_of_ne_zero some
  rw [count] at children
  iterate 2 obtain ⟨-, children⟩ := eval_refuseIf_bind_ok children
  obtain ⟨_, -, children⟩ := eval_bind_ok children
  obtain ⟨block, read, children⟩ := eval_bind_ok children
  obtain ⟨exact, -⟩ := eval_refuseIf_bind_ok children
  refine ⟨block, ?_, not_not.mp exact⟩
  rw [← first]
  exact read

end Walk

/--
On a well-formed tree the reader maps every block.  The loader accepts the
tree, and both map every block the same way, exactly when the tree has no
node outside the inode or the block size leaves no room behind the checksum
of a node.
-/
theorem extent_walkers_agree_iff (inode : Inode) (answers : Answers (Error E))
    (readOwnedBlock : Nat → Query (Error E) Bytes) (store : Nat → Bytes)
    (size : fs.superblock.blockSize ∈ blockSizes)
    (blocks : fs.Stored answers readOwnedBlock store)
    (formed :
      ExtentTree.WellFormed store fs.superblock.blockSize
        fs.superblock.blocksCount (fs.extentIdentity inode)
        inode.blockMap) :
    (∀ logical < 2 ^ 32, ∃ place, (fs.mapExtentNode inode logical extentLevels inode.blockMap 0
        false).eval answers = .ok place) ∧
    ((∃ tree, (fs.readExtentTree inode readOwnedBlock).eval answers = .ok tree ∧
          ∀ logical < 2 ^ 32, (fs.mapExtentNode inode logical extentLevels inode.blockMap 0
                false).eval answers =
              .ok (writtenPart (tree.lookup logical))) ↔
      le16 inode.blockMap 6 = 0 ∨ fs.superblock.blockSize ∈ [1024, 4096, 16384, 65536]) := by
  have mapped (logical : Nat) :
      (fs.mapExtentNode inode logical extentLevels inode.blockMap 0 false).eval answers =
        .ok (writtenPart ((ExtentTree.decoded store fs.superblock.blockSize
            inode.blockMap).lookup logical)) := by
    have flat := formed.depth
    unfold maxDepth at flat
    refine mapExtentNode_eval size blocks formed.nodes formed.sorted
      formed.placed.inside ?_ ?_ nofun
    · unfold extentLevels
      omega
    · omega
  have sizes := size
  simp only [blockSizes, List.mem_cons, List.not_mem_nil, or_false] at sizes
  have large : rootCapacity < (fs.superblock.blockSize - 16) / 12 := by
    unfold rootCapacity
    omega
  refine ⟨fun logical _ => ⟨_, mapped logical⟩, ?_⟩
  simp only [List.mem_cons, List.not_mem_nil, or_false]
  constructor
  · rintro ⟨tree, ok, -⟩
    by_contra other
    have outside : 0 < le16 inode.blockMap 6 := by omega
    obtain ⟨block, read, exact⟩ := readExtentTree_sized ok outside rfl
    have entry := firstEntry_of_branch formed.nodes outside
    rw [blocks.loaded _ entry.positive entry.inside] at read
    have long := blocks.sized _ entry.positive entry.inside
    rw [Except.ok.inj read] at long
    omega
  · intro fits
    refine ⟨_, ExtentTree.load_eval formed large (fun _ => blocks.loaded) ?_,
      fun logical _ => mapped logical⟩
    intro outside number positive inside
    rw [blocks.sized number positive inside]
    omega

/-! ## A volume for every block size -/

namespace TwoLevels

/-- A leaf with one record of three blocks, from block 20 on. -/
def leafBlock (blockSize : Nat) : Bytes :=
  [0x0A, 0xF3, 1, 0] ++ leBytes 2 ((blockSize - 16) / 12) ++
    [0, 0, 0, 0, 0, 0, 0, 0, 0, 0, 3, 0, 0, 0, 20, 0, 0, 0] ++
    List.replicate (blockSize - 24) 0

theorem length_leafBlock {blockSize : Nat} (large : 24 ≤ blockSize) :
    (leafBlock blockSize).length = blockSize := by
  simp [leafBlock, length_leBytes]
  omega

/-- The leaf is in block 10. -/
def store (blockSize number : Nat) : Bytes :=
  if number = 10 then leafBlock blockSize else zeros blockSize

def disk (blockSize : Nat) (large : 24 ≤ blockSize) : Disk blockSize where
  block := store blockSize
  length_block number := by
    unfold store
    split_ifs
    · exact length_leafBlock large
    · exact List.length_replicate

/-- A volume of 64 blocks without checksums. -/
def volume (blockSize : Nat) : Ext4 where
  superblock :=
    { inodesCount := 16, blocksCount := 64, firstDataBlock := 0
      blockSize := blockSize, blocksPerGroup := 64, inodesPerGroup := 16
      inodeSize := 128, firstInode := 11, descriptorSize := 32
      featureCompat := 0, featureIncompat := incompatExtents
      featureRoCompat := 0, uuid := [], checksumSeed := 0
      journalInode := 0, reservedGdtBlocks := 0, backupBgs := [0, 0]
      firstMetaBg := 0 }
  overlay := []
  storageLen := 64 * blockSize

/-- A file whose root points to the leaf. -/
def file : Inode where
  number := 12
  mode := modeRegular
  uid := 0
  gid := 0
  size := 3072
  links := 1
  accessed := ⟨0, 0⟩
  modified := ⟨0, 0⟩
  changed := ⟨0, 0⟩
  flags := extentsFl
  generation := 0
  blocks512 := 8
  externalXattrBlock := 0
  blockMap :=
    [0x0A, 0xF3, 1, 0, 4, 0, 1, 0, 0, 0, 0, 0,
      0, 0, 0, 0, 10, 0, 0, 0, 0, 0, 0, 0] ++ List.replicate 36 0
  inlineData := none

variable {blockSize : Nat} (large : 24 ≤ blockSize)

variable (blockSize) in
def readBlock (number : Nat) : Query (Error E) Bytes :=
  (volume blockSize).readStorage (number * blockSize) blockSize

theorem volume_stored (small : blockSize ≤ 65536) :
    (volume blockSize).Stored (E := E) (disk blockSize large).answers
      (readBlock blockSize) (store blockSize) := by
  have read (number : Nat) (inside : number < 64) :
      ((volume blockSize).readStorage (E := E) (number * blockSize)
          blockSize).eval (disk blockSize large).answers =
        .ok (store blockSize number) := by
    have within : (number + 1) * blockSize ≤ 64 * blockSize := Nat.mul_le_mul_right blockSize inside
    rw [Nat.succ_mul] at within
    rw [readStorage_nil rfl _ (by omega) within, Disk.read_block _ (by omega), disk]
  exact
    { sized := fun number _ _ => (disk blockSize large).length_block number
      walked := fun number _ inside => read number inside
      loaded := fun number _ inside => read number inside }

/-- The nodes of the file, for one block size that is read and one not. -/
theorem file_nodes (either : blockSize = 1024 ∨ blockSize = 2048) :
    NodeOk (store blockSize) 64 ((blockSize - 16) / 12)
      ((volume blockSize).extentIdentity file) 1 rootCapacity
      file.blockMap := by
  rcases either with rfl | rfl
  all_goals
    refine ⟨⟨?_, ?_, ?_, ?_, ?_⟩, ?_, ?_⟩
    iterate 6 decide +kernel
    intro index bound
    have only : index = 0 := Nat.lt_one_iff.mp bound
    subst only
    refine ⟨⟨?_, ?_, nofun, ?_, ?_⟩, ⟨?_, ?_, ?_, ?_, ?_⟩, ?_⟩
    iterate 9 decide +kernel
    intro index bound
    have only : index = 0 := Nat.lt_one_iff.mp bound
    subst only
    exact ⟨by decide +kernel, by decide +kernel, by decide +kernel, by decide +kernel⟩

theorem file_wellFormed (either : blockSize = 1024 ∨ blockSize = 2048) :
    ExtentTree.WellFormed (store blockSize) blockSize 64
      ((volume blockSize).extentIdentity file) file.blockMap where
  depth := by decide +kernel
  nodes := file_nodes either
  sorted := by
    rcases either with rfl | rfl
    all_goals
      refine ⟨?_, by decide +kernel⟩
      unfold ExtentTree.Ordered
      decide +kernel
  blocks := by
    rcases either with rfl | rfl
    all_goals decide +kernel
  placed := by
    rcases either with rfl | rfl
    all_goals
      exact ⟨by decide +kernel, by decide +kernel, by decide +kernel⟩

end TwoLevels

/-- With blocks of 1024 bytes both walkers map the file. -/
theorem small_blocks_agree :
    ∃ tree, ((TwoLevels.volume 1024).readExtentTree (E := Unit) TwoLevels.file
            (TwoLevels.readBlock 1024)).eval
          (TwoLevels.disk 1024 (by decide)).answers = .ok tree ∧
        ∀ logical < 2 ^ 32, ((TwoLevels.volume 1024).mapExtentNode (E := Unit) TwoLevels.file
                logical extentLevels TwoLevels.file.blockMap 0 false).eval
              (TwoLevels.disk 1024 (by decide)).answers =
            .ok (writtenPart (tree.lookup logical)) :=
  (extent_walkers_agree_iff (TwoLevels.volume 1024) TwoLevels.file
    (TwoLevels.disk 1024 (by decide)).answers (TwoLevels.readBlock 1024)
    (TwoLevels.store 1024) (by decide)
    (TwoLevels.volume_stored (by decide) (by decide))
    (TwoLevels.file_wellFormed (Or.inl rfl))).2.mpr (Or.inr (by decide))

/-- With blocks of 2048 bytes the loader refuses the same file. -/
theorem larger_blocks_refused :
    ¬ ∀ (fs : Ext4) (inode : Inode) (answers : Answers (Error Unit))
        (readOwnedBlock : Nat → Query (Error Unit) Bytes)
        (store : Nat → Bytes),
        fs.superblock.blockSize ∈ blockSizes →
        fs.Stored answers readOwnedBlock store →
        ExtentTree.WellFormed store fs.superblock.blockSize
          fs.superblock.blocksCount (fs.extentIdentity inode)
          inode.blockMap →
        ∃ tree, (fs.readExtentTree inode readOwnedBlock).eval answers = .ok tree := by
  intro always
  have stored := TwoLevels.volume_stored (E := Unit) (by decide : 24 ≤ 2048) (by decide)
  obtain ⟨tree, ok⟩ :=
    always (TwoLevels.volume 2048) TwoLevels.file _ _ _ (by decide) stored
      (TwoLevels.file_wellFormed (Or.inr rfl))
  have first : childNumber TwoLevels.file.blockMap 0 = 10 := by decide +kernel
  obtain ⟨block, read, exact⟩ := readExtentTree_sized ok (by decide +kernel) first
  rw [stored.loaded 10 (by decide) (by decide)] at read
  have long := stored.sized 10 (by decide) (by decide)
  rw [Except.ok.inj read, exact] at long
  exact absurd long (by decide)

end Ext4

end RetroOS.Ext
