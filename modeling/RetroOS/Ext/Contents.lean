import RetroOS.Ext.Filesystem
import RetroOS.Lib.Medium
import RetroOS.Lib.Strict

/-!
# Reading the contents of an inode

The bytes of a file are its inline data, or the bytes of the blocks that its
map names, with zeros in the holes.  `readInodeData` is compared with them
for every inode that can be loaded.

The readers are modelled once more with their partial operations: each index
and each difference is a demand, unless the branch it stands in compares the
two sides.  An inline directory keeps its data without the first four bytes
of its size, and the reader compares the offset with the size, so the last
three offsets make it panic (`reads_exact_iff`).
-/

namespace RetroOS.Ext

open Lib Lib.Bytes
open Lib.Query (demand)
open Query hiding bind done eval fail read

variable {E : Type}

/-! ## Readers with partial operations -/

/-- `scanLeaf` with the bounds of its reads. -/
def Ext4.scanLeafStrict (fs : Ext4) (node : Bytes) (logical : Nat) :
    (left index : Nat) → Option Nat → Query (Stop (Error E)) (Option Nat)
  | 0, _, _ => .done none
  | left + 1, index, previous => do
    let record := 12 + index * 12
    demand (record + 4 ≤ node.length)
    let startLogical := le32 node record
    refuseIf (previous.any (startLogical ≤ ·) = true) (.error (.corrupt .invalidExtentTree))
    demand (record + 6 ≤ node.length)
    let encodedLen := le16 node (record + 4)
    refuseIf (encodedLen = 0) (.error (.corrupt .invalidExtentTree))
    let length := if encodedLen ≤ 32768 then encodedLen else encodedLen - 32768
    if startLogical ≤ logical ∧ logical - startLogical < length then
      if encodedLen ≤ 32768 then do
        demand (record + 12 ≤ node.length)
        let physicalStart := le32 node (record + 8) ||| (le16 node (record + 6) <<< 32)
        let physical ← orFail (checked 64 (physicalStart + (logical - startLogical)))
            (.error (.corrupt .addressOverflow))
        refuseIf (physical ≥ fs.superblock.blocksCount) (.error (.corrupt .extentPastEnd))
        return some physical
      else return none
    else scanLeafStrict fs node logical left (index + 1) (some startLogical)

/-- `scanIndex` with the bounds of its reads. -/
def Ext4.scanIndexStrict (node : Bytes) (logical : Nat) :
    (left index : Nat) → Option Nat → Option Nat → Query (Stop (Error E)) (Option Nat)
  | 0, _, _, child => .done child
  | left + 1, index, previous, child => do
    let record := 12 + index * 12
    demand (record + 4 ≤ node.length)
    let startLogical := le32 node record
    refuseIf (previous.any (startLogical ≤ ·) = true) (.error (.corrupt .invalidExtentTree))
    if startLogical ≤ logical then do
      demand (record + 10 ≤ node.length)
      scanIndexStrict node logical left (index + 1) (some startLogical)
        (some (le32 node (record + 4) ||| (le16 node (record + 8) <<< 32)))
    else return child

namespace Ext4

variable (fs : Ext4)

/-- `mapExtentNode` with the bounds of its reads; the header check has its own. -/
def mapExtentNodeStrict (inode : Inode) (logical : Nat) :
    (fuel : Nat) → (node : Bytes) → (traversed : Nat) → Bool → Query (Stop (Error E)) (Option Nat)
  | 0, _, _, _ => .fail (.error (.unsupported .extentTreeTooDeep))
  | fuel + 1, node, traversed, external => do
    let (entries, depth) ← (fs.checkExtentHeader node traversed inode external).report
    if depth = 0 then fs.scanLeafStrict node logical entries 0 none
    else do
      let child ← scanIndexStrict node logical entries 0 none none
      match child with
      | none => return none
      | some child => do
        refuseIf (child = 0 ∨ child ≥ fs.superblock.blocksCount) (.error (.corrupt .extentPastEnd))
        let _ ← (fs.newBlockBuffer).report
        let offset ← orFail (checked 64 (child * fs.superblock.blockSize))
            (.error (.corrupt .addressOverflow))
        let bytes ← (fs.readStorage offset fs.superblock.blockSize).report
        demand (8 ≤ bytes.length)
        refuseIf (le16 bytes 6 + 1 ≠ depth) (.error (.corrupt .invalidExtentTree))
        mapExtentNodeStrict inode logical fuel bytes (traversed + 1) true

def followLegacyPointersStrict : Nat → List Nat → Query (Stop (Error E)) (Option Nat)
  | physical, [] => (fs.validateLegacyPointer physical).report
  | physical, index :: rest =>
    if physical = 0 then .done none
    else do
      refuseIf (physical ≥ fs.superblock.blocksCount ∨ index ≥ fs.superblock.blockSize / 4)
        (.error (.corrupt .invalidLegacyBlockMap))
      let offset ← orFail (checked 64 (physical * fs.superblock.blockSize))
          (.error (.corrupt .addressOverflow))
      let block ← (fs.readStorage offset fs.superblock.blockSize).report
      demand (index * 4 + 4 ≤ block.length)
      followLegacyPointersStrict (le32 block (index * 4)) rest

def followLegacyIndirectStrict (inode : Inode) (slot : Nat) (indexes : List Nat) :
    Query (Stop (Error E)) (Option Nat) := do
  demand (slot * 4 + 4 ≤ inode.blockMap.length)
  let _ ← (fs.newBlockBuffer).report
  fs.followLegacyPointersStrict (le32 inode.blockMap (slot * 4)) indexes

def mapLegacyBlockStrict (inode : Inode) (logical : Nat) : Query (Stop (Error E)) (Option Nat) :=
  let pointers := fs.superblock.blockSize / 4
  let doubleCapacity := pointers * pointers
  let tripleCapacity := doubleCapacity * pointers
  if logical < directBlocks then do
    demand (logical * 4 + 4 ≤ inode.blockMap.length)
    (fs.validateLegacyPointer (le32 inode.blockMap (logical * 4))).report
  else
    let remaining := logical - directBlocks
    if remaining < pointers then fs.followLegacyIndirectStrict inode 12 [remaining]
    else
      let remaining := remaining - pointers
      if remaining < doubleCapacity then do
        demand (pointers ≠ 0)
        fs.followLegacyIndirectStrict inode 13 [remaining / pointers, remaining % pointers]
      else
        let remaining := remaining - doubleCapacity
        if remaining < tripleCapacity then do
          demand (pointers ≠ 0 ∧ doubleCapacity ≠ 0)
          fs.followLegacyIndirectStrict inode 14 [remaining / doubleCapacity,
              remaining % doubleCapacity / pointers,
              remaining % pointers]
        else .fail (.error (.corrupt .invalidLegacyBlockMap))

def mapFileBlockStrict (inode : Inode) (logical : Nat) : Query (Stop (Error E)) (Option Nat) :=
  if ¬ HasBits inode.flags extentsFl then fs.mapLegacyBlockStrict inode logical
  else fs.mapExtentNodeStrict inode logical extentLevels inode.blockMap 0 false

def readBlocksStrict (inode : Inode) (offset wanted : Nat) :
    (fuel done : Nat) → (dst : Bytes) → Query (Stop (Error E)) (Nat × Bytes)
  | 0, done, dst => .done (done, dst)
  | fuel + 1, done, dst =>
    if done < wanted then do
      demand (offset + done < 2 ^ 64)
      let position := offset + done
      demand (fs.superblock.blockSize ≠ 0)
      let logical := position / fs.superblock.blockSize
      let within := position % fs.superblock.blockSize
      demand (within ≤ fs.superblock.blockSize)
      let amount := min (wanted - done) (fs.superblock.blockSize - within)
      let mapped ← fs.mapFileBlockStrict inode logical
      demand (done + amount ≤ dst.length)
      match mapped with
      | some physical => do
        let diskOffset ← orFail (checked 64 (physical * fs.superblock.blockSize + within))
            (.error (.corrupt .addressOverflow))
        let bytes ← (fs.readStorage diskOffset amount).report
        readBlocksStrict inode offset wanted fuel (done + amount) (put dst done bytes)
      | none => readBlocksStrict inode offset wanted fuel (done + amount) (fill dst done amount 0)
    else .done (done, dst)

/-- `readInodeData` with the differences and bounds of its copies. -/
def readInodeDataStrict (inode : Inode) (offset : Nat) (dst : Bytes) :
    Query (Stop (Error E)) (Nat × Bytes) :=
  match inode.inlineData with
  | some data =>
    if offset ≥ inode.size ∨ dst.length = 0 then .done (0, dst)
    else do
      demand (offset ≤ data.length)
      let amount := min dst.length (data.length - offset)
      demand (amount ≤ dst.length ∧ offset + amount ≤ data.length)
      return (amount, put dst 0 (slice data offset amount))
  | none => do
    refuseIf (HasBits inode.flags inlineDataFl) (.error (.unsupported .inlineData))
    refuseIf (HasBits inode.flags encryptFl) (.error (.unsupported .encryption))
    if offset ≥ inode.size ∨ dst.length = 0 then return (0, dst)
    else
      let wanted := min (inode.size - offset) dst.length
      fs.readBlocksStrict inode offset wanted wanted 0 dst

/-! ## The readers do not panic -/

variable {node : Bytes} {inode : Inode}

variable {left index traversed entries depth : Nat} {external : Bool}

section Agree

variable {fs} {answers : Answers (Error E)}

theorem scanLeaf_agree (logical : Nat) (previous : Option Nat)
    (room : 12 + (index + left) * 12 ≤ node.length) :
    Agree answers (fs.scanLeafStrict node logical left index previous)
      (fs.scanLeaf node logical left index previous) := by
  induction left generalizing index previous with
  | zero => exact agree_done none
  | succ left induction =>
    refine agree_demand_bind (by omega) ?_
    refine agree_refuseIf_bind fun _ => ?_
    refine agree_demand_bind (by omega) ?_
    refine agree_refuseIf_bind fun _ => ?_
    refine agree_ite (fun _ => ?_) (fun _ => induction _ (by omega))
    refine agree_ite (fun _ => ?_) (fun _ => agree_done none)
    refine agree_demand_bind (by omega) ?_
    refine agree_orFail_bind fun physical _ => ?_
    exact agree_refuseIf_bind fun _ => agree_done (some physical)

theorem scanIndex_agree (logical : Nat) (previous child : Option Nat)
    (room : 12 + (index + left) * 12 ≤ node.length) :
    Agree answers (scanIndexStrict node logical left index previous child)
      (scanIndex node logical left index previous child) := by
  induction left generalizing index previous child with
  | zero => exact agree_done child
  | succ left induction =>
    refine agree_demand_bind (by omega) ?_
    refine agree_refuseIf_bind fun _ => ?_
    refine agree_ite (fun _ => ?_) (fun _ => agree_done child)
    exact agree_demand_bind (by omega) (induction _ _ (by omega))

/-- The entries that a header announces lie in the node. -/
theorem checkExtentHeader_fields
    (ok : (fs.checkExtentHeader node traversed inode external).eval answers = .ok (entries, depth)) :
    entries = le16 node 2 ∧ depth = le16 node 6 := by
  iterate 3 obtain ⟨-, ok⟩ := eval_refuseIf_bind_ok ok
  split_ifs at ok
  · obtain ⟨-, ok⟩ := eval_refuseIf_bind_ok ok
    obtain ⟨-, ok⟩ := eval_refuseIf_bind_ok ok
    cases ok
    exact ⟨rfl, rfl⟩
  · cases ok
    exact ⟨rfl, rfl⟩

theorem checkExtentHeader_room
    (ok : (fs.checkExtentHeader node traversed inode external).eval answers = .ok (entries, depth)) :
    12 + entries * 12 ≤ node.length := by
  obtain ⟨long, ok⟩ := eval_refuseIf_bind_ok ok
  obtain ⟨-, ok⟩ := eval_refuseIf_bind_ok ok
  obtain ⟨fits, ok⟩ := eval_refuseIf_bind_ok ok
  have same : le16 node 2 = entries := by
    split at ok
    · obtain ⟨-, ok⟩ := eval_refuseIf_bind_ok ok
      obtain ⟨-, ok⟩ := eval_refuseIf_bind_ok ok
      cases ok
      rfl
    · cases ok
      rfl
  have capacity := Nat.div_mul_le_self (node.length - 12) 12
  subst same
  simp only [not_or, not_lt] at long fits
  have scaled := Nat.mul_le_mul_right 12 (fits.1.trans fits.2)
  omega

end Agree

/-! ## Storage as it is seen -/

/-- A byte of the storage, seen through the recovered blocks. -/
def seenByte (medium : Nat → UInt8) (position : Nat) : UInt8 :=
  match fs.overlay.lookup (position / fs.superblock.blockSize) with
  | some block => block.getD (position % fs.superblock.blockSize) (medium position)
  | none => medium position

/-- A read over the blocks of the list, patched so far. -/
def patched (medium : Nat → UInt8) (numbers : List Nat) (position : Nat) : UInt8 :=
  if position / fs.superblock.blockSize ∈ numbers then fs.seenByte medium position
  else medium position

variable {number offset length : Nat}

section Seen

variable {fs} {answers : Answers (Error E)} {medium : Nat → UInt8}

/-- A byte of a recovered block, or the medium's where the block is too short. -/
theorem seenByte_of_found {position : Nat} {block : Bytes}
    (found : fs.overlay.lookup number = some block)
    (own : position / fs.superblock.blockSize = number) :
    fs.seenByte medium position =
      block.getD (position % fs.superblock.blockSize) (medium position) := by
  simp [seenByte, own, found]

variable {bytes : Bytes}

section

variable (positive : 0 < fs.superblock.blockSize)

include positive

theorem patchBlock_seen {numbers : List Nat} (ok :
      (fs.patchBlock offset (stretch (fs.patched medium numbers) offset length) number).eval
        answers = .ok bytes) :
    bytes = stretch (fs.patched medium (number :: numbers)) offset length := by
  have other (position : Nat) (outside : position / fs.superblock.blockSize ≠ number) :
      fs.patched medium (number :: numbers) position = fs.patched medium numbers position := by
    simp [patched, outside]
  have place (position : Nat) : position / fs.superblock.blockSize = number ↔
      number * fs.superblock.blockSize ≤ position ∧
        position < number * fs.superblock.blockSize + fs.superblock.blockSize := by
    rw [Nat.div_eq_iff positive]
    omega
  have rest (position : Nat) (own : position / fs.superblock.blockSize = number) :
      position % fs.superblock.blockSize = position - number * fs.superblock.blockSize := by
    rw [← own, Nat.mod_eq_sub_mul_div, Nat.mul_comm]
  unfold patchBlock at ok
  split at ok
  · rename_i bare
    cases ok
    refine stretch_congr fun index _ => ?_
    by_cases own : (offset + index) / fs.superblock.blockSize = number
    · simp [patched, seenByte, own, bare]
    · exact (other _ own).symm
  · rename_i block found
    obtain ⟨blockStart, startEq, ok⟩ := eval_orFail_bind_ok ok
    obtain ⟨blockEnd, endEq, ok⟩ := eval_orFail_bind_ok ok
    rw [checked_eq_some] at startEq endEq
    obtain ⟨rfl, -⟩ := startEq
    obtain ⟨rfl, -⟩ := endEq
    -- a position of the read either comes from the block or stays
    have kept (index : Nat) (inside : index < length)
        (apart : (offset + index) / fs.superblock.blockSize = number →
          block.length ≤ (offset + index) % fs.superblock.blockSize) :
        fs.patched medium numbers (offset + index) =
          fs.patched medium (number :: numbers) (offset + index) := by
      by_cases own : (offset + index) / fs.superblock.blockSize = number
      · simp [patched, seenByte_of_found found own, apart own]
      · exact (other _ own).symm
    simp only [length_stretch] at ok
    split at ok
    · rename_i overlap
      cases ok
      apply List.ext_getElem?
      intro index
      rw [getElem?_put (by rw [length_stretch]; omega), getElem?_stretch, getElem?_stretch,
        getElem?_slice, length_slice]
      by_cases inside : index < length
      · rw [if_pos inside, if_pos inside]
        have within := place (offset + index)
        split_ifs with copied short
        · have own := within.mpr (by omega)
          have rest := rest _ own
          have indexed : max offset (number * fs.superblock.blockSize) -
              number * fs.superblock.blockSize +
                (index - (max offset (number * fs.superblock.blockSize) - offset)) =
              (offset + index) % fs.superblock.blockSize := by
            omega
          rw [indexed, List.getElem?_eq_getElem (by omega)]
          simp only [patched, List.mem_cons, own, true_or, if_true, seenByte_of_found found own]
          rw [List.getD_eq_getElem?_getD, List.getElem?_eq_getElem (by omega), Option.getD_some]
        · omega
        · congr 1
          refine kept index inside fun own => ?_
          have rest := rest _ own
          have bounds := within.mp own
          omega
      · rw [if_neg inside, if_neg inside, if_neg]
        omega
    · rename_i apart
      cases ok
      refine stretch_congr fun index inside => kept index inside fun own => ?_
      have bounds := (place (offset + index)).mp own
      omega

theorem patchBlocks_seen {rest numbers : List Nat} (ok :
      (fs.patchBlocks offset (stretch (fs.patched medium numbers) offset length) rest).eval
        answers = .ok bytes) :
    bytes = stretch (fs.patched medium (rest.reverse ++ numbers)) offset length := by
  induction rest generalizing numbers with
  | nil =>
    cases ok
    rfl
  | cons number rest induction =>
    obtain ⟨middle, first, ok⟩ := eval_bind_ok ok
    rw [patchBlock_seen positive first] at ok
    rw [induction ok]
    simp

/-- A read returns the storage as it is seen. -/
theorem readStorage_seen (truthful : answers.Truthful medium)
    (ok : (fs.readStorage offset length).eval answers = .ok bytes) :
    bytes = stretch (fs.seenByte medium) offset length := by
  obtain ⟨raw, read, ok⟩ := eval_bind_ok ok
  have whole : raw = stretch (fs.patched medium []) offset length := by
    obtain ⟨stop, -, read⟩ := eval_orFail_bind_ok read
    obtain ⟨-, read⟩ := eval_refuseIf_bind_ok read
    simp only [Query.eval] at read
    split at read
    · rename_i answered
      cases read
      exact truthful _ _ _ answered
    · cases read
  rw [whole] at ok
  split at ok
  · rename_i empty
    cases ok
    rw [empty]
    rfl
  · rename_i nonempty
    rw [patchBlocks_seen positive ok]
    refine stretch_congr fun index inside => ?_
    have first : offset / fs.superblock.blockSize ≤
        (offset + index) / fs.superblock.blockSize := Nat.div_le_div_right (by omega)
    have last : (offset + index) / fs.superblock.blockSize ≤
        (offset + length - 1) / fs.superblock.blockSize := Nat.div_le_div_right (by omega)
    have member : (offset + index) / fs.superblock.blockSize ∈
        List.range' (offset / fs.superblock.blockSize)
          ((offset + length - 1) / fs.superblock.blockSize + 1 -
            offset / fs.superblock.blockSize) := by
      rw [List.mem_range'_1]
      omega
    simp [patched, member]

theorem length_readStorage (truthful : answers.Truthful medium)
    (ok : (fs.readStorage offset length).eval answers = .ok bytes) : bytes.length = length := by
  rw [readStorage_seen positive truthful ok, length_stretch]

end

end Seen

/-! ## The readers do not panic -/

variable {wanted : Nat} {dst : Bytes}

section Agree

variable {fs} {answers : Answers (Error E)} {medium : Nat → UInt8}
    (bounded : fs.superblock.Bounded) (truthful : answers.Truthful medium)

include bounded truthful

theorem mapExtentNode_agree (inode : Inode) (logical fuel : Nat) (node : Bytes) (traversed : Nat)
    (external : Bool) :
    Agree answers (fs.mapExtentNodeStrict inode logical fuel node traversed external)
      (fs.mapExtentNode inode logical fuel node traversed external) := by
  have large := bounded.inodeSize_ge.trans bounded.inodeSize_le
  induction fuel generalizing node traversed external with
  | zero => exact agree_fail _
  | succ fuel induction =>
    refine (agree_report _).bind fun header ok => ?_
    obtain ⟨entries, depth⟩ := header
    have room := checkExtentHeader_room ok
    refine agree_ite (fun _ => scanLeaf_agree logical none (by omega)) (fun _ => ?_)
    refine (scanIndex_agree logical none none (by omega)).bind fun child _ => ?_
    cases child with
    | none => exact agree_done none
    | some child =>
      refine agree_refuseIf_bind fun _ => ?_
      refine (agree_report _).bind fun _ _ => ?_
      refine agree_orFail_bind fun offset _ => ?_
      refine (agree_report _).bind fun bytes read => ?_
      have whole := length_readStorage bounded.blockSize_pos truthful read
      refine agree_demand_bind (by omega) ?_
      exact agree_refuseIf_bind fun _ => induction bytes _ _

theorem followLegacyPointers_agree (physical : Nat) (indexes : List Nat) :
    Agree answers (fs.followLegacyPointersStrict physical indexes)
      (fs.followLegacyPointers physical indexes) := by
  induction indexes generalizing physical with
  | nil => exact agree_report _
  | cons index rest induction =>
    refine agree_ite (fun _ => agree_done none) (fun _ => ?_)
    refine agree_refuseIf_bind fun accepted => ?_
    refine agree_orFail_bind fun offset _ => ?_
    refine (agree_report _).bind fun block read => ?_
    have whole := length_readStorage bounded.blockSize_pos truthful read
    exact agree_demand_bind (by omega) (induction _)

theorem followLegacyIndirect_agree (map : inode.blockMap.length = 60) {slot : Nat}
    (inside : slot < 15) (indexes : List Nat) :
    Agree answers (fs.followLegacyIndirectStrict inode slot indexes)
      (fs.followLegacyIndirect (le32 inode.blockMap (slot * 4)) indexes) := by
  refine agree_demand_bind (by omega) ?_
  refine (agree_report _).bind fun _ _ => ?_
  exact followLegacyPointers_agree bounded truthful _ indexes

theorem mapFileBlock_agree (map : inode.blockMap.length = 60) (logical : Nat) :
    Agree answers (fs.mapFileBlockStrict inode logical) (fs.mapFileBlock inode logical) := by
  have follow {slot : Nat} (inside : slot < 15) (indexes : List Nat) :=
    followLegacyIndirect_agree bounded truthful map inside indexes
  refine agree_ite (fun _ => ?_) (fun _ => mapExtentNode_agree bounded truthful ..)
  refine agree_ite (fun direct => ?_) (fun _ => ?_)
  · simp only [directBlocks] at direct
    exact agree_demand_bind (by omega) (agree_report _)
  refine agree_ite (fun _ => follow (by decide) _) (fun _ => ?_)
  refine agree_ite (fun within => ?_) (fun _ => ?_)
  · refine agree_demand_bind (fun none => ?_) (follow (by decide) _)
    simp [none] at within
  refine agree_ite (fun within => ?_) (fun _ => agree_fail _)
  refine agree_demand_bind ⟨fun none => ?_, fun none => ?_⟩ (follow (by decide) _)
  · simp [none] at within
  · simp [none] at within

theorem readBlocks_agree (map : inode.blockMap.length = 60) (small : offset + wanted ≤ 2 ^ 64)
    (fuel done : Nat) (room : wanted ≤ dst.length) :
    Agree answers (fs.readBlocksStrict inode offset wanted fuel done dst)
      (fs.readBlocks inode offset wanted fuel done dst) := by
  have positive := bounded.blockSize_pos
  induction fuel generalizing done dst with
  | zero => exact agree_done _
  | succ fuel induction =>
    have within := Nat.mod_lt (offset + done) positive
    refine agree_ite (fun more => ?_) (fun _ => agree_done _)
    refine agree_demand_bind (by omega) ?_
    refine agree_demand_bind (by omega) ?_
    refine agree_demand_bind within.le ?_
    refine (mapFileBlock_agree bounded truthful map _).bind fun mapped _ => ?_
    refine agree_demand_bind (by omega) ?_
    cases mapped with
    | none => exact induction _ (by rw [length_fill _ (by omega)]; exact room)
    | some physical =>
      refine agree_orFail_bind fun diskOffset _ => ?_
      refine (agree_report _).bind fun bytes read => ?_
      have whole := length_readStorage positive truthful read
      exact induction _ (by rw [length_put (by omega)]; exact room)

/-- Without an offset behind inline data no operation panics. -/
theorem readInodeData_agree (map : inode.blockMap.length = 60) (size : inode.size < 2 ^ 64)
    (inside : ∀ data, inode.inlineData = some data → offset < inode.size → dst ≠ [] →
      offset ≤ data.length) :
    Agree answers (fs.readInodeDataStrict inode offset dst)
      (fs.readInodeData inode offset dst) := by
  unfold readInodeDataStrict readInodeData
  cases kept : inode.inlineData with
  | some data =>
    refine agree_ite (fun _ => agree_done _) (fun reads => ?_)
    simp only [not_or, not_le, List.length_eq_zero_iff] at reads
    have start := inside data kept reads.1 reads.2
    refine agree_demand_bind start ?_
    exact agree_demand_bind ⟨by omega, by omega⟩ (agree_done _)
  | none =>
    refine agree_refuseIf_bind fun _ => ?_
    refine agree_refuseIf_bind fun _ => ?_
    refine agree_ite (fun _ => agree_done _) (fun reads => ?_)
    exact readBlocks_agree bounded truthful map (by omega) _ _ (by omega)

end Agree

/-! ## The contents of a file -/

/-- A block number, unless it is zero. -/
def stored (number : Nat) : Option Nat := if number = 0 then none else some number

/-- The leaf of a tree of pointer blocks; a zero pointer is a hole. -/
def legacyPointer (medium : Nat → UInt8) : (depth pointer logical : Nat) → Nat
  | 0, pointer, _ => pointer
  | depth + 1, pointer, logical =>
    if pointer = 0 then 0
    else
      let stride := (fs.superblock.blockSize / 4) ^ depth
      legacyPointer medium depth (leNat (stretch (fs.seenByte medium)
        (pointer * fs.superblock.blockSize + logical / stride * 4) 4)) (logical % stride)

/-- Twelve direct blocks, then trees of one, two and three levels. -/
def legacyBlock (medium : Nat → UInt8) (inode : Inode) (logical : Nat) : Nat :=
  let pointers := fs.superblock.blockSize / 4
  let remaining := logical - 12
  if logical < 12 then le32 inode.blockMap (logical * 4)
  else if remaining < pointers then
    fs.legacyPointer medium 1 (le32 inode.blockMap (12 * 4)) remaining
  else if remaining - pointers < pointers ^ 2 then
    fs.legacyPointer medium 2 (le32 inode.blockMap (13 * 4)) (remaining - pointers)
  else
    fs.legacyPointer medium 3 (le32 inode.blockMap (14 * 4)) (remaining - pointers - pointers ^ 2)

/-- Whether a leaf record holds a logical block. -/
def recordCovers (node : Bytes) (logical index : Nat) : Bool :=
  let start := le32 node (12 + index * 12)
  let encodedLen := le16 node (12 + index * 12 + 4)
  start ≤ logical ∧ logical - start < if encodedLen ≤ 32768 then encodedLen else encodedLen - 32768

/-- The block that a leaf record gives to a logical block; an unwritten record gives none. -/
def recordBlock (node : Bytes) (logical index : Nat) : Option Nat :=
  let record := 12 + index * 12
  if le16 node (record + 4) ≤ 32768 then
    some ((le32 node (record + 8) ||| (le16 node (record + 6) <<< 32)) +
      (logical - le32 node record))
  else none

/-- Whether an index record starts at or before a logical block. -/
def recordBefore (node : Bytes) (logical index : Nat) : Bool := le32 node (12 + index * 12) ≤ logical

/-- The node that an index record points to. -/
def recordChild (node : Bytes) (index : Nat) : Nat :=
  le32 node (12 + index * 12 + 4) ||| (le16 node (12 + index * 12 + 8) <<< 32)

/-- The block that the tree below a node gives to a logical block. -/
def extentBlock (medium : Nat → UInt8) (logical : Nat) : (levels : Nat) → (node : Bytes) → Option Nat
  | 0, _ => none
  | levels + 1, node =>
    let records := List.range' 0 (le16 node 2)
    if le16 node 6 = 0 then
      (records.find? (recordCovers node logical)).bind (recordBlock node logical)
    else
      -- The records before the first that starts behind the block.
      match (records.takeWhile (recordBefore node logical)).getLast? with
      | none => none
      | some index =>
        extentBlock medium logical levels (stretch (fs.seenByte medium)
          (recordChild node index * fs.superblock.blockSize) fs.superblock.blockSize)

/-- The block that holds a logical block, by the map the inode has. -/
def fileBlock (medium : Nat → UInt8) (inode : Inode) (logical : Nat) : Option Nat :=
  if ¬ HasBits inode.flags extentsFl then stored (fs.legacyBlock medium inode logical)
  else fs.extentBlock medium logical extentLevels inode.blockMap

/-- The byte of a file at a position. -/
def contentByte (medium : Nat → UInt8) (inode : Inode) (position : Nat) : UInt8 :=
  match inode.inlineData with
  | some data => data.getD position 0
  | none =>
    match fs.fileBlock medium inode (position / fs.superblock.blockSize) with
    | some physical =>
      fs.seenByte medium (physical * fs.superblock.blockSize + position % fs.superblock.blockSize)
    | none => 0

/-- The number of bytes of a file. -/
def contentLength (inode : Inode) : Nat :=
  match inode.inlineData with
  | some data => data.length
  | none => inode.size

variable {fuel : Nat}

section Exact

variable {fs} {answers : Answers (Error E)} {medium : Nat → UInt8}

variable {found : Option Nat}

theorem validateLegacyPointer_eval {physical : Nat}
    (ok : (fs.validateLegacyPointer physical).eval answers = .ok found) :
    found = stored physical := by
  unfold validateLegacyPointer at ok
  unfold stored
  split_ifs at ok ⊢ <;> cases ok
  · rfl
  · rfl

/-- The indexes of a leaf in a tree of pointer blocks. -/
def pointerIndexes (pointers : Nat) : (depth logical : Nat) → List Nat
  | 0, _ => []
  | depth + 1, logical =>
    logical / pointers ^ depth :: pointerIndexes pointers depth (logical % pointers ^ depth)

variable {count : Nat}

theorem slice_stretch {inner : Nat} (inside : inner + count ≤ length) :
    slice (stretch medium offset length) inner count = stretch medium (offset + inner) count := by
  apply List.ext_getElem?
  intro index
  rw [getElem?_slice, getElem?_stretch, getElem?_stretch]
  split_ifs
  · rw [Nat.add_assoc]
  · omega
  · rfl

variable (positive : 0 < fs.superblock.blockSize) (truthful : answers.Truthful medium)

include positive truthful

variable {logical : Nat}

theorem followLegacyPointers_eval {pointer : Nat} (ok :
      (fs.followLegacyPointers pointer
        (pointerIndexes (fs.superblock.blockSize / 4) depth logical)).eval answers = .ok found) :
    found = stored (fs.legacyPointer medium depth pointer logical) := by
  induction depth generalizing pointer logical with
  | zero => exact validateLegacyPointer_eval ok
  | succ depth induction =>
    simp only [pointerIndexes, followLegacyPointers] at ok
    rw [legacyPointer]
    split_ifs at ok ⊢
    · cases ok
      rfl
    · obtain ⟨accepted, ok⟩ := eval_refuseIf_bind_ok ok
      obtain ⟨offset, offsetEq, ok⟩ := eval_orFail_bind_ok ok
      obtain ⟨rfl, -⟩ := checked_eq_some.mp offsetEq
      obtain ⟨block, read, ok⟩ := eval_bind_ok ok
      rw [readStorage_seen positive truthful read, le32, leAt, slice_stretch (by omega)] at ok
      exact induction ok

omit positive truthful in
theorem scanLeaf_block {previous found : Option Nat}
    (ok : (fs.scanLeaf node logical left index previous).eval answers = .ok found) :
    found = ((List.range' index left).find? (recordCovers node logical)).bind
      (recordBlock node logical) := by
  induction left generalizing index previous with
  | zero =>
    cases ok
    rfl
  | succ left induction =>
    iterate 2 obtain ⟨-, ok⟩ := eval_refuseIf_bind_ok ok
    rw [List.range'_succ]
    by_cases covers : recordCovers node logical index = true
    · rw [List.find?_cons_of_pos covers, Option.bind_some]
      rw [if_pos (of_decide_eq_true covers)] at ok
      simp only [recordBlock]
      split_ifs at ok ⊢
      · obtain ⟨physical, physicalEq, ok⟩ := eval_orFail_bind_ok ok
        obtain ⟨-, ok⟩ := eval_refuseIf_bind_ok ok
        cases ok
        rw [(checked_eq_some.mp physicalEq).1]
      · cases ok
        rfl
    · rw [List.find?_cons_of_neg covers]
      rw [if_neg fun holds => covers (decide_eq_true holds)] at ok
      exact induction ok

omit positive truthful in
theorem scanIndex_child {previous child found : Option Nat}
    (ok : (scanIndex node logical left index previous child).eval answers = .ok found) :
    found = (((List.range' index left).takeWhile
      (recordBefore node logical)).getLast?.map (recordChild node)).or child := by
  induction left generalizing index previous child with
  | zero =>
    cases ok
    rfl
  | succ left induction =>
    obtain ⟨-, ok⟩ := eval_refuseIf_bind_ok ok
    rw [List.range'_succ]
    split_ifs at ok with before
    · have holds : recordBefore node logical index = true := decide_eq_true before
      rw [List.takeWhile_cons_of_pos holds, List.getLast?_cons, induction ok]
      cases ((List.range' (index + 1) left).takeWhile (recordBefore node logical)).getLast? <;> rfl
    · have fails : ¬ recordBefore node logical index = true := fun holds =>
        before (of_decide_eq_true holds)
      rw [List.takeWhile_cons_of_neg fails]
      cases ok
      rfl

theorem mapExtentNode_block
    (ok : (fs.mapExtentNode inode logical fuel node traversed external).eval answers = .ok found) :
    found = fs.extentBlock medium logical fuel node := by
  induction fuel generalizing node traversed external with
  | zero => cases ok
  | succ fuel induction =>
    obtain ⟨⟨entries, depth⟩, checked, ok⟩ := eval_bind_ok ok
    obtain ⟨rfl, rfl⟩ := checkExtentHeader_fields checked
    simp only [extentBlock] at ok ⊢
    split_ifs at ok ⊢
    · exact scanLeaf_block ok
    · obtain ⟨child, scanned, ok⟩ := eval_bind_ok ok
      have last := scanIndex_child scanned
      rw [Option.or_none] at last
      subst last
      cases before : ((List.range' 0 (le16 node 2)).takeWhile
        (recordBefore node logical)).getLast? with
      | none =>
        rw [before] at ok
        cases ok
        rfl
      | some index =>
        simp only [before] at ok ⊢
        obtain ⟨-, ok⟩ := eval_refuseIf_bind_ok ok
        obtain ⟨_, -, ok⟩ := eval_bind_ok ok
        obtain ⟨offset, offsetEq, ok⟩ := eval_orFail_bind_ok ok
        obtain ⟨rfl, -⟩ := checked_eq_some.mp offsetEq
        obtain ⟨block, read, ok⟩ := eval_bind_ok ok
        obtain ⟨-, ok⟩ := eval_refuseIf_bind_ok ok
        rw [readStorage_seen positive truthful read] at ok
        exact induction ok

theorem mapFileBlock_eval (ok : (fs.mapFileBlock inode logical).eval answers = .ok found) :
    found = fs.fileBlock medium inode logical := by
  have follow (depth pointer logical : Nat) {indexes : List Nat}
      (same : indexes = pointerIndexes (fs.superblock.blockSize / 4) depth logical)
      (ok : (fs.followLegacyIndirect pointer indexes).eval answers = .ok found) :
      found = stored (fs.legacyPointer medium depth pointer logical) := by
    obtain ⟨_, -, ok⟩ := eval_bind_ok ok
    rw [same] at ok
    exact followLegacyPointers_eval positive truthful ok
  unfold mapFileBlock at ok
  unfold fileBlock
  split_ifs at ok ⊢
  · exact mapExtentNode_block positive truthful ok
  · simp only [mapLegacyBlock, directBlocks, ← pow_two] at ok
    simp only [legacyBlock]
    split_ifs at ok ⊢
    · exact validateLegacyPointer_eval ok
    · exact follow 1 _ _ (by simp [pointerIndexes]) ok
    · exact follow 2 _ _ (by simp [pointerIndexes]) ok
    · refine follow 3 _ _ ?_ ok
      simp [pointerIndexes, pow_two]
    · cases ok

omit truthful in
theorem contentByte_mapped (mapped : inode.inlineData = none) {position amount : Nat}
    (within : position % fs.superblock.blockSize + amount ≤ fs.superblock.blockSize)
    (inside : index < amount) :
    fs.contentByte medium inode (position + index) =
      match fs.fileBlock medium inode (position / fs.superblock.blockSize) with
      | some physical =>
        fs.seenByte medium
          (physical * fs.superblock.blockSize + position % fs.superblock.blockSize + index)
      | none => 0 := by
  have block : (position + index) / fs.superblock.blockSize =
      position / fs.superblock.blockSize := by
    rw [Nat.div_eq_iff positive]
    have whole := Nat.div_add_mod position fs.superblock.blockSize
    rw [Nat.mul_comm] at whole
    omega
  have rest : (position + index) % fs.superblock.blockSize =
      position % fs.superblock.blockSize + index := by
    rw [Nat.add_mod_of_add_mod_lt] <;> rw [Nat.mod_eq_of_lt (a := index) (by omega)]
    omega
  simp only [contentByte, mapped, block, rest, Nat.add_assoc]

/-- The blocks of a file are read one after the other, up to what is wanted. -/
theorem readBlocks_exact (mapped : inode.inlineData = none) {done : Nat} {out : Bytes}
    (enough : wanted ≤ done + fuel) (sofar : done ≤ wanted) (room : wanted ≤ dst.length)
    (filled : dst.take done = stretch (fs.contentByte medium inode) offset done)
    (ok : (fs.readBlocks inode offset wanted fuel done dst).eval answers = .ok (count, out)) :
    count = wanted ∧ out.take count = stretch (fs.contentByte medium inode) offset count := by
  induction fuel generalizing done dst with
  | zero =>
    cases ok
    exact ⟨by omega, filled⟩
  | succ fuel induction =>
    unfold readBlocks at ok
    split at ok
    · rename_i more
      have below := Nat.mod_lt (offset + done) positive
      obtain ⟨found, map, ok⟩ := eval_bind_ok ok
      have block := mapFileBlock_eval positive truthful map
      have next {bytes : Bytes} (same : bytes = stretch (fs.contentByte medium inode)
          (offset + done) (min (wanted - done) (fs.superblock.blockSize -
            (offset + done) % fs.superblock.blockSize)))
          (ok : (fs.readBlocks inode offset wanted fuel (done + min (wanted - done)
            (fs.superblock.blockSize - (offset + done) % fs.superblock.blockSize))
              (put dst done bytes)).eval answers = .ok (count, out)) :
          count = wanted ∧ out.take count = stretch (fs.contentByte medium inode) offset count := by
        have length := congrArg List.length same
        rw [length_stretch] at length
        refine induction (by omega) (by omega) ?_ ?_ ok
        · rw [length_put (by omega)]
          exact room
        · rw [← length, take_put (by omega), filled, same, length_stretch, stretch_add]
      cases found with
      | some physical =>
        obtain ⟨diskOffset, offsetEq, ok⟩ := eval_orFail_bind_ok ok
        obtain ⟨rfl, -⟩ := checked_eq_some.mp offsetEq
        obtain ⟨bytes, read, ok⟩ := eval_bind_ok ok
        refine next ?_ ok
        rw [readStorage_seen positive truthful read]
        refine stretch_congr fun index inside => ?_
        rw [contentByte_mapped positive mapped (by omega) inside, ← block]
      | none =>
        refine next ?_ ok
        rw [← stretch_const 0 0]
        refine stretch_congr fun index inside => ?_
        rw [contentByte_mapped positive mapped (by omega) inside, ← block]
    · have all : wanted = done := by omega
      cases ok
      exact ⟨all.symm, filled⟩

/-- What a reader returns is the part of the contents that it asked for. -/
theorem readInodeData_exact {out : Bytes}
    (short : ∀ data, inode.inlineData = some data → data.length ≤ inode.size)
    (ok : (fs.readInodeData inode offset dst).eval answers = .ok (count, out)) :
    count = min dst.length (contentLength inode - offset) ∧
      out.take count = stretch (fs.contentByte medium inode) offset count := by
  unfold readInodeData at ok
  cases kept : inode.inlineData with
  | some data =>
    have bound := short data kept
    simp only [kept] at ok
    simp only [contentLength, kept]
    split at ok
    · rename_i nothing
      cases ok
      exact ⟨by omega, rfl⟩
    · cases ok
      refine ⟨rfl, ?_⟩
      have length := length_slice data offset (min dst.length (data.length - offset))
      have taken := @take_put dst (slice data offset (min dst.length (data.length - offset))) 0
        (Nat.zero_le dst.length)
      rw [length, Nat.zero_add, List.take_zero, List.nil_append, min_eq_left (by omega)] at taken
      rw [taken]
      apply List.ext_getElem?
      intro index
      rw [getElem?_slice, getElem?_stretch]
      split_ifs with inside
      · rw [List.getElem?_eq_getElem (by omega)]
        simp only [contentByte, kept]
        rw [List.getD_eq_getElem?_getD, List.getElem?_eq_getElem (by omega), Option.getD_some]
      · rfl
  | none =>
    simp only [kept] at ok
    simp only [contentLength, kept]
    iterate 2 obtain ⟨-, ok⟩ := eval_refuseIf_bind_ok ok
    split at ok
    · rename_i nothing
      cases ok
      exact ⟨by omega, rfl⟩
    · obtain ⟨rfl, filled⟩ := readBlocks_exact positive truthful kept (by omega)
        (Nat.zero_le _) (by omega) rfl ok
      exact ⟨min_comm _ _, filled⟩

end Exact

/-! ## Inodes that can be loaded -/

section Load

variable {fs} {answers : Answers (Error E)}

variable {raw : Bytes}

theorem findInlineData_length {inode cursor : Nat} {data found : Bytes}
    (ok : (findInlineData inode wanted entries raw data fuel cursor).eval answers = .ok found) :
    found.length = data.length + wanted := by
  induction fuel generalizing cursor with
  | zero => cases ok
  | succ fuel induction =>
    unfold findInlineData at ok
    split at ok
    · obtain ⟨-, ok⟩ := eval_refuseIf_bind_ok ok
      split at ok
      · obtain ⟨inside, ok⟩ := eval_refuseIf_bind_ok ok
        obtain ⟨same, ok⟩ := eval_refuseIf_bind_ok ok
        cases ok
        rw [List.length_append, length_slice_of_le (by omega)]
        omega
      · exact induction ok
    · cases ok

/-- An inline directory has four bytes less than its size. -/
theorem parseInlineData_length {inode mode size : Nat} {blockMap data : Bytes}
    (map : blockMap.length = 60)
    (ok : (parseInlineData inode mode size raw blockMap).eval answers = .ok data) :
    data.length = (if mode &&& modeTypeMask = modeDirectory then size - 4 else size) ∧
      ¬ (mode &&& modeTypeMask = modeDirectory ∧ size < 4) := by
  obtain ⟨large, ok⟩ := eval_refuseIf_bind_ok ok
  refine ⟨?_, large⟩
  obtain ⟨_, -, ok⟩ := eval_bind_ok ok
  simp only [map] at ok
  by_cases fits : size ≤ 60
  · rw [if_pos fits] at ok
    cases ok
    rw [length_slice, map]
    split_ifs <;> omega
  · rw [if_neg fits] at ok
    iterate 3 obtain ⟨-, ok⟩ := eval_refuseIf_bind_ok ok
    rw [findInlineData_length ok, length_slice, map]
    split_ifs <;> omega

theorem lowHigh32_lt (raw : Bytes) (low high : Nat) : lowHigh32 raw low high < 2 ^ 64 := by
  have lower := leAt_lt 4 raw low
  have upper := leAt_lt 4 raw high
  refine Nat.or_lt_two_pow (lt_of_lt_of_le lower (by decide)) ?_
  rw [Nat.shiftLeft_eq, le32]
  omega

/-- What holds of every inode that is decoded from at least 128 bytes. -/
structure Decoded (inode : Inode) : Prop where
  blockMap_length : inode.blockMap.length = 60
  size_lt : inode.size < 2 ^ 64
  inline_length : ∀ data, inode.inlineData = some data →
    data.length = (if inode.IsDirectory then inode.size - 4 else inode.size) ∧
      ¬ (inode.IsDirectory ∧ inode.size < 4)
  inline_iff : inode.inlineData.isSome = true ↔
    HasBits inode.flags inlineDataFl ∧ isInlineKind inode.mode = true

theorem decodeInode_decoded (long : 128 ≤ raw.length)
    (ok : (fs.decodeInode number raw).eval answers = .ok inode) : Decoded inode := by
  obtain ⟨-, ok⟩ := eval_refuseIf_bind_ok ok
  obtain ⟨inlineData, inline, ok⟩ := eval_bind_ok ok
  obtain ⟨⟨accessed, changed, modified⟩, -, ok⟩ := eval_bind_ok ok
  have map : (slice raw 0x28 60).length = 60 := length_slice_of_le (by omega)
  cases ok
  unfold decodeInlineData at inline
  split_ifs at inline with kept
  · obtain ⟨data, parsed, inline⟩ := eval_bind_ok inline
    cases inline
    refine ⟨map, lowHigh32_lt raw 4 0x6c, ?_, ?_⟩
    · rintro _ ⟨⟩
      exact parseInlineData_length map parsed
    · exact ⟨fun _ => kept, fun _ => rfl⟩
  · cases inline
    refine ⟨map, lowHigh32_lt raw 4 0x6c, nofun, ?_⟩
    exact ⟨nofun, fun holds => absurd holds kept⟩

theorem length_clearInodeChecksum (long : 128 ≤ raw.length) :
    (clearInodeChecksum raw).length = raw.length := by
  have first : (fill raw 0x7c 2 0).length = raw.length := length_fill 0 (by omega)
  unfold clearInodeChecksum
  simp only [first]
  split_ifs
  · rw [length_fill 0 (by omega), first]
  · exact first

theorem loadInode_decoded (bounded : fs.superblock.Bounded) {medium : Nat → UInt8}
    (truthful : answers.Truthful medium) (ok : (fs.loadInode number).eval answers = .ok inode) : Decoded inode := by
  obtain ⟨raw, read, ok⟩ := eval_bind_ok ok
  refine decodeInode_decoded ?_ ok
  obtain ⟨-, read⟩ := eval_refuseIf_bind_ok read
  obtain ⟨descriptor, -, read⟩ := eval_bind_ok read
  obtain ⟨-, read⟩ := eval_refuseIf_bind_ok read
  obtain ⟨offset, -, read⟩ := eval_orFail_bind_ok read
  obtain ⟨_, -, read⟩ := eval_bind_ok read
  obtain ⟨bytes, stored, read⟩ := eval_bind_ok read
  have long : 128 ≤ bytes.length := by
    rw [length_readStorage bounded.blockSize_pos truthful stored]
    exact bounded.inodeSize_ge
  split_ifs at read
  · obtain ⟨-, read⟩ := eval_refuseIf_bind_ok read
    cases read
    rw [length_clearInodeChecksum long]
    exact long
  · cases read
    exact long

end Load

/-! ## Every loaded inode -/

/--
A read does not panic, and what it returns is the part of the contents that
it asked for.
-/
def ReadsExactly (answers : Answers (Error E)) (medium : Nat → UInt8) (inode : Inode)
    (offset : Nat) (dst : Bytes) : Prop :=
  match (fs.readInodeDataStrict inode offset dst).eval answers.report with
  | .error .panic => False
  | .error (.error _) => True
  | .ok (count, out) =>
    count = min dst.length (contentLength inode - offset) ∧
      out.take count = stretch (fs.contentByte medium inode) offset count

section Reads

variable {fs} {answers : Answers (Error E)} {medium : Nat → UInt8}

theorem ReadsExactly.of_agree (positive : 0 < fs.superblock.blockSize)
    (truthful : answers.Truthful medium) (decoded : Decoded inode)
    (agree : Agree answers (fs.readInodeDataStrict inode offset dst)
      (fs.readInodeData inode offset dst)) :
    fs.ReadsExactly answers medium inode offset dst := by
  unfold ReadsExactly
  cases result : (fs.readInodeDataStrict inode offset dst).eval answers.report with
  | error stop =>
    cases stop with
    | error => trivial
    | panic => exact agree.no_panic result
  | ok read =>
    refine readInodeData_exact positive truthful ?_ (agree.eval_ok result)
    intro data kept
    have length := (decoded.inline_length data kept).1
    split_ifs at length <;> omega

/--
Every read of an inode that loads is exact, but for the last three offsets of
an inline directory: its data lacks the four bytes of the parent, which its
size counts, and the reader subtracts such an offset from the length of the
data.
-/
theorem reads_exact_iff (bounded : fs.superblock.Bounded) (truthful : answers.Truthful medium)
    {inode : Inode} (loaded : (fs.loadInode number).eval answers = .ok inode) (offset : Nat)
    (dst : Bytes) :
    fs.ReadsExactly answers medium inode offset dst ↔
      ¬ (HasBits inode.flags inlineDataFl ∧ inode.IsDirectory ∧
        inode.size < offset + 4 ∧ offset < inode.size ∧ dst ≠ []) := by
  have decoded := loadInode_decoded bounded truthful loaded
  constructor
  · rintro exact ⟨inlined, directory, behind, inside, room⟩
    have kept : inode.inlineData.isSome = true := by
      refine decoded.inline_iff.mpr ⟨inlined, ?_⟩
      simp [isInlineKind, show inode.mode &&& modeTypeMask = modeDirectory from directory]
    obtain ⟨data, kept⟩ := Option.isSome_iff_exists.mp kept
    obtain ⟨length, large⟩ := decoded.inline_length data kept
    rw [if_pos directory] at length
    have large : ¬ inode.size < 4 := fun small => large ⟨directory, small⟩
    have nonempty : dst.length ≠ 0 := fun empty => room (List.length_eq_zero_iff.mp empty)
    have panics : (fs.readInodeDataStrict inode offset dst).eval answers.report =
        .error .panic := by
      simp only [readInodeDataStrict, kept]
      rw [if_neg (by omega)]
      exact eval_demand_bind_panic (by omega)
    unfold ReadsExactly at exact
    rw [panics] at exact
    exact exact
  · intro allowed
    refine .of_agree bounded.blockSize_pos truthful decoded ?_
    refine readInodeData_agree bounded truthful decoded.blockMap_length decoded.size_lt ?_
    intro data kept inside room
    obtain ⟨length, large⟩ := decoded.inline_length data kept
    have inlined : HasBits inode.flags inlineDataFl := (decoded.inline_iff.mp (by rw [kept]; rfl)).1
    split_ifs at length with directory
    · have before : ¬ inode.size < offset + 4 := fun behind =>
        allowed ⟨inlined, directory, behind, inside, room⟩
      omega
    · omega

end Reads

/-! ## An inline directory -/

namespace InlineDirectory

/-- A volume of 64 blocks without checksums. -/
def volume : Ext4 where
  superblock :=
    { inodesCount := 16, blocksCount := 64, firstDataBlock := 1
      blockSize := 1024, blocksPerGroup := 8192, inodesPerGroup := 16
      inodeSize := 128, firstInode := 11, descriptorSize := 32
      featureCompat := 0, featureIncompat := incompatInlineData
      featureRoCompat := 0, uuid := zeros 16, checksumSeed := 0
      journalInode := 0, reservedGdtBlocks := 0, backupBgs := [0, 0]
      firstMetaBg := 0 }
  overlay := []
  storageLen := 64 * 1024

theorem bounded : volume.superblock.Bounded := by
  constructor <;> decide

/-- The descriptor puts the inode table into block 3; inode 2 is a directory of twelve bytes. -/
def medium (position : Nat) : UInt8 :=
  if position = 2056 then 3
  else if position = 3200 then 0xED
  else if position = 3201 then 0x41
  else if position = 3204 then 12
  else if position = 3235 then 0x10
  else 0

def directory : Inode where
  number := 2
  mode := 0x41ED
  uid := 0
  gid := 0
  size := 12
  links := 0
  accessed := ⟨0, 0⟩
  modified := ⟨0, 0⟩
  changed := ⟨0, 0⟩
  flags := inlineDataFl
  generation := 0
  blocks512 := 0
  externalXattrBlock := 0
  blockMap := zeros 60
  inlineData := some (zeros 8)

theorem load_directory :
    (volume.loadInode 2).eval (Answers.ofMedium (ε := Error Empty) medium) = .ok directory := by
  decide +kernel

/-- The bytes of the directory are read from its start. -/
theorem read_from_start :
    (volume.loadInode 2).eval (Answers.ofMedium (ε := Error Empty) medium) = .ok directory ∧
      volume.ReadsExactly (Answers.ofMedium (ε := Error Empty) medium) medium directory 0
        (zeros 12) :=
  ⟨load_directory, (reads_exact_iff bounded (Answers.ofMedium_truthful medium)
    load_directory 0 (zeros 12)).mpr (by decide)⟩

/-- A read of the directory at offset 9 panics. -/
theorem read_near_end_panics :
    (volume.loadInode 2).eval (Answers.ofMedium (ε := Error Empty) medium) = .ok directory ∧
      ¬ volume.ReadsExactly (Answers.ofMedium (ε := Error Empty) medium) medium directory 9
        (zeros 1) :=
  ⟨load_directory, not_false⟩

end InlineDirectory

end Ext4

end RetroOS.Ext
