import RetroOS.Ext.Allocation
import RetroOS.Ext.Contents
import RetroOS.Lib.Fields
import RetroOS.Lib.Insertion

/-!
# Allocation plans

A plan holds the blocks taken so far and one edit for each group it touched.
`extendAllocation` takes each edit out, fills it further and puts it back;
`Extended` says what a plan owes to the one before.

An edit whose descriptor counts free blocks while its bitmap has no clear bit
is taken out and not put back.  `extension_keeps_edits_iff` shows that this
is the only edit that is ever lost, and everything else holds of every plan.
-/

namespace RetroOS.Ext

open Lib Lib.Bytes
open Query hiding bind done eval fail read

variable {E : Type}

/-! ## Bitmaps -/

theorem length_setBit (bitmap : Bytes) (index : Nat) :
    (setBit bitmap index).length = bitmap.length :=
  List.length_modify ..

theorem bitmapBit_setBit {bitmap : Bytes} {index : Nat} (inside : index < bitmap.length * 8)
    (other : Nat) :
    bitmapBit (setBit bitmap index) other = (bitmapBit bitmap other || decide (other = index)) := by
  have mask : ∀ bit < 8, ((1 : UInt8) <<< UInt8.ofNat bit).toNat = 2 ^ bit := by decide
  simp only [bitmapBit, setBit, modifyBit, byteAt, List.getD_eq_getElem?_getD, List.getElem?_modify]
  by_cases same : index / 8 = other / 8
  · simp only [if_pos same]
    rw [List.getElem?_eq_getElem (by omega), Option.map_eq_map, Option.map_some, Option.getD_some,
      Option.getD_some, UInt8.toNat_or, Nat.testBit_or, mask _ (Nat.mod_lt _ (by decide)),
      Nat.testBit_two_pow]
    congr 2
    exact propext (by omega)
  · have apart : ¬ other = index := fun equal => same (by rw [equal])
    simp [same, apart]

/-- The clear bits of a range, in order. -/
def clearBitsFrom (bitmap : Bytes) (bit count : Nat) : List Nat :=
  (List.range' bit count).filter fun index => !bitmapBit bitmap index

theorem mem_clearBitsFrom {bitmap : Bytes} {bit count index : Nat} :
    index ∈ clearBitsFrom bitmap bit count ↔
      (bit ≤ index ∧ index < bit + count) ∧ bitmapBit bitmap index = false := by
  simp [clearBitsFrom, List.mem_range'_1]

/-- The first clear bits are taken, and those are set. -/
theorem Transaction.takeClearBits_spec (start : Nat) {left bit wanted : Nat} {bitmap : Bytes}
    (taken : List Nat) (some : 0 < wanted) (room : bit + left ≤ bitmap.length * 8) :
    let result := takeClearBits start left bit wanted bitmap taken
    let found := (clearBitsFrom bitmap bit left).take wanted
    result.2 = taken ++ found.map (start + ·) ∧ result.1.length = bitmap.length ∧
      ∀ index, bitmapBit result.1 index = (bitmapBit bitmap index || decide (index ∈ found)) := by
  induction left generalizing bit wanted bitmap taken with
  | zero => simp [takeClearBits, clearBitsFrom]
  | succ left induction =>
    unfold takeClearBits
    cases set : bitmapBit bitmap bit with
    | true =>
      have skipped : clearBitsFrom bitmap bit (left + 1) = clearBitsFrom bitmap (bit + 1) left := by
        simp [clearBitsFrom, List.range'_succ, set]
      rw [if_pos rfl, skipped]
      exact induction taken some (by omega)
    | false =>
      have later : clearBitsFrom (setBit bitmap bit) (bit + 1) left =
          clearBitsFrom bitmap (bit + 1) left := by
        refine List.filter_congr fun index member => ?_
        rw [bitmapBit_setBit (by omega)]
        have apart : ¬ index = bit := by
          have range := (List.mem_range'_1.mp member).1
          omega
        simp [apart]
      have first : clearBitsFrom bitmap bit (left + 1) =
          bit :: clearBitsFrom bitmap (bit + 1) left := by
        simp [clearBitsFrom, List.range'_succ, set]
      obtain ⟨wanted, rfl⟩ : ∃ rest, wanted = rest + 1 := ⟨wanted - 1, by omega⟩
      rw [if_neg (by decide), first, List.take_succ_cons]
      have bits (index : Nat) := @bitmapBit_setBit bitmap bit (by omega) index
      split_ifs with last
      · obtain rfl : wanted = 0 := by omega
        refine ⟨by simp, length_setBit bitmap bit, fun index => ?_⟩
        rw [bits]
        simp
      · have rest := @induction (bit + 1) wanted (setBit bitmap bit)
          (taken ++ [start + bit]) (by omega) (by rw [length_setBit]; omega)
        rw [later] at rest
        refine ⟨by simpa using rest.1, rest.2.1.trans (length_setBit bitmap bit), fun index => ?_⟩
        rw [Nat.add_sub_cancel, rest.2.2, bits]
        simp [Bool.or_assoc]

/-- The start of a list holds an item of it, or ends before the item. -/
theorem mem_or_prefix_of_append_eq {α : Type} {first second front back : List α} {item : α}
    (same : first ++ second = front ++ item :: back) : item ∈ first ∨ first <+: front := by
  rcases List.append_eq_append_iff.mp same with ⟨middle, frontEq, -⟩ | ⟨middle, firstEq, itemEq⟩
  · exact .inr ⟨middle, frontEq.symm⟩
  · cases middle with
    | nil => exact .inr (by simp [firstEq])
    | cons head tail =>
      obtain ⟨rfl, -⟩ := List.cons_eq_cons.mp itemEq
      exact .inl (by simp [firstEq])

/-! ## Edits of groups -/

/-- The edits are in the order of their groups. -/
def GroupsSorted (groups : List GroupEdit) : Prop := groups.Pairwise (·.number < ·.number)

section Groups

variable {groups : List GroupEdit} {edit found : GroupEdit} {group : Nat}

theorem mem_removeGroup :
    edit ∈ removeGroup group groups ↔ edit ∈ groups ∧ edit.number ≠ group := by
  simp [removeGroup]

theorem mem_insertGroup : found ∈ insertGroup edit groups ↔ found = edit ∨ found ∈ groups := by
  rw [insertGroup, insertion_perm.mem_iff, List.mem_cons]

theorem GroupsSorted.find (sorted : GroupsSorted groups) (member : edit ∈ groups) :
    findGroup edit.number groups = some edit := by
  induction groups with
  | nil => cases member
  | cons first rest induction =>
    obtain ⟨before, sorted⟩ := List.pairwise_cons.mp sorted
    rcases List.mem_cons.mp member with rfl | member
    · simp [findGroup]
    · have apart : ¬ first.number = edit.number := (before edit member).ne
      rw [findGroup, List.find?_cons_of_neg (by simpa using apart)]
      exact induction sorted member

theorem mem_of_findGroup (found : findGroup group groups = some edit) :
    edit ∈ groups ∧ edit.number = group :=
  ⟨List.mem_of_find?_eq_some found, by simpa using List.find?_some found⟩

theorem findGroup_eq_none : findGroup group groups = none ↔ ∀ edit ∈ groups, edit.number ≠ group := by
  simp [findGroup]

theorem GroupsSorted.remove (sorted : GroupsSorted groups) :
    GroupsSorted (removeGroup group groups) :=
  sorted.filter _

theorem GroupsSorted.insert (sorted : GroupsSorted groups)
    (fresh : ∀ entry ∈ groups, entry.number ≠ edit.number) :
    GroupsSorted (insertGroup edit groups) := by
  refine insertion_pairwise Nat.lt_trans (fun entry _ early => ?_) (fun entry member late => ?_)
    sorted
  · exact of_decide_eq_true early
  · exact lt_of_le_of_ne (not_lt.mp (of_decide_eq_false late)) (fresh entry member).symm

end Groups

/-! ## Descriptors -/

/-- Free count, checksum of the bitmap and checksum of the descriptor. -/
def countWindows : List (Nat × Nat) := [(0x0c, 2), (0x2c, 2), (0x18, 2), (0x38, 2), (0x1e, 2)]

section Descriptor

variable {descriptor : Bytes}

theorem split16_putSplit16 {low high value : Nat} (apart : low + 2 ≤ high)
    (fits : high + 2 ≤ descriptor.length) (small : value < 2 ^ 32) :
    split16 (putSplit16 descriptor low high value) low high = value := by
  have lower : le16 (putSplit16 descriptor low high value) low = value % 2 ^ 16 := by
    rw [putSplit16, putLe16, le16, leAt, putLe,
      slice_put_of_disjoint (by rwa [length_putLe value (by omega), length_leBytes]) (.inl apart)]
    exact leAt_putLe_same value (by omega)
  have upper : le16 (putSplit16 descriptor low high value) high = value / 2 ^ 16 % 2 ^ 16 := by
    rw [← Nat.shiftRight_eq_div_pow]
    exact leAt_putLe_same (value >>> 16) (by rw [length_putLe value (by omega)]; exact fits)
  have below : value % 2 ^ 16 < 2 ^ 16 := Nat.mod_lt _ (by decide)
  rw [split16, lower, upper, Nat.or_comm, ← Nat.shiftLeft_add_eq_or_of_lt below, Nat.shiftLeft_eq]
  omega

theorem agree_putSplit16 {windows : List (Nat × Nat)} {before : Bytes} {low high : Nat}
    (agree : AgreeOutside windows before descriptor) (lower : (low, 2) ∈ windows)
    (upper : (high, 2) ∈ windows) (fits : low + 2 ≤ before.length)
    (whole : high + 2 ≤ before.length) (value : Nat) :
    AgreeOutside windows before (putSplit16 descriptor low high value) :=
  (agree.putLe lower fits value).putLe upper whole (value >>> 16)

/-- Taking blocks lowers the free count and changes nothing but checksums beside it. -/
theorem sealed_descriptor (tx : Transaction) (group : Nat) (bitmap : Bytes)
    (whole : descriptor.length = 64) {count : Nat} {lowered : Bytes} {answers : Answers (Error E)}
    (ok : (decrementDescriptorFreeBlocksBy descriptor count).eval answers = .ok lowered) :
    AgreeOutside countWindows descriptor (tx.sealBlockBitmap group lowered bitmap) ∧
      descriptorFreeBlocks (tx.sealBlockBitmap group lowered bitmap) + count =
        descriptorFreeBlocks descriptor := by
  obtain ⟨value, valueEq, ok⟩ := eval_orFail_bind_ok ok
  cases ok
  obtain ⟨value, small⟩ := Option.filter_eq_some_iff.mp valueEq
  unfold checkedSub at value
  split_ifs at value with enough
  cases value
  have small : descriptorFreeBlocks descriptor - count < 2 ^ 32 := by
    have bound := of_decide_eq_true small
    omega
  have lowers := agree_putSplit16 (AgreeOutside.refl countWindows descriptor)
    (by decide : (0x0c, 2) ∈ countWindows) (by decide : (0x2c, 2) ∈ countWindows) (by omega)
    (by omega) (descriptorFreeBlocks descriptor - count)
  generalize same : putSplit16 descriptor 0x0c 0x2c (descriptorFreeBlocks descriptor - count) =
    lowered at lowers
  have free : split16 lowered 0x0c 0x2c = descriptorFreeBlocks descriptor - count := by
    rw [← same]
    exact split16_putSplit16 (by decide) (by omega) small
  have length := lowers.length
  have seals (windows : List (Nat × Nat)) (checksum : (0x18, 2) ∈ windows ∧ (0x38, 2) ∈ windows ∧
      (0x1e, 2) ∈ windows) :
      AgreeOutside windows lowered (tx.sealBlockBitmap group lowered bitmap) := by
    refine AgreeOutside.putLe (AgreeOutside.putLe ?_ checksum.2.2 (by omega) _) checksum.2.2
      (by omega) _
    exact agree_putSplit16 (AgreeOutside.refl windows lowered) checksum.1 checksum.2.1 (by omega)
      (by omega) _
  refine ⟨lowers.trans (seals countWindows (by decide)), ?_⟩
  have kept := seals [(0x18, 2), (0x38, 2), (0x1e, 2)] (by decide)
  have counted : descriptorFreeBlocks (tx.sealBlockBitmap group lowered bitmap) =
      split16 lowered 0x0c 0x2c := by
    unfold descriptorFreeBlocks split16 le16
    rw [kept.leAt (by decide), kept.leAt (by decide)]
  rw [counted, free]
  omega

end Descriptor

namespace Transaction

variable (tx : Transaction)

/-! ## The blocks of a group -/

def groupStart (group : Nat) : Nat :=
  tx.superblock.firstDataBlock + group * tx.superblock.blocksPerGroup

def groupBlocks (group : Nat) : Nat :=
  min (tx.superblock.blocksCount - tx.groupStart group) tx.superblock.blocksPerGroup

def InGroup (group block : Nat) : Prop :=
  tx.groupStart group ≤ block ∧ block < tx.groupStart group + tx.groupBlocks group

instance (group block : Nat) : Decidable (tx.InGroup group block) :=
  inferInstanceAs (Decidable (_ ∧ _))

variable {tx}

theorem groupRange_ok {answers : Answers (Error E)} {group : Nat} {range : Nat × Nat}
    (ok : (tx.groupRange group).eval answers = .ok range) :
    range = (tx.groupStart group, tx.groupBlocks group) := by
  obtain ⟨start, startEq, ok⟩ := eval_orFail_bind_ok ok
  obtain ⟨-, ok⟩ := eval_refuseIf_bind_ok ok
  obtain ⟨rfl, -⟩ := checked_eq_some.mp startEq
  cases ok
  rfl

theorem InGroup.unique {first second block : Nat} (one : tx.InGroup first block)
    (other : tx.InGroup second block) : first = second := by
  simp only [InGroup, groupBlocks, groupStart] at one other
  rcases Nat.lt_trichotomy first second with less | same | more
  · have step := Nat.mul_le_mul_right tx.superblock.blocksPerGroup (Nat.succ_le_of_lt less)
    rw [Nat.succ_mul] at step
    omega
  · exact same
  · have step := Nat.mul_le_mul_right tx.superblock.blocksPerGroup (Nat.succ_le_of_lt more)
    rw [Nat.succ_mul] at step
    omega

/-! ## What an extension owes -/

variable (tx) (answers : Answers (Error E)) (plan : Allocation)

/-- Descriptor and bitmap of a group: the plan's edit, or what is stored. -/
def opened (group : Nat) : Except (Error E) (Bytes × Bytes) :=
  (tx.openGroup group (findGroup group plan.groups)).eval answers

/-- An edit that takes the new blocks of its group and nothing else. -/
structure Grown (new : List Nat) (before : Bytes × Bytes) (edit : GroupEdit) : Prop where
  bitmap : ∃ bytes, edit.blockBitmap = some { number := blockBitmapNumber before.1, bytes } ∧
    ∀ bit < tx.groupBlocks edit.number, bitmapBit bytes bit =
      (bitmapBit before.2 bit || decide (tx.groupStart edit.number + bit ∈ new))
  clear : ∀ bit < tx.groupBlocks edit.number, tx.groupStart edit.number + bit ∈ new →
    bitmapBit before.2 bit = false
  free : descriptorFreeBlocks edit.descriptor +
    new.countP (fun block => tx.InGroup edit.number block) = descriptorFreeBlocks before.1
  rest : AgreeOutside countWindows before.1 edit.descriptor

/-- What a plan that was extended by `wanted` blocks owes to the plan before. -/
structure Extended (wanted : Nat) (new : List Nat) (result : Allocation) : Prop where
  sorted : GroupsSorted result.groups
  kept : ∀ edit ∈ plan.groups, ∃ found ∈ result.groups, found.number = edit.number
  blocks : result.blocks = plan.blocks ++ new
  count : new.length = wanted
  distinct : new.Nodup
  owned : ∀ block ∈ new, ∃ edit ∈ result.groups, tx.InGroup edit.number block
  edits : ∀ edit ∈ result.groups,
    (edit ∈ plan.groups ∧ ∀ block ∈ new, ¬ tx.InGroup edit.number block) ∨
      ∃ before, tx.opened answers plan edit.number = .ok before ∧ tx.Grown new before edit

/-- How many blocks a group gives at most. -/
def offered (group : Nat) : Nat :=
  match tx.opened answers plan group with
  | .ok before =>
    if descriptorFreeBlocks before.1 = 0 then 0
    else (clearBitsFrom before.2 0 (tx.groupBlocks group)).length
  | .error _ => 0

/-- The descriptor counts free blocks, and the bitmap has no clear bit. -/
def Overcounted (group : Nat) : Prop :=
  ∃ before, tx.opened answers plan group = .ok before ∧ descriptorFreeBlocks before.1 ≠ 0 ∧
    clearBitsFrom before.2 0 (tx.groupBlocks group) = []

/-- A volume the engine mutates, and a plan whose edits are whole records. -/
structure Ready (medium : Nat → UInt8) : Prop where
  profile : tx.validateMutationProfile.eval answers = .ok ()
  truthful : answers.Truthful medium
  dirty : ∀ block ∈ tx.dirty, block.bytes.length = tx.superblock.blockSize
  sorted : GroupsSorted plan.groups
  descriptors : ∀ edit ∈ plan.groups, edit.descriptor.length = 64
  bitmaps : ∀ edit ∈ plan.groups, ∀ block, edit.blockBitmap = some block →
    block.bytes.length = tx.superblock.blockSize

section Lengths

variable {tx answers plan} {medium : Nat → UInt8}

theorem setBitmapRange_length {bitmap result : Bytes} {start length : Nat}
    (ok : (setBitmapRange bitmap start length).eval answers = .ok result) :
    result.length = bitmap.length := by
  obtain ⟨stop, -, ok⟩ := eval_orFail_bind_ok ok
  obtain ⟨-, ok⟩ := eval_refuseIf_bind_ok ok
  cases ok
  exact List.length_mapIdx

theorem markBitmapBlock_length {bitmap result : Bytes} {start stop number : Nat}
    (ok : (tx.markBitmapBlock bitmap start stop number).eval answers = .ok result) :
    result.length = bitmap.length := by
  obtain ⟨-, ok⟩ := eval_refuseIf_bind_ok ok
  split_ifs at ok
  · exact setBitmapRange_length ok
  · cases ok
    rfl

theorem markInodeTable_length {bitmap result : Bytes} {start stop table : Nat}
    (ok : (tx.markInodeTable bitmap start stop table).eval answers = .ok result) :
    result.length = bitmap.length := by
  obtain ⟨blocks, -, ok⟩ := eval_bind_ok ok
  obtain ⟨tableEnd, -, ok⟩ := eval_orFail_bind_ok ok
  simp only at ok
  split_ifs at ok
  · exact setBitmapRange_length ok
  · cases ok
    rfl

theorem materializeBlockBitmap_length {group : Nat} {descriptor bitmap : Bytes}
    (ok : (tx.materializeBlockBitmap group descriptor).eval answers = .ok bitmap) :
    bitmap.length = tx.superblock.blockSize := by
  obtain ⟨-, ok⟩ := eval_refuseIf_bind_ok ok
  obtain ⟨⟨start, blocks⟩, -, ok⟩ := eval_bind_ok ok
  obtain ⟨⟨made, free⟩, initialized, ok⟩ := eval_bind_ok ok
  obtain ⟨-, ok⟩ := eval_refuseIf_bind_ok ok
  cases ok
  obtain ⟨blank, blankEq, initialized⟩ := eval_bind_ok initialized
  obtain ⟨base, -, initialized⟩ := eval_bind_ok initialized
  obtain ⟨-, initialized⟩ := eval_refuseIf_bind_ok initialized
  obtain ⟨first, firstEq, initialized⟩ := eval_bind_ok initialized
  obtain ⟨stop, -, initialized⟩ := eval_orFail_bind_ok initialized
  obtain ⟨second, secondEq, initialized⟩ := eval_bind_ok initialized
  obtain ⟨third, thirdEq, initialized⟩ := eval_bind_ok initialized
  obtain ⟨fourth, fourthEq, initialized⟩ := eval_bind_ok initialized
  obtain ⟨fifth, fifthEq, initialized⟩ := eval_bind_ok initialized
  cases initialized
  cases blankEq
  rw [setBitmapRange_length fifthEq, markInodeTable_length fourthEq, markBitmapBlock_length thirdEq,
    markBitmapBlock_length secondEq, setBitmapRange_length firstEq, length_zeros]

variable (ready : tx.Ready answers plan medium)

include ready

theorem Ready.shape : tx.superblock.blockSize = 4096 ∧ tx.superblock.descriptorSize = 64 ∧
    tx.superblock.blocksPerGroup ≤ tx.superblock.blockSize * 8 := by
  have passed := eval_refuseIf_ok ready.profile
  simp only [not_or, not_not, not_lt] at passed
  exact ⟨passed.1, passed.2.1, passed.2.2.2.2.2.2.2.2.2.1⟩

theorem Ready.positive : 0 < tx.filesystem.superblock.blockSize := by
  rw [show tx.filesystem.superblock.blockSize = 4096 from ready.shape.1]
  decide

theorem Ready.readBlockBitmap_length {group : Nat} {descriptor bitmap : Bytes}
    (ok : (tx.readBlockBitmap group descriptor).eval answers = .ok bitmap) :
    bitmap.length = tx.superblock.blockSize := by
  obtain ⟨read, readEq, ok⟩ := eval_bind_ok ok
  obtain ⟨-, ok⟩ := eval_refuseIf_bind_ok ok
  cases ok
  obtain ⟨buffer, bufferEq, readEq⟩ := eval_bind_ok readEq
  obtain ⟨accepted, readEq⟩ := eval_refuseIf_bind_ok readEq
  cases kept : findBlock (blockBitmapNumber descriptor) tx.dirty with
  | some block =>
    rw [kept] at readEq
    cases readEq
    exact ready.dirty block (List.mem_of_find?_eq_some kept)
  | none =>
    rw [kept] at readEq
    obtain ⟨offset, -, readEq⟩ := eval_bind_ok readEq
    rw [Ext4.length_readStorage ready.positive ready.truthful readEq]
    omega

theorem Ready.opened_length {group : Nat} {before : Bytes × Bytes}
    (ok : tx.opened answers plan group = .ok before) :
    before.1.length = 64 ∧ before.2.length = tx.superblock.blockSize := by
  unfold opened openGroup at ok
  cases existing : findGroup group plan.groups with
  | some edit =>
    have member := (mem_of_findGroup existing).1
    simp only [existing] at ok
    cases bitmap : edit.blockBitmap with
    | some block =>
      simp only [bitmap] at ok
      obtain ⟨-, ok⟩ := eval_refuseIf_bind_ok ok
      cases ok
      exact ⟨ready.descriptors edit member, ready.bitmaps edit member block bitmap⟩
    | none =>
      simp only [bitmap] at ok
      obtain ⟨bytes, read, ok⟩ := eval_bind_ok ok
      cases ok
      exact ⟨ready.descriptors edit member, ready.readBlockBitmap_length read⟩
  | none =>
    simp only [existing] at ok
    obtain ⟨descriptor, read, ok⟩ := eval_bind_ok ok
    have whole : descriptor.length = 64 := by
      obtain ⟨-, read⟩ := eval_refuseIf_bind_ok read
      obtain ⟨offset, -, read⟩ := eval_orFail_bind_ok read
      obtain ⟨_, -, read⟩ := eval_bind_ok read
      obtain ⟨bytes, stored, read⟩ := eval_bind_ok read
      have length := Ext4.length_readStorage ready.positive ready.truthful stored
      have same : descriptor = bytes := by
        split_ifs at read
        · obtain ⟨-, read⟩ := eval_refuseIf_bind_ok read
          cases read
          rfl
        · obtain ⟨-, read⟩ := eval_refuseIf_bind_ok read
          cases read
          rfl
        · cases read
          rfl
      rw [same, length]
      exact ready.shape.2.1
    split_ifs at ok
    · obtain ⟨bytes, made, ok⟩ := eval_bind_ok ok
      cases ok
      exact ⟨(length_putLe _ (by omega)).trans whole, materializeBlockBitmap_length made⟩
    · obtain ⟨bytes, made, ok⟩ := eval_bind_ok ok
      cases ok
      exact ⟨whole, ready.readBlockBitmap_length made⟩

end Lengths

/-! ## One group -/

/-- What holds when the groups `seen` were tried and gave the blocks `new`. -/
structure Progress (wanted : Nat) (seen new : List Nat) (now : Allocation) : Prop where
  sorted : GroupsSorted now.groups
  unseen : ∀ edit : GroupEdit, edit.number ∉ seen → (edit ∈ now.groups ↔ edit ∈ plan.groups)
  kept : ∀ edit ∈ plan.groups, edit.number ∈ seen →
    ((∃ found ∈ now.groups, found.number = edit.number) ↔ ¬ tx.Overcounted answers plan edit.number)
  blocks : now.blocks = plan.blocks ++ new
  count : new.length = min wanted (seen.map (tx.offered answers plan)).sum
  distinct : new.Nodup
  owned : ∀ block ∈ new, ∃ edit ∈ now.groups, edit.number ∈ seen ∧ tx.InGroup edit.number block
  edits : ∀ edit ∈ now.groups, edit.number ∈ seen →
    ∃ before, tx.opened answers plan edit.number = .ok before ∧ tx.Grown new before edit
  unfilled : ∀ front group back, seen = front ++ group :: back →
    (front.map (tx.offered answers plan)).sum < wanted

section Step

variable {tx answers plan} {medium : Nat → UInt8} {wanted group : Nat} {seen new : List Nat}
    {now : Allocation}

/-- Blocks of other groups leave an edit as it is. -/
theorem Grown.more {taken : List Nat} {before : Bytes × Bytes} {edit : GroupEdit}
    (grown : tx.Grown new before edit) (apart : ∀ block ∈ taken, ¬ tx.InGroup edit.number block) :
    tx.Grown (new ++ taken) before edit := by
  have absent {bit : Nat} (inside : bit < tx.groupBlocks edit.number) :
      tx.groupStart edit.number + bit ∉ taken := fun member =>
    apart _ member ⟨by omega, by omega⟩
  obtain ⟨bytes, bitmap, bits⟩ := grown.bitmap
  refine ⟨⟨bytes, bitmap, fun bit inside => ?_⟩, fun bit inside member => ?_, ?_, grown.rest⟩
  · simp [bits bit inside, absent inside]
  · exact grown.clear bit inside ((List.mem_append.mp member).resolve_right (absent inside))
  · have none : taken.countP (fun block => tx.InGroup edit.number block) = 0 :=
      List.countP_eq_zero.mpr fun block member => by simpa using apart block member
    rw [List.countP_append, none]
    exact grown.free

variable (progress : tx.Progress answers plan wanted seen new now) (fresh : group ∉ seen)

include progress fresh

theorem Progress.not_in_group {block : Nat} (member : block ∈ new) : ¬ tx.InGroup group block := by
  intro inside
  obtain ⟨edit, -, listed, owned⟩ := progress.owned block member
  rw [inside.unique owned] at fresh
  exact fresh listed

theorem Progress.find : findGroup group now.groups = findGroup group plan.groups := by
  cases existing : findGroup group plan.groups with
  | none =>
    rw [findGroup_eq_none] at existing ⊢
    intro edit member same
    exact existing edit ((progress.unseen edit (same ▸ fresh)).mp member) same
  | some edit =>
    obtain ⟨member, rfl⟩ := mem_of_findGroup existing
    exact progress.sorted.find ((progress.unseen edit fresh).mpr member)

/-- The group is tried: its edit is taken out, and put back if it is not `none`. -/
theorem Progress.advance (taken : List Nat) (edit : Option GroupEdit) {edits : List GroupEdit}
    (short : new.length < wanted)
    (edits_iff : ∀ found, found ∈ edits ↔
      edit = some found ∨ found ∈ now.groups ∧ found.number ≠ group)
    (sorted : GroupsSorted edits)
    (kept : group ∈ plan.groups.map (·.number) →
      (edit.isSome = true ↔ ¬ tx.Overcounted answers plan group))
    (count : taken.length = min (wanted - new.length) (tx.offered answers plan group))
    (distinct : taken.Nodup) (inside : ∀ block ∈ taken, tx.InGroup group block)
    (filled : taken ≠ [] → edit.isSome = true)
    (grown : ∀ found, edit = some found → found.number = group ∧
      ∃ before, tx.opened answers plan group = .ok before ∧ tx.Grown (new ++ taken) before found) :
    tx.Progress answers plan wanted (seen ++ [group]) (new ++ taken)
      { blocks := plan.blocks ++ (new ++ taken), groups := edits } := by
  have stays {found : GroupEdit} (member : found ∈ now.groups) (listed : found.number ∈ seen) :
      found ∈ edits :=
    (edits_iff found).mpr (.inr ⟨member, fun same => fresh (same ▸ listed)⟩)
  refine
    { sorted, blocks := rfl, unseen := fun found absent => ?_, kept := fun old member listed => ?_
      count := ?_, distinct := ?_, owned := fun block member => ?_
      edits := fun found member listed => ?_, unfilled := fun front other back split => ?_ }
  · simp only [List.mem_append, List.mem_singleton, not_or] at absent
    rw [edits_iff, ← progress.unseen found absent.1]
    refine ⟨fun either => ?_, fun member => .inr ⟨member, absent.2⟩⟩
    rcases either with put | ⟨member, -⟩
    · exact absurd (grown found put).1 absent.2
    · exact member
  · rcases List.mem_append.mp listed with listed | last
    · rw [← progress.kept old member listed]
      constructor
      · rintro ⟨found, member, same⟩
        rcases (edits_iff found).mp member with put | ⟨member, -⟩
        · exact absurd (same ▸ listed) ((grown found put).1 ▸ fresh)
        · exact ⟨found, member, same⟩
      · rintro ⟨found, member, same⟩
        exact ⟨found, stays member (same ▸ listed), same⟩
    · obtain rfl := List.mem_singleton.mp last
      rw [← kept (List.mem_map_of_mem member)]
      constructor
      · rintro ⟨found, member, same⟩
        rcases (edits_iff found).mp member with put | ⟨-, apart⟩
        · rw [put]
          rfl
        · exact absurd same apart
      · intro put
        obtain ⟨found, put⟩ := Option.isSome_iff_exists.mp put
        exact ⟨found, (edits_iff found).mpr (.inl put), (grown found put).1⟩
  · have before := progress.count
    rw [List.length_append, List.map_append, List.sum_append, List.map_singleton, List.sum_singleton,
      count]
    omega
  · refine List.nodup_append.mpr ⟨progress.distinct, distinct, ?_⟩
    rintro block member _ also rfl
    exact progress.not_in_group fresh member (inside block also)
  · rcases List.mem_append.mp member with old | own
    · obtain ⟨found, member, listed, owned⟩ := progress.owned block old
      exact ⟨found, stays member listed, List.mem_append_left _ listed, owned⟩
    · obtain ⟨found, put⟩ := Option.isSome_iff_exists.mp (filled (List.ne_nil_of_mem own))
      obtain ⟨same, -⟩ := grown found put
      refine ⟨found, (edits_iff found).mpr (.inl put), ?_, ?_⟩ <;> rw [same]
      · simp
      · exact inside block own
  · rcases (edits_iff found).mp member with put | ⟨member, apart⟩
    · obtain ⟨same, before, opened, grown⟩ := grown found put
      exact ⟨before, same ▸ opened, grown⟩
    · have listed : found.number ∈ seen := by simpa [apart] using listed
      obtain ⟨before, opened, grown⟩ := progress.edits found member listed
      refine ⟨before, opened, grown.more fun block own owned => ?_⟩
      exact fresh (owned.unique (inside block own) ▸ listed)
  · rcases List.eq_nil_or_concat back with rfl | ⟨init, last, rfl⟩
    · have same : seen = front := (List.append_inj' split rfl).1
      have before := progress.count
      rw [← same]
      omega
    · rw [List.concat_eq_append, ← List.cons_append, ← List.append_assoc] at split
      exact progress.unfilled front other init (List.append_inj' split rfl).1

theorem Progress.extendGroup {next : Allocation} (ready : tx.Ready answers plan medium)
    (short : new.length < wanted)
    (ok : (tx.extendGroup (plan.blocks.length + wanted) now group).eval answers = .ok next) :
    ∃ taken, tx.Progress answers plan wanted (seen ++ [group]) (new ++ taken) next := by
  obtain ⟨⟨descriptor, bitmap⟩, opened, ok⟩ := eval_bind_ok ok
  rw [progress.find fresh] at opened ok
  obtain ⟨range, rangeEq, ok⟩ := eval_bind_ok ok
  obtain rfl := groupRange_ok rangeEq
  have lengths := ready.opened_length opened
  have offered : tx.offered answers plan group =
      if descriptorFreeBlocks descriptor = 0 then 0
      else (clearBitsFrom bitmap 0 (tx.groupBlocks group)).length := by
    rw [Transaction.offered, show tx.opened answers plan group = _ from opened]
  have overcounted : tx.Overcounted answers plan group ↔ descriptorFreeBlocks descriptor ≠ 0 ∧
      clearBitsFrom bitmap 0 (tx.groupBlocks group) = [] := by
    refine ⟨?_, fun holds => ⟨_, opened, holds⟩⟩
    rintro ⟨before, same, holds⟩
    cases opened.symm.trans same
    exact holds
  have removed (found : GroupEdit) :
      found ∈ removeGroup group now.groups ↔ found ∈ now.groups ∧ found.number ≠ group :=
    mem_removeGroup
  have put (edit : GroupEdit) (same : edit.number = group) :
      (∀ found, found ∈ insertGroup edit (removeGroup group now.groups) ↔
        some edit = some found ∨ found ∈ now.groups ∧ found.number ≠ group) ∧
      GroupsSorted (insertGroup edit (removeGroup group now.groups)) := by
    refine ⟨fun found => ?_, progress.sorted.remove.insert fun entry member => ?_⟩
    · rw [mem_insertGroup, removed, Option.some_inj, eq_comm]
    · rw [same]
      exact ((removed entry).mp member).2
  have none_new : new.countP (fun block => tx.InGroup group block) = 0 :=
    List.countP_eq_zero.mpr fun block member => by
      simpa using progress.not_in_group fresh member
  have absent {bit : Nat} (inside : bit < tx.groupBlocks group) :
      tx.groupStart group + bit ∉ new := fun member =>
    progress.not_in_group fresh member ⟨by omega, by omega⟩
  have left : plan.blocks.length + wanted - now.blocks.length = wanted - new.length := by
    rw [progress.blocks, List.length_append]
    omega
  have room : 0 + tx.groupBlocks group ≤ bitmap.length * 8 := by
    have size := ready.shape.2.2
    rw [← lengths.2] at size
    exact (Nat.zero_add _).trans_le ((min_le_right _ _).trans size)
  obtain ⟨takenEq, -, bits⟩ := takeClearBits_spec (tx.groupStart group) [] (by omega :
    0 < wanted - new.length) room
  simp only [left] at ok
  rw [takenEq] at ok
  split_ifs at ok with exhausted existing nothing
  · -- The edit goes back with the bitmap it was opened with.
    cases ok
    obtain ⟨edits_iff, sorted⟩ := put
      { number := group, descriptor,
        blockBitmap := some { number := blockBitmapNumber descriptor, bytes := bitmap } } rfl
    refine ⟨[], ?_⟩
    have advanced := progress.advance fresh [] _ short edits_iff sorted
      (fun _ => by simp [overcounted, exhausted]) (by simp [offered, exhausted]) List.nodup_nil
      nofun nofun ?_
    · simpa [progress.blocks] using advanced
    rintro _ ⟨⟩
    refine ⟨rfl, _, opened, ⟨bitmap, rfl, fun bit inside => ?_⟩, fun bit inside member => ?_, ?_,
      .refl _ _⟩
    · simp [absent inside]
    · exact absurd member (by simpa using absent inside)
    · simp [none_new]
  · -- Nothing was planned for the group.
    cases ok
    have missing := findGroup_eq_none.mp (Option.not_isSome_iff_eq_none.mp existing)
    refine ⟨[], ?_⟩
    have advanced := progress.advance fresh [] none short
      (fun found => ?_) progress.sorted ?_ (by simp [offered, exhausted]) List.nodup_nil nofun nofun
      nofun
    · rw [List.append_nil, ← progress.blocks] at advanced
      rw [List.append_nil]
      exact advanced
    · have apart (member : found ∈ now.groups) : found.number ≠ group := by
        intro same
        have member := (progress.unseen found (same ▸ fresh)).mp member
        exact missing found member same
      simp only [reduceCtorEq, false_or]
      exact ⟨fun member => ⟨member, apart member⟩, And.left⟩
    · intro planned
      obtain ⟨edit, member, same⟩ := List.mem_map.mp planned
      exact absurd same (missing edit member)
  · -- The edit is dropped.
    cases ok
    have full : clearBitsFrom bitmap 0 (tx.groupBlocks group) = [] := by
      have emptied : (clearBitsFrom bitmap 0 (tx.groupBlocks group)).take (wanted - new.length) = [] := by
        simpa using nothing
      exact (List.take_eq_nil_iff.mp emptied).resolve_left (by omega)
    refine ⟨[], ?_⟩
    have advanced := progress.advance fresh [] none short
      (fun found => by simpa using removed found) progress.sorted.remove
      (fun _ => by simp [overcounted, exhausted, full]) (by simp [offered, full]) List.nodup_nil
      nofun nofun nofun
    simpa [progress.blocks] using advanced
  · -- The first clear bits of the group are taken.
    obtain ⟨lowered, lowers, ok⟩ := eval_bind_ok ok
    cases ok
    generalize foundEq : (clearBitsFrom bitmap 0 (tx.groupBlocks group)).take (wanted - new.length) =
      found at *
    have member {bit : Nat} (member : bit ∈ found) :
        bit < tx.groupBlocks group ∧ bitmapBit bitmap bit = false := by
      rw [← foundEq] at member
      have holds := mem_clearBitsFrom.mp (List.mem_of_mem_take member)
      exact ⟨by omega, holds.2⟩
    have own (block : Nat) (listed : block ∈ found.map (tx.groupStart group + ·)) :
        tx.InGroup group block := by
      obtain ⟨bit, chosen, rfl⟩ := List.mem_map.mp listed
      have inside := (member chosen).1
      exact ⟨by omega, by omega⟩
    obtain ⟨edits_iff, sorted⟩ := put
      { number := group, descriptor := _, blockBitmap := some { number := _, bytes := _ } } rfl
    refine ⟨found.map (tx.groupStart group + ·), ?_⟩
    have advanced := progress.advance fresh (found.map (tx.groupStart group + ·)) _ short
      edits_iff sorted (fun _ => ?_) ?_ ?_ ?_ (fun _ => rfl) ?_
    · simpa [progress.blocks] using advanced
    · have some : found ≠ [] := by simpa using nothing
      simp only [Option.isSome_some, overcounted, true_iff, not_and]
      intro _ full
      rw [full, List.take_nil] at foundEq
      exact some foundEq.symm
    · rw [List.length_map, offered, if_neg exhausted, ← foundEq, List.length_take]
    · have apart : found.Nodup := by
        rw [← foundEq]
        exact (List.Nodup.filter _ List.nodup_range').sublist (List.take_sublist _ _)
      exact apart.map fun first second same => Nat.add_left_cancel same
    · exact own
    · rintro _ ⟨⟩
      have taken {bit : Nat} (inside : bit < tx.groupBlocks group) :
          tx.groupStart group + bit ∈ new ++ found.map (tx.groupStart group + ·) ↔ bit ∈ found := by
        simp [absent inside]
      obtain ⟨rest, free⟩ := sealed_descriptor tx group
        (takeClearBits (tx.groupStart group) (tx.groupBlocks group) 0 (wanted - new.length) bitmap []).1
        lengths.1 lowers
      refine ⟨rfl, _, opened, ⟨_, rfl, fun bit inside => ?_⟩, fun bit inside listed => ?_, ?_, rest⟩
      · rw [bits, decide_eq_decide.mpr (taken inside)]
      · exact (member ((taken inside).mp listed)).2
      · have all : (found.map (tx.groupStart group + ·)).countP
            (fun block => tx.InGroup group block) = found.length := by
          rw [List.countP_eq_length.mpr fun block listed => decide_eq_true (own block listed),
            List.length_map]
        rw [List.countP_append, none_new, all, Nat.zero_add]
        simpa using free

end Step

/-! ## Whole extensions -/

section Run

variable {tx answers plan} {medium : Nat → UInt8} {wanted : Nat}

/-- The groups that were tried are the first of those to be tried. -/
theorem Progress.extendGroups (ready : tx.Ready answers plan medium) {todo seen new : List Nat}
    {now result : Allocation} (progress : tx.Progress answers plan wanted seen new now)
    (distinct : (seen ++ todo).Nodup)
    (ok : (tx.extendGroups (plan.blocks.length + wanted) todo now).eval answers = .ok result) :
    ∃ tried rest more, todo = tried ++ rest ∧
      tx.Progress answers plan wanted (seen ++ tried) (new ++ more) result ∧
      ((new ++ more).length = wanted ∨ rest = []) := by
  induction todo generalizing seen new now with
  | nil =>
    cases ok
    exact ⟨[], [], [], rfl, by simpa using progress, .inr rfl⟩
  | cons group todo induction =>
    unfold Transaction.extendGroups at ok
    have length := congrArg List.length progress.blocks
    rw [List.length_append] at length
    split_ifs at ok with reached
    · cases ok
      exact ⟨[], group :: todo, [], rfl, by simpa using progress, .inl (by simp; omega)⟩
    · obtain ⟨next, stepped, ok⟩ := eval_bind_ok ok
      have short : new.length < wanted := by
        have count := progress.count
        omega
      have fresh : group ∉ seen := fun member =>
        (List.nodup_append.mp distinct).2.2 group member group List.mem_cons_self rfl
      obtain ⟨taken, advanced⟩ := progress.extendGroup fresh ready short stepped
      obtain ⟨tried, rest, more, rfl, final, stopped⟩ :=
        induction advanced (by simpa using distinct) ok
      exact ⟨group :: tried, rest, taken ++ more, rfl, by simpa using final, by simpa using stopped⟩

theorem groupOrder_nodup (sorted : GroupsSorted plan.groups) : (tx.groupOrder plan).Nodup := by
  refine List.nodup_append.mpr ⟨?_, List.Nodup.filter _ List.nodup_range, ?_⟩
  · exact List.pairwise_map.mpr (sorted.imp Nat.ne_of_lt)
  · rintro number planned _ other rfl
    obtain ⟨edit, member, same⟩ := List.mem_map.mp planned
    have absent := findGroup_eq_none.mp (Option.isNone_iff_eq_none.mp (List.mem_filter.mp other).2)
    exact absent edit member same

/-- Nothing was tried yet. -/
theorem Progress.start (sorted : GroupsSorted plan.groups) :
    tx.Progress answers plan wanted [] [] plan where
  sorted := sorted
  unseen _ _ := Iff.rfl
  kept := nofun
  blocks := (List.append_nil _).symm
  count := by simp
  distinct := List.nodup_nil
  owned := nofun
  edits := nofun
  unfilled _ _ _ split := by simp at split

/--
An extension keeps every edit of the plan and takes exactly the blocks it was
asked for, unless it comes to an edit whose descriptor counts free blocks
while its bitmap has no clear bit; that edit is lost.
-/
theorem extension_keeps_edits_iff (ready : tx.Ready answers plan medium) {result : Allocation}
    (ok : (tx.extendAllocation plan wanted).eval answers = .ok result) :
    (∃ new, tx.Extended answers plan wanted new result) ↔
      ∀ front edit back, plan.groups = front ++ edit :: back →
        (front.map fun edit => tx.offered answers plan edit.number).sum < wanted →
        ¬ tx.Overcounted answers plan edit.number := by
  obtain ⟨target, targetEq, ok⟩ := eval_orFail_bind_ok ok
  obtain ⟨rfl, -⟩ := checked_eq_some.mp targetEq
  obtain ⟨_, -, ok⟩ := eval_bind_ok ok
  obtain ⟨final, run, ok⟩ := eval_bind_ok ok
  obtain ⟨reached, ok⟩ := eval_refuseIf_bind_ok ok
  cases ok
  obtain ⟨tried, rest, new, order, progress, -⟩ := (Progress.start ready.sorted).extendGroups ready
    (groupOrder_nodup ready.sorted) run
  replace order : tx.groupOrder plan = tried ++ rest := order
  simp only [List.nil_append] at progress
  have count : new.length = wanted := by
    have length := congrArg List.length progress.blocks
    rw [List.length_append] at length
    omega
  constructor
  · rintro ⟨_, extended⟩ front edit back split short overcounted
    have member : edit ∈ plan.groups := by simp [split]
    -- The groups before the edit do not fill the request, so the edit is tried.
    have listed : edit.number ∈ tried := by
      rw [groupOrder, split, List.map_append, List.map_cons, List.append_assoc,
        List.cons_append] at order
      rcases mem_or_prefix_of_append_eq order.symm with listed | ⟨skipped, frontEq⟩
      · exact listed
      · have sums := congrArg (fun numbers => (numbers.map (tx.offered answers plan)).sum) frontEq
        simp only [List.map_append, List.sum_append, List.map_map, Function.comp_def] at sums
        have given := progress.count
        omega
    obtain ⟨found, kept, same⟩ := extended.kept edit member
    exact (progress.kept edit member listed).mp ⟨found, kept, same⟩ overcounted
  · intro allowed
    refine ⟨new, progress.sorted, fun edit member => ?_, progress.blocks, count, progress.distinct,
      fun block listed => ?_, fun edit member => ?_⟩
    · by_cases listed : edit.number ∈ tried
      · refine (progress.kept edit member listed).mpr ?_
        obtain ⟨front, back, triedEq⟩ := List.append_of_mem listed
        rw [triedEq, List.append_assoc, List.cons_append] at order
        have distinct := order ▸ (groupOrder_nodup ready.sorted : (tx.groupOrder plan).Nodup)
        have planned : edit.number ∈ plan.groups.map (·.number) := List.mem_map_of_mem member
        obtain ⟨others, numbers⟩ : ∃ others, plan.groups.map (·.number) =
            front ++ edit.number :: others := by
          rcases List.append_eq_append_iff.mp order with ⟨middle, frontEq, -⟩ | ⟨middle, numbersEq, restEq⟩
          · refine absurd rfl ((List.nodup_append.mp distinct).2.2 edit.number ?_ edit.number
              List.mem_cons_self)
            rw [frontEq]
            exact List.mem_append_left _ planned
          · cases middle with
            | cons head tail =>
              obtain ⟨rfl, -⟩ := List.cons_eq_cons.mp restEq
              exact ⟨tail, numbersEq⟩
            | nil =>
              have other := restEq ▸ List.mem_cons_self (a := edit.number)
              exact absurd rfl ((List.nodup_append.mp (groupOrder_nodup ready.sorted :
                (tx.groupOrder plan).Nodup)).2.2 edit.number planned edit.number other)
        obtain ⟨before, rest, groupsEq, frontEq, restEq⟩ := List.map_eq_append_iff.mp numbers
        obtain ⟨found, after, rfl, same, -⟩ := List.map_eq_cons_iff.mp restEq
        rw [← same]
        refine allowed before found after groupsEq ?_
        have short := progress.unfilled front edit.number back triedEq
        rw [← frontEq, List.map_map] at short
        exact short
      · exact ⟨edit, (progress.unseen edit listed).mpr member, rfl⟩
    · obtain ⟨edit, member, -, owned⟩ := progress.owned block listed
      exact ⟨edit, member, owned⟩
    · by_cases listed : edit.number ∈ tried
      · exact .inr (progress.edits edit member listed)
      · exact .inl ⟨(progress.unseen edit listed).mp member, fun block own =>
          progress.not_in_group listed own⟩

end Run

/-! ## Two groups of eight blocks -/

namespace TwoGroups

def volume : Ext4 where
  superblock :=
    { inodesCount := 16, blocksCount := 16, firstDataBlock := 0
      blockSize := 4096, blocksPerGroup := 8, inodesPerGroup := 8
      inodeSize := 256, firstInode := 11, descriptorSize := 64
      featureCompat := 0, featureIncompat := incompatExtents ||| incompat64Bit
      featureRoCompat := roCompatMetadataCsum, uuid := zeros 16, checksumSeed := 0
      journalInode := 0, reservedGdtBlocks := 0, backupBgs := [0, 0]
      firstMetaBg := 0 }
  overlay := []
  storageLen := 16 * 4096

def device : Answers (Error Empty) := Answers.ofMedium fun _ => 0

/-- An edit with one free block by its descriptor, and the first byte of its bitmap. -/
def edit (number : Nat) (first : UInt8) : GroupEdit where
  number
  descriptor := putLe16 (putLe32 (zeros 64) 0 (number + 2)) 0x0c 1
  blockBitmap := some { number := number + 2, bytes := first :: zeros 4095 }

/-- Block 15 is free in both plans; group 0 is full in the second. -/
def single : Allocation where
  blocks := []
  groups := [edit 1 0x7f]

def both : Allocation where
  blocks := []
  groups := [edit 0 0xff, edit 1 0x7f]

theorem ready {plan : Allocation} (sorted : GroupsSorted plan.groups)
    (edits : ∀ entry ∈ plan.groups, ∃ number first, entry = edit number first) :
    (new volume).Ready device plan fun _ => 0 where
  profile := by decide
  truthful := Answers.ofMedium_truthful _
  dirty := nofun
  sorted := sorted
  descriptors := by
    intro entry member
    obtain ⟨number, first, rfl⟩ := edits entry member
    have inner : (putLe32 (zeros 64) 0 (number + 2)).length = 64 := length_putLe _ (by decide)
    exact (length_putLe 1 (by rw [inner]; decide)).trans inner
  bitmaps := by
    intro entry member block same
    obtain ⟨number, first, rfl⟩ := edits entry member
    cases same
    exact (List.length_cons).trans (by rw [length_zeros]; rfl)

/-- A plan without an overcounted group keeps its edit. -/
theorem single_extended :
    ∃ result, ((new volume).extendAllocation single 1).eval device = .ok result ∧
      ∃ taken, (new volume).Extended device single 1 taken result := by
  have accepted : (((new volume).extendAllocation single 1).eval device).isOk = true := by
    decide +kernel
  cases extended : ((new volume).extendAllocation single 1).eval device with
  | error error =>
    rw [extended] at accepted
    cases accepted
  | ok result =>
    refine ⟨result, rfl, (extension_keeps_edits_iff (ready ?_ ?_) extended).mpr ?_⟩
    · exact List.pairwise_singleton _ _
    · intro entry member
      exact ⟨1, 0x7f, List.mem_singleton.mp member⟩
    · intro front entry back split _
      obtain ⟨rfl, rfl, rfl⟩ : front = [] ∧ entry = edit 1 0x7f ∧ back = [] := by
        cases front with
        | nil => simpa [single] using split.symm
        | cons head tail => simp [single] at split
      rintro ⟨before, opened, -, full⟩
      have clear : (((new volume).opened device single 1).map fun before =>
          clearBitsFrom before.2 0 ((new volume).groupBlocks 1)) = .ok [7] := by
        decide +kernel
      rw [show (new volume).opened device single 1 = .ok before from opened] at clear
      cases full.symm.trans (Except.ok.inj clear)

/-- The edit of group 0 is lost when the block comes from group 1. -/
theorem both_loses_edit :
    ∃ result, ((new volume).extendAllocation both 1).eval device = .ok result ∧
      ¬ ∃ taken, (new volume).Extended device both 1 taken result := by
  have accepted : (((new volume).extendAllocation both 1).eval device).map
      (fun result => result.groups.map (·.number)) = .ok [1] := by
    decide +kernel
  cases extended : ((new volume).extendAllocation both 1).eval device with
  | error error =>
    rw [extended] at accepted
    cases accepted
  | ok result =>
    rw [extended] at accepted
    refine ⟨result, rfl, ?_⟩
    rintro ⟨taken, extended⟩
    obtain ⟨found, member, same⟩ := extended.kept (edit 0 0xff) List.mem_cons_self
    have listed : found.number ∈ [1] := Except.ok.inj accepted ▸ List.mem_map_of_mem member
    rw [same] at listed
    simp [edit] at listed

end TwoGroups

end Transaction

end RetroOS.Ext
