import RetroOS.Ext.ExtentBounds

/-!
# The tree a block store stands for

The loader of extent trees is a program: it reads blocks, refuses what it
does not like and returns a decoded tree.  Here the same tree is a pure
function of the root's bytes and of a store of blocks (`decode`), and a
well-formed tree is a condition on those bytes (`NodeOk`, `WellFormed`).

`load_eval` says that the loader accepts every well-formed tree whose
blocks it reads in full, and returns what the bytes decode to.
-/

namespace RetroOS.Ext

open Lib Lib.Bytes
open Query hiding bind done eval fail read

variable {E : Type}

namespace ExtentNode

/-! ## Decoding -/

/-- The first logical block of an entry, of a leaf or of a branch. -/
def entryKey (bytes : Bytes) (index : Nat) : Nat := le32 bytes (12 + index * 12)

/-- The block an entry of a branch points to. -/
def childNumber (bytes : Bytes) (index : Nat) : Nat :=
  le32 bytes (12 + index * 12 + 4) ||| (le16 bytes (12 + index * 12 + 8) <<< 32)

/-- The record of an entry of a leaf. -/
def decodeExtent (bytes : Bytes) (index : Nat) : Extent where
  logical := entryKey bytes index
  physical := le32 bytes (12 + index * 12 + 8) ||| (le16 bytes (12 + index * 12 + 6) <<< 32)
  length := decodedLength (le16 bytes (12 + index * 12 + 4))
  state := decodedState (le16 bytes (12 + index * 12 + 4))

/-- The node of a depth that some bytes stand for. -/
def decode (store : Nat → Bytes) : (depth : Nat) → NodeLocation → Bytes → ExtentNode
  | 0, location, bytes =>
    .leaf location false ((List.range (le16 bytes 2)).map (decodeExtent bytes))
  | below + 1, location, bytes =>
    .branch location false ((List.range (le16 bytes 2)).map fun index =>
        decode store below (.block (childNumber bytes index)) (store (childNumber bytes index)))

/-- The node an entry of a branch points to. -/
def decodeChild (store : Nat → Bytes) (below : Nat) (bytes : Bytes) (index : Nat) : ExtentNode :=
  decode store below (.block (childNumber bytes index)) (store (childNumber bytes index))

/-- The blocks of the nodes below a node. -/
def innerBlocks : ExtentNode → List Nat
  | .leaf _ _ _ => []
  | .branch _ _ children => childBlocks children

theorem blocks_eq (node : ExtentNode) : node.blocks = node.location.blocks ++ node.innerBlocks := by
  cases node with
  | leaf location dirty extents =>
    rw [blocks_leaf, innerBlocks, List.append_nil, ExtentNode.location]
  | branch location dirty children => rw [blocks_branch, innerBlocks, ExtentNode.location]

variable {children : List ExtentNode}

theorem storedAll_iff {capacity depth : Nat} :
    StoredAll capacity depth children ↔
      ∀ child ∈ children, (0 < child.entryCount ∧ child.entryCount ≤ capacity ∧
          child.location.isBlock = true) ∧
          child.Stored capacity depth := by
  induction children with
  | nil => simp [StoredAll]
  | cons child rest induction => simp [StoredAll, induction, and_assoc]

theorem mem_childExtents {extent : Extent} :
    extent ∈ childExtents children ↔ ∃ child ∈ children, extent ∈ child.extents := by
  induction children with
  | nil => simp
  | cons child rest induction => simp [induction]

/-! ## Well-formed nodes -/

/-- The header names the capacity of the node and its depth. -/
structure HeaderOk (capacity depth : Nat) (bytes : Bytes) : Prop where
  room : 12 + capacity * 12 ≤ bytes.length
  magic : le16 bytes 0 = extentMagic
  entries : le16 bytes 2 ≤ capacity
  maximum : le16 bytes 4 = capacity
  depth : le16 bytes 6 = depth

/-- The block carries the checksum of its records, if blocks carry one. -/
def SealOk (identity : ExtentIdentity) (capacity : Nat) (bytes : Bytes) : Prop :=
  identity.metadataChecksums = true →
    nodeChecksum identity capacity bytes = le32 bytes (12 + capacity * 12)

section Nodes

variable (store : Nat → Bytes) (blocksCount blockCapacity : Nat) (identity : ExtentIdentity)

/-- What an entry of a branch says agrees with the block it points to. -/
structure EntryOk (bytes : Bytes) (index : Nat) : Prop where
  positive : 0 < childNumber bytes index
  inside : childNumber bytes index < blocksCount
  sealed : SealOk identity blockCapacity (store (childNumber bytes index))
  inhabited : 0 < le16 (store (childNumber bytes index)) 2
  key : entryKey (store (childNumber bytes index)) 0 = entryKey bytes index

/-- A node of a depth with everything below it. -/
def NodeOk : (depth capacity : Nat) → Bytes → Prop
  | 0, capacity, bytes =>
    HeaderOk capacity 0 bytes ∧ ∀ index < le16 bytes 2, (decodeExtent bytes index).Encodable
  | below + 1, capacity, bytes =>
    HeaderOk capacity (below + 1) bytes ∧ 0 < le16 bytes 2 ∧
      ∀ index < le16 bytes 2, EntryOk store blocksCount blockCapacity identity bytes index ∧
          NodeOk below blockCapacity (store (childNumber bytes index))

end Nodes

section Decoded

variable {store : Nat → Bytes} {blocksCount blockCapacity : Nat}
    {identity : ExtentIdentity} {capacity : Nat} {bytes : Bytes}
    {location : NodeLocation}

variable {depth : Nat}

section

variable (ok : NodeOk store blocksCount blockCapacity identity depth capacity bytes)

include ok

theorem NodeOk.header : HeaderOk capacity depth bytes := by
  cases depth with
  | zero => exact ok.1
  | succ below => exact ok.1

theorem inhabited_of_branch (branch : 0 < depth) : 0 < le16 bytes 2 := by
  cases depth with
  | zero => exact absurd branch (lt_irrefl 0)
  | succ below => exact ok.2.1

theorem firstEntry_of_branch (branch : 0 < depth) :
    EntryOk store blocksCount blockCapacity identity bytes 0 := by
  cases depth with
  | zero => exact absurd branch (lt_irrefl 0)
  | succ below => exact (ok.2.2 0 ok.2.1).1

omit ok in
@[simp]
theorem location_decode (depth : Nat) :
    (decode store depth location bytes).location = location := by
  cases depth <;> rfl

omit ok in
@[simp]
theorem entryCount_decode (depth : Nat) :
    (decode store depth location bytes).entryCount = le16 bytes 2 := by
  cases depth <;> simp [decode, entryCount]

/-- A node starts where its first entry says. -/
theorem firstLogical_decode (inhabited : 0 < le16 bytes 2) :
    (decode store depth location bytes).firstLogical = some (entryKey bytes 0) := by
  obtain ⟨entries, count⟩ := Nat.exists_eq_succ_of_ne_zero inhabited.ne'
  induction depth generalizing capacity bytes location entries with
  | zero =>
    rw [decode, count, List.range_succ_eq_map]
    rfl
  | succ below induction =>
    rw [decode, count, List.range_succ_eq_map]
    obtain ⟨entry, child⟩ := ok.2.2 0 inhabited
    obtain ⟨others, childCount⟩ := Nat.exists_eq_succ_of_ne_zero entry.inhabited.ne'
    change (decode store below _ _).firstLogical = _
    rw [induction child entry.inhabited others childCount, entry.key]

/-- What a decoded tree looks like, apart from its order. -/
theorem decode_shape :
    (decode store depth location bytes).Stored blockCapacity depth ∧
      (decode store depth location bytes).Filled ∧
      ∀ extent ∈ (decode store depth location bytes).extents,
        extent.Encodable := by
  induction depth generalizing capacity bytes location with
  | zero =>
    refine ⟨by simp only [decode, Stored], filled_leaf _ _ _, ?_⟩
    intro extent member
    rw [decode, ExtentNode.extents, List.mem_map] at member
    obtain ⟨index, bound, rfl⟩ := member
    exact ok.2 index (List.mem_range.mp bound)
  | succ below induction =>
    have each : ∀ child ∈ (List.range (le16 bytes 2)).map (decodeChild store below bytes),
        ((0 < child.entryCount ∧ child.entryCount ≤ blockCapacity ∧
          child.location.isBlock = true) ∧
          child.Stored blockCapacity below) ∧
          (child.isEmpty = false ∧ child.Filled) ∧
          ∀ extent ∈ child.extents, extent.Encodable := by
      intro child member
      obtain ⟨index, bound, rfl⟩ := List.mem_map.mp member
      obtain ⟨entry, childOk⟩ := ok.2.2 index (List.mem_range.mp bound)
      have shape :
          (decodeChild store below bytes index).Stored blockCapacity below ∧
            (decodeChild store below bytes index).Filled ∧
            ∀ extent ∈ (decodeChild store below bytes index).extents,
              extent.Encodable :=
        induction childOk
      obtain ⟨stored, filled, encodable⟩ := shape
      have count := entry.inhabited
      refine ⟨⟨⟨?_, ?_, ?_⟩, stored⟩, ⟨?_, filled⟩, encodable⟩
      · rwa [decodeChild, entryCount_decode]
      · rw [decodeChild, entryCount_decode]
        exact childOk.header.entries
      · rw [decodeChild, location_decode]
        rfl
      · rw [Bool.eq_false_iff, ne_eq, ExtentNode.isEmpty_iff, decodeChild, entryCount_decode]
        exact count.ne'
    refine ⟨?_, ?_, ?_⟩
    · rw [decode, Stored]
      exact storedAll_iff.mpr fun child member => (each child member).1
    · rw [decode, filled_branch]
      exact filledAll_iff.mpr fun child member => (each child member).2.1
    · intro extent member
      rw [decode, ExtentNode.extents] at member
      obtain ⟨child, known, own⟩ := mem_childExtents.mp member
      exact (each child known).2.2 extent own

/-! ## The order of the entries -/

omit ok in
/-- The children of sorted records start one after the other. -/
theorem pairwise_firstLogical (sorted : Sorted (childExtents children)) :
    children.Pairwise fun first second =>
      ∀ start ∈ first.firstLogical, ∀ other ∈ second.firstLogical, start < other := by
  induction children with
  | nil => exact List.Pairwise.nil
  | cons child rest induction =>
    rw [childExtents_cons] at sorted
    obtain ⟨own, others, precede⟩ := sorted_append.mp sorted
    refine List.Pairwise.cons ?_ (induction others)
    intro second member start starts other begins
    obtain ⟨head, tail, records, rfl⟩ := firstLogical_head child starts
    obtain ⟨next, later, after, rfl⟩ := firstLogical_head second begins
    have following := sorted_child others member
    refine precede head.logical next.logical ?_ ?_
    · rw [records] at own ⊢
      exact own.head_covered
    · refine covered_child member ?_
      rw [after] at following ⊢
      exact following.head_covered

/-- The entries of a node of a sorted tree have increasing keys. -/
theorem entryKey_lt (sorted : Sorted (decode store depth location bytes).extents)
    (first second : Nat) (before : first < second)
    (bound : second < le16 bytes 2) :
    entryKey bytes first < entryKey bytes second := by
  cases depth with
  | zero =>
    rw [decode, ExtentNode.extents] at sorted
    have ordered := List.pairwise_iff_getElem.mp sorted.ordered first second
      (by simpa using before.trans bound) (by simpa using bound) before
    have positive := sorted.positive (decodeExtent bytes first)
      (List.mem_map_of_mem (List.mem_range.mpr (before.trans bound)))
    simp only [List.getElem_map, List.getElem_range, Extent.logicalEnd] at ordered
    exact lt_of_lt_of_le (Nat.lt_add_of_pos_right positive) ordered
  | succ below =>
    rw [decode, ExtentNode.extents] at sorted
    have ordered := List.pairwise_iff_getElem.mp (pairwise_firstLogical sorted) first second
      (by simpa using before.trans bound) (by simpa using bound) before
    simp only [List.getElem_map, List.getElem_range] at ordered
    obtain ⟨entry, child⟩ := ok.2.2 first (before.trans bound)
    obtain ⟨next, sibling⟩ := ok.2.2 second bound
    rw [← entry.key, ← next.key]
    exact ordered _ (firstLogical_decode child entry.inhabited) _
      (firstLogical_decode sibling next.inhabited)

end

/-! ## The loader -/

section Evaluation

variable {answers : Answers (Error E)}

theorem extentHeader_eval (header : HeaderOk capacity depth bytes) :
    (extentHeader (E := E) bytes capacity).eval answers = .ok depth := by
  refine (eval_refuseIf_bind ?_).trans ?_
  · simp only [header.magic, header.maximum, ne_eq, not_true_eq_false,
      false_or, or_false, not_or, not_lt]
    exact ⟨header.room, header.entries⟩
  · exact congrArg Except.ok header.depth

theorem new_eval {extent : Extent} (encodable : extent.Encodable) :
    (Extent.new (E := E) extent.logical extent.physical extent.length
        extent.state).eval answers = .ok extent := by
  refine (eval_refuseIf_bind ?_).trans rfl
  have positive := encodable.positive
  have inside := encodable.inside
  have high : extent.physical >>> 48 = 0 := by
    rw [Nat.shiftRight_eq_div_pow]
    exact Nat.div_eq_of_lt (by omega)
  simp only [high, ne_eq, not_true_eq_false, false_or, not_or, not_lt]
  exact ⟨positive.ne', encodable.short, encodable.placed, inside⟩

theorem loadExtents_eval {left index : Nat} (encodable :
      ∀ entry, index ≤ entry → entry < index + left → (decodeExtent bytes entry).Encodable) :
    (loadExtents (E := E) bytes left index).eval answers =
      .ok ((List.range' index left).map (decodeExtent bytes)) := by
  induction left generalizing index with
  | zero => rfl
  | succ left induction =>
    have own := encodable index le_rfl (by omega)
    refine (eval_bind_of_ok (new_eval own)).trans ?_
    refine (eval_bind_of_ok (induction fun entry low high =>
      encodable entry (by omega) (by omega))).trans ?_
    rw [List.range'_succ, List.map_cons]
    rfl

theorem verifyNodeChecksum_eval (sized : 12 + capacity * 12 + 4 ≤ bytes.length)
    (seals : SealOk identity capacity bytes) :
    (verifyNodeChecksum (E := E) bytes capacity identity).eval answers = .ok () := by
  unfold verifyNodeChecksum
  split_ifs with checksums
  · refine (eval_refuseIf_bind (not_lt.mpr sized)).trans ?_
    rw [eval_refuseIf, if_neg]
    exact not_not.mpr (seals checksums)
  · rfl

variable {readBlock : Nat → Query (Error E) Bytes}

theorem loadChildren_eval
    {loadChild :
      Bytes → NodeLocation → List Nat → Query (Error E) (ExtentNode × List Nat)} {below : Nat}
    (reads :
      ∀ number, 0 < number → number < blocksCount →
        (readBlock number).eval answers = .ok (store number))
    (sized :
      ∀ number, 0 < number → number < blocksCount →
        (store number).length = 12 + blockCapacity * 12 + 4)
    (increasing :
      ∀ first second, first < second → second < le16 bytes 2 →
        entryKey bytes first < entryKey bytes second)
    (entries :
      ∀ entry < le16 bytes 2, EntryOk store blocksCount blockCapacity identity bytes entry ∧
          NodeOk store blocksCount blockCapacity identity below
            blockCapacity (store (childNumber bytes entry)))
    (loads :
      ∀ entry < le16 bytes 2, ∀ visited,
        (visited ++ (decodeChild store below bytes entry).innerBlocks).Nodup →
        (loadChild (store (childNumber bytes entry))
            (.block (childNumber bytes entry)) visited).eval answers =
          .ok (decodeChild store below bytes entry,
            visited ++ (decodeChild store below bytes entry).innerBlocks))
    {left index : Nat} {previous : Option Nat} {visited : List Nat}
    (bound : index + left = le16 bytes 2)
    (early :
      ∀ key ∈ previous, ∀ entry, index ≤ entry → entry < le16 bytes 2 → key < entryKey bytes entry)
    (fresh :
      (visited ++ childBlocks ((List.range' index left).map
          (decodeChild store below bytes))).Nodup) :
    (loadChildren bytes blockCapacity blocksCount identity readBlock
        loadChild left index previous visited).eval answers =
      .ok ((List.range' index left).map (decodeChild store below bytes), visited ++ childBlocks
          ((List.range' index left).map (decodeChild store below bytes))) := by
  induction left generalizing index previous visited with
  | zero => simp [loadChildren]
  | succ left induction =>
    have here : index < le16 bytes 2 := by omega
    obtain ⟨entry, child⟩ := entries index here
    -- the blocks of the children, this child's own block first
    rw [List.range'_succ, List.map_cons, childBlocks_cons, blocks_eq,
      decodeChild, location_decode, NodeLocation.blocks, ← decodeChild,
      List.append_assoc, ← List.append_assoc visited,
      ← List.append_assoc (visited ++ [_])] at fresh ⊢
    have own := (List.nodup_append.mp fresh).1
    have unseen : childNumber bytes index ∉ visited := by
      have head := (List.nodup_append.mp own).1
      intro seen
      exact (List.nodup_append.mp head).2.2 _ seen _ (List.mem_singleton.mpr rfl) rfl
    refine (eval_refuseIf_bind ?_).trans ?_
    · simp only [Option.any_eq_true, decide_eq_true_eq, not_exists, not_and, not_le]
      intro key known
      exact early key known index le_rfl here
    refine (eval_refuseIf_bind ?_).trans ?_
    · simp only [List.contains_iff_mem, not_or, not_le]
      exact ⟨entry.positive.ne', entry.inside, unseen⟩
    refine (eval_bind_of_ok (reads _ entry.positive entry.inside)).trans ?_
    have long := sized _ entry.positive entry.inside
    refine (eval_refuseIf_bind (not_not.mpr long)).trans ?_
    refine (eval_bind_of_ok (verifyNodeChecksum_eval long.ge entry.sealed)).trans ?_
    refine (eval_bind_of_ok (loads index here _ own)).trans ?_
    refine (eval_refuseIf_bind (not_not.mpr ?_)).trans ?_
    · change (decodeChild store below bytes index).firstLogical = some (entryKey bytes index)
      rw [decodeChild, firstLogical_decode child entry.inhabited, entry.key]
    refine (eval_bind_of_ok (induction (by omega) ?_ fresh)).trans rfl
    intro key known next after within
    rw [Option.mem_some_iff] at known
    rw [← known]
    exact increasing index next (by omega) within

/-- The loader returns what the bytes decode to. -/
theorem loadNode_eval {visited : List Nat} (reads :
      0 < depth → ∀ number, 0 < number → number < blocksCount →
        (readBlock number).eval answers = .ok (store number))
    (sized :
      0 < depth → ∀ number, 0 < number → number < blocksCount →
        (store number).length = 12 + blockCapacity * 12 + 4)
    (ok : NodeOk store blocksCount blockCapacity identity depth capacity bytes)
    (sorted : Sorted (decode store depth location bytes).extents)
    (inhabited : location = .root ∨ 0 < le16 bytes 2)
    (fresh : (visited ++ (decode store depth location bytes).innerBlocks).Nodup) :
    (loadNode blockCapacity blocksCount identity readBlock depth capacity
        bytes location visited).eval answers =
      .ok (decode store depth location bytes,
        visited ++ (decode store depth location bytes).innerBlocks) := by
  induction depth generalizing capacity bytes location visited with
  | zero =>
    refine (eval_bind_of_ok (extentHeader_eval ok.1)).trans ?_
    refine (eval_refuseIf_bind (not_not.mpr rfl)).trans ?_
    refine (eval_refuseIf_bind ?_).trans ?_
    · rintro ⟨inner, empty⟩
      cases inhabited with
      | inl root => exact inner root
      | inr some => exact some.ne' empty
    have records :
        (loadExtents (E := E) bytes (le16 bytes 2) 0).eval answers =
          .ok ((List.range' 0 (le16 bytes 2)).map (decodeExtent bytes)) :=
      loadExtents_eval fun entry _ within => ok.2 entry (by omega)
    refine (eval_bind_of_ok records).trans ?_
    rw [decode, List.range_eq_range', innerBlocks, List.append_nil]
    rfl
  | succ below induction =>
    have increasing := entryKey_lt ok sorted
    rw [decode, List.range_eq_range'] at sorted fresh ⊢
    refine (eval_bind_of_ok (extentHeader_eval ok.1)).trans ?_
    refine (eval_refuseIf_bind (not_not.mpr rfl)).trans ?_
    refine (eval_refuseIf_bind ok.2.1.ne').trans ?_
    have loads :
        ∀ entry < le16 bytes 2, ∀ visited, (visited ++
            (decodeChild store below bytes entry).innerBlocks).Nodup →
          (loadNode blockCapacity blocksCount identity readBlock below
              blockCapacity (store (childNumber bytes entry))
              (.block (childNumber bytes entry)) visited).eval answers =
            .ok (decodeChild store below bytes entry, visited ++
                (decodeChild store below bytes entry).innerBlocks) := by
      intro entry within visited unseen
      obtain ⟨known, child⟩ := ok.2.2 entry within
      refine induction (fun _ => reads (Nat.succ_pos below))
        (fun _ => sized (Nat.succ_pos below)) child ?_
        (Or.inr known.inhabited) unseen
      refine sorted_child sorted ?_
      exact List.mem_map_of_mem (by simpa using within)
    have first :
        ∀ key ∈ (none : Option Nat), ∀ entry, 0 ≤ entry →
          entry < le16 bytes 2 → key < entryKey bytes entry := by
      simp
    exact eval_bind_of_ok (loadChildren_eval (reads (Nat.succ_pos below))
        (sized (Nat.succ_pos below)) increasing ok.2.2 loads
        (Nat.zero_add _) first fresh)

end Evaluation

end Decoded

/-! ## Validation -/

theorem depth_of_stored {capacity : Nat} :
    (node : ExtentNode) → (depth : Nat) → node.Stored capacity depth →
      (0 < depth → 0 < node.entryCount) → node.depth = depth
  | .leaf _ _ _, 0, _, _ => by rw [ExtentNode.depth]
  | .leaf _ _ _, _ + 1, stored, _ => by simp only [Stored] at stored
  | .branch _ _ _, 0, stored, _ => by simp only [Stored] at stored
  | .branch _ _ [], below + 1, _, inhabited => by
    exact absurd (inhabited (Nat.succ_pos below)) (lt_irrefl 0)
  | .branch _ _ (child :: rest), below + 1, stored, _ => by
    simp only [Stored, StoredAll] at stored
    rw [ExtentNode.depth, depth_of_stored child below stored.2.1 fun _ => stored.1.1]

theorem validateExtents_succeeds {previous : Option Nat}
    {extents : List Extent} (sorted : Sorted extents)
    (encodable : ∀ extent ∈ extents, extent.Encodable)
    (early : ∀ stop ∈ previous, ∀ extent ∈ extents, stop ≤ extent.logical) :
    (validateExtents (E := E) previous extents).Succeeds := by
  induction extents generalizing previous with
  | nil => exact succeeds_done ()
  | cons extent rest induction =>
    intro answers
    refine ⟨(), ?_⟩
    refine (eval_bind_of_ok (new_eval (encodable extent List.mem_cons_self))).trans ?_
    refine (eval_refuseIf_bind ?_).trans ?_
    · simp only [Option.any_eq_true, decide_eq_true_eq, not_exists, not_and, not_lt]
      intro stop known
      exact early stop known extent List.mem_cons_self
    have later : (validateExtents (E := E) (some extent.logicalEnd) rest).Succeeds := by
      refine induction (sorted_cons.mp sorted).2.1 (fun entry member => encodable entry
          (List.mem_cons_of_mem _ member)) ?_
      intro stop known entry member
      rw [Option.mem_some_iff] at known
      rw [← known]
      exact List.rel_of_pairwise_cons sorted.ordered member
    exact (later answers).choose_spec

mutual

/-- A sorted tree of storable nodes passes the check of new trees. -/
theorem validate_succeeds {blockCapacity : Nat} :
    (node : ExtentNode) → (root : Bool) → (depth : Nat) →
      node.Stored blockCapacity depth → depth ≤ maxDepth →
      node.entryCount ≤ (if root = true then rootCapacity else blockCapacity) →
      (root = false ∨ 0 < depth → 0 < node.entryCount) →
      Sorted node.extents → node.Filled →
      (∀ extent ∈ node.extents, extent.Encodable) →
      (node.validate (E := E) blockCapacity root).Succeeds
  | .leaf location dirty extents, root, depth, _, _, count, inhabited, sorted, _, encodable => by
    rw [validate]
    rw [ExtentNode.extents] at sorted encodable
    refine (succeeds_refuseIf_bind ?_).mpr (validateExtents_succeeds sorted encodable (by simp))
    rintro (many | ⟨inner, empty⟩)
    · exact absurd count (not_le.mpr many)
    · have some := inhabited (Or.inl inner)
      rw [List.isEmpty_iff.mp empty] at some
      exact absurd some (lt_irrefl 0)
  | .branch _ _ _, _, 0, stored, _, _, _, _, _, _ => by
    simp only [Stored] at stored
  | .branch _ _ [], _, below + 1, _, _, _, inhabited, _, _, _ =>
    absurd (inhabited (Or.inr (Nat.succ_pos below))) (lt_irrefl 0)
  | .branch location dirty (child :: rest), root, below + 1, stored, flat,
      count, inhabited, sorted, filled, encodable => by
    have known := depth_of_stored _ _ stored fun _ => inhabited (Or.inr (Nat.succ_pos below))
    rw [validate]
    rw [ExtentNode.extents] at sorted encodable
    rw [filled_branch] at filled
    simp only [Stored] at stored
    refine (succeeds_refuseIf_bind ?_).mpr ?_
    · rintro (empty | many)
      · simp at empty
      · exact absurd count (not_le.mpr many)
    have head : child.depth = below := by
      simp only [StoredAll] at stored
      exact depth_of_stored child below stored.2.1 fun _ => stored.1.1
    simp only [List.head?_cons, Option.map_some, Option.getD_some, head]
    refine (validateChildren_succeeds (child :: rest) none below stored
      (by omega) sorted filled encodable (by simp)).bind
      fun _ answers => ?_
    refine ⟨(), ?_⟩
    rw [eval_refuseIf, if_neg]
    rw [known]
    exact not_lt.mpr flat

theorem validateChildren_succeeds {blockCapacity : Nat} :
    (children : List ExtentNode) → (previous : Option Nat) →
      (depth : Nat) → StoredAll blockCapacity depth children →
      depth ≤ maxDepth → Sorted (childExtents children) →
      FilledAll children →
      (∀ extent ∈ childExtents children, extent.Encodable) →
      (∀ start ∈ previous, ∀ block, Covered (childExtents children) block → start < block) →
      (validateChildren (E := E) blockCapacity depth previous children).Succeeds
  | [], _, _, _, _, _, _, _, _ => by
    rw [validateChildren]
    exact succeeds_done ()
  | child :: rest, previous, depth, stored, flat, sorted, filled, encodable, early => by
    rw [validateChildren]
    simp only [StoredAll] at stored
    simp only [FilledAll] at filled
    obtain ⟨⟨inhabited, count, placed⟩, own, others⟩ := stored
    obtain ⟨some, full, restFilled⟩ := filled
    rw [childExtents_cons] at sorted encodable early
    obtain ⟨here, later, precede⟩ := sorted_append.mp sorted
    obtain ⟨first, starts⟩ := firstLogical_of_filled child some full
    obtain ⟨head, tail, records, begins⟩ := firstLogical_head child starts
    have covered : Covered child.extents first := by
      rw [records] at here ⊢
      rw [← begins]
      exact here.head_covered
    refine (succeeds_refuseIf_bind ?_).mpr ?_
    · rw [depth_of_stored child depth own fun _ => inhabited, placed]
      simp
    refine (succeeds_orFail_bind starts).mpr ?_
    refine (succeeds_refuseIf_bind ?_).mpr ?_
    · simp only [Option.any_eq_true, decide_eq_true_eq, not_exists, not_and, not_le]
      intro start known
      exact early start known first
        (covered_append.mpr (Or.inl covered))
    refine (validate_succeeds child false depth own flat count
      (fun _ => inhabited) here full fun extent member =>
        encodable extent (List.mem_append_left _ member)).bind
      fun _ => ?_
    refine validateChildren_succeeds rest _ depth others flat later restFilled (fun extent member =>
        encodable extent (List.mem_append_right _ member)) ?_
    intro start known block after
    rw [Option.mem_some_iff] at known
    rw [← known]
    exact precede first block covered after

end

end ExtentNode

namespace ExtentTree

open ExtentNode

variable {answers : Answers (Error E)}

mutual

theorem collectExtents_eval :
    (node : ExtentNode) → (out : List Extent) →
      (collectExtents node out).eval answers = .ok (out ++ node.extents)
  | .leaf _ _ extents, out => by
    rw [collectExtents, ExtentNode.extents]
    rfl
  | .branch _ _ children, out => by
    rw [collectExtents, ExtentNode.extents]
    exact collectChildExtents_eval children out

theorem collectChildExtents_eval :
    (children : List ExtentNode) → (out : List Extent) →
      (collectChildExtents children out).eval answers = .ok (out ++ childExtents children)
  | [], out => by
    rw [collectChildExtents, childExtents_nil, List.append_nil]
    rfl
  | child :: rest, out => by
    rw [collectChildExtents, childExtents_cons, ← List.append_assoc]
    refine (eval_bind_of_ok (collectExtents_eval child out)).trans ?_
    exact collectChildExtents_eval rest _

end

/-- The physical ranges of two records share no block. -/
def PhysicallyApart (first second : Extent) : Prop :=
  first.physical + first.length ≤ second.physical ∨ second.physical + second.length ≤ first.physical

instance (first second : Extent) : Decidable (PhysicallyApart first second) :=
  inferInstanceAs (Decidable (_ ∨ _))

/-- Records inside a volume, apart from each other and from some blocks. -/
structure Placed (blocksCount : Nat) (blocks : List Nat)
    (extents : List Extent) : Prop where
  inside : ∀ extent ∈ extents, extent.physical + extent.length ≤ blocksCount
  apart : extents.Pairwise PhysicallyApart
  data :
    ∀ extent ∈ extents, ∀ block ∈ blocks,
      block < extent.physical ∨ extent.physical + extent.length ≤ block

theorem checkExtents_succeeds {blocksCount : Nat} {visited : List Nat}
    {before extents : List Extent} (sorted : Sorted (before ++ extents))
    (placed : Placed blocksCount visited (before ++ extents)) :
    (checkExtents (E := E) blocksCount visited before extents).Succeeds := by
  induction extents generalizing before with
  | nil => exact succeeds_done ()
  | cons extent rest induction =>
    have member : extent ∈ before ++ extent :: rest := by simp
    have earlier (previous : Extent) (known : previous ∈ before) :
        previous.logicalEnd ≤ extent.logical ∧ PhysicallyApart previous extent :=
      ⟨(List.pairwise_append.mp sorted.ordered).2.2 previous known extent List.mem_cons_self,
        (List.pairwise_append.mp placed.apart).2.2 previous known extent List.mem_cons_self⟩
    refine (succeeds_refuseIf_bind ?_).mpr ?_
    · simp only [Option.any_eq_true, decide_eq_true_eq, not_exists, not_and, not_lt]
      intro last known
      exact (earlier last (List.mem_of_getLast? known)).1
    refine (succeeds_refuseIf_bind (not_lt.mpr (placed.inside extent member))).mpr ?_
    refine (succeeds_refuseIf_bind ?_).mpr ?_
    · simp only [List.any_eq_true, Bool.and_eq_true, decide_eq_true_eq]
      rintro (⟨block, seen, low, high⟩ | ⟨previous, known, low, high⟩)
      · have outside := placed.data extent member block seen
        omega
      · have outside := (earlier previous known).2
        unfold PhysicallyApart at outside
        omega
    · refine induction ?_ ?_
      · simpa using sorted
      · simpa using placed

/-! ## Whole trees -/

/--
A root and a store of blocks that are a tree: every node is sound, the
records are sorted and inside the volume, and no block is used twice.
-/
structure WellFormed (store : Nat → Bytes) (blockSize blocksCount : Nat)
    (identity : ExtentIdentity) (root : Bytes) : Prop where
  depth : le16 root 6 ≤ maxDepth
  nodes : NodeOk store blocksCount ((blockSize - 16) / 12) identity (le16 root 6) rootCapacity root
  sorted : Sorted (decode store (le16 root 6) .root root).extents
  blocks : (decode store (le16 root 6) .root root).blocks.Nodup
  placed :
    Placed blocksCount (decode store (le16 root 6) .root root).blocks
      (decode store (le16 root 6) .root root).extents

section Load

variable {store : Nat → Bytes} {blockSize blocksCount : Nat}
    {identity : ExtentIdentity} {root : Bytes}

/-- The tree a root stands for. -/
def decoded (store : Nat → Bytes) (blockSize : Nat) (root : Bytes) : ExtentTree where
  root := decode store (le16 root 6) .root root
  blockCapacity := (blockSize - 16) / 12
  releasedNodes := []

/--
The loader accepts every well-formed tree, when the blocks of its nodes
have room for the records and the checksum and for nothing else.
-/
theorem load_eval {readBlock : Nat → Query (Error E) Bytes}
    (formed : WellFormed store blockSize blocksCount identity root)
    (large : rootCapacity < (blockSize - 16) / 12)
    (reads :
      0 < le16 root 6 → ∀ number, 0 < number → number < blocksCount →
        (readBlock number).eval answers = .ok (store number))
    (sized :
      0 < le16 root 6 → ∀ number, 0 < number → number < blocksCount →
        (store number).length = 12 + (blockSize - 16) / 12 * 12 + 4) :
    (load root blockSize blocksCount identity readBlock).eval answers =
      .ok (decoded store blockSize root) := by
  obtain ⟨stored, filled, encodable⟩ := decode_shape formed.nodes
  have own : (decode store (le16 root 6) .root root).blocks =
      (decode store (le16 root 6) .root root).innerBlocks := by
    rw [blocks_eq, location_decode]
    rfl
  have fresh := formed.blocks
  have placed := formed.placed
  rw [own] at fresh placed
  have wide : 16 ≤ blockSize := by
    unfold rootCapacity at large
    omega
  refine (eval_refuseIf_bind (not_lt.mpr wide)).trans ?_
  refine (eval_refuseIf_bind (not_le.mpr large)).trans ?_
  refine (eval_bind_of_ok (extentHeader_eval formed.nodes.header)).trans ?_
  refine (eval_refuseIf_bind (not_lt.mpr formed.depth)).trans ?_
  refine (eval_bind_of_ok (loadNode_eval reads sized formed.nodes formed.sorted (Or.inl rfl)
      fresh)).trans ?_
  have accepted :
      (new (E := E) (decode store (le16 root 6) .root root) ((blockSize - 16) / 12)).eval answers =
        .ok (decoded store blockSize root) := by
    refine (eval_refuseIf_bind ?_).trans ?_
    · rw [location_decode, not_or, not_le]
      exact ⟨not_not.mpr rfl, large⟩
    have count : (decode store (le16 root 6) .root root).entryCount ≤ rootCapacity := by
      rw [entryCount_decode]
      exact formed.nodes.header.entries
    have inhabited (branch : true = false ∨ 0 < le16 root 6) :
        0 < (decode store (le16 root 6) .root root).entryCount := by
      rw [entryCount_decode]
      exact inhabited_of_branch formed.nodes (branch.resolve_left nofun)
    obtain ⟨_, valid⟩ := validate_succeeds (E := E) _ true _ stored
      formed.depth count inhabited formed.sorted filled encodable answers
    exact eval_bind_of_ok valid
  refine (eval_bind_of_ok accepted).trans ?_
  refine (eval_bind_of_ok (collectExtents_eval (decode store (le16 root 6) .root root) [])).trans ?_
  rw [List.nil_append]
  have checks :
      (checkExtents (E := E) blocksCount (decode store (le16 root 6) .root root).innerBlocks []
          (decode store (le16 root 6) .root root).extents).Succeeds :=
    checkExtents_succeeds formed.sorted placed
  exact eval_bind_of_ok (checks answers).choose_spec

end Load

end ExtentTree

end RetroOS.Ext
