import RetroOS.Ext.ExtentRefinement

/-!
# Truncation of extent trees

A file is shortened by removing everything from a logical block on.  Children
that are emptied are dropped, and then a root with a single child is replaced
by that child, as often as there is one.  A node in a block has room for many
more entries than the root in the inode, and nothing looks at how many there
are, so that the new root may have too many entries to be written back.

`truncation_storable_iff` says exactly when a truncated tree can be stored: the
first node down the left edge that keeps two entries, or the leaf at its end,
keeps no more than the root can hold.
-/

namespace RetroOS.Ext

open Lib Lib.Bytes
open Query hiding bind done eval fail read

variable {E : Type}

/-! ## Cutting at a block -/

/-- The part of an extent before a logical block. -/
def Extent.upTo (kept : Nat) (extent : Extent) : Option Extent :=
  if extent.logical < kept then
    some { extent with length := min extent.length (kept - extent.logical) }
  else none

/-- The records before a logical block. -/
def upTo (kept : Nat) (extents : List Extent) : List Extent := extents.filterMap (·.upTo kept)

/-- Records with a 32-bit position, each with a block. -/
def Positioned (extents : List Extent) : Prop :=
  ∀ extent ∈ extents, extent.logical < 2 ^ 32 ∧ 0 < extent.length

namespace ExtentNode

/-- The node starts before a logical block. -/
def startsBefore (kept : Nat) (node : ExtentNode) : Bool := node.firstLogical.any (· < kept)

/--
The entries that stay in the node that becomes the root: the first node down
the left edge in which two children start before the block, or the leaf.
-/
def keptCount (kept : Nat) : ExtentNode → Nat
  | .leaf _ _ extents => (mergeLeaf (upTo kept extents)).length
  | .branch _ _ [] => 0
  | .branch _ _ (child :: rest) =>
    if rest.any (startsBefore kept) = true then ((child :: rest).filter (startsBefore kept)).length
    else child.keptCount kept

end ExtentNode

namespace ExtentTree

/-- The tree fits its nodes, and can be written back. -/
structure Storable (blockSize : Nat) (identity : ExtentIdentity)
    (tree : ExtentTree) : Prop where
  root : tree.root.entryCount ≤ rootCapacity
  nodes : ∃ depth, tree.root.Stored ((blockSize - 16) / 12) depth
  writes : ∀ target : Bytes, 60 ≤ target.length → (tree.writeRoot (E := E) target).Succeeds
  serializes : (tree.serializeDirty (E := E) blockSize identity).Succeeds

end ExtentTree

/-! ## What a cut leaves of a leaf -/

theorem Extent.part_eq (extent : Extent) (start stop : Nat) (state : ExtentState) :
    (extent.part (E := E) start stop state).All fun pieces =>
      pieces =
          (if start < stop then
            [{ logical := start
               physical := extent.physical + (start - extent.logical)
               length := stop - start
               state }]
          else []) ∧
        (start < stop → start < 2 ^ 32) := by
  refine all_ite (fun within => ?_) (fun empty => ?_)
  · refine all_orFail_bind fun logical logicalEq => ?_
    refine all_orFail_bind fun length lengthEq => ?_
    rw [checked_eq_some] at logicalEq lengthEq
    rw [if_pos within, ← logicalEq.1, ← lengthEq.1]
    exact ⟨rfl, fun _ => logicalEq.2⟩
  · rw [if_neg empty]
    exact ⟨rfl, fun within => absurd within empty⟩

theorem upTo_cons (kept : Nat) (extent : Extent) (rest : List Extent) :
    upTo kept (extent :: rest) = (extent.upTo kept).toList ++ upTo kept rest := by
  unfold upTo
  cases cut : extent.upTo kept <;> simp [cut]

variable {kept : Nat} {extents : List Extent}

theorem removeExtents_upTo (positioned : Positioned extents) (removed : List Extent) :
    (removeExtents (E := E) kept (2 ^ 32) extents removed).All
      fun result => result.1 = upTo kept extents := by
  induction extents generalizing removed with
  | nil => rfl
  | cons extent rest induction =>
    have own := positioned extent List.mem_cons_self
    have others : Positioned rest := fun entry member =>
      positioned entry (List.mem_cons_of_mem _ member)
    refine all_ite (fun touched => ?_) (fun apart => ?_)
    · simp only [Extent.overlaps, Bool.and_eq_true, decide_eq_true_eq] at touched
      rw [Query.bind_eq, Query.bind, all_reserve]
      refine (extent.part_eq _ _ _).bind fun cut _ => ?_
      refine (extent.part_eq _ _ _).bind fun before beforeEq => ?_
      refine (extent.part_eq _ _ _).bind fun after afterEq => ?_
      refine (induction others _).bind fun result same => ?_
      -- a part behind the last 32-bit block would have been refused
      have none : after = [] := by
        rw [afterEq.1, if_neg]
        intro within
        exact absurd (afterEq.2 within) (lt_irrefl _)
      change before ++ after ++ result.1 = _
      rw [none, same, beforeEq.1, upTo_cons, List.append_nil, Extent.upTo]
      have ends := touched.2
      unfold Extent.logicalEnd at ends
      split_ifs with begins
      · simp only [Option.toList_some, Nat.sub_self, Nat.add_zero]
        rw [min_eq_right (by omega)]
      · rfl
    · simp only [Extent.overlaps, Bool.and_eq_true, decide_eq_true_eq, not_and, not_lt] at apart
      have ends := apart own.1
      unfold Extent.logicalEnd at ends
      refine (induction others removed).bind fun result same => ?_
      change extent :: result.1 = _
      rw [same, upTo_cons, Extent.upTo, if_pos (by omega), min_eq_left (by omega)]
      rfl

theorem removeFromLeaf_upTo (positioned : Positioned extents) (removed : List Extent) :
    (removeFromLeaf (E := E) kept (2 ^ 32) extents removed).All
      fun result => result.2.1 = mergeLeaf (upTo kept extents) := by
  refine (removeExtents_upTo positioned removed).bind fun result same => ?_
  change mergeLeaf result.1 = _
  rw [same]

theorem length_mergeFrom (current : Extent) (rest : List Extent) :
    0 < (mergeFrom current rest).length ∧ (mergeFrom current rest).length ≤ rest.length + 1 := by
  induction rest generalizing current with
  | nil => simp [mergeFrom]
  | cons right rest induction =>
    unfold mergeFrom
    split_ifs
    · have merged :=
        induction { current with length := current.length + right.length }
      simp only [List.length_cons]
      omega
    · have apart := induction right
      simp only [List.length_cons]
      omega

theorem length_mergeLeaf_le (extents : List Extent) :
    (mergeLeaf extents).length ≤ extents.length := by
  cases extents with
  | nil => exact le_rfl
  | cons first rest => exact (length_mergeFrom first rest).2

theorem mergeLeaf_eq_nil : mergeLeaf extents = [] ↔ extents = [] := by
  cases extents with
  | nil => simp [mergeLeaf]
  | cons first rest =>
    have some := (length_mergeFrom first rest).1
    simp only [mergeLeaf, reduceCtorEq, iff_false]
    intro none
    rw [none] at some
    exact absurd some (lt_irrefl _)

theorem length_upTo_le (kept : Nat) (extents : List Extent) :
    (upTo kept extents).length ≤ extents.length :=
  List.length_filterMap_le _ _

theorem upTo_eq_nil : upTo kept extents = [] ↔ ∀ extent ∈ extents, kept ≤ extent.logical := by
  simp [upTo, List.filterMap_eq_nil_iff, Extent.upTo]

/-! ## What a cut leaves of a node -/

variable {node : ExtentNode} {capacity depth blockSize : Nat}

namespace ExtentNode

theorem startsBefore_iff (sorted : Sorted node.extents) (filled : node.Filled) :
    node.startsBefore kept = true ↔ ∃ block < kept, Covered node.extents block := by
  unfold startsBefore
  cases empty : node.isEmpty with
  | true =>
    have bare := extents_of_isEmpty empty
    have unknown : node.firstLogical = none := by
      by_contra known
      obtain ⟨first, found⟩ := Option.ne_none_iff_exists'.mp known
      obtain ⟨extent, rest, records, -⟩ := firstLogical_head node found
      rw [bare] at records
      cases records
    simp [unknown, bare]
  | false =>
    obtain ⟨first, known⟩ := firstLogical_of_filled node empty filled
    obtain ⟨extent, rest, records, starts⟩ := firstLogical_head node known
    rw [known, records]
    rw [records] at sorted
    simp only [Option.any_some, decide_eq_true_eq]
    constructor
    · intro early
      exact ⟨extent.logical, by omega, sorted.head_covered⟩
    · rintro ⟨block, early, covered⟩
      have reached := sorted.head_le covered
      omega

variable {location : NodeLocation} {dirty : Bool}

theorem upTo_eq_nil_iff_late (sorted : Sorted extents) :
    upTo kept extents = [] ↔ (leaf location dirty extents).startsBefore kept = false := by
  rw [upTo_eq_nil]
  cases extents with
  | nil => simp [startsBefore, firstLogical]
  | cons first rest =>
    simp only [startsBefore, firstLogical, List.head?_cons,
      Option.map_some, Option.any_some, decide_eq_false_iff_not, not_lt]
    constructor
    · intro all
      exact all first List.mem_cons_self
    · intro late extent member
      have positive := sorted.positive extent member
      have covered : Covered (first :: rest) extent.logical := by
        refine covered_iff.mpr ⟨extent, member, le_rfl, ?_⟩
        unfold Extent.logicalEnd
        omega
      exact late.trans (sorted.head_le covered)

/-- Where the first child starts late, so do the others. -/
theorem startsBefore_of_later {child : ExtentNode} {rest : List ExtentNode}
    (sorted : Sorted (childExtents (child :: rest)))
    (filled : FilledAll (child :: rest))
    (later : rest.any (startsBefore kept) = true) :
    child.startsBefore kept = true := by
  rw [childExtents_cons] at sorted
  obtain ⟨own, others, precede⟩ := sorted_append.mp sorted
  simp only [FilledAll] at filled
  obtain ⟨node, member, starts⟩ := List.any_eq_true.mp later
  have inside := filledAll_iff.mp filled.2.2 node member
  have part := sorted_child others member
  obtain ⟨block, early, covered⟩ := (startsBefore_iff part inside.2).mp starts
  obtain ⟨first, head⟩ := exists_covered own filled.1 filled.2.1
  have before := precede first block head (covered_child member covered)
  exact (startsBefore_iff own filled.2.1).mpr ⟨first, by omega, head⟩

/-- The entries a root keeps when it collapses as far as it can. -/
def collapsedCount : ExtentNode → Nat
  | .leaf _ _ extents => extents.length
  | .branch _ _ [] => 0
  | .branch _ _ [child] => child.collapsedCount
  | .branch _ _ (_ :: _ :: rest) => rest.length + 2

/-- What a cut makes of a node. -/
structure Truncated (kept : Nat) (before after : ExtentNode) : Prop where
  empty : after.isEmpty = !before.startsBefore kept
  fewer : after.entryCount ≤ before.entryCount
  location : after.location = before.location
  count : after.collapsedCount = before.keptCount kept
  stored : ∀ capacity depth, before.Stored capacity depth → after.Stored capacity depth

/-- The children after a cut, one for each that starts before the block. -/
abbrev TruncatedAll (kept : Nat) (before after : List ExtentNode) : Prop :=
  List.Forall₂ (Truncated kept) (before.filter (startsBefore kept)) after

theorem keptCount_of_late :
    (node : ExtentNode) → Sorted node.extents → node.Filled →
      node.startsBefore kept = false → node.keptCount kept = 0
  | .leaf location dirty extents, sorted, filled, late => by
    rw [ExtentNode.extents] at sorted
    have none := (upTo_eq_nil_iff_late sorted).mpr late
    rw [keptCount, none]
    rfl
  | .branch _ _ [], _, _, _ => by rw [keptCount]
  | .branch location dirty (child :: rest), sorted, filled, late => by
    rw [ExtentNode.extents] at sorted
    rw [filled_branch] at filled
    have own : child.startsBefore kept = false := late
    have others : ¬ rest.any (startsBefore kept) = true := by
      intro later
      rw [startsBefore_of_later sorted filled later] at own
      cases own
    rw [keptCount, if_neg others]
    simp only [FilledAll] at filled
    exact keptCount_of_late child (sorted_child sorted List.mem_cons_self) filled.2.1 own

variable {before after : List ExtentNode}

theorem truncatedAll_length (truncated : TruncatedAll kept before after) :
    after.length ≤ before.length :=
  truncated.length_eq ▸ List.length_filter_le _ _

theorem truncatedAll_isEmpty {changed : Bool} (sorted : Sorted (childExtents before))
    (filled : FilledAll before) (truncated : TruncatedAll kept before after) :
    (branch location changed after).isEmpty =
      !(branch location dirty before).startsBefore kept := by
  have length := truncated.length_eq
  rw [isEmpty, Bool.eq_iff_iff, List.isEmpty_iff, Bool.not_eq_true',
    ← List.length_eq_zero_iff, ← length, List.length_eq_zero_iff,
    List.filter_eq_nil_iff]
  cases before with
  | nil => simp [startsBefore, firstLogical]
  | cons child rest =>
    change _ ↔ child.startsBefore kept = false
    constructor
    · intro late
      exact Bool.eq_false_iff.mpr (late child List.mem_cons_self)
    · intro late node member starts
      have first : child.startsBefore kept = true := by
        rcases List.mem_cons.mp member with rfl | later
        · exact starts
        · exact startsBefore_of_later sorted filled (List.any_eq_true.mpr ⟨node, later, starts⟩)
      rw [first] at late
      cases late

theorem storedAll_truncated {kept : Nat} (truncated : TruncatedAll kept before after)
    (stored : StoredAll capacity depth before) :
    StoredAll capacity depth after := by
  induction before generalizing after with
  | nil =>
    cases truncated
    simp only [StoredAll]
  | cons child rest induction =>
    simp only [StoredAll] at stored
    obtain ⟨own, below, others⟩ := stored
    cases starts : child.startsBefore kept with
    | false =>
      rw [TruncatedAll, List.filter_cons_of_neg (by simp [starts])] at truncated
      exact induction truncated others
    | true =>
      rw [TruncatedAll, List.filter_cons_of_pos starts] at truncated
      obtain ⟨cut, later, same, all, rfl⟩ := List.forall₂_cons_left_iff.mp truncated
      have inhabited : 0 < cut.entryCount := by
        rw [Nat.pos_iff_ne_zero, Ne, ← isEmpty_iff, same.empty, starts]
        exact Bool.false_ne_true
      simp only [StoredAll]
      refine ⟨⟨inhabited, same.fewer.trans own.2.1, ?_⟩,
        same.stored capacity depth below, induction all others⟩
      rw [same.location]
      exact own.2.2

theorem collapsedCount_truncated {changed : Bool} (sorted : Sorted (childExtents before))
    (filled : FilledAll before) (truncated : TruncatedAll kept before after) :
    (branch location changed after).collapsedCount =
      (branch location dirty before).keptCount kept := by
  cases before with
  | nil =>
    cases truncated
    rw [collapsedCount, keptCount]
  | cons child rest =>
    rw [keptCount]
    cases starts : child.startsBefore kept with
    | false =>
      have others : ¬ rest.any (startsBefore kept) = true := by
        intro later
        rw [startsBefore_of_later sorted filled later] at starts
        cases starts
      have none : rest.filter (startsBefore kept) = [] := by
        simpa [List.filter_eq_nil_iff] using others
      rw [TruncatedAll, List.filter_cons_of_neg (by simp [starts]), none] at truncated
      cases truncated
      simp only [FilledAll] at filled
      rw [if_neg others, collapsedCount, keptCount_of_late child
        (sorted_child sorted List.mem_cons_self) filled.2.1 starts]
    | true =>
      rw [TruncatedAll, List.filter_cons_of_pos starts] at truncated
      obtain ⟨cut, later, same, all, rfl⟩ := List.forall₂_cons_left_iff.mp truncated
      rw [List.filter_cons_of_pos starts]
      have length := all.length_eq
      cases later with
      | nil =>
        have none := List.length_eq_zero_iff.mp length
        have others : ¬ rest.any (startsBefore kept) = true := by
          simpa [List.filter_eq_nil_iff] using none
        rw [if_neg others, collapsedCount]
        exact same.count
      | cons second later =>
        have others : rest.any (startsBefore kept) = true := by
          by_contra none
          have bare : rest.filter (startsBefore kept) = [] := by
            simpa [List.filter_eq_nil_iff] using none
          rw [bare] at length
          cases length
        rw [if_pos others, collapsedCount, List.length_cons, length]
        rfl

mutual

theorem removeRange_truncated :
    (node : ExtentNode) → (removal : Removal) → Sorted node.extents →
      node.Filled → Positioned node.extents →
      (node.removeRange (E := E) kept (2 ^ 32) removal).All fun result =>
        Truncated kept node result.2.1
  | .leaf location dirty extents, removal, sorted, filled, positioned => by
    rw [ExtentNode.extents] at sorted positioned
    rw [removeRange]
    refine (removeFromLeaf_upTo positioned _).bind fun result same => ?_
    have bound := (length_mergeLeaf_le _).trans (length_upTo_le kept extents)
    have late : upTo kept extents = [] ↔ (leaf location dirty extents).startsBefore kept = false :=
      upTo_eq_nil_iff_late sorted
    change Truncated kept _ (leaf _ _ result.2.1)
    rw [same]
    refine ⟨?_, bound, rfl, rfl, fun capacity depth stored => ?_⟩
    · rw [isEmpty, Bool.eq_iff_iff, List.isEmpty_iff, mergeLeaf_eq_nil, late, Bool.not_eq_true']
    · cases depth with
      | zero => simp only [Stored]
      | succ below => simp only [Stored] at stored
  | .branch location dirty children, removal, sorted, filled, positioned => by
    rw [ExtentNode.extents] at sorted positioned
    rw [filled_branch] at filled
    rw [removeRange]
    refine (removeChildren_truncated children removal sorted filled
      positioned).bind fun result same => ?_
    change Truncated kept _ (branch _ _ result.2.1)
    refine ⟨?_, truncatedAll_length same, rfl, collapsedCount_truncated sorted filled same,
      fun capacity depth stored => ?_⟩
    · exact truncatedAll_isEmpty sorted filled same
    · cases depth with
      | zero => simp only [Stored] at stored
      | succ below =>
        simp only [Stored] at stored ⊢
        exact storedAll_truncated same stored

theorem removeChildren_truncated :
    (children : List ExtentNode) → (removal : Removal) →
      Sorted (childExtents children) → FilledAll children →
      Positioned (childExtents children) →
      (removeChildren (E := E) kept (2 ^ 32) children removal).All
        fun result => TruncatedAll kept children result.2.1
  | [], removal, sorted, filled, positioned => by
    rw [removeChildren]
    exact List.Forall₂.nil
  | child :: rest, removal, sorted, filled, positioned => by
    rw [childExtents_cons] at sorted positioned
    obtain ⟨own, others, precede⟩ := sorted_append.mp sorted
    simp only [FilledAll] at filled
    have here : Positioned child.extents := fun extent member =>
      positioned extent (List.mem_append_left _ member)
    have there : Positioned (childExtents rest) := fun extent member =>
      positioned extent (List.mem_append_right _ member)
    rw [removeChildren]
    refine (removeRange_truncated child removal own filled.2.1 here).bind fun result same => ?_
    refine all_ite (fun empty => ?_) (fun inhabited => ?_)
    · refine all_bind_of_forall fun nodes => ?_
      refine (removeChildren_truncated rest { result.2.2 with nodes }
        others filled.2.2 there).bind fun edited later => ?_
      have late : ¬ child.startsBefore kept = true := by simpa [empty] using same.empty
      change List.Forall₂ _ _ _
      rw [List.filter_cons_of_neg late]
      exact later
    · refine (removeChildren_truncated rest _ others filled.2.2 there).bind fun edited later => ?_
      have early : child.startsBefore kept = true := by simpa [inhabited] using same.empty
      change List.Forall₂ _ _ _
      rw [List.filter_cons_of_pos early]
      exact List.Forall₂.cons same later

end

/-! ## Nodes that can be written -/

theorem putChildren_succeeds {children : List ExtentNode}
    (stored : StoredAll capacity depth children) (filled : FilledAll children) (index : Nat)
    (target : Bytes) :
    (putChildren (E := E) index children target).Succeeds := by
  induction children generalizing index target with
  | nil => exact succeeds_done target
  | cons child rest induction =>
    simp only [StoredAll] at stored
    simp only [FilledAll] at filled
    obtain ⟨first, known⟩ := firstLogical_of_filled child filled.1 filled.2.1
    have placed := stored.1.2.2
    rw [putChildren]
    cases location : child.location with
    | root => simp [location, NodeLocation.isBlock] at placed
    | unassigned => simp [location, NodeLocation.isBlock] at placed
    | block number => exact (succeeds_orFail_bind known).mpr (induction stored.2.2 filled.2.2 _ _)

theorem writeNode_succeeds {room : Nat} {target : Bytes} (stored : node.Stored capacity depth)
    (filled : node.Filled) (fits : node.entryCount ≤ room) (long : 12 + room * 12 ≤ target.length) :
    (writeNode (E := E) target node room).Succeeds := by
  refine (succeeds_refuseIf_bind (by omega)).mpr ?_
  cases node with
  | leaf location dirty extents => exact succeeds_done _
  | branch location dirty children =>
    rw [filled_branch] at filled
    cases depth with
    | zero => simp only [Stored] at stored
    | succ below =>
      simp only [Stored] at stored
      exact putChildren_succeeds stored filled _ _

theorem serializeNode_succeeds (identity : ExtentIdentity) (large : 12 + capacity * 12 ≤ blockSize)
    (stored : node.Stored capacity depth) (filled : node.Filled) (fits : node.entryCount ≤ capacity)
    (placed : node.location.isBlock = true) (out : List SerializedNode) :
    (serializeNode (E := E) blockSize capacity identity node out).Succeeds := by
  unfold serializeNode
  split_ifs
  · cases location : node.location with
    | root => simp [location, NodeLocation.isBlock] at placed
    | unassigned => simp [location, NodeLocation.isBlock] at placed
    | block number =>
      have writes : (writeNode (E := E) (zeros blockSize) node capacity).Succeeds :=
        writeNode_succeeds stored filled fits (by simpa using large)
      exact succeeds_reserve.mpr (writes.bind fun bytes => succeeds_reserve.mpr (succeeds_done _))
  · exact succeeds_done out

mutual

theorem serialize_succeeds (identity : ExtentIdentity) (large : 12 + capacity * 12 ≤ blockSize) :
    (node : ExtentNode) → (depth : Nat) → (out : List SerializedNode) →
      node.Stored capacity depth → node.Filled →
      node.entryCount ≤ capacity → node.location.isBlock = true →
      (node.serialize (E := E) blockSize capacity identity out).Succeeds
  | .leaf location dirty extents, depth, out, stored, filled, fits, placed => by
    rw [serialize]
    exact serializeNode_succeeds identity large stored filled fits placed out
  | .branch location dirty children, 0, out, stored, filled, fits,
      placed => by simp only [Stored] at stored
  | .branch location dirty children, below + 1, out, stored, filled, fits, placed => by
    rw [serialize]
    refine (serializeNode_succeeds identity large stored filled fits
      placed out).bind fun later => ?_
    simp only [Stored] at stored
    rw [filled_branch] at filled
    exact serializeChildren_succeeds identity large children below later stored filled

theorem serializeChildren_succeeds (identity : ExtentIdentity)
    (large : 12 + capacity * 12 ≤ blockSize) :
    (children : List ExtentNode) → (depth : Nat) →
      (out : List SerializedNode) → StoredAll capacity depth children →
      FilledAll children →
      (serializeChildren (E := E) blockSize capacity identity children out).Succeeds
  | [], depth, out, stored, filled => by
    rw [serializeChildren]
    exact succeeds_done out
  | child :: rest, depth, out, stored, filled => by
    simp only [StoredAll] at stored
    simp only [FilledAll] at filled
    rw [serializeChildren]
    refine (serialize_succeeds identity large child depth out stored.2.1
      filled.2.1 stored.1.2.1 stored.1.2.2).bind fun later => ?_
    exact serializeChildren_succeeds identity large rest depth later stored.2.2 filled.2.2

end

end ExtentNode

namespace ExtentTree

open ExtentNode

variable {tree : ExtentTree}

/-! ## The collapsed root -/

theorem Promoted.stored {root : ExtentNode} (promoted : Promoted node root)
    (stored : node.Stored capacity depth) :
    root.entryCount = node.collapsedCount ∧ ∃ depth, root.Stored capacity depth := by
  induction promoted generalizing depth with
  | leaf => exact ⟨rfl, 0, by simp only [Stored]⟩
  | bare => exact ⟨rfl, 0, by simp only [Stored]⟩
  | only location dirty inside induction =>
    cases depth with
    | zero => simp only [Stored] at stored
    | succ below =>
      simp only [Stored, StoredAll] at stored
      rw [collapsedCount]
      exact induction stored.2.1
  | whole =>
    cases depth with
    | zero => simp only [Stored] at stored
    | succ below =>
      rw [collapsedCount]
      exact ⟨rfl, below + 1, by simpa only [Stored] using stored⟩

/-- What is left to ask of a tree with sound nodes is a small root. -/
theorem storable_iff (identity : ExtentIdentity) (large : 16 ≤ blockSize)
    (filled : tree.root.Filled) (stored : tree.root.Stored ((blockSize - 16) / 12) depth) :
    tree.Storable (E := E) blockSize identity ↔ tree.root.entryCount ≤ rootCapacity := by
  constructor
  · intro storable
    exact storable.root
  · intro small
    refine ⟨small, ⟨depth, stored⟩, fun target long => ?_, ?_⟩
    · exact writeNode_succeeds stored filled small long
    · refine (succeeds_refuseIf_bind (by omega)).mpr ?_
      match tree.root, depth, filled, stored with
      | .leaf location dirty extents, depth, _, _ => exact succeeds_done []
      | .branch location dirty children, 0, _, stored => simp only [Stored] at stored
      | .branch location dirty children, below + 1, filled, stored =>
        simp only [Stored] at stored
        rw [filled_branch] at filled
        exact serializeChildren_succeeds identity (by omega) children below [] stored filled

theorem remove_stored {kept : Nat} (sound : tree.Sound) (positioned : Positioned tree.root.extents)
    (stored : tree.root.Stored capacity depth) (range : kept < 2 ^ 32) :
    (tree.remove (E := E) kept (2 ^ 32)).All fun result =>
      result.1.root.entryCount = tree.root.keptCount kept ∧
        ∃ depth, result.1.root.Stored capacity depth := by
  unfold remove
  rw [if_neg (not_le.mpr range)]
  refine (removeRange_truncated tree.root _ sound.sorted sound.filled
    positioned).bind fun result same => ?_
  refine (collapseRoot_promoted _ result.2.1).bind fun root promoted => ?_
  have collapsed := promoted.stored (same.stored capacity depth stored)
  rw [same.count] at collapsed
  exact collapsed

/--
A truncated tree can be stored exactly when the node that becomes its root
keeps no more entries than the root can hold.
-/
theorem truncation_storable_iff (root : Bytes) (blockSize blocksCount : Nat)
    (identity : ExtentIdentity)
    (readBlock : Nat → Query (Error E) Bytes) :
    (load root blockSize blocksCount identity readBlock).All fun tree =>
      ∀ kept, (tree.remove (E := E) kept (2 ^ 32)).All fun result =>
          result.1.Storable (E := E) blockSize identity ↔
            2 ^ 32 ≤ kept ∨ tree.root.keptCount kept ≤ rootCapacity := by
  refine (load_loaded root blockSize blocksCount identity readBlock).mono fun tree loaded kept => ?_
  have sound := loaded.sound
  have large := loaded.large
  have stored := loaded.stored
  rw [loaded.capacity] at stored
  by_cases range : kept < 2 ^ 32
  · have positioned : Positioned tree.root.extents := fun extent member =>
      ⟨(loaded.extents extent member).2, sound.sorted.positive extent member⟩
    refine ((sound.remove kept (2 ^ 32)).and (remove_stored sound positioned stored range)).mono
      fun result kept => ?_
    obtain ⟨⟨after, -⟩, count, depth, below⟩ := kept
    rw [storable_iff identity large after.filled below, count]
    exact (or_iff_right (not_le.mpr range)).symm
  · have beyond := not_lt.mp range
    unfold remove
    rw [if_pos beyond]
    change Storable _ _ tree ↔ _
    rw [storable_iff identity large sound.filled stored]
    exact iff_of_true loaded.root (Or.inl beyond)

/-! ## A root that grows -/

/-- A root over two leaves, in the blocks 10 and 11. -/
def twoLeafRoot : Bytes :=
  [0x0A, 0xF3, 2, 0, 4, 0, 1, 0, 0, 0, 0, 0, 0, 0, 0, 0, 10, 0, 0, 0, 0, 0, 0, 0,
    100, 0, 0, 0, 11, 0, 0, 0, 0, 0, 0, 0] ++ List.replicate 24 0

/-- Five records with gaps between them, and one from block 100 on. -/
@[irreducible]
def scatteredLeaves (number : Nat) : Query (Error Unit) Bytes :=
  if number = 10 then
    .done ([0x0A, 0xF3, 5, 0, 84, 1, 0, 0, 0, 0, 0, 0, 0, 0, 0, 0, 1, 0, 0, 0, 20, 0, 0, 0,
      2, 0, 0, 0, 1, 0, 0, 0, 30, 0, 0, 0,
      4, 0, 0, 0, 1, 0, 0, 0, 40, 0, 0, 0,
      6, 0, 0, 0, 1, 0, 0, 0, 50, 0, 0, 0,
      8, 0, 0, 0, 1, 0, 0, 0, 60, 0, 0, 0] ++ List.replicate 4024 0)
  else
    .done ([0x0A, 0xF3, 1, 0, 84, 1, 0, 0, 0, 0, 0, 0,
      100, 0, 0, 0, 1, 0, 0, 0, 70, 0, 0, 0] ++ List.replicate 4072 0)

/-- The entries of the root after a file was cut. -/
def rootEntriesAfter (root : Bytes) (identity : ExtentIdentity)
    (readBlock : Nat → Query (Error E) Bytes) (kept : Nat) :
    Query (Error E) Nat :=
  (load root 4096 1000 identity readBlock).bind fun tree =>
    (tree.remove kept (2 ^ 32)).bind fun result => .done result.1.root.entryCount

theorem rootEntriesAfter_le {root : Bytes} {identity : ExtentIdentity}
    {readBlock : Nat → Query (Error E) Bytes}
    (always :
      (load root 4096 1000 identity readBlock).All fun tree =>
        ∀ kept, (tree.remove (E := E) kept (2 ^ 32)).All fun result =>
          result.1.Storable (E := E) 4096 identity) (kept : Nat) :
    (rootEntriesAfter root identity readBlock kept).All fun entries => entries ≤ rootCapacity :=
  always.bind fun _ storable => (storable kept).bind fun _ stored => stored.root

/-- With both leaves left the tree can be stored. -/
theorem two_leaves_storable :
    ((rootEntriesAfter twoLeafRoot plainIdentity scatteredLeaves
        101).eval fun _ _ => .error .outOfMemory).toOption = some 2 ∧
      (load twoLeafRoot 4096 1000 plainIdentity scatteredLeaves).All fun tree => ∀ kept,
          (tree.remove (E := Unit) kept (2 ^ 32)).All fun result =>
            result.1.Storable (E := Unit) 4096 plainIdentity ↔
              2 ^ 32 ≤ kept ∨ tree.root.keptCount kept ≤ rootCapacity :=
  ⟨by decide +kernel, truncation_storable_iff twoLeafRoot 4096 1000 plainIdentity scatteredLeaves⟩

/-- The first leaf alone becomes the root, with its five records. -/
theorem truncated_root_overflows :
    ¬ (load twoLeafRoot 4096 1000 plainIdentity scatteredLeaves).All fun tree => ∀ kept,
        (tree.remove (E := Unit) kept (2 ^ 32)).All fun result =>
          result.1.Storable (E := Unit) 4096 plainIdentity := by
  intro always
  have small := rootEntriesAfter_le always 50
  have full : Answers.Full fun _ _ => (.error .outOfMemory : Except (Error Unit) Bytes) := by
    intro _ _ _ answered
    cases answered
  have five :
      ((rootEntriesAfter twoLeafRoot plainIdentity scatteredLeaves
        50).eval fun _ _ => .error .outOfMemory).toOption = some 5 := by
    decide +kernel
  cases result :
      (rootEntriesAfter twoLeafRoot plainIdentity scatteredLeaves 50).eval
        fun _ _ => .error .outOfMemory with
  | error error =>
    rw [result] at five
    cases five
  | ok entries =>
    rw [result] at five
    cases five
    exact absurd (small.eval full result) (by decide)

end ExtentTree

end RetroOS.Ext
