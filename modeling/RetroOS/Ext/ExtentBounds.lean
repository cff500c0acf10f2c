import RetroOS.Ext.Truncation

/-!
# Records and nodes after an edit

A record can be stored when its length suits its state: 32768 blocks when it
is written and one less when it is not.  Merging looks at that limit, and an
inserted record is checked, but a change of state is not: a written record of
the full length that lies in the range becomes an unwritten one that cannot
be stored.

`extent_edits_regular` says that this is all that can go wrong.  An edit of a
decoded tree also keeps the order of the records, the depth of the leaves and
the capacity of every node, and the root never asks for a sibling.
-/

namespace RetroOS.Ext

open Lib
open Query hiding bind done eval fail read

variable {E : Type}

/-! ## Records that can be stored -/

variable {extents : List Extent}

theorem encodable_mergeFrom {current : Extent} (own : current.Encodable)
    (others : ∀ extent ∈ extents, extent.Encodable) :
    ∀ extent ∈ mergeFrom current extents, extent.Encodable := by
  induction extents generalizing current with
  | nil =>
    intro extent member
    rw [List.mem_singleton.mp member]
    exact own
  | cons right rest induction =>
    have next := others right List.mem_cons_self
    have later : ∀ extent ∈ rest, extent.Encodable := fun extent member =>
      others extent (List.mem_cons_of_mem _ member)
    unfold mergeFrom
    split_ifs with joins
    · simp only [Extent.canMerge, Bool.and_eq_true, beq_iff_eq, decide_eq_true_eq] at joins
      refine induction ⟨?_, joins.2, own.placed, ?_⟩ later
      · exact Nat.add_pos_left own.positive _
      · have ends := next.inside
        have touching := joins.1.2
        change current.physical + (current.length + right.length) ≤ _
        omega
    · intro extent member
      rcases List.mem_cons.mp member with rfl | behind
      · exact own
      · exact induction next later extent behind

theorem encodable_mergeLeaf (encodable : ∀ extent ∈ extents, extent.Encodable) :
    ∀ extent ∈ mergeLeaf extents, extent.Encodable := by
  cases extents with
  | nil => exact encodable
  | cons first rest =>
    exact encodable_mergeFrom (encodable first List.mem_cons_self) fun extent member =>
        encodable extent (List.mem_cons_of_mem _ member)

/-- A record over the limit of its state is merged with no other. -/
theorem mem_mergeFrom_of_long {current extent : Extent} (long : extent.state.maxLen < extent.length)
    (member : extent ∈ current :: extents) :
    extent ∈ mergeFrom current extents := by
  induction extents generalizing current with
  | nil => exact member
  | cons right rest induction =>
    unfold mergeFrom
    split_ifs with joins
    · simp only [Extent.canMerge, Bool.and_eq_true, beq_iff_eq, decide_eq_true_eq] at joins
      obtain ⟨⟨⟨state, -⟩, -⟩, fits⟩ := joins
      apply induction
      rcases List.mem_cons.mp member with rfl | other
      · omega
      · rcases List.mem_cons.mp other with rfl | later
        · rw [state] at fits
          omega
        · exact List.mem_cons_of_mem _ later
    · rcases List.mem_cons.mp member with rfl | other
      · exact List.mem_cons_self
      · exact List.mem_cons_of_mem _ (induction other)

variable {extent : Extent}

theorem mem_mergeLeaf_of_long (long : extent.state.maxLen < extent.length)
    (member : extent ∈ extents) : extent ∈ mergeLeaf extents := by
  cases extents with
  | nil => exact member
  | cons first rest => exact mem_mergeFrom_of_long long member

/-! ## Records whose state changes -/

/--
A written record of the full length inside a range that becomes unwritten.
-/
def Extent.Overlong (start stop : Nat) (state : ExtentState) (extent : Extent) : Prop :=
  state = .unwritten ∧ extent.state = .written ∧
    extent.length = writtenMaxLen ∧ start ≤ extent.logical ∧
    extent.logicalEnd ≤ stop

variable {start stop : Nat} {state : ExtentState}

theorem Extent.part_encodable (encodable : extent.Encodable)
    (after : extent.logical ≤ start) (before : stop ≤ extent.logicalEnd)
    (short : stop - start ≤ state.maxLen) :
    (extent.part (E := E) start stop state).All fun pieces =>
      ∀ piece ∈ pieces, piece.Encodable := by
  refine (extent.part_eq start stop state).mono fun pieces same => ?_
  rw [same.1]
  have inside := encodable.inside
  have placed := encodable.placed
  unfold logicalEnd at before
  intro piece member
  split_ifs at member with some
  · rw [List.mem_singleton.mp member]
    refine ⟨Nat.sub_pos_of_lt some, short, ?_, ?_⟩ <;> simp only <;> omega
  · cases member

/-- The part of a record that changes its state is short enough. -/
theorem Extent.changed_short (short : extent.length ≤ extent.state.maxLen)
    (fits : ¬ extent.Overlong start stop state) :
    min stop extent.logicalEnd - max start extent.logical ≤
      state.maxLen := by
  unfold logicalEnd
  cases state with
  | written =>
    have limit : extent.state.maxLen ≤ writtenMaxLen := by cases extent.state <;> decide
    simp only [ExtentState.maxLen]
    omega
  | unwritten =>
    cases known : extent.state with
    | unwritten =>
      rw [known] at short
      simp only [ExtentState.maxLen] at short ⊢
      omega
    | written =>
      rw [known] at short
      simp only [ExtentState.maxLen, writtenMaxLen, unwrittenMaxLen] at short ⊢
      by_contra full
      refine fits ⟨rfl, known, ?_, ?_, ?_⟩
      · simp only [writtenMaxLen]
        omega
      · omega
      · unfold logicalEnd
        omega

theorem setStateExtent_encodable (encodable : extent.Encodable)
    (fits : ¬ extent.Overlong start stop state) :
    (setStateExtent (E := E) start stop state extent).All fun pieces =>
      ∀ piece ∈ pieces, piece.Encodable := by
  refine all_ite (fun _ => ?_) (fun touched => ?_)
  · intro piece member
    rw [List.mem_singleton.mp member]
    exact encodable
  · simp only [not_or, Bool.not_eq_false, Extent.overlaps,
      Bool.and_eq_true, decide_eq_true_eq] at touched
    have short := encodable.short
    have ends : extent.logicalEnd = extent.logical + extent.length := rfl
    refine (extent.part_encodable encodable le_rfl (by omega)
      (by omega)).bind fun before first => ?_
    refine (extent.part_encodable encodable (by omega) (by omega)
      (extent.changed_short short fits)).bind fun middle second => ?_
    refine (extent.part_encodable encodable (by omega) le_rfl (by omega)).bind fun after third => ?_
    intro piece member
    simp only [List.mem_append] at member
    rcases member with (here | here) | here
    · exact first piece here
    · exact second piece here
    · exact third piece here

/-- An overlong record of a leaf stays as it is, in the other state. -/
theorem setStateExtent_overlong (overlong : extent.Overlong start stop state) :
    (setStateExtent (E := E) start stop state extent).All fun pieces =>
      { extent with state } ∈ pieces := by
  obtain ⟨rfl, written, full, begins, ends⟩ := overlong
  have length : extent.logicalEnd = extent.logical + 32768 := by
    rw [Extent.logicalEnd, full]
    rfl
  refine all_ite (fun untouched => ?_) (fun _ => ?_)
  · exfalso
    rcases untouched with same | apart
    · rw [written] at same
      cases same
    · simp only [Extent.overlaps, Bool.and_eq_false_iff, decide_eq_false_iff_not, not_lt] at apart
      omega
  · refine (extent.part_eq _ _ _).bind fun before _ => ?_
    refine (extent.part_eq _ _ _).bind fun middle middleEq => ?_
    refine (extent.part_eq _ _ _).bind fun after _ => ?_
    apply List.mem_append_left
    apply List.mem_append_right
    rw [middleEq.1, max_eq_right begins, min_eq_right ends,
      if_pos (by omega), List.mem_singleton, Nat.sub_self, Nat.add_zero,
      Extent.logicalEnd, Nat.add_sub_cancel_left]

theorem setStateExtents_encodable (encodable : ∀ extent ∈ extents, extent.Encodable)
    (fits : ∀ extent ∈ extents, ¬ extent.Overlong start stop state) :
    (setStateExtents (E := E) start stop state extents).All fun output =>
      ∀ extent ∈ output, extent.Encodable := by
  induction extents with
  | nil => exact fun _ member => by cases member
  | cons extent rest induction =>
    simp only [List.forall_mem_cons] at encodable fits
    refine (setStateExtent_encodable encodable.1 fits.1).bind fun pieces own => ?_
    refine (induction encodable.2 fits.2).bind fun output later => ?_
    intro piece member
    rcases List.mem_append.mp member with here | there
    · exact own piece here
    · exact later piece there

theorem setStateExtents_overlong :
    (setStateExtents (E := E) start stop state extents).All fun output =>
      ∀ extent ∈ extents, extent.Overlong start stop state → { extent with state } ∈ output := by
  induction extents with
  | nil => exact fun _ member => by cases member
  | cons extent rest induction =>
    have own :
        (setStateExtent (E := E) start stop state extent).All
          fun pieces => extent.Overlong start stop state → { extent with state } ∈ pieces := by
      by_cases overlong : extent.Overlong start stop state
      · exact (setStateExtent_overlong overlong).mono fun _ member _ => member
      · exact (all_true _).mono fun _ _ changed => absurd changed overlong
    refine own.bind fun pieces here => ?_
    refine induction.bind fun output later => ?_
    intro other member overlong
    rcases List.mem_cons.mp member with rfl | behind
    · exact List.mem_append_left _ (here overlong)
    · exact List.mem_append_right _ (later other behind overlong)

/-! ## How many records a leaf gets -/

/-- A block is in the record, but not its first one. -/
def Extent.cutAt (block : Nat) (extent : Extent) : Bool :=
  extent.logical < block && block < extent.logicalEnd

theorem Extent.length_part (extent : Extent) (start stop : Nat) (state : ExtentState) :
    (extent.part (E := E) start stop state).All fun pieces =>
      pieces.length = if start < stop then 1 else 0 := by
  refine (extent.part_eq start stop state).mono fun pieces same => ?_
  rw [same.1]
  split_ifs <;> rfl

theorem length_setStateExtent (start stop : Nat) (state : ExtentState) (extent : Extent) :
    (setStateExtent (E := E) start stop state extent).All fun pieces =>
      pieces.length ≤ 1 + (if extent.cutAt start = true then 1 else 0) +
          (if extent.cutAt stop = true then 1 else 0) := by
  refine all_ite (fun _ => ?_) (fun touched => ?_)
  · change 1 ≤ _
    omega
  · simp only [not_or, Bool.not_eq_false, Extent.overlaps,
      Bool.and_eq_true, decide_eq_true_eq] at touched
    refine (extent.length_part _ _ _).bind fun before first => ?_
    refine (extent.length_part _ _ _).bind fun middle second => ?_
    refine (extent.length_part _ _ _).bind fun after third => ?_
    change (before ++ middle ++ after).length ≤ _
    simp only [List.length_append, first, second, third, Extent.cutAt,
      Bool.and_eq_true, decide_eq_true_eq]
    split_ifs <;> omega

/-- A block cuts at most one of the records in order. -/
theorem countP_cutAt_le (sorted : Sorted extents)
    (block : Nat) : extents.countP (Extent.cutAt block) ≤ 1 := by
  induction extents with
  | nil => exact Nat.zero_le _
  | cons extent rest induction =>
    obtain ⟨-, others, precede⟩ := sorted_cons.mp sorted
    rw [List.countP_cons]
    split_ifs with cut
    · simp only [Extent.cutAt, Bool.and_eq_true, decide_eq_true_eq] at cut
      have none : rest.countP (Extent.cutAt block) = 0 := by
        rw [List.countP_eq_zero]
        intro other member again
        simp only [Extent.cutAt, Bool.and_eq_true, decide_eq_true_eq] at again
        have own : Covered [extent] block := covered_cons.mpr (Or.inl ⟨by omega, cut.2⟩)
        have too : Covered rest block := covered_iff.mpr ⟨other, member, by omega, again.2⟩
        exact absurd (precede block block own too) (lt_irrefl _)
      omega
    · exact induction others

theorem length_setStateExtents (sorted : Sorted extents) :
    (setStateExtents (E := E) start stop state extents).All fun output =>
      output.length ≤ extents.length + 2 := by
  have counted :
      (setStateExtents (E := E) start stop state extents).All fun output =>
        output.length ≤ extents.length + extents.countP (Extent.cutAt start) +
            extents.countP (Extent.cutAt stop) := by
    clear sorted
    induction extents with
    | nil => exact le_rfl
    | cons extent rest induction =>
      refine (length_setStateExtent start stop state extent).bind fun pieces own => ?_
      refine induction.bind fun output later => ?_
      change (pieces ++ output).length ≤ _
      rw [List.length_append, List.length_cons, List.countP_cons, List.countP_cons]
      omega
  refine counted.mono fun output bound => ?_
  have first := countP_cutAt_le sorted start
  have second := countP_cutAt_le sorted stop
  omega

/-! ## Nodes within their capacity -/

variable {node : ExtentNode}

namespace ExtentNode

mutual

/-- The nodes below are within capacity, and all leaves at one depth. -/
def Leveled (capacity : Nat) : Nat → ExtentNode → Prop
  | 0, .leaf _ _ _ => True
  | below + 1, .branch _ _ children => LeveledAll capacity below children
  | _, _ => False

def LeveledAll (capacity : Nat) : Nat → List ExtentNode → Prop
  | _, [] => True
  | depth, child :: rest =>
    (0 < child.entryCount ∧ child.entryCount ≤ capacity) ∧
      child.Leveled capacity depth ∧ LeveledAll capacity depth rest

end

theorem leveledAll_iff {capacity depth : Nat} {children : List ExtentNode} :
    LeveledAll capacity depth children ↔
      ∀ child ∈ children, (0 < child.entryCount ∧ child.entryCount ≤ capacity) ∧
          child.Leveled capacity depth := by
  induction children with
  | nil => simp [LeveledAll]
  | cons child rest induction => simp [LeveledAll, induction, and_assoc]

theorem leveledAll_append {capacity depth : Nat} {first second : List ExtentNode} :
    LeveledAll capacity depth (first ++ second) ↔
      LeveledAll capacity depth first ∧ LeveledAll capacity depth second := by
  simp only [leveledAll_iff, List.forall_mem_append]

variable {capacity : Nat}

mutual

theorem leveled_of_stored :
    (node : ExtentNode) → (depth : Nat) → node.Stored capacity depth → node.Leveled capacity depth
  | .leaf _ _ _, 0, _ => by simp only [Leveled]
  | .leaf _ _ _, _ + 1, stored => by simp only [Stored] at stored
  | .branch _ _ _, 0, stored => by simp only [Stored] at stored
  | .branch _ _ children, below + 1, stored => by
    simp only [Stored] at stored
    simp only [Leveled]
    exact leveledAll_of_storedAll children below stored

theorem leveledAll_of_storedAll :
    (children : List ExtentNode) → (depth : Nat) →
      StoredAll capacity depth children →
      LeveledAll capacity depth children
  | [], _, _ => by simp only [LeveledAll]
  | child :: rest, depth, stored => by
    simp only [StoredAll] at stored
    simp only [LeveledAll]
    exact ⟨⟨stored.1.1, stored.1.2.1⟩, leveled_of_stored child depth stored.2.1,
      leveledAll_of_storedAll rest depth stored.2.2⟩

end

theorem leveled_setLocation {capacity depth : Nat} {location : NodeLocation} :
    (node.setLocation location).Leveled capacity depth ↔ node.Leveled capacity depth := by
  cases node <;> cases depth <;> simp [setLocation, Leveled]

theorem entryCount_setLocation (node : ExtentNode) (location : NodeLocation) :
    (node.setLocation location).entryCount = node.entryCount := by
  cases node <;> rfl

theorem splitOver_of_le (fits : node.entryCount ≤ capacity) :
    splitOver capacity node = (node, none) := by
  unfold splitOver
  rw [if_pos fits]

/-- A node of up to twice its capacity makes one or two nodes. -/
theorem leveledAll_splitOver {capacity depth : Nat}
    (leveled : node.Leveled capacity depth) (some : 0 < node.entryCount)
    (bound : node.entryCount ≤ 2 * capacity) :
    LeveledAll capacity depth (pieces (splitOver capacity node)) := by
  by_cases fits : node.entryCount ≤ capacity
  · rw [splitOver_of_le fits]
    simp only [pieces, Option.toList_none, LeveledAll, and_true]
    exact ⟨⟨some, fits⟩, leveled⟩
  · unfold splitOver
    rw [if_neg fits]
    rcases node with ⟨location, dirty, extents⟩ | ⟨location, dirty, children⟩ <;>
      rcases depth with - | below
    · simp only [entryCount] at fits bound
      have front :
          (leaf location dirty (extents.take (extents.length / 2))).entryCount =
              extents.length / 2 := by
        simp only [entryCount, List.length_take]
        omega
      have back :
          (leaf .unassigned true (extents.drop (extents.length / 2))).entryCount =
              extents.length - extents.length / 2 := by
        simp only [entryCount, List.length_drop]
      simp only [pieces, Option.toList_some, LeveledAll, front, back, and_true]
      exact ⟨by omega, by simp only [Leveled], by omega, by simp only [Leveled]⟩
    · simp only [Leveled] at leveled
    · simp only [Leveled] at leveled
    · simp only [entryCount] at fits bound
      simp only [Leveled, leveledAll_iff] at leveled
      have front :
          (branch location dirty (children.take (children.length / 2))).entryCount =
              children.length / 2 := by
        simp only [entryCount, List.length_take]
        omega
      have back :
          (branch .unassigned true (children.drop (children.length / 2))).entryCount =
              children.length - children.length / 2 := by
        simp only [entryCount, List.length_drop]
      simp only [pieces, Option.toList_some, LeveledAll, front, back, and_true]
      refine ⟨by omega, ?_, by omega, ?_⟩
      · simp only [Leveled, leveledAll_iff]
        exact fun child member => leveled child (List.mem_of_mem_take member)
      · simp only [Leveled, leveledAll_iff]
        exact fun child member => leveled child (List.mem_of_mem_drop member)

/--
The nodes an edit left are within capacity and hold records that can be
stored; a node with enough room to begin with is not split.
-/
structure Shaped (capacity depth room : Nat)
    (result : ExtentNode × Option ExtentNode) : Prop where
  leveled : LeveledAll capacity depth (pieces result)
  whole : room ≤ capacity → result.2 = none ∧ result.1.entryCount ≤ room

theorem shaped_splitOver {capacity depth room : Nat}
    (leveled : node.Leveled capacity depth) (some : 0 < node.entryCount)
    (bound : node.entryCount ≤ 2 * capacity)
    (most : node.entryCount ≤ room) :
    Shaped capacity depth room (splitOver capacity node) where
  leveled := leveledAll_splitOver leveled some bound
  whole := by
    intro fits
    rw [splitOver_of_le (most.trans fits)]
    exact ⟨rfl, most⟩

theorem mergeLeaf_length_pos (some : extents ≠ []) : 0 < (mergeLeaf extents).length := by
  rw [List.length_pos_iff]
  intro none
  exact some (mergeLeaf_eq_nil.mp none)

/-- An insertion adds at most one entry to a node, and keeps those below in shape. -/
theorem Inserted.leveled {after : ExtentNode} {depth : Nat}
    (inserted : Inserted extent capacity node after) (leveled : node.Leveled capacity depth) :
    after.Leveled capacity depth ∧ 0 < after.entryCount ∧
      after.entryCount ≤ node.entryCount + 1 := by
  induction inserted generalizing depth with
  | leaf location dirty extents =>
    cases depth with
    | succ below => simp only [Leveled] at leveled
    | zero =>
      refine ⟨by simp only [Leveled], mergeLeaf_length_pos fun none => ?_, ?_⟩
      · exact absurd (none ▸ insertExtent_perm extent extents) (List.not_perm_nil_cons _ _)
      · exact (length_mergeLeaf_le _).trans_eq (insertExtent_perm extent extents).length_eq
  | @branch location dirty before behind child after starts last inside induction =>
    cases depth with
    | zero => simp only [Leveled] at leveled
    | succ below =>
      simp only [Leveled, leveledAll_append, LeveledAll] at leveled ⊢
      obtain ⟨front, fits, own, back⟩ := leveled
      obtain ⟨kept, some, most⟩ := induction own
      have single := Option.length_toList_le (o := (splitOver capacity after).2)
      refine ⟨⟨front, leveledAll_splitOver kept some (by omega), back⟩, ?_, ?_⟩ <;>
        simp only [entryCount, pieces, List.length_append, List.length_cons] <;> omega

theorem insert_shaped (node : ExtentNode) (depth : Nat) (leveled : node.Leveled capacity depth)
    (fits : node.entryCount ≤ capacity) (room : 0 < capacity) :
    (node.insert (E := E) extent capacity capacity).All
      (Shaped capacity depth (node.entryCount + 1)) := by
  refine (insert_inserted extent capacity node capacity).mono fun result found => ?_
  obtain ⟨after, inserted, rfl⟩ := found
  obtain ⟨kept, some, most⟩ := inserted.leveled leveled
  exact shaped_splitOver kept some (by omega) most

theorem Inserted.encodable {blockCapacity : Nat} {after : ExtentNode}
    (inserted : Inserted extent blockCapacity node after) (own : extent.Encodable)
    (encodable : ∀ extent ∈ node.extents, extent.Encodable) :
    ∀ extent ∈ after.extents, extent.Encodable := by
  induction inserted with
  | leaf location dirty extents =>
    rw [ExtentNode.extents] at encodable ⊢
    apply encodable_mergeLeaf
    intro other member
    rcases List.mem_cons.mp ((insertExtent_perm _ _).mem_iff.mp member) with rfl | old
    · exact own
    · exact encodable other old
  | branch location dirty starts last inside induction =>
    simp only [ExtentNode.extents, childExtents_append, childExtents_cons,
      childExtents_splitOver, List.forall_mem_append] at encodable ⊢
    exact ⟨encodable.1, induction encodable.2.1, encodable.2.2⟩

mutual

theorem setStateRange_shaped (range : start < stop) (state : ExtentState) (room : 2 ≤ capacity) :
    (node : ExtentNode) → (depth : Nat) → node.Leveled capacity depth →
      0 < node.entryCount → node.entryCount ≤ capacity →
      Sorted node.extents →
      (node.setStateRange (E := E) start stop state capacity capacity).All
        (Shaped capacity depth (2 * node.entryCount + 2))
  | .leaf location dirty extents, 0, leveled, inhabited, fits, sorted => by
    rw [ExtentNode.extents] at sorted
    simp only [entryCount] at inhabited fits
    rw [setStateRange]
    refine ((length_setStateExtents sorted).and (setStateExtents_ne_nil
      range state sorted (List.length_pos_iff.mp inhabited))).bind
      fun output kept => ?_
    have length := (length_mergeLeaf_le output).trans kept.1
    have some := List.length_pos_iff.mpr kept.2
    refine shaped_splitOver (by simp only [Leveled]) some ?_ ?_ <;>
      simp only [entryCount] <;> omega
  | .leaf _ _ _, _ + 1, leveled, _, _, _ => by
    simp only [Leveled] at leveled
  | .branch _ _ _, 0, leveled, _, _, _ => by
    simp only [Leveled] at leveled
  | .branch location dirty children, below + 1, leveled, inhabited, fits, sorted => by
    rw [ExtentNode.extents] at sorted
    simp only [Leveled] at leveled
    simp only [entryCount] at inhabited fits
    rw [setStateRange]
    refine (setStateChildren_shaped range state room children below
      leveled sorted).bind fun edited kept => ?_
    refine shaped_splitOver (by simpa only [Leveled] using kept.1)
      ?_ ?_ ?_ <;> simp only [entryCount] <;> omega

theorem setStateChildren_shaped (range : start < stop) (state : ExtentState) (room : 2 ≤ capacity) :
    (children : List ExtentNode) → (depth : Nat) →
      LeveledAll capacity depth children → Sorted (childExtents children) →
      (setStateChildren (E := E) start stop state capacity children).All fun edited =>
          LeveledAll capacity depth edited.2 ∧
            children.length ≤ edited.2.length ∧
            edited.2.length ≤ 2 * children.length
  | [], depth, leveled, sorted => by
    rw [setStateChildren]
    exact ⟨leveled, le_rfl, le_rfl⟩
  | child :: rest, depth, leveled, sorted => by
    simp only [LeveledAll] at leveled
    rw [childExtents_cons] at sorted
    obtain ⟨own, others, -⟩ := sorted_append.mp sorted
    rw [setStateChildren]
    refine (setStateRange_shaped range state room child depth leveled.2.1
      leveled.1.1 leveled.1.2 own).bind fun result kept => ?_
    refine all_bind_of_forall fun _ => ?_
    refine (setStateChildren_shaped range state room rest depth
      leveled.2.2 others).bind fun edited later => ?_
    have single := Option.length_toList_le (o := result.2)
    change LeveledAll capacity depth (pieces result ++ edited.2) ∧
      _ ≤ (result.1 :: (result.2.toList ++ edited.2)).length ∧
        (result.1 :: (result.2.toList ++ edited.2)).length ≤ _
    refine ⟨leveledAll_append.mpr ⟨kept.leveled, later.1⟩, ?_, ?_⟩ <;>
      simp only [List.length_cons, List.length_append] <;> omega

end

theorem setStateRange_encodable {blockCapacity capacity : Nat}
    (encodable : ∀ extent ∈ node.extents, extent.Encodable)
    (fits : ∀ extent ∈ node.extents, ¬ extent.Overlong start stop state) :
    (node.setStateRange (E := E) start stop state blockCapacity capacity).All fun result =>
      ∀ extent ∈ childExtents (pieces result), extent.Encodable := by
  have leaves (extents : List Extent) :
      (setStateExtents (E := E) start stop state extents).All fun output =>
        (∀ extent ∈ extents, extent.Encodable ∧ ¬ extent.Overlong start stop state) →
          ∀ extent ∈ mergeLeaf output, extent.Encodable := by
    by_cases all : ∀ extent ∈ extents, extent.Encodable ∧ ¬ extent.Overlong start stop state
    · exact (setStateExtents_encodable (fun extent member => (all extent member).1)
        fun extent member => (all extent member).2).mono
        fun output kept _ => encodable_mergeLeaf kept
    · exact (all_true _).mono fun _ _ given => absurd given all
  refine (setStateRange_records (fun before after =>
      (∀ extent ∈ before, extent.Encodable ∧ ¬ extent.Overlong start stop state) →
        ∀ extent ∈ after, extent.Encodable)
    (fun _ _ member => by cases member) (fun front back all => ?_) leaves
    blockCapacity node capacity).mono fun result kept => ?_
  · rw [List.forall_mem_append] at all ⊢
    exact ⟨front all.1, back all.2⟩
  · exact kept fun extent member => ⟨encodable extent member, fits extent member⟩

theorem setStateRange_overlong {blockCapacity capacity : Nat} (member : extent ∈ node.extents)
    (overlong : extent.Overlong start stop state) :
    (node.setStateRange (E := E) start stop state blockCapacity capacity).All fun result =>
      { extent with state } ∈ childExtents (pieces result) := by
  have leaves (extents : List Extent) :
      (setStateExtents (E := E) start stop state extents).All fun output =>
        ∀ extent ∈ extents, extent.Overlong start stop state →
          { extent with state } ∈ mergeLeaf output := by
    refine setStateExtents_overlong.mono fun output kept other member long => ?_
    refine mem_mergeLeaf_of_long ?_ (kept other member long)
    obtain ⟨rfl, -, full, -, -⟩ := long
    change unwrittenMaxLen < other.length
    rw [full]
    decide
  refine (setStateRange_records (fun before after =>
      ∀ extent ∈ before, extent.Overlong start stop state → { extent with state } ∈ after)
    (fun _ member => by cases member) (fun front back other member long => ?_)
    leaves blockCapacity node capacity).mono fun result kept => ?_
  · rcases List.mem_append.mp member with here | there
    · exact List.mem_append_left _ (front other here long)
    · exact List.mem_append_right _ (back other there long)
  · exact kept extent member overlong

end ExtentNode

/-! ## Edits of a decoded tree -/

namespace ExtentTree

open ExtentNode

variable {tree : ExtentTree}

/-- Records, order, capacities and depth are as they should be. -/
structure Regular (tree : ExtentTree) : Prop where
  encodable : ∀ extent ∈ tree.root.extents, extent.Encodable
  sorted : Sorted tree.root.extents
  root : tree.root.entryCount ≤ rootCapacity
  nodes : ∃ depth, tree.root.Leveled tree.blockCapacity depth

/-- A decoded tree is regular. -/
theorem load_regular (root : Bytes) (blockSize blocksCount : Nat) (identity : ExtentIdentity)
    (readBlock : Nat → Query (Error E) Bytes) :
    (load root blockSize blocksCount identity readBlock).All fun tree =>
      tree.Regular ∧ tree.Sound := by
  refine (load_loaded root blockSize blocksCount identity readBlock).mono fun tree loaded => ?_
  refine ⟨⟨?_, loaded.sound.sorted, loaded.root, tree.root.depth, ?_⟩, loaded.sound⟩
  · exact fun extent member => (loaded.extents extent member).1
  · exact leveled_of_stored _ _ loaded.stored

/-- A root that was not split takes its place, one level up if too large. -/
theorem withRoot_shape {result : ExtentNode × Option ExtentNode} {depth : Nat}
    (leveled : LeveledAll tree.blockCapacity depth (pieces result)) :
    (tree.withRoot (E := E) result.1 result.2).All fun after =>
      after.root.extents = childExtents (pieces result) ∧
        after.root.entryCount ≤ rootCapacity ∧
        ∃ depth, after.root.Leveled after.blockCapacity depth := by
  refine withRoot_all fun single => ?_
  rw [single] at leveled ⊢
  simp only [LeveledAll, and_true] at leveled
  refine ⟨?_, ?_⟩
  · change (promoteRoot result.1).extents = _
    rw [extents_promoteRoot]
    simp
  · change (promoteRoot result.1).entryCount ≤ _ ∧ ∃ depth, (promoteRoot result.1).Leveled _ depth
    unfold promoteRoot
    split_ifs with large
    · refine ⟨(by decide : 1 ≤ 4), depth + 1, ?_⟩
      simp only [Leveled, LeveledAll, entryCount_setLocation, leveled_setLocation, and_true]
      exact leveled
    · exact ⟨not_lt.mp large, depth, leveled.2⟩

theorem insert_whole (regular : tree.Regular)
    (capacity : 84 ≤ tree.blockCapacity) (extent : Extent) :
    (tree.root.insert (E := E) extent tree.blockCapacity
        tree.blockCapacity).All fun result => result.2 = none := by
  obtain ⟨depth, leveled⟩ := regular.nodes
  have small : tree.root.entryCount ≤ 4 := regular.root
  refine (insert_shaped tree.root depth leveled (by omega) (by omega)).mono fun result shaped => ?_
  exact (shaped.whole (by omega)).1

theorem insert_regular (regular : tree.Regular) (sound : tree.Sound) (own : extent.Encodable) :
    (tree.insert (E := E) extent).All Regular := by
  obtain ⟨depth, leveled⟩ := regular.nodes
  have small := regular.root
  have room := sound.room
  have shape :
      (tree.insert (E := E) extent).All fun after =>
        (∀ extent ∈ after.root.extents, extent.Encodable) ∧
          after.root.entryCount ≤ rootCapacity ∧
          ∃ depth, after.root.Leveled after.blockCapacity depth := by
    refine all_bind_of_forall fun _ => ?_
    refine all_refuseIf_bind fun _ => ?_
    refine (insert_inserted extent tree.blockCapacity tree.root
      tree.blockCapacity).bind fun result found => ?_
    obtain ⟨after, inserted, split⟩ := found
    obtain ⟨kept, some, most⟩ := inserted.leveled leveled
    have shape : LeveledAll tree.blockCapacity depth (pieces result) := by
      rw [split]
      exact leveledAll_splitOver kept some (by omega)
    refine (withRoot_shape shape).mono fun edited same => ?_
    rw [same.1, split, childExtents_splitOver]
    exact ⟨inserted.encodable own regular.encodable, same.2⟩
  exact ((sound.insert extent).and shape).mono fun after kept =>
    ⟨kept.2.1, kept.1.sorted, kept.2.2.1, kept.2.2.2⟩

/-- With another state in the range the root is not empty. -/
theorem entryCount_pos_of_different
    (different : hasDifferentState start stop state node.extents = true) :
    0 < node.entryCount := by
  rw [Nat.pos_iff_ne_zero, Ne, ← ExtentNode.isEmpty_iff]
  intro empty
  rw [extents_of_isEmpty empty] at different
  simp [hasDifferentState] at different

theorem setState_whole (regular : tree.Regular) (capacity : 84 ≤ tree.blockCapacity)
    (range : start < stop)
    (different : hasDifferentState start stop state tree.root.extents = true) :
    (tree.root.setStateRange (E := E) start stop state tree.blockCapacity
        tree.blockCapacity).All fun result => result.2 = none := by
  obtain ⟨depth, leveled⟩ := regular.nodes
  have small : tree.root.entryCount ≤ 4 := regular.root
  refine (setStateRange_shaped range state (by omega) tree.root depth
    leveled (entryCount_pos_of_different different) (by omega)
    regular.sorted).mono fun result shaped => ?_
  exact (shaped.whole (by omega)).1

theorem different_of_overlong (member : extent ∈ extents)
    (overlong : extent.Overlong start stop state) :
    hasDifferentState start stop state extents = true := by
  obtain ⟨rfl, written, full, begins, ends⟩ := overlong
  refine List.any_eq_true.mpr ⟨extent, member, ?_⟩
  rw [written]
  simp only [Extent.overlaps, Extent.logicalEnd, full, writtenMaxLen] at ends ⊢
  simp only [Bool.and_eq_true, decide_eq_true_eq]
  exact ⟨rfl, by omega, by omega⟩

theorem setState_eq (range : start < stop) (different :
      hasDifferentState start stop state tree.root.extents = true) :
    tree.setState (E := E) start stop state =
      (tree.root.setStateRange start stop state tree.blockCapacity
        tree.blockCapacity).bind fun result =>
          tree.withRoot result.1 result.2 := by
  unfold setState
  rw [if_neg]
  · rfl
  · rw [not_or, not_le, Bool.not_eq_false]
    exact ⟨range, different⟩

theorem setState_regular_iff (regular : tree.Regular) (sound : tree.Sound)
    (start stop : Nat) (state : ExtentState) :
    (tree.setState (E := E) start stop state).All fun after =>
      after.Regular ↔
        ¬ (start < stop ∧ ∃ extent ∈ tree.root.extents, extent.Overlong start stop state) := by
  obtain ⟨depth, leveled⟩ := regular.nodes
  have small : tree.root.entryCount ≤ 4 := regular.root
  have room : 4 < tree.blockCapacity := sound.room
  by_cases active : start < stop ∧ hasDifferentState start stop state tree.root.extents = true
  · have edited := sound.setState (E := E) start stop state
    rw [setState_eq active.1 active.2] at edited ⊢
    have shaped :=
      setStateRange_shaped (E := E) active.1 state (by omega) tree.root
        depth leveled (entryCount_pos_of_different active.2) (by omega)
        regular.sorted
    by_cases overlong : ∃ extent ∈ tree.root.extents, extent.Overlong start stop state
    · obtain ⟨extent, member, long⟩ := overlong
      refine (shaped.and (setStateRange_overlong member long)).bind fun result kept => ?_
      refine (withRoot_shape kept.1.leveled).mono fun after same => ?_
      refine iff_of_false (fun regular => ?_) (not_not.mpr ⟨active.1, extent, member, long⟩)
      rw [← same.1] at kept
      have short := (regular.encodable _ kept.2).short
      obtain ⟨rfl, -, full, -, -⟩ := long
      simp only [full] at short
      exact absurd short (by decide)
    · have shape :
          ((tree.root.setStateRange (E := E) start stop state
            tree.blockCapacity tree.blockCapacity).bind fun result =>
              tree.withRoot result.1 result.2).All fun after =>
            (∀ extent ∈ after.root.extents, extent.Encodable) ∧
              after.root.entryCount ≤ rootCapacity ∧
              ∃ depth, after.root.Leveled after.blockCapacity depth := by
        refine (shaped.and (setStateRange_encodable regular.encodable fun extent member long =>
            overlong ⟨extent, member, long⟩)).bind fun result kept => ?_
        refine (withRoot_shape kept.1.leveled).mono fun after same => ?_
        rw [same.1]
        exact ⟨kept.2, same.2⟩
      refine (edited.and shape).mono fun after kept => iff_of_true ?_ ?_
      · exact ⟨kept.2.1, kept.1.sorted, kept.2.2.1, kept.2.2.2⟩
      · exact fun both => overlong both.2
  · have idle : start ≥ stop ∨ hasDifferentState start stop state tree.root.extents = false := by
      rw [← Bool.not_eq_true, ge_iff_le, ← not_lt, ← not_and_or]
      exact active
    unfold setState
    rw [if_pos idle]
    refine iff_of_true regular ?_
    rintro ⟨range, extent, member, long⟩
    exact active ⟨range, different_of_overlong member long⟩

/--
Insertion into a decoded tree keeps it regular, and so does a change of
state unless it makes a record too long for its state; the root never needs
a sibling.
-/
theorem extent_edits_regular (root : Bytes) (blockSize blocksCount : Nat)
    (identity : ExtentIdentity)
    (readBlock : Nat → Query (Error E) Bytes) :
    (load root blockSize blocksCount identity readBlock).All fun tree =>
      84 ≤ tree.blockCapacity →
        (∀ extent : Extent, extent.Encodable →
          (tree.root.insert (E := E) extent tree.blockCapacity
              tree.blockCapacity).All (fun result => result.2 = none) ∧
            (tree.insert (E := E) extent).All Regular) ∧
        ∀ start stop state, (start < stop →
            hasDifferentState start stop state tree.root.extents = true →
            (tree.root.setStateRange (E := E) start stop state
              tree.blockCapacity tree.blockCapacity).All fun result => result.2 = none) ∧
          (tree.setState (E := E) start stop state).All fun after =>
            after.Regular ↔
              ¬ (start < stop ∧
                ∃ extent ∈ tree.root.extents, extent.Overlong start stop state) := by
  refine (load_regular root blockSize blocksCount identity
    readBlock).mono fun tree loaded capacity => ?_
  obtain ⟨regular, sound⟩ := loaded
  refine ⟨fun extent own => ⟨?_, ?_⟩, fun start stop state => ⟨?_, ?_⟩⟩
  · exact insert_whole regular capacity extent
  · exact insert_regular regular sound own
  · exact fun range different => setState_whole regular capacity range different
  · exact setState_regular_iff regular sound start stop state

/-! ## A full record that becomes unwritten -/

/-- A root of one written record of 32768 blocks. -/
def fullRecordRoot : Bytes :=
  [0x0A, 0xF3, 1, 0, 4, 0, 0, 0, 0, 0, 0, 0,
    0, 0, 0, 0, 0, 128, 0, 0, 100, 0, 0, 0] ++ List.replicate 36 0

/-- The records of a tree after a change of state. -/
def extentsAfter (root : Bytes) (start stop : Nat) (state : ExtentState) :
    Query (Error Unit) (List Extent) :=
  (load root 4096 65536 plainIdentity fun _ => .fail .outOfMemory).bind
    fun tree => (tree.setState start stop state).bind fun after => .done after.root.extents

/-- Half of the record can change its state. -/
theorem half_record_regular :
    ((extentsAfter fullRecordRoot 0 16384 .unwritten).eval fun _ _ => .error .outOfMemory) =
      .ok [{ logical := 0, physical := 100, length := 16384, state := .unwritten },
          { logical := 16384, physical := 16484, length := 16384, state := .written }] ∧
      (load (E := Unit) fullRecordRoot 4096 65536 plainIdentity
          fun _ => .fail .outOfMemory).All fun tree =>
        84 ≤ tree.blockCapacity →
          (tree.setState (E := Unit) 0 16384 .unwritten).All fun after =>
            after.Regular ↔
              ¬ (0 < 16384 ∧ ∃ extent ∈ tree.root.extents, extent.Overlong 0 16384 .unwritten) :=
  ⟨by decide +kernel, (extent_edits_regular fullRecordRoot 4096 65536 plainIdentity
      fun _ => .fail .outOfMemory).mono
        fun _ edits capacity => ((edits capacity).2 0 16384 .unwritten).2⟩

/-- The whole record becomes an unwritten one of 32768 blocks. -/
theorem full_record_overlong :
    ¬ (load (E := Unit) fullRecordRoot 4096 65536 plainIdentity
        fun _ => .fail .outOfMemory).All fun tree =>
      84 ≤ tree.blockCapacity → ∀ start stop state,
        (tree.setState (E := Unit) start stop state).All Regular := by
  intro always
  have wide :
      (load (E := Unit) fullRecordRoot 4096 65536 plainIdentity
        fun _ => .fail .outOfMemory).All fun tree => tree.blockCapacity = 340 :=
    (load_loaded _ _ _ _ _).mono fun _ loaded => loaded.capacity
  have encodable :
      (extentsAfter fullRecordRoot 0 40000 .unwritten).All fun extents =>
        ∀ extent ∈ extents, extent.Encodable :=
    (always.and wide).bind fun tree loaded =>
      (loaded.1 (by rw [loaded.2]; decide) 0 40000 .unwritten).bind
        fun after regular => regular.encodable
  have full : Answers.Full fun _ _ => (.error .outOfMemory : Except (Error Unit) Bytes) := by
    intro _ _ _ answered
    cases answered
  have overlong :
      ((extentsAfter fullRecordRoot 0 40000 .unwritten).eval fun _ _ => .error .outOfMemory) =
        .ok
          [{ logical := 0, physical := 100, length := 32768
             state := .unwritten }] := by
    decide +kernel
  have short := (encodable.eval full overlong _ (List.mem_singleton.mpr rfl)).short
  exact absurd short (by decide)

end ExtentTree

end RetroOS.Ext
