import RetroOS.Ext.ExtentTree
import RetroOS.Lib.Insertion

/-!
# What an extent tree maps

A tree means a set of mappings: a logical block, the physical block that
holds it, and whether its contents were ever written.  Every edit is
described by what it does to this set and to the blocks the nodes of the
tree are stored in; the shape of the tree does not matter to its users.

Merging neighbours, splitting a node, promoting and collapsing the root are
invisible here.  Insertion adds the mappings of one record, removal takes
out a logical range, and a change of state touches the state only.
-/

namespace RetroOS.Ext

open Lib Lib.Bytes
open Query hiding bind done eval fail read

variable {E : Type}

/-! ## Mappings -/

/-- One logical block and where it is stored. -/
structure Mapping where
  logical : Nat
  physical : Nat
  state : ExtentState

/-- The mapping is one of the extent's. -/
def Extent.Maps (extent : Extent) (mapping : Mapping) : Prop :=
  extent.logical ≤ mapping.logical ∧
    mapping.logical < extent.logicalEnd ∧
    mapping.physical = extent.physical + (mapping.logical - extent.logical) ∧
    mapping.state = extent.state

/-- The logical block lies in a range. -/
def Mapping.Within (start stop : Nat) (mapping : Mapping) : Prop :=
  start ≤ mapping.logical ∧ mapping.logical < stop

/-- Some extent of the list has the mapping. -/
def Mapped (extents : List Extent) (mapping : Mapping) : Prop :=
  ∃ extent ∈ extents, extent.Maps mapping

@[simp]
theorem mapped_nil (mapping : Mapping) : ¬ Mapped [] mapping := by
  simp [Mapped]

@[simp]
theorem mapped_cons (extent : Extent) (rest : List Extent) (mapping : Mapping) :
    Mapped (extent :: rest) mapping ↔ extent.Maps mapping ∨ Mapped rest mapping := by
  simp [Mapped]

@[simp]
theorem mapped_append (first second : List Extent) (mapping : Mapping) :
    Mapped (first ++ second) mapping ↔ Mapped first mapping ∨ Mapped second mapping := by
  simp [Mapped, or_and_right, exists_or]

/-! ## Merging -/

theorem maps_merged {left right : Extent} (mapping : Mapping)
    (mergeable : left.canMerge right = true) :
    ({ left with length := left.length + right.length } : Extent).Maps mapping ↔
      left.Maps mapping ∨ right.Maps mapping := by
  simp only [Extent.canMerge, Extent.logicalEnd, Bool.and_eq_true,
    beq_iff_eq, decide_eq_true_eq] at mergeable
  obtain ⟨⟨⟨state, logical⟩, physical⟩, -⟩ := mergeable
  simp only [Extent.Maps, Extent.logicalEnd, ← state]
  by_cases same : mapping.state = left.state
  · simp only [same, and_true]
    omega
  · simp [same]

theorem mapped_mergeFrom (current : Extent) (rest : List Extent) (mapping : Mapping) :
    Mapped (mergeFrom current rest) mapping ↔ current.Maps mapping ∨ Mapped rest mapping := by
  induction rest generalizing current with
  | nil => simp [mergeFrom]
  | cons right rest induction =>
    unfold mergeFrom
    split
    · rename_i mergeable
      rw [induction, maps_merged mapping mergeable, mapped_cons, or_assoc]
    · rw [mapped_cons, induction, mapped_cons]

@[simp]
theorem mapped_mergeLeaf (extents : List Extent) (mapping : Mapping) :
    Mapped (mergeLeaf extents) mapping ↔ Mapped extents mapping := by
  cases extents with
  | nil => rfl
  | cons first rest => rw [mergeLeaf, mapped_mergeFrom, mapped_cons]

theorem insertExtent_perm (extent : Extent) (extents : List Extent) :
    (insertExtent extent extents).Perm (extent :: extents) :=
  insertion_perm

theorem mapped_insertExtent (extent : Extent) (extents : List Extent) (mapping : Mapping) :
    Mapped (insertExtent extent extents) mapping ↔
      extent.Maps mapping ∨ Mapped extents mapping := by
  rw [← mapped_cons]
  simp only [Mapped, (insertExtent_perm extent extents).mem_iff]

/-! ## Cutting an extent -/

variable {start stop : Nat}

/-- The record for a part of an extent maps that part. -/
theorem Extent.part_mapped (extent : Extent)
    (state : ExtentState) (after : extent.logical ≤ start) :
    (extent.part (E := E) start stop state).All fun pieces =>
      ∀ mapping : Mapping, Mapped pieces mapping ↔
        mapping.Within start stop ∧
          mapping.physical = extent.physical + (mapping.logical - extent.logical) ∧
          mapping.state = state := by
  refine all_ite (fun _ => ?_) (fun empty => ?_)
  · refine all_orFail_bind fun logical logicalEq => ?_
    refine all_orFail_bind fun length lengthEq => ?_
    rw [checked_eq_some] at logicalEq lengthEq
    intro mapping
    simp only [mapped_cons, mapped_nil, or_false, Extent.Maps, Extent.logicalEnd, Mapping.Within]
    constructor
    · rintro ⟨low, high, place, same⟩
      exact ⟨by omega, by omega, same⟩
    · rintro ⟨⟨low, high⟩, place, same⟩
      exact ⟨by omega, by omega, by omega, same⟩
  · intro mapping
    simp only [mapped_nil, Mapping.Within, false_iff]
    omega

/-! ## Changing the state of a range -/

/-- The mapping stands after a range of `before` was given a state. -/
def Mapping.Restated (start stop : Nat) (state : ExtentState)
    (before : Mapping → Prop) (mapping : Mapping) : Prop :=
  mapping.Within start stop ∧ mapping.state = state ∧
      (∃ old, before { mapping with state := old }) ∨
    ¬ mapping.Within start stop ∧ before mapping

variable {state : ExtentState}

theorem Mapping.restated_or {first second : Mapping → Prop} {mapping : Mapping} :
    mapping.Restated start stop state (fun mapping => first mapping ∨ second mapping) ↔
      mapping.Restated start stop state first ∨ mapping.Restated start stop state second := by
  simp only [Mapping.Restated, exists_or]
  tauto

theorem setStateExtent_mapped (start stop : Nat) (state : ExtentState) (extent : Extent) :
    (setStateExtent (E := E) start stop state extent).All fun pieces =>
      ∀ mapping : Mapping, Mapped pieces mapping ↔
        mapping.Restated start stop state extent.Maps := by
  refine all_ite (fun untouched => ?_) (fun touched => ?_)
  · intro mapping
    simp only [mapped_cons, mapped_nil, or_false, Mapping.Restated, Extent.Maps]
    cases untouched with
    | inl same =>
      constructor
      · rintro ⟨low, high, place, stated⟩
        by_cases within : mapping.Within start stop
        · exact .inl ⟨within, stated.trans same, extent.state, low, high, place, rfl⟩
        · exact .inr ⟨within, low, high, place, stated⟩
      · rintro (⟨-, stated, old, low, high, place, -⟩ | ⟨-, whole⟩)
        · exact ⟨low, high, place, stated.trans same.symm⟩
        · exact whole
    | inr apart =>
      simp only [Extent.overlaps, Bool.and_eq_false_iff, decide_eq_false_iff_not] at apart
      simp only [Mapping.Within]
      constructor
      · rintro ⟨low, high, place, stated⟩
        exact .inr ⟨by omega, low, high, place, stated⟩
      · rintro (⟨within, -, old, low, high, -⟩ | ⟨-, whole⟩)
        · omega
        · exact whole
  · simp only [not_or, Bool.not_eq_false, Extent.overlaps,
      Bool.and_eq_true, decide_eq_true_eq] at touched
    have starts : extent.logical ≤ max start extent.logical := by omega
    have ends : extent.logical ≤ min stop extent.logicalEnd := by
      unfold Extent.logicalEnd at *
      omega
    refine (extent.part_mapped extent.state le_rfl).bind fun before beforeMaps => ?_
    refine (extent.part_mapped state starts).bind fun middle middleMaps => ?_
    refine (extent.part_mapped extent.state ends).bind fun after afterMaps => ?_
    intro mapping
    simp only [mapped_append, beforeMaps, middleMaps, afterMaps,
      Mapping.Restated, Mapping.Within, Extent.Maps]
    constructor
    · rintro ((⟨within, place, stated⟩ | ⟨within, place, stated⟩) | ⟨within, place, stated⟩)
      · exact .inr ⟨by omega, by omega, by omega, place, stated⟩
      · exact .inl ⟨by omega, stated, extent.state, by omega, by omega, place, rfl⟩
      · exact .inr ⟨by omega, by omega, by omega, place, stated⟩
    · rintro (⟨within, stated, old, low, high, place, -⟩ | ⟨outside, low, high, place, stated⟩)
      · exact .inl (.inr ⟨by omega, place, stated⟩)
      · by_cases early : mapping.logical < start
        · exact .inl (.inl ⟨by omega, place, stated⟩)
        · exact .inr ⟨by omega, place, stated⟩

theorem setStateExtents_mapped (start stop : Nat) (state : ExtentState) (extents : List Extent) :
    (setStateExtents (E := E) start stop state extents).All fun output =>
      ∀ mapping : Mapping, Mapped output mapping ↔
        mapping.Restated start stop state (Mapped extents) := by
  induction extents with
  | nil =>
    intro mapping
    simp [Mapping.Restated]
  | cons extent rest induction =>
    refine (setStateExtent_mapped start stop state extent).bind fun pieces piecesMap => ?_
    refine induction.bind fun rest restMap => ?_
    intro mapping
    rw [mapped_append, piecesMap, restMap, ← Mapping.restated_or]
    simp only [Mapping.Restated, mapped_cons]

/-! ## Removing a range -/

/--
A cut took the mappings of a range out of the records `before`, and added
them to those cut out earlier.
-/
structure Cuts (start stop : Nat) (before after earlier later : List Extent) : Prop where
  kept : ∀ mapping, Mapped after mapping ↔ Mapped before mapping ∧ ¬ mapping.Within start stop
  removed :
    ∀ mapping, Mapped later mapping ↔
      Mapped earlier mapping ∨ Mapped before mapping ∧ mapping.Within start stop

theorem Cuts.append {before after others rest earlier middle later : List Extent}
    (first : Cuts start stop before after earlier middle)
    (second : Cuts start stop others rest middle later) :
    Cuts start stop (before ++ others) (after ++ rest) earlier later where
  kept mapping := by
    simp only [mapped_append, first.kept, second.kept]
    exact or_and_right.symm
  removed mapping := by
    rw [second.removed, first.removed]
    simp only [mapped_append, or_and_right, or_assoc]

theorem removeExtents_cuts (start stop : Nat) (extents removed : List Extent) :
    (removeExtents (E := E) start stop extents removed).All fun result =>
      Cuts start stop extents result.1 removed result.2 := by
  induction extents generalizing removed with
  | nil => exact ⟨by simp, by simp⟩
  | cons extent rest induction =>
    rw [← List.singleton_append]
    refine all_ite (fun touched => ?_) (fun apart => ?_)
    · simp only [Extent.overlaps, Bool.and_eq_true, decide_eq_true_eq] at touched
      rw [Query.bind_eq, Query.bind, all_reserve]
      refine (extent.part_mapped extent.state (by omega)).bind fun cut cutMaps => ?_
      refine (extent.part_mapped extent.state le_rfl).bind fun before beforeMaps => ?_
      refine (extent.part_mapped extent.state (by omega)).bind fun after afterMaps => ?_
      refine (induction (removed ++ cut)).bind fun result cuts => ?_
      refine Cuts.append ⟨fun mapping => ?_, fun mapping => ?_⟩ cuts
      all_goals
        simp only [mapped_append, mapped_cons, mapped_nil, cutMaps, beforeMaps,
          afterMaps, Extent.Maps, Mapping.Within, or_false]
      · by_cases stated : mapping.state = extent.state
        · simp only [stated, and_true]
          omega
        · simp [stated]
      · refine or_congr Iff.rfl ?_
        by_cases stated : mapping.state = extent.state
        · simp only [stated, and_true]
          omega
        · simp [stated]
    · simp only [Extent.overlaps, Bool.and_eq_true, decide_eq_true_eq] at apart
      refine (induction removed).bind fun result cuts => ?_
      have outside (mapping : Mapping) (own : Mapped [extent] mapping) :
          ¬ mapping.Within start stop := by
        simp only [mapped_cons, mapped_nil, or_false, Extent.Maps, Mapping.Within] at own ⊢
        omega
      have apart : Cuts start stop [extent] [extent] removed removed :=
        ⟨fun mapping => ⟨fun own => ⟨own, outside mapping own⟩, And.left⟩, fun mapping =>
          ⟨Or.inl, fun either => either.resolve_right fun own => outside mapping own.1 own.2⟩⟩
      exact apart.append cuts

theorem removeFromLeaf_cuts (start stop : Nat) (extents removed : List Extent) :
    (removeFromLeaf (E := E) start stop extents removed).All fun result =>
      Cuts start stop extents result.2.1 removed result.2.2 := by
  refine (removeExtents_cuts start stop extents removed).bind fun result cuts => ?_
  exact ⟨fun mapping => by rw [mapped_mergeLeaf, cuts.kept], cuts.removed⟩

/-! ## Nodes -/

/-- The block a location names, if any. -/
def NodeLocation.blocks : NodeLocation → List Nat
  | .block number => [number]
  | _ => []

variable {logical physical : Nat}

namespace ExtentNode

theorem blocks_leaf (location : NodeLocation) (dirty : Bool) (extents : List Extent) :
    (leaf location dirty extents).blocks = location.blocks := by
  cases location <;> simp only [blocks, NodeLocation.blocks]

theorem blocks_branch (location : NodeLocation) (dirty : Bool) (children : List ExtentNode) :
    (branch location dirty children).blocks = location.blocks ++ childBlocks children := by
  cases location <;>
    simp only [blocks, NodeLocation.blocks, List.nil_append, List.singleton_append]

@[simp]
theorem childExtents_nil : childExtents [] = [] := by
  simp only [childExtents]

@[simp]
theorem childExtents_cons (child : ExtentNode) (rest : List ExtentNode) :
    childExtents (child :: rest) = child.extents ++ childExtents rest := by
  simp only [childExtents]

@[simp]
theorem childExtents_append (first second : List ExtentNode) :
    childExtents (first ++ second) = childExtents first ++ childExtents second := by
  induction first with
  | nil => simp
  | cons child rest induction => simp [induction]

@[simp]
theorem childBlocks_nil : childBlocks [] = [] := by
  simp only [childBlocks]

@[simp]
theorem childBlocks_cons (child : ExtentNode) (rest : List ExtentNode) :
    childBlocks (child :: rest) = child.blocks ++ childBlocks rest := by
  simp only [childBlocks]

/-- A node and the sibling that a split may have made. -/
def pieces (result : ExtentNode × Option ExtentNode) : List ExtentNode :=
  result.1 :: result.2.toList

@[simp]
theorem childExtents_splitOver (capacity : Nat) (node : ExtentNode) :
    childExtents (pieces (splitOver capacity node)) = node.extents := by
  unfold splitOver pieces
  split
  · simp
  · cases node with
    | leaf location dirty extents => simp [ExtentNode.extents]
    | branch location dirty children =>
      simp only [ExtentNode.extents, Option.toList_some,
        childExtents_cons, childExtents_nil, List.append_nil]
      rw [← childExtents_append, List.take_append_drop]

/-! ### Insertion -/

/--
What an insertion makes of a node before a split: the record goes into the
leaf, or into the last child that starts at or before it.
-/
inductive Inserted (extent : Extent) (blockCapacity : Nat) : ExtentNode → ExtentNode → Prop
  | leaf (location : NodeLocation) (dirty : Bool) (extents : List Extent) :
    Inserted extent blockCapacity (.leaf location dirty extents)
      (.leaf location true (mergeLeaf (insertExtent extent extents)))
  | branch (location : NodeLocation) (dirty : Bool) {before behind : List ExtentNode}
      {child after : ExtentNode}
      (starts : before ≠ [] → child.startsBy extent.logical = true)
      (last : ¬ behind.head?.any (startsBy extent.logical) = true)
      (inside : Inserted extent blockCapacity child after) :
    Inserted extent blockCapacity (.branch location dirty (before ++ child :: behind))
      (.branch location true (before ++ (pieces (splitOver blockCapacity after) ++ behind)))

mutual

theorem insert_inserted (extent : Extent) (blockCapacity : Nat) :
    (node : ExtentNode) → (capacity : Nat) →
      (node.insert (E := E) extent blockCapacity capacity).All fun result =>
        ∃ after, Inserted extent blockCapacity node after ∧ result = splitOver capacity after
  | .leaf location dirty extents, capacity => by
    rw [insert]
    exact ⟨_, .leaf location dirty extents, rfl⟩
  | .branch location dirty children, capacity => by
    rw [insert]
    refine (insertChild_inserted extent blockCapacity children).bind fun edited found => ?_
    obtain ⟨before, child, behind, after, rfl, rfl, starts, last, inside⟩ := found
    exact ⟨_, .branch location dirty starts last inside, rfl⟩

theorem insertChild_inserted (extent : Extent) (blockCapacity : Nat) :
    (children : List ExtentNode) →
      (insertChild (E := E) extent blockCapacity children).All fun edited =>
        ∃ before child behind after, children = before ++ child :: behind ∧
          edited = before ++ (pieces (splitOver blockCapacity after) ++ behind) ∧
          (before ≠ [] → child.startsBy extent.logical = true) ∧
          (¬ behind.head?.any (startsBy extent.logical) = true) ∧
          Inserted extent blockCapacity child after
  | [] => by
    rw [insertChild]
    trivial
  | child :: rest => by
    rw [insertChild]
    refine all_ite (fun further => ?_) (fun here => ?_)
    · refine (insertChild_inserted extent blockCapacity rest).bind fun edited found => ?_
      obtain ⟨before, next, behind, after, rfl, rfl, starts, last, inside⟩ := found
      refine ⟨child :: before, next, behind, after, rfl, rfl, fun _ => ?_, last, inside⟩
      cases before with
      | nil => simpa using further
      | cons second others => exact starts (List.cons_ne_nil _ _)
    · refine (insert_inserted extent blockCapacity child blockCapacity).bind fun result found => ?_
      obtain ⟨after, inside, rfl⟩ := found
      refine all_bind_of_forall fun _ => ?_
      exact ⟨[], child, rest, after, rfl, rfl, fun some => absurd rfl some, here, inside⟩

end

theorem Inserted.mapped {extent : Extent} {blockCapacity : Nat} {node after : ExtentNode}
    (inserted : Inserted extent blockCapacity node after) (mapping : Mapping) :
    Mapped after.extents mapping ↔ extent.Maps mapping ∨ Mapped node.extents mapping := by
  induction inserted with
  | leaf location dirty extents =>
    simp only [ExtentNode.extents, mapped_mergeLeaf, mapped_insertExtent]
  | branch location dirty starts last inside induction =>
    simp only [ExtentNode.extents, childExtents_append, childExtents_cons,
      childExtents_splitOver, mapped_append, induction, or_assoc]
    exact or_left_comm

/-! ### Changes of state -/

section Records

variable {start stop : Nat} {state : ExtentState} (relation : List Extent → List Extent → Prop)
    (none : relation [] [])
    (joined :
      ∀ {first second before after}, relation first second → relation before after →
        relation (first ++ before) (second ++ after))
    (leaves :
      ∀ extents, (setStateExtents (E := E) start stop state extents).All
          fun output => relation extents (mergeLeaf output))
    (blockCapacity : Nat)

include none joined leaves

set_option linter.unusedSectionVars false

mutual

/--
What holds between the records of a leaf before and after, and of records put
together, holds between the records of whole nodes.
-/
theorem setStateRange_records :
    (node : ExtentNode) → (capacity : Nat) →
      (node.setStateRange (E := E) start stop state blockCapacity capacity).All fun result =>
        relation node.extents (childExtents (pieces result))
  | .leaf location dirty extents, capacity => by
    rw [setStateRange, ExtentNode.extents]
    refine (leaves extents).bind fun output kept => ?_
    change relation _ (childExtents (pieces (splitOver _ _)))
    rw [childExtents_splitOver, ExtentNode.extents]
    exact kept
  | .branch location dirty children, capacity => by
    rw [setStateRange, ExtentNode.extents]
    refine (setStateChildren_records children).bind fun edited kept => ?_
    change relation _ (childExtents (pieces (splitOver _ _)))
    rw [childExtents_splitOver, ExtentNode.extents]
    exact kept

theorem setStateChildren_records :
    (children : List ExtentNode) →
      (setStateChildren (E := E) start stop state blockCapacity children).All fun edited =>
        relation (childExtents children) (childExtents edited.2)
  | [] => by
    rw [setStateChildren]
    simpa using none
  | child :: rest => by
    rw [setStateChildren, childExtents_cons]
    refine (setStateRange_records child blockCapacity).bind fun result kept => ?_
    refine all_bind_of_forall fun _ => ?_
    refine (setStateChildren_records rest).bind fun edited later => ?_
    change relation _ (childExtents (pieces result ++ edited.2))
    rw [childExtents_append]
    exact joined kept later

end

end Records

theorem setStateRange_mapped (start stop : Nat) (state : ExtentState)
    (blockCapacity capacity : Nat) (node : ExtentNode) :
    (node.setStateRange (E := E) start stop state blockCapacity capacity).All fun result =>
      ∀ mapping : Mapping, Mapped (childExtents (pieces result)) mapping ↔
        mapping.Restated start stop state (Mapped node.extents) := by
  refine setStateRange_records (fun before after =>
      ∀ mapping : Mapping, Mapped after mapping ↔
        mapping.Restated start stop state (Mapped before))
    ?_ ?_ ?_ blockCapacity node capacity
  · intro mapping
    simp [Mapping.Restated]
  · intro first second before after front back mapping
    rw [mapped_append, front, back, ← Mapping.restated_or]
    simp only [Mapping.Restated, mapped_append]
  · intro extents
    refine (setStateExtents_mapped start stop state extents).mono fun output maps mapping => ?_
    rw [mapped_mergeLeaf, maps]

/-! ### Removal -/

theorem extents_of_isEmpty {node : ExtentNode}
    (empty : node.isEmpty = true) : node.extents = [] := by
  cases node with
  | leaf location dirty extents => simpa [isEmpty, ExtentNode.extents] using empty
  | branch location dirty children =>
    have none : children = [] := by simpa [isEmpty] using empty
    simp [ExtentNode.extents, none]

section Removed

variable {start stop : Nat}
    (relation : (before after earlier later : List Extent) → Prop)
    (none : ∀ removed, relation [] [] removed removed)
    (joined :
      ∀ {before after others rest earlier middle later}, relation before after earlier middle →
        relation others rest middle later →
        relation (before ++ others) (after ++ rest) earlier later)
    (leaves :
      ∀ extents removed, (removeFromLeaf (E := E) start stop extents removed).All fun result =>
          relation extents result.2.1 removed result.2.2)

include none joined leaves

set_option linter.unusedSectionVars false

mutual

/--
What holds of a cut through the records of a leaf, and of one cut behind
another, holds of a cut through whole nodes.
-/
theorem removeRange_records :
    (node : ExtentNode) → (removal : Removal) →
      (node.removeRange (E := E) start stop removal).All fun result =>
        relation node.extents result.2.1.extents removal.extents result.2.2.extents
  | .leaf location dirty extents, removal => by
    rw [removeRange, ExtentNode.extents]
    refine (leaves extents removal.extents).bind fun result cut => ?_
    change relation _ (leaf _ _ _).extents _ _
    rw [ExtentNode.extents]
    exact cut
  | .branch location dirty children, removal => by
    rw [removeRange, ExtentNode.extents]
    refine (removeChildren_records children removal).bind fun result cut => ?_
    change relation _ (branch _ _ _).extents _ _
    rw [ExtentNode.extents]
    exact cut

theorem removeChildren_records :
    (children : List ExtentNode) → (removal : Removal) →
      (removeChildren (E := E) start stop children removal).All fun result =>
        relation (childExtents children) (childExtents result.2.1)
          removal.extents result.2.2.extents
  | [], removal => by
    rw [removeChildren]
    simpa using none removal.extents
  | child :: rest, removal => by
    rw [removeChildren, childExtents_cons]
    refine (removeRange_records child removal).bind fun result cut => ?_
    refine all_ite (fun empty => ?_) (fun _ => ?_)
    · refine all_bind_of_forall fun nodes => ?_
      refine (removeChildren_records rest
        { result.2.2 with nodes }).bind fun edited others => ?_
      rw [extents_of_isEmpty empty] at cut
      exact joined cut others
    · refine (removeChildren_records rest result.2.2).bind fun edited others => ?_
      change relation _ (childExtents (result.2.1 :: edited.2.1)) _ _
      rw [childExtents_cons]
      exact joined cut others

end

end Removed

theorem removeRange_cuts (start stop : Nat) (node : ExtentNode) (removal : Removal) :
    (node.removeRange (E := E) start stop removal).All fun result =>
      Cuts start stop node.extents result.2.1.extents removal.extents result.2.2.extents :=
  removeRange_records (Cuts start stop) (fun _ => ⟨by simp, by simp⟩) Cuts.append
    (removeFromLeaf_cuts start stop) node removal

/-! ## Looking up -/

theorem lookupExtents_mapped {extents : List Extent}
    (found : lookupExtents logical extents = some (physical, state)) :
    Mapped extents { logical, physical, state } := by
  obtain ⟨extent, last, found⟩ := Option.bind_eq_some_iff.mp found
  have taken := List.mem_of_getLast? last
  split at found
  · rename_i before
    cases found
    refine ⟨extent, (List.takeWhile_sublist _).subset taken, ?_⟩
    have started := List.all_eq_true.mp List.all_takeWhile extent taken
    exact ⟨of_decide_eq_true started, before, rfl, rfl⟩
  · cases found

mutual

theorem find_mapped :
    (node : ExtentNode) → node.find logical = some (physical, state) →
      Mapped node.extents { logical, physical, state }
  | .leaf location dirty extents, found => by
    rw [find] at found
    rw [ExtentNode.extents]
    exact lookupExtents_mapped found
  | .branch location dirty children, found => by
    rw [find] at found
    rw [ExtentNode.extents]
    exact (findChild_mapped children none found).resolve_left (by simp)

theorem findChild_mapped :
    (children : List ExtentNode) →
      (before : Option (Nat × ExtentState)) →
      findChild logical before children = some (physical, state) →
      before = some (physical, state) ∨ Mapped (childExtents children) { logical, physical, state }
  | [], before, found => by
    rw [findChild] at found
    exact .inl found
  | child :: rest, before, found => by
    rw [findChild] at found
    rw [childExtents_cons, mapped_append]
    split at found
    · cases findChild_mapped rest _ found with
      | inl inChild => exact .inr (.inl (find_mapped child inChild))
      | inr inRest => exact .inr (.inr inRest)
    · exact .inl found

end

end ExtentNode

namespace ExtentTree

/-- The tree has the mapping. -/
def Maps (tree : ExtentTree) (mapping : Mapping) : Prop := Mapped tree.root.extents mapping

theorem lookup_maps {tree : ExtentTree} (found : tree.lookup logical = some (physical, state)) :
    tree.Maps { logical, physical, state } :=
  ExtentNode.find_mapped tree.root found

mutual

theorem collectExtents_eq :
    (node : ExtentNode) → (out : List Extent) →
      (collectExtents (E := E) node out).All fun result => result = out ++ node.extents
  | .leaf location dirty extents, out => by
    simp [collectExtents, ExtentNode.extents]
  | .branch location dirty children, out => by
    rw [collectExtents, ExtentNode.extents]
    exact collectChildExtents_eq children out

theorem collectChildExtents_eq :
    (children : List ExtentNode) → (out : List Extent) →
      (collectChildExtents (E := E) children out).All fun result =>
        result = out ++ ExtentNode.childExtents children
  | [], out => by simp [collectChildExtents]
  | child :: rest, out => by
    rw [collectChildExtents]
    refine (collectExtents_eq child out).bind fun middle middleEq => ?_
    refine (collectChildExtents_eq rest middle).mono fun result equal => ?_
    rw [equal, middleEq]
    simp

end

theorem dataExtents_eq (tree : ExtentTree) :
    (tree.dataExtents (E := E)).All fun extents =>
      extents = tree.root.extents := by
  unfold dataExtents
  simpa using collectExtents_eq (E := E) tree.root []

/-! ## Edits of a tree -/

theorem extents_promoteRoot (root : ExtentNode) : (promoteRoot root).extents = root.extents := by
  unfold promoteRoot
  split
  · cases root <;> simp [ExtentNode.extents, ExtentNode.setLocation]
  · rfl

/-- An edited root is taken over only when it was not split. -/
theorem withRoot_all {tree : ExtentTree} {result : ExtentNode × Option ExtentNode}
    {post : ExtentTree → Prop}
    (holds :
      ExtentNode.pieces result = [result.1] → post { tree with root := promoteRoot result.1 }) :
    (tree.withRoot (E := E) result.1 result.2).All post := by
  refine all_refuseIf_bind fun alone => ?_
  refine all_refuseIf_bind fun _ => ?_
  apply holds
  cases sibling : result.2 with
  | some node => simp [sibling] at alone
  | none => simp [ExtentNode.pieces, sibling]

theorem withRoot_maps {tree : ExtentTree} {after : Mapping → Prop}
    {result : ExtentNode × Option ExtentNode}
    (mapped :
      ∀ mapping,
        Mapped (ExtentNode.childExtents (ExtentNode.pieces result)) mapping ↔ after mapping) :
    (tree.withRoot (E := E) result.1 result.2).All fun edited =>
      ∀ mapping, edited.Maps mapping ↔ after mapping := by
  refine withRoot_all fun single mapping => ?_
  rw [single] at mapped
  rw [← mapped, Maps, extents_promoteRoot]
  simp

theorem insert_maps (tree : ExtentTree) (extent : Extent) :
    (tree.insert (E := E) extent).All fun edited =>
      ∀ mapping, edited.Maps mapping ↔ extent.Maps mapping ∨ tree.Maps mapping := by
  refine all_bind_of_forall fun _ => ?_
  refine all_refuseIf_bind fun _ => ?_
  refine (ExtentNode.insert_inserted extent tree.blockCapacity tree.root
    tree.blockCapacity).bind fun result found => ?_
  obtain ⟨after, inserted, split⟩ := found
  refine withRoot_maps fun mapping => ?_
  rw [split, ExtentNode.childExtents_splitOver, inserted.mapped, Maps]

/-- A range without another state already has the state it is given. -/
theorem state_of_uniform {extents : List Extent} {mapping : Mapping}
    (uniform : hasDifferentState start stop state extents = false)
    (own : Mapped extents mapping) (within : mapping.Within start stop) :
    mapping.state = state := by
  obtain ⟨extent, member, low, high, place, stated⟩ := own
  have same := List.any_eq_false.mp uniform extent member
  unfold Mapping.Within at within
  by_contra other
  apply same
  simp only [Extent.overlaps, Bool.and_eq_true, bne_iff_ne, decide_eq_true_eq]
  exact ⟨fun equal => other (stated.trans equal), by omega, by omega⟩

/-- The mappings of the range keep their place and get the state. -/
theorem setState_maps (tree : ExtentTree) (start stop : Nat) (state : ExtentState) :
    (tree.setState (E := E) start stop state).All fun edited =>
      ∀ mapping : Mapping, edited.Maps mapping ↔
        mapping.Restated start stop state tree.Maps := by
  refine all_ite (fun untouched mapping => ?_) (fun _ => ?_)
  · have settled (other : Mapping) (own : tree.Maps other)
        (within : other.Within start stop) : other.state = state := by
      cases untouched with
      | inl empty =>
        unfold Mapping.Within at within
        omega
      | inr uniform => exact state_of_uniform uniform own within
    constructor
    · intro own
      by_cases within : mapping.Within start stop
      · exact .inl ⟨within, settled mapping own within, mapping.state, own⟩
      · exact .inr ⟨within, own⟩
    · rintro (⟨within, stated, old, own⟩ | ⟨-, own⟩)
      · have oldEq : old = state := settled _ own within
        rw [oldEq, ← stated] at own
        exact own
      · exact own
  · refine (ExtentNode.setStateRange_mapped start stop state tree.blockCapacity
      tree.blockCapacity tree.root).bind fun result mapped => ?_
    exact withRoot_maps mapped

/-- What collapsing makes of a root: a chain of only children is dropped. -/
inductive Promoted : ExtentNode → ExtentNode → Prop
  | leaf (location : NodeLocation) (dirty changed : Bool) (extents : List Extent) :
    Promoted (.leaf location dirty extents) (.leaf .root changed extents)
  | bare (location : NodeLocation) (dirty : Bool) :
    Promoted (.branch location dirty []) (.leaf .root true [])
  | only (location : NodeLocation) (dirty : Bool) {child root : ExtentNode}
      (inside : Promoted child root) : Promoted (.branch location dirty [child]) root
  | whole (location : NodeLocation) (dirty changed : Bool) (first second : ExtentNode)
      (rest : List ExtentNode) :
    Promoted (.branch location dirty (first :: second :: rest))
      (.branch .root changed (first :: second :: rest))

mutual

theorem collapseChildren_promoted (location : NodeLocation) (dirty changed : Bool) :
    (children : List ExtentNode) → (released : List Nat) →
      (collapseChildren (E := E) children changed released).All fun result =>
        Promoted (.branch location dirty children) result.1
  | [], released => by
    rw [collapseChildren]
    exact .bare location dirty
  | [child], released => by
    rw [collapseChildren]
    exact (promoteChild_promoted child released).mono fun result inside =>
      .only location dirty inside
  | first :: second :: rest, released => by
    rw [collapseChildren]
    exact .whole location dirty changed first second rest

theorem promoteChild_promoted :
    (child : ExtentNode) → (released : List Nat) →
      (promoteChild (E := E) child released).All fun result => Promoted child result.1
  | .leaf location dirty extents, released => by
    rw [promoteChild]
    refine all_bind_of_forall fun _ => ?_
    exact .leaf location dirty true extents
  | .branch location dirty children, released => by
    rw [promoteChild]
    refine all_bind_of_forall fun later => ?_
    exact collapseChildren_promoted location dirty true children later

end

theorem collapseRoot_promoted (released : List Nat) (root : ExtentNode) :
    (collapseRoot (E := E) released root).All fun result => Promoted root result.1 := by
  cases root with
  | leaf location dirty extents => exact .leaf location dirty dirty extents
  | branch location dirty children =>
    exact collapseChildren_promoted location dirty dirty children released

/-- A collapsing root keeps the records. -/
theorem Promoted.extents {node root : ExtentNode} (promoted : Promoted node root) :
    root.extents = node.extents := by
  induction promoted with
  | leaf => simp only [ExtentNode.extents]
  | bare => simp [ExtentNode.extents]
  | only location dirty inside induction => simp [induction, ExtentNode.extents]
  | whole => simp only [ExtentNode.extents]

/-- A removal takes the mappings of the range out of the tree and returns them. -/
theorem remove_cuts (tree : ExtentTree) (start stop : Nat) :
    (tree.remove (E := E) start stop).All fun result =>
      Cuts start stop tree.root.extents result.1.root.extents [] result.2 := by
  refine all_ite (fun empty => ?_) (fun _ => ?_)
  · have outside (mapping : Mapping) : ¬ mapping.Within start stop := by
      unfold Mapping.Within
      omega
    exact ⟨by simp [outside], by simp [outside]⟩
  · refine (ExtentNode.removeRange_cuts start stop tree.root _).bind fun result cuts => ?_
    refine (collapseRoot_promoted result.2.2.nodes result.2.1).bind fun collapsed promoted => ?_
    change Cuts _ _ _ collapsed.1.extents _ _
    rw [promoted.extents]
    exact cuts

end ExtentTree

end RetroOS.Ext
