import RetroOS.Ext.ExtentMapping

/-!
# Extent trees in order

A lookup descends by first keys, so it finds what the records say only when
the records below every node stand in order and no node below the root is
empty.  Both hold of every tree that decoding accepts, and every edit keeps
them: a record goes between its neighbours, a split cuts between two entries,
and a child that a removal empties is dropped.

Order is stated by the logical blocks that records cover.  What an edit does
to these blocks follows from what it does to the mappings.
-/

namespace RetroOS.Ext

open Lib

variable {E : Type}

/-! ## Records in order -/

namespace ExtentTree

/-- Records in logical order; none reaches into the next. -/
def Ordered (extents : List Extent) : Prop :=
  extents.Pairwise fun first second => first.logicalEnd ≤ second.logical

/-- No record reaches behind the last one. -/
theorem Ordered.logicalEnd_le {extents : List Extent} {extent : Extent}
    (ordered : Ordered extents) (member : extent ∈ extents) (last : Extent)
    (known : extents.getLast? = some last) :
    extent.logicalEnd ≤ last.logicalEnd := by
  obtain ⟨before, rfl⟩ := List.getLast?_eq_some_iff.mp known
  cases List.mem_append.mp member with
  | inr own =>
    cases List.mem_singleton.mp own
    exact le_rfl
  | inl earlier =>
    have apart :=
      (List.pairwise_append.mp ordered).2.2 extent earlier last (List.mem_singleton.mpr rfl)
    unfold Extent.logicalEnd at *
    omega

/-- Appending behind the last record keeps the order. -/
theorem Ordered.append {extents : List Extent} {extent : Extent} (ordered : Ordered extents)
    (behind : ∀ last, extents.getLast? = some last → last.logicalEnd ≤ extent.logical) :
    Ordered (extents ++ [extent]) := by
  refine List.pairwise_append.mpr
    ⟨ordered, List.pairwise_singleton _ _, fun entry member other own => ?_⟩
  cases List.mem_singleton.mp own
  have reach := ordered.logicalEnd_le member
  cases last : extents.getLast? with
  | none =>
    rw [List.getLast?_eq_none_iff.mp last] at member
    cases member
  | some final => exact (reach final last).trans (behind final last)

theorem checkExtents_ordered (blocksCount : Nat) (visited : List Nat)
    (before extents : List Extent) (ordered : Ordered before) :
    (checkExtents (E := E) blocksCount visited before extents).All
      fun _ => Ordered (before ++ extents) := by
  induction extents generalizing before with
  | nil =>
    rw [List.append_nil]
    exact ordered
  | cons extent rest induction =>
    refine Query.all_refuseIf_bind fun behind => ?_
    iterate 2 refine Query.all_refuseIf_bind fun _ => ?_
    have next : Ordered (before ++ [extent]) := by
      refine ordered.append fun last known => ?_
      simpa [known] using behind
    refine (induction (before ++ [extent]) next).mono fun _ others => ?_
    simpa using others

end ExtentTree

/-- Some record maps the logical block. -/
def Covered (extents : List Extent) (logical : Nat) : Prop :=
  ∃ physical state, Mapped extents { logical, physical, state }

/-- All blocks of the first records come before those of the second. -/
def Precede (first second : List Extent) : Prop :=
  ∀ block other, Covered first block → Covered second other → block < other

/-- Records in order, each with a block. -/
structure Sorted (extents : List Extent) : Prop where
  ordered : ExtentTree.Ordered extents
  positive : ∀ extent ∈ extents, 0 < extent.length

variable {start stop : Nat}

section Records

variable {first second extents : List Extent} {extent : Extent} {logical : Nat}

theorem covered_iff :
    Covered extents logical ↔
      ∃ extent ∈ extents, extent.logical ≤ logical ∧ logical < extent.logicalEnd := by
  constructor
  · rintro ⟨physical, state, extent, member, low, high, -⟩
    exact ⟨extent, member, low, high⟩
  · rintro ⟨extent, member, low, high⟩
    exact ⟨extent.physical + (logical - extent.logical), extent.state,
      extent, member, low, high, rfl, rfl⟩

@[simp]
theorem covered_nil : ¬ Covered [] logical := by
  simp [covered_iff]

@[simp]
theorem covered_append :
    Covered (first ++ second) logical ↔ Covered first logical ∨ Covered second logical := by
  simp [covered_iff, or_and_right, exists_or]

theorem covered_cons :
    Covered (extent :: extents) logical ↔
      (extent.logical ≤ logical ∧ logical < extent.logicalEnd) ∨ Covered extents logical := by
  simp [covered_iff]

theorem covered_of_mapped {mapping : Mapping}
    (mapped : Mapped extents mapping) : Covered extents mapping.logical :=
  ⟨mapping.physical, mapping.state, mapped⟩

/-- Records with the same mappings cover the same blocks. -/
theorem covered_congr (same : ∀ mapping, Mapped first mapping ↔ Mapped second mapping) :
    Covered first logical ↔ Covered second logical := by
  simp only [Covered, same]

theorem Precede.mono {before after : List Extent} (precede : Precede first second)
    (earlier : ∀ block, Covered before block → Covered first block)
    (later : ∀ block, Covered after block → Covered second block) :
    Precede before after :=
  fun block other covered too => precede block other (earlier block covered) (later other too)

theorem sorted_nil : Sorted [] := ⟨List.Pairwise.nil, fun _ member => by cases member⟩

theorem sorted_singleton (positive : 0 < extent.length) : Sorted [extent] :=
  ⟨List.pairwise_singleton _ _, by simpa using positive⟩

theorem sorted_append :
    Sorted (first ++ second) ↔ Sorted first ∧ Sorted second ∧ Precede first second := by
  constructor
  · rintro ⟨ordered, positive⟩
    obtain ⟨left, right, across⟩ := List.pairwise_append.mp ordered
    refine ⟨⟨left, fun entry member => ?_⟩, ⟨right, fun entry member => ?_⟩, ?_⟩
    · exact positive entry (List.mem_append_left _ member)
    · exact positive entry (List.mem_append_right _ member)
    · intro block other covered too
      obtain ⟨entry, member, -, high⟩ := covered_iff.mp covered
      obtain ⟨next, within, low, -⟩ := covered_iff.mp too
      have apart := across entry member next within
      omega
  · rintro ⟨left, right, precede⟩
    refine ⟨List.pairwise_append.mpr ⟨left.ordered, right.ordered, ?_⟩, ?_⟩
    · intro entry member next within
      have here := left.positive entry member
      have there := right.positive next within
      -- the last block of one record and the first of the other
      have apart :=
        precede (entry.logicalEnd - 1) next.logical (covered_iff.mpr ⟨entry, member, by
            unfold Extent.logicalEnd; omega, by
            unfold Extent.logicalEnd; omega⟩)
          (covered_iff.mpr ⟨next, within, le_rfl, by
            unfold Extent.logicalEnd; omega⟩)
      omega
    · intro entry member
      cases List.mem_append.mp member with
      | inl before => exact left.positive entry before
      | inr after => exact right.positive entry after

theorem sorted_cons :
    Sorted (extent :: extents) ↔ 0 < extent.length ∧ Sorted extents ∧ Precede [extent] extents := by
  rw [← List.singleton_append, sorted_append]
  refine and_congr_left' ⟨fun sorted => ?_, sorted_singleton⟩
  exact sorted.positive extent (List.mem_singleton.mpr rfl)

theorem Sorted.head_covered (sorted : Sorted (extent :: extents)) :
    Covered (extent :: extents) extent.logical := by
  have positive := sorted.positive extent List.mem_cons_self
  refine covered_cons.mpr (Or.inl ⟨le_rfl, ?_⟩)
  unfold Extent.logicalEnd
  omega

/-- The first record starts at or before everything that is covered. -/
theorem Sorted.head_le (sorted : Sorted (extent :: extents))
    (covered : Covered (extent :: extents) logical) :
    extent.logical ≤ logical := by
  rcases covered_cons.mp covered with own | later
  · exact own.1
  · have positive := sorted.positive extent List.mem_cons_self
    have before :=
      (sorted_cons.mp sorted).2.2 extent.logical logical (covered_cons.mpr (Or.inl ⟨le_rfl, by
          unfold Extent.logicalEnd; omega⟩))
        later
    exact before.le

/-! ## Merging and inserting -/

theorem covered_mergeLeaf : Covered (mergeLeaf extents) logical ↔ Covered extents logical :=
  covered_congr (mapped_mergeLeaf extents)

theorem sorted_mergeFrom (sorted : Sorted (extent :: extents)) :
    Sorted (mergeFrom extent extents) := by
  induction extents generalizing extent with
  | nil => exact sorted
  | cons right rest induction =>
    obtain ⟨positive, others, precede⟩ := sorted_cons.mp sorted
    unfold mergeFrom
    split_ifs with mergeable
    · apply induction
      refine sorted_cons.mpr ⟨Nat.add_pos_left positive _, (sorted_cons.mp others).2.1, ?_⟩
      intro block other covered too
      -- the merged record covers what the two covered
      have either : Covered [extent, right] block := by
        obtain ⟨physical, state, mapped⟩ := covered
        refine ⟨physical, state, ?_⟩
        simpa using (maps_merged _ mergeable).mp (by simpa using mapped)
      rcases covered_cons.mp either with own | own
      · exact precede block other (covered_cons.mpr (Or.inl own)) (covered_cons.mpr (Or.inr too))
      · exact (sorted_cons.mp others).2.2 block other own too
    · refine sorted_cons.mpr ⟨positive, induction others, ?_⟩
      refine precede.mono (fun _ own => own) fun block covered => ?_
      obtain ⟨physical, state, mapped⟩ := covered
      rw [mapped_mergeFrom, ← mapped_cons] at mapped
      exact ⟨physical, state, mapped⟩

theorem sorted_mergeLeaf (sorted : Sorted extents) : Sorted (mergeLeaf extents) := by
  cases extents with
  | nil => exact sorted
  | cons first rest => exact sorted_mergeFrom sorted

/-- No record maps a block of the extent. -/
def Extent.Apart (extent : Extent) (extents : List Extent) : Prop :=
  ∀ block, extent.logical ≤ block → block < extent.logicalEnd → ¬ Covered extents block

theorem Extent.Apart.mono (apart : extent.Apart second)
    (fewer : ∀ block, Covered first block → Covered second block) :
    extent.Apart first :=
  fun block low high covered => apart block low high (fewer block covered)

/-- Records that cover nothing before an extent come after it. -/
theorem Extent.Apart.precede_of_reach (apart : extent.Apart extents)
    (reach : ∀ block, Covered extents block → extent.logical ≤ block) :
    Precede [extent] extents := by
  intro block other own covered
  have high := ((covered_cons.mp own).resolve_right covered_nil).2
  by_contra reaches
  have low := reach other covered
  exact apart other low (by omega) covered

theorem sorted_insertExtent (sorted : Sorted extents)
    (positive : 0 < extent.length) (apart : extent.Apart extents) :
    Sorted (insertExtent extent extents) where
  ordered := by
    refine insertion_pairwise ?_ (fun entry member early => ?_) (fun entry member late => ?_)
      sorted.ordered
    · intro first second third one two
      unfold Extent.logicalEnd at *
      omega
    · -- an entry that starts before the extent would cover its first block
      by_contra reaches
      refine apart extent.logical le_rfl (by unfold Extent.logicalEnd; omega) ?_
      exact covered_iff.mpr ⟨entry, member, (of_decide_eq_true early).le, not_le.mp reaches⟩
    · by_contra reaches
      have own := sorted.positive entry member
      refine apart entry.logical (not_lt.mp (of_decide_eq_false late)) (not_le.mp reaches) ?_
      exact covered_iff.mpr ⟨entry, member, le_rfl, by unfold Extent.logicalEnd; omega⟩
  positive := by
    intro entry member
    rcases List.mem_cons.mp ((insertExtent_perm _ _).mem_iff.mp member) with rfl | old
    · exact positive
    · exact sorted.positive entry old

/-! ## Cutting -/

/-- The record for a part of an extent covers that part. -/
theorem Extent.part_sorted (extent : Extent)
    (state : ExtentState) (after : extent.logical ≤ start) :
    (extent.part (E := E) start stop state).All fun pieces =>
      Sorted pieces ∧ ∀ block, Covered pieces block ↔ start ≤ block ∧ block < stop := by
  refine ((extent.part_mapped state after).and ?_).mono
    fun pieces result => ⟨result.2, fun block => ?_⟩
  · -- a part that is there is not empty
    refine Query.all_ite (fun within => ?_) (fun _ => sorted_nil)
    refine Query.all_orFail_bind fun logical logicalEq => ?_
    refine Query.all_orFail_bind fun length lengthEq => ?_
    rw [checked_eq_some] at lengthEq
    apply sorted_singleton
    change 0 < length
    omega
  · constructor
    · rintro ⟨physical, given, mapped⟩
      exact ((result.1 _).mp mapped).1
    · intro within
      exact ⟨_, state, (result.1
        { logical := block
          physical := extent.physical + (block - extent.logical)
          state }).mpr ⟨within, rfl, rfl⟩⟩

/-- Records that cover the same blocks as others, and in order if those are. -/
structure KeepsSorted (before after : List Extent) : Prop where
  sorted : Sorted before → Sorted after
  covered : ∀ block, Covered after block ↔ Covered before block

theorem KeepsSorted.append {before after : List Extent} (front : KeepsSorted first second)
    (back : KeepsSorted before after) : KeepsSorted (first ++ before) (second ++ after) where
  sorted sorted := by
    obtain ⟨own, others, precede⟩ := sorted_append.mp sorted
    refine sorted_append.mpr ⟨front.sorted own, back.sorted others, ?_⟩
    exact precede.mono (fun block => (front.covered block).mp) fun block => (back.covered block).mp
  covered block := by rw [covered_append, covered_append, front.covered, back.covered]

theorem setStateExtent_sorted (range : start < stop) (state : ExtentState) (extent : Extent) :
    (setStateExtent (E := E) start stop state extent).All (KeepsSorted [extent]) := by
  refine Query.all_ite (fun _ => ⟨id, fun _ => Iff.rfl⟩) (fun touched => ?_)
  simp only [not_or, Bool.not_eq_false, Extent.overlaps,
    Bool.and_eq_true, decide_eq_true_eq] at touched
  refine (extent.part_sorted extent.state le_rfl).bind fun before beforeSorted => ?_
  refine (extent.part_sorted state (by omega)).bind fun middle middleSorted => ?_
  refine (extent.part_sorted extent.state (by
    unfold Extent.logicalEnd at *; omega)).bind
    fun after afterSorted => ⟨fun _ => ?_, fun block => ?_⟩
  · refine sorted_append.mpr ⟨sorted_append.mpr
      ⟨beforeSorted.1, middleSorted.1, ?_⟩, afterSorted.1, ?_⟩
    · intro block other own too
      rw [beforeSorted.2] at own
      rw [middleSorted.2] at too
      omega
    · intro block other own too
      rw [covered_append, beforeSorted.2, middleSorted.2] at own
      rw [afterSorted.2] at too
      omega
  · rw [covered_append, covered_append, beforeSorted.2, middleSorted.2,
      afterSorted.2, covered_cons]
    simp only [covered_nil, or_false]
    omega

theorem setStateExtents_sorted (range : start < stop) (state : ExtentState)
    (extents : List Extent) :
    (setStateExtents (E := E) start stop state extents).All (KeepsSorted extents) := by
  induction extents with
  | nil => exact ⟨id, fun _ => Iff.rfl⟩
  | cons extent rest induction =>
    refine (setStateExtent_sorted range state extent).bind fun pieces own => ?_
    refine induction.bind fun output later => ?_
    exact own.append later

/--
What a cut leaves of records in order is in order, and so is what was cut out,
behind what was cut out before.
-/
structure CutSorted (before after earlier later : List Extent) : Prop where
  sorted : Sorted before → Sorted earlier → Precede earlier before → Sorted after ∧ Sorted later
  kept : ∀ block, Covered after block → Covered before block
  removed : ∀ block, Covered later block → Covered earlier block ∨ Covered before block

theorem CutSorted.refl (before removed : List Extent) :
    CutSorted before before removed removed :=
  ⟨fun sorted earlier _ => ⟨sorted, earlier⟩, fun _ own => own, fun _ old => Or.inl old⟩

theorem CutSorted.append {before after others rest earlier middle later : List Extent}
    (front : CutSorted before after earlier middle) (back : CutSorted others rest middle later) :
    CutSorted (before ++ others) (after ++ rest) earlier later where
  sorted sorted gone precede := by
    obtain ⟨left, right, across⟩ := sorted_append.mp sorted
    obtain ⟨leftKept, behind⟩ := front.sorted left gone
      (precede.mono (fun _ own => own) fun _ own => covered_append.mpr (Or.inl own))
    have next : Precede middle others := by
      intro block other covered too
      rcases front.removed block covered with old | own
      · exact precede block other old (covered_append.mpr (Or.inr too))
      · exact across block other own too
    obtain ⟨rightKept, final⟩ := back.sorted right behind next
    exact ⟨sorted_append.mpr ⟨leftKept, rightKept, across.mono front.kept back.kept⟩, final⟩
  kept block := by
    rw [covered_append, covered_append]
    exact Or.imp (front.kept block) (back.kept block)
  removed block covered := by
    rw [covered_append, ← or_assoc]
    exact (back.removed block covered).imp_left (front.removed block)

theorem removeExtents_sorted (range : start < stop) (extents removed : List Extent) :
    (removeExtents (E := E) start stop extents removed).All fun result =>
      CutSorted extents result.1 removed result.2 := by
  induction extents generalizing removed with
  | nil => exact .refl [] removed
  | cons extent rest induction =>
    rw [← List.singleton_append]
    refine Query.all_ite (fun touched => ?_) (fun _ => ?_)
    · simp only [Extent.overlaps, Bool.and_eq_true, decide_eq_true_eq] at touched
      rw [Query.bind_eq, Query.bind, Query.all_reserve]
      refine (extent.part_sorted extent.state (by omega)).bind fun cut cutSorted => ?_
      refine (extent.part_sorted extent.state le_rfl).bind fun before beforeSorted => ?_
      refine (extent.part_sorted extent.state (by omega)).bind fun after afterSorted => ?_
      refine (induction (removed ++ cut)).bind fun result later => ?_
      have cutOwn (block : Nat) (covered : Covered cut block) : Covered [extent] block := by
        rw [cutSorted.2] at covered
        exact covered_cons.mpr (Or.inl (by omega))
      refine CutSorted.append ⟨fun _ gone precede => ⟨?_, ?_⟩, fun block covered => ?_,
        fun block covered => ?_⟩ later
      · refine sorted_append.mpr ⟨beforeSorted.1, afterSorted.1, fun block other own too => ?_⟩
        rw [beforeSorted.2] at own
        rw [afterSorted.2] at too
        omega
      · exact sorted_append.mpr ⟨gone, cutSorted.1, precede.mono (fun _ own => own) cutOwn⟩
      · rw [covered_append, beforeSorted.2, afterSorted.2] at covered
        unfold Extent.logicalEnd at *
        exact covered_cons.mpr (Or.inl (by
          unfold Extent.logicalEnd; omega))
      · exact (covered_append.mp covered).imp_right (cutOwn block)
    · refine (induction removed).bind fun result later => ?_
      exact CutSorted.append (.refl [extent] removed) later

theorem removeFromLeaf_sorted (range : start < stop) (extents removed : List Extent) :
    (removeFromLeaf (E := E) start stop extents removed).All fun result =>
      CutSorted extents result.2.1 removed result.2.2 := by
  refine (removeExtents_sorted range extents removed).bind fun result kept => ?_
  refine ⟨fun sorted earlier precede => ?_, fun block covered => ?_, kept.removed⟩
  · exact (kept.sorted sorted earlier precede).imp_left sorted_mergeLeaf
  · exact kept.kept block (covered_mergeLeaf.mp covered)

end Records

/-! ## Nodes that are not empty -/

namespace ExtentNode

mutual

/-- No node below this one is empty. -/
def Filled : ExtentNode → Prop
  | .leaf _ _ _ => True
  | .branch _ _ children => FilledAll children

def FilledAll : List ExtentNode → Prop
  | [] => True
  | child :: rest => child.isEmpty = false ∧ child.Filled ∧ FilledAll rest

end

@[simp]
theorem filled_leaf (location : NodeLocation) (dirty : Bool)
    (extents : List Extent) : (leaf location dirty extents).Filled := by
  simp only [Filled]

@[simp]
theorem filled_branch (location : NodeLocation) (dirty : Bool) (children : List ExtentNode) :
    (branch location dirty children).Filled ↔ FilledAll children := by
  simp only [Filled]

variable {children : List ExtentNode}

theorem filledAll_iff :
    FilledAll children ↔ ∀ child ∈ children, child.isEmpty = false ∧ child.Filled := by
  induction children with
  | nil => simp [FilledAll]
  | cons child rest induction => simp [FilledAll, induction, and_assoc]

theorem filledAll_append {first second : List ExtentNode} :
    FilledAll (first ++ second) ↔ FilledAll first ∧ FilledAll second := by
  simp only [filledAll_iff, List.forall_mem_append]

variable {node : ExtentNode}

theorem isEmpty_iff : node.isEmpty = true ↔ node.entryCount = 0 := by
  cases node <;> simp [isEmpty, entryCount]

theorem isEmpty_setLocation (location : NodeLocation) (node : ExtentNode) :
    (node.setLocation location).isEmpty = node.isEmpty := by
  cases node <;> rfl

theorem filled_setLocation {location : NodeLocation} :
    (node.setLocation location).Filled ↔ node.Filled := by
  cases node <;> simp [setLocation]

theorem halves_ne_nil {α : Type} {list : List α} {capacity : Nat}
    (room : 0 < capacity) (exceeds : ¬ list.length ≤ capacity) :
    list.take (list.length / 2) ≠ [] ∧ list.drop (list.length / 2) ≠ [] := by
  constructor
  · simp only [ne_eq, List.take_eq_nil_iff]
    rintro (half | none)
    · omega
    · simp [none] at exceeds
  · simp only [ne_eq, List.drop_eq_nil_iff]
    omega

/-- Both halves of a node that is split have entries. -/
theorem filledAll_splitOver {capacity : Nat} (room : 0 < capacity) (filled : node.Filled)
    (inhabited : node.isEmpty = false) :
    FilledAll (pieces (splitOver capacity node)) := by
  unfold splitOver pieces
  split_ifs with fits
  · exact filledAll_iff.mpr (by simpa using ⟨inhabited, filled⟩)
  · cases node with
    | leaf location dirty extents =>
      simp only [entryCount] at fits
      apply filledAll_iff.mpr
      simp only [Option.toList_some, List.mem_cons, List.not_mem_nil,
        or_false, forall_eq_or_imp, forall_eq, filled_leaf, and_true,
        isEmpty, List.isEmpty_eq_false_iff]
      exact halves_ne_nil room fits
    | branch location dirty children =>
      simp only [entryCount] at fits
      rw [filled_branch, filledAll_iff] at filled
      apply filledAll_iff.mpr
      simp only [Option.toList_some, List.mem_cons, List.not_mem_nil,
        or_false, forall_eq_or_imp, forall_eq, filled_branch,
        filledAll_iff, isEmpty, List.isEmpty_eq_false_iff]
      obtain ⟨front, back⟩ := halves_ne_nil room fits
      refine ⟨⟨front, fun child member => ?_⟩, back, fun child member => ?_⟩
      · exact filled child (List.mem_of_mem_take member)
      · exact filled child (List.mem_of_mem_drop member)

theorem firstLogical_head {first : Nat} :
    (node : ExtentNode) → node.firstLogical = some first →
      ∃ extent rest, node.extents = extent :: rest ∧ extent.logical = first
  | .leaf _ _ [], found => by simp [firstLogical] at found
  | .leaf _ _ (extent :: rest), found => by
    simp only [firstLogical, List.head?_cons, Option.map_some, Option.some.injEq] at found
    exact ⟨extent, rest, by simp [ExtentNode.extents], found⟩
  | .branch _ _ [], found => by simp [firstLogical] at found
  | .branch _ _ (child :: others), found => by
    rw [firstLogical] at found
    obtain ⟨extent, rest, records, starts⟩ := firstLogical_head child found
    refine ⟨extent, rest ++ childExtents others, ?_, starts⟩
    simp [ExtentNode.extents, records]

theorem firstLogical_of_filled :
    (node : ExtentNode) → node.isEmpty = false → node.Filled →
      ∃ first, node.firstLogical = some first
  | .leaf _ _ [], inhabited, _ => by simp [isEmpty] at inhabited
  | .leaf _ _ (extent :: _), _, _ => ⟨extent.logical, by simp [firstLogical]⟩
  | .branch _ _ [], inhabited, _ => by simp [isEmpty] at inhabited
  | .branch _ _ (child :: others), _, filled => by
    simp only [filled_branch, FilledAll] at filled
    rw [firstLogical]
    exact firstLogical_of_filled child filled.1 filled.2.1

theorem covered_child {child : ExtentNode} {block : Nat} (member : child ∈ children)
    (covered : Covered child.extents block) :
    Covered (childExtents children) block := by
  obtain ⟨before, after, rfl⟩ := List.append_of_mem member
  rw [childExtents_append, childExtents_cons, covered_append, covered_append]
  exact Or.inr (Or.inl covered)

theorem sorted_child {child : ExtentNode}
    (sorted : Sorted (childExtents children)) (member : child ∈ children) :
    Sorted child.extents := by
  obtain ⟨before, after, rfl⟩ := List.append_of_mem member
  rw [childExtents_append, childExtents_cons] at sorted
  exact (sorted_append.mp (sorted_append.mp sorted).2.1).1

/-! ## Looking up -/

variable {logical physical : Nat} {state : ExtentState}

theorem lookupExtents_of_mapped {extents : List Extent} (sorted : Sorted extents)
    (mapped : Mapped extents { logical, physical, state }) :
    lookupExtents logical extents = some (physical, state) := by
  obtain ⟨extent, member, low, high, place, stated⟩ := mapped
  obtain ⟨before, after, rfl⟩ := List.append_of_mem member
  obtain ⟨-, late, precede⟩ := sorted_append.mp sorted
  have positive := late.positive extent List.mem_cons_self
  have earlier : ∀ entry ∈ before, entry.logical ≤ logical := by
    intro entry within
    have here := sorted.positive entry (List.mem_append_left _ within)
    have apart := (List.pairwise_append.mp sorted.ordered).2.2 entry within
      extent List.mem_cons_self
    unfold Extent.logicalEnd at apart
    simp only at low
    omega
  have later : after.takeWhile (fun entry => entry.logical ≤ logical) = [] := by
    cases after with
    | nil => rfl
    | cons next rest =>
      have apart := List.rel_of_pairwise_cons
        (List.pairwise_append.mp sorted.ordered).2.1 (List.mem_cons_self)
      simp only at high
      rw [List.takeWhile_cons_of_neg]
      simp only [decide_eq_true_eq]
      omega
  unfold lookupExtents
  rw [List.takeWhile_append_of_pos (by simpa using earlier),
    List.takeWhile_cons_of_pos (by simpa using low), later]
  simp only [List.getLast?_append, List.getLast?_singleton, Option.some_or]
  simp only at high place stated
  simp [high, place, stated]

theorem exists_covered (sorted : Sorted node.extents)
    (inhabited : node.isEmpty = false) (filled : node.Filled) :
    ∃ block, Covered node.extents block := by
  obtain ⟨first, known⟩ := firstLogical_of_filled node inhabited filled
  obtain ⟨extent, rest, records, -⟩ := firstLogical_head node known
  rw [records] at sorted ⊢
  exact ⟨extent.logical, sorted.head_covered⟩

theorem startsBy_iff {logical : Nat}
    (sorted : Sorted node.extents) (inhabited : node.isEmpty = false)
    (filled : node.Filled) :
    node.startsBy logical = true ↔ ∃ block ≤ logical, Covered node.extents block := by
  obtain ⟨first, known⟩ := firstLogical_of_filled node inhabited filled
  obtain ⟨extent, rest, records, starts⟩ := firstLogical_head node known
  unfold startsBy
  rw [known, records]
  rw [records] at sorted
  simp only [Option.any_some, decide_eq_true_eq]
  constructor
  · intro early
    exact ⟨extent.logical, by omega, sorted.head_covered⟩
  · rintro ⟨block, early, covered⟩
    have reached := sorted.head_le covered
    omega

/-- The first child starts where all of them start. -/
theorem head_startsBy_iff {logical : Nat}
    (sorted : Sorted (childExtents children)) (filled : FilledAll children) :
    children.head?.any (startsBy logical) = true ↔
      ∃ block ≤ logical, Covered (childExtents children) block := by
  cases children with
  | nil => simp
  | cons child rest =>
    rw [childExtents_cons] at sorted ⊢
    obtain ⟨own, -, precede⟩ := sorted_append.mp sorted
    simp only [FilledAll] at filled
    simp only [List.head?_cons, Option.any_some]
    rw [startsBy_iff own filled.1 filled.2.1]
    constructor
    · rintro ⟨block, early, covered⟩
      exact ⟨block, early, covered_append.mpr (Or.inl covered)⟩
    · rintro ⟨block, early, covered⟩
      rcases covered_append.mp covered with here | later
      · exact ⟨block, early, here⟩
      · obtain ⟨first, head⟩ := exists_covered own filled.1 filled.2.1
        have before := precede first block head later
        exact ⟨first, by omega, head⟩

/-- A search stops at once where no child starts early enough. -/
theorem findChild_of_late {logical : Nat} {found : Option (Nat × ExtentState)}
    (sorted : Sorted (childExtents children)) (filled : FilledAll children)
    (late : ∀ block, Covered (childExtents children) block → logical < block) :
    findChild logical found children = found := by
  cases children with
  | nil => rw [findChild]
  | cons child rest =>
    have starts := @head_startsBy_iff _ logical sorted filled
    simp only [List.head?_cons, Option.any_some] at starts
    rw [findChild, if_neg]
    rw [starts]
    rintro ⟨block, early, covered⟩
    have after := late block covered
    omega

mutual

/-- A lookup finds every mapping. -/
theorem find_of_mapped :
    (node : ExtentNode) → Sorted node.extents → node.Filled →
      Mapped node.extents { logical, physical, state } →
      node.find logical = some (physical, state)
  | .leaf location dirty extents, sorted, _, mapped => by
    rw [ExtentNode.extents] at sorted mapped
    rw [find]
    exact lookupExtents_of_mapped sorted mapped
  | .branch location dirty children, sorted, filled, mapped => by
    rw [ExtentNode.extents] at sorted mapped
    rw [filled_branch] at filled
    rw [find]
    exact findChild_of_mapped children none sorted filled mapped

theorem findChild_of_mapped :
    (children : List ExtentNode) →
      (found : Option (Nat × ExtentState)) →
      Sorted (childExtents children) → FilledAll children →
      Mapped (childExtents children) { logical, physical, state } →
      findChild logical found children = some (physical, state)
  | [], _, _, _, mapped => by simp at mapped
  | child :: rest, found, sorted, filled, mapped => by
    have starts : child.startsBy logical = true := by
      have head := (head_startsBy_iff sorted filled).mpr ⟨logical, le_rfl, covered_of_mapped mapped⟩
      simpa using head
    rw [childExtents_cons] at sorted mapped
    obtain ⟨own, others, precede⟩ := sorted_append.mp sorted
    simp only [FilledAll] at filled
    rw [findChild, if_pos starts]
    rcases (mapped_append _ _ _).mp mapped with here | later
    · rw [find_of_mapped child own filled.2.1 here]
      apply findChild_of_late others filled.2.2
      intro block covered
      exact precede logical block (covered_of_mapped here) covered
    · exact findChild_of_mapped rest _ others filled.2.2 later

end

/-! ## Edits -/

variable {blockCapacity : Nat}

theorem Inserted.covered {extent : Extent} {node after : ExtentNode}
    (inserted : Inserted extent blockCapacity node after) (block : Nat) :
    Covered after.extents block ↔ Covered [extent] block ∨ Covered node.extents block := by
  simp only [Covered, inserted.mapped, mapped_cons, mapped_nil, or_false, exists_or]

/-- Insertion keeps the records in order and fills every node. -/
theorem Inserted.sorted {extent : Extent} {node after : ExtentNode}
    (inserted : Inserted extent blockCapacity node after) (positive : 0 < extent.length)
    (room : 0 < blockCapacity) (sorted : Sorted node.extents) (filled : node.Filled)
    (apart : extent.Apart node.extents) :
    Sorted after.extents ∧ after.Filled ∧ after.isEmpty = false := by
  induction inserted with
  | leaf location dirty extents =>
    rw [ExtentNode.extents] at sorted apart
    refine ⟨?_, filled_leaf _ _ _, ?_⟩
    · rw [ExtentNode.extents]
      exact sorted_mergeLeaf (sorted_insertExtent sorted positive apart)
    · have own : Covered (mergeLeaf (insertExtent extent extents)) extent.logical := by
        refine covered_mergeLeaf.mpr ⟨extent.physical, extent.state, ?_⟩
        rw [mapped_insertExtent]
        refine Or.inl ⟨le_rfl, ?_, ?_, rfl⟩
        · simp only [Extent.logicalEnd]
          omega
        · simp
      simp only [isEmpty, List.isEmpty_eq_false_iff]
      intro none
      rw [none] at own
      exact covered_nil own
  | @branch location dirty before behind child after starts last inside induction =>
    rw [ExtentNode.extents, childExtents_append, childExtents_cons] at sorted apart
    rw [filled_branch, filledAll_append, FilledAll] at filled
    obtain ⟨front, rest, ahead⟩ := sorted_append.mp sorted
    obtain ⟨own, back, precede⟩ := sorted_append.mp rest
    obtain ⟨first, inhabited, filledChild, others⟩ := filled
    have early : Precede (childExtents before) [extent] := by
      intro block other covered too
      have some : before ≠ [] := by
        rintro rfl
        simp at covered
      obtain ⟨start, reached, begins⟩ := (startsBy_iff own inhabited filledChild).mp (starts some)
      have earlier := ahead block start covered (covered_append.mpr (Or.inl begins))
      have begun := ((covered_cons.mp too).resolve_right covered_nil).1
      omega
    have late : Precede [extent] (childExtents behind) := by
      refine Extent.Apart.precede_of_reach (apart.mono fun _ covered => ?_) fun block covered => ?_
      · exact covered_append.mpr (Or.inr (covered_append.mpr (Or.inr covered)))
      · by_contra early
        apply last
        rw [head_startsBy_iff back others]
        exact ⟨block, by omega, covered⟩
    obtain ⟨keptSorted, keptFilled, kept⟩ := induction own filledChild (apart.mono fun _ covered =>
      covered_append.mpr (Or.inr (covered_append.mpr (Or.inl covered))))
    refine ⟨?_, ?_, by simp [isEmpty, pieces]⟩
    · rw [ExtentNode.extents, childExtents_append, childExtents_append, childExtents_splitOver]
      refine sorted_append.mpr ⟨front, sorted_append.mpr ⟨keptSorted, back, ?_⟩, ?_⟩
      · intro block other covered too
        rcases (inside.covered block).mp covered with fresh | old
        · exact late block other fresh too
        · exact precede block other old too
      · intro block other covered too
        rw [covered_append, inside.covered, or_assoc, ← covered_append] at too
        exact too.elim (early block other covered) (ahead block other covered)
    · rw [filled_branch, filledAll_append, filledAll_append]
      exact ⟨first, filledAll_splitOver room keptFilled kept, others⟩

theorem setStateRange_sorted (range : start < stop) (state : ExtentState)
    (blockCapacity capacity : Nat) (node : ExtentNode) :
    (node.setStateRange (E := E) start stop state blockCapacity capacity).All fun result =>
      KeepsSorted node.extents (childExtents (pieces result)) := by
  refine setStateRange_records KeepsSorted ⟨id, fun _ => Iff.rfl⟩ KeepsSorted.append
    (fun extents => ?_) blockCapacity node capacity
  refine (setStateExtents_sorted range state extents).mono fun output kept => ?_
  refine ⟨fun sorted => sorted_mergeLeaf (kept.sorted sorted), fun block => ?_⟩
  rw [covered_mergeLeaf, kept.covered]

theorem setStateExtents_ne_nil (range : start < stop) (state : ExtentState)
    {extents : List Extent} (sorted : Sorted extents) (some : extents ≠ []) :
    (setStateExtents (E := E) start stop state extents).All fun output =>
      mergeLeaf output ≠ [] := by
  refine (setStateExtents_sorted range state extents).mono fun output kept none => ?_
  obtain ⟨first, rest, rfl⟩ := List.exists_cons_of_ne_nil some
  have covered := covered_mergeLeaf.mpr ((kept.covered first.logical).mpr sorted.head_covered)
  rw [none] at covered
  exact covered_nil covered

mutual

/-- A change of state fills every node. -/
theorem setStateRange_filled (range : start < stop)
    (state : ExtentState) (room : 0 < blockCapacity) :
    (node : ExtentNode) → (capacity : Nat) → 0 < capacity →
      Sorted node.extents → node.Filled → node.isEmpty = false →
      (node.setStateRange (E := E) start stop state blockCapacity capacity).All fun result =>
        FilledAll (pieces result)
  | .leaf location dirty extents, capacity, wide, sorted, filled, inhabited => by
    rw [ExtentNode.extents] at sorted
    simp only [isEmpty, List.isEmpty_eq_false_iff] at inhabited
    rw [setStateRange]
    refine (setStateExtents_ne_nil range state sorted inhabited).bind fun output some => ?_
    refine filledAll_splitOver wide (filled_leaf _ _ _) ?_
    simpa [isEmpty] using some
  | .branch location dirty children, capacity, wide, sorted, filled, inhabited => by
    rw [ExtentNode.extents] at sorted
    rw [filled_branch] at filled
    simp only [isEmpty, List.isEmpty_eq_false_iff] at inhabited
    rw [setStateRange]
    refine (setStateChildren_filled range state room children sorted
      filled).bind fun edited kept => ?_
    refine filledAll_splitOver wide ((filled_branch _ _ _).mpr kept.1) ?_
    simpa [isEmpty] using kept.2 inhabited

theorem setStateChildren_filled (range : start < stop)
    (state : ExtentState) (room : 0 < blockCapacity) :
    (children : List ExtentNode) → Sorted (childExtents children) →
      FilledAll children →
      (setStateChildren (E := E) start stop state blockCapacity children).All fun edited =>
        FilledAll edited.2 ∧ (children ≠ [] → edited.2 ≠ [])
  | [], sorted, filled => by
    rw [setStateChildren]
    exact ⟨filled, fun some => some⟩
  | child :: rest, sorted, filled => by
    rw [childExtents_cons] at sorted
    obtain ⟨own, others, -⟩ := sorted_append.mp sorted
    simp only [FilledAll] at filled
    rw [setStateChildren]
    refine (setStateRange_filled range state room child blockCapacity
      room own filled.2.1 filled.1).bind fun result kept => ?_
    refine Query.all_bind_of_forall fun _ => ?_
    refine (setStateChildren_filled range state room rest others
      filled.2.2).bind fun edited later => ?_
    exact ⟨filledAll_append.mpr ⟨kept, later.1⟩, fun _ => List.cons_ne_nil _ _⟩

end

theorem removeRange_sorted (range : start < stop) (node : ExtentNode) (removal : Removal) :
    (node.removeRange (E := E) start stop removal).All fun result =>
      CutSorted node.extents result.2.1.extents removal.extents result.2.2.extents :=
  removeRange_records CutSorted (.refl []) CutSorted.append
    (removeFromLeaf_sorted range) node removal

mutual

/-- A removal drops the nodes that it empties. -/
theorem removeRange_filled :
    (node : ExtentNode) → (removal : Removal) → node.Filled →
      (node.removeRange (E := E) start stop removal).All fun result => result.2.1.Filled
  | .leaf location dirty extents, removal, filled => by
    rw [removeRange]
    refine Query.all_bind_of_forall fun result => ?_
    exact filled_leaf location (dirty || result.1) result.2.1
  | .branch location dirty children, removal, filled => by
    rw [filled_branch] at filled
    rw [removeRange]
    refine (removeChildren_filled children removal filled).bind fun result kept => ?_
    exact (filled_branch location (dirty || result.1) result.2.1).mpr kept

theorem removeChildren_filled :
    (children : List ExtentNode) → (removal : Removal) → FilledAll children →
      (removeChildren (E := E) start stop children removal).All fun result =>
        FilledAll result.2.1
  | [], removal, filled => by
    rw [removeChildren]
    exact filled
  | child :: rest, removal, filled => by
    simp only [FilledAll] at filled
    rw [removeChildren]
    refine (removeRange_filled child removal filled.2.1).bind fun result kept => ?_
    refine Query.all_ite (fun _ => ?_) (fun inhabited => ?_)
    · refine Query.all_bind_of_forall fun nodes => ?_
      exact (removeChildren_filled rest { result.2.2 with nodes } filled.2.2).bind
        fun edited later => later
    · refine (removeChildren_filled rest result.2.2 filled.2.2).bind fun edited later => ?_
      simp only [Query.pure_eq, Query.all_done, FilledAll]
      exact ⟨by simpa using inhabited, kept, later⟩

end

end ExtentNode

end RetroOS.Ext
