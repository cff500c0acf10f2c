import RetroOS.Ext.ExtentOrder

/-!
# Extent trees as partial maps

To its users an extent tree is a partial map from logical blocks to physical
blocks and states.  The edits are given on such maps, and a decoded tree is
shown to follow them: after any number of edits, a lookup answers what the
map says, and what a removal returns is what the map lost
(`extent_edits_refine`).
-/

namespace RetroOS.Ext

open Lib
open Query hiding bind done eval fail read

variable {E : Type}

/-- Where a logical block is stored, and whether it was ever written. -/
abbrev BlockMap : Type := Nat → Option (Nat × ExtentState)

inductive Edit where
  | insert (extent : Extent)
  | remove (start stop : Nat)
  | setState (start stop : Nat) (state : ExtentState)

namespace BlockMap

/-- The map that a list of records stands for. -/
def ofExtents (extents : List Extent) : BlockMap :=
  fun logical =>
    (extents.find? (·.covers logical)).map fun extent =>
      (extent.physical + (logical - extent.logical), extent.state)

variable (map : BlockMap)

/-- The part of a map in a range of logical blocks. -/
def within (start stop : Nat) : BlockMap :=
  fun logical =>
    if start ≤ logical ∧ logical < stop then map logical else none

def insert (extent : Extent) : BlockMap :=
  fun logical =>
    if extent.covers logical then some (extent.physical + (logical - extent.logical), extent.state)
    else map logical

def remove (start stop : Nat) : BlockMap :=
  fun logical =>
    if start ≤ logical ∧ logical < stop then none else map logical

def setState (start stop : Nat) (state : ExtentState) : BlockMap :=
  fun logical =>
    if start ≤ logical ∧ logical < stop then (map logical).map fun place => (place.1, state)
    else map logical

def edit : Edit → BlockMap
  | .insert extent => map.insert extent
  | .remove start stop => map.remove start stop
  | .setState start stop state => map.setState start stop state

/-- What an edit deletes. -/
def deleted : Edit → BlockMap
  | .remove start stop => map.within start stop
  | _ => fun _ => none

/-- The map after a list of edits, and what each of them deletes. -/
def edits : BlockMap → List Edit → BlockMap × List BlockMap
  | map, [] => (map, [])
  | map, edit :: rest =>
    (((map.edit edit).edits rest).1, map.deleted edit :: ((map.edit edit).edits rest).2)

end BlockMap

namespace ExtentTree

/-- One edit of a tree, and the records it removed. -/
def edit (tree : ExtentTree) : Edit → Query (Error E) (ExtentTree × List Extent)
  | .insert extent => do
    let tree ← tree.insert extent
    return (tree, [])
  | .remove start stop => tree.remove start stop
  | .setState start stop state => do
    let tree ← tree.setState start stop state
    return (tree, [])

/-- Edits one after the other, and the records each of them removed. -/
def edits : ExtentTree → List Edit → Query (Error E) (ExtentTree × List (List Extent))
  | tree, [] => .done (tree, [])
  | tree, edit :: rest => do
    let (tree, removed) ← tree.edit edit
    let (tree, others) ← tree.edits rest
    return (tree, removed :: others)

end ExtentTree

/-! ## What sorted records stand for -/

variable {logical : Nat}

theorem Extent.covers_iff {extent : Extent} :
    extent.covers logical = true ↔ extent.logical ≤ logical ∧ logical < extent.logicalEnd := by
  simp [Extent.covers]

/-- The bounds of a record, with the greatest length of its state. -/
structure Extent.Encodable (extent : Extent) : Prop where
  positive : 0 < extent.length
  short : extent.length ≤ extent.state.maxLen
  placed : extent.physical ≠ 0
  inside : extent.physical + extent.length ≤ 2 ^ 48

theorem Extent.new_encodable (logical physical length : Nat) (state : ExtentState) :
    (Extent.new (E := E) logical physical length state).All fun extent =>
      extent = { logical, physical, length, state } ∧ extent.Encodable := by
  refine all_refuseIf_bind fun accepted => ⟨rfl, ?_⟩
  simp only [not_or, not_lt] at accepted
  exact ⟨Nat.pos_of_ne_zero accepted.1, accepted.2.1, accepted.2.2.1, accepted.2.2.2.2⟩

variable {extents : List Extent} {physical : Nat} {state : ExtentState}

/-- Two mappings of one block agree. -/
theorem Sorted.mapped_unique (sorted : Sorted extents) {other : Nat} {another : ExtentState}
    (mapped : Mapped extents { logical, physical, state })
    (too : Mapped extents { logical, physical := other, state := another }) :
    (physical, state) = (other, another) := by
  have first := ExtentNode.lookupExtents_of_mapped sorted mapped
  have second := ExtentNode.lookupExtents_of_mapped sorted too
  exact Option.some.inj (first.symm.trans second)

theorem ofExtents_eq_some (sorted : Sorted extents) :
    BlockMap.ofExtents extents logical = some (physical, state) ↔
      Mapped extents { logical, physical, state } := by
  have sound {physical : Nat} {state : ExtentState}
      (known : BlockMap.ofExtents extents logical = some (physical, state)) :
      Mapped extents { logical, physical, state } := by
    obtain ⟨extent, found, place⟩ := Option.map_eq_some_iff.mp known
    have covers := List.find?_some found
    rw [Extent.covers_iff] at covers
    cases place
    exact ⟨extent, List.mem_of_find?_eq_some found, covers.1, covers.2, rfl, rfl⟩
  refine ⟨sound, fun mapped => ?_⟩
  cases known : BlockMap.ofExtents extents logical with
  | some place => rw [sorted.mapped_unique mapped (sound known)]
  | none =>
    obtain ⟨extent, member, low, high, -⟩ := mapped
    have uncovered := List.find?_eq_none.mp (Option.map_eq_none_iff.mp known) extent member
    exact absurd (Extent.covers_iff.mpr ⟨low, high⟩) uncovered

/-- A map that says what records map is the one they stand for. -/
theorem ofExtents_eq (sorted : Sorted extents) {map : BlockMap} (same :
      ∀ logical physical state, Mapped extents { logical, physical, state } ↔
          map logical = some (physical, state)) :
    BlockMap.ofExtents extents = map := by
  funext logical
  apply Option.ext
  rintro ⟨physical, state⟩
  rw [ofExtents_eq_some sorted, same]

namespace ExtentTree

/-- A tree in order, whose nodes have room for more than the root has. -/
structure Sound (tree : ExtentTree) : Prop where
  sorted : Sorted tree.root.extents
  filled : tree.root.Filled
  room : rootCapacity < tree.blockCapacity

/-- The map a tree stands for. -/
def blockMap (tree : ExtentTree) : BlockMap := BlockMap.ofExtents tree.root.extents

variable {tree : ExtentTree}

/-- A lookup in a sound tree answers what its map says. -/
theorem Sound.lookup_eq (sound : tree.Sound) (logical : Nat) :
    tree.lookup logical = tree.blockMap logical := by
  apply Option.ext
  rintro ⟨physical, state⟩
  rw [blockMap, ofExtents_eq_some sound.sorted]
  exact ⟨lookup_maps, ExtentNode.find_of_mapped tree.root sound.sorted sound.filled⟩

theorem Sound.maps_iff (sound : tree.Sound) :
    tree.Maps { logical, physical, state } ↔ tree.blockMap logical = some (physical, state) :=
  (ofExtents_eq_some sound.sorted).symm

/-! ## Edits keep trees sound -/

theorem promoteRoot_filled {root : ExtentNode} (filled : root.Filled) :
    (promoteRoot root).Filled := by
  unfold promoteRoot
  split_ifs with full
  · rw [ExtentNode.filled_branch, ExtentNode.filledAll_iff]
    intro child member
    cases List.mem_singleton.mp member
    rw [ExtentNode.filled_setLocation, ExtentNode.isEmpty_setLocation]
    refine ⟨?_, filled⟩
    by_contra empty
    rw [Bool.not_eq_false, ExtentNode.isEmpty_iff] at empty
    omega
  · exact filled

/-- An edited root without a sibling makes a sound tree. -/
theorem Sound.withRoot (sound : tree.Sound) {result : ExtentNode × Option ExtentNode}
    (sorted : Sorted (ExtentNode.childExtents (ExtentNode.pieces result)))
    (filled : ExtentNode.FilledAll (ExtentNode.pieces result)) :
    (tree.withRoot (E := E) result.1 result.2).All Sound := by
  refine withRoot_all fun single => ?_
  rw [single] at sorted filled
  refine ⟨?_, ?_, sound.room⟩
  · change Sorted (promoteRoot result.1).extents
    rw [extents_promoteRoot]
    simpa using sorted
  · apply promoteRoot_filled
    exact (ExtentNode.filledAll_iff.mp filled result.1 (List.mem_singleton.mpr rfl)).2

/-- An extent that overlaps no record is apart from all. -/
theorem apart_of_accepted {extent : Extent} {other : Prop} (accepted :
      ¬ (tree.root.overlaps extent.logical extent.logicalEnd = true ∨ other)) :
    extent.Apart tree.root.extents := by
  intro block low high covered
  obtain ⟨entry, member, begins, ends⟩ := covered_iff.mp covered
  apply accepted
  refine Or.inl (List.any_eq_true.mpr ⟨entry, member, ?_⟩)
  simp only [Extent.overlaps, Bool.and_eq_true, decide_eq_true_eq]
  omega

theorem Sound.insert (sound : tree.Sound) (extent : Extent) :
    (tree.insert (E := E) extent).All Sound := by
  have wide : 0 < tree.blockCapacity := Nat.zero_lt_of_lt sound.room
  refine (Extent.new_encodable _ _ _ _).bind fun checked own => ?_
  have positive : 0 < extent.length := by simpa [own.1] using own.2.positive
  refine all_refuseIf_bind fun accepted => ?_
  refine (ExtentNode.insert_inserted extent tree.blockCapacity tree.root
    tree.blockCapacity).bind fun result found => ?_
  obtain ⟨after, inserted, split⟩ := found
  obtain ⟨sorted, filled, inhabited⟩ :=
    inserted.sorted positive wide sound.sorted sound.filled (apart_of_accepted accepted)
  apply sound.withRoot
  · rwa [split, ExtentNode.childExtents_splitOver]
  · rw [split]
    exact ExtentNode.filledAll_splitOver wide filled inhabited

theorem Sound.setState (sound : tree.Sound) (start stop : Nat) (state : ExtentState) :
    (tree.setState (E := E) start stop state).All Sound := by
  have wide : 0 < tree.blockCapacity := Nat.zero_lt_of_lt sound.room
  refine all_ite (fun _ => sound) (fun touched => ?_)
  simp only [not_or, not_le, Bool.not_eq_false] at touched
  have inhabited : tree.root.isEmpty = false := by
    -- some record has another state
    by_contra empty
    rw [Bool.not_eq_false] at empty
    have none := ExtentNode.extents_of_isEmpty empty
    simp [none, hasDifferentState] at touched
  refine ((ExtentNode.setStateRange_sorted touched.1 state tree.blockCapacity tree.blockCapacity
    tree.root).and (ExtentNode.setStateRange_filled touched.1 state wide tree.root
      tree.blockCapacity wide sound.sorted sound.filled inhabited)).bind fun result kept => ?_
  exact sound.withRoot (kept.1.sorted sound.sorted) kept.2

theorem Promoted.filled {node root : ExtentNode} (promoted : Promoted node root)
    (filled : node.Filled) : root.Filled := by
  induction promoted with
  | leaf location dirty changed extents => exact ExtentNode.filled_leaf .root changed extents
  | bare => exact ExtentNode.filled_leaf .root true []
  | only location dirty inside induction =>
    simp only [ExtentNode.filled_branch, ExtentNode.FilledAll] at filled
    exact induction filled.2.1
  | whole location dirty changed first second rest =>
    rw [ExtentNode.filled_branch] at filled ⊢
    exact filled

theorem Sound.remove (sound : tree.Sound) (start stop : Nat) :
    (tree.remove (E := E) start stop).All fun result =>
      result.1.Sound ∧ Sorted result.2 := by
  refine all_ite (fun _ => ⟨sound, sorted_nil⟩) (fun range => ?_)
  refine ((ExtentNode.removeRange_sorted (Nat.lt_of_not_le range) tree.root _).and
    (ExtentNode.removeRange_filled tree.root _ sound.filled)).bind fun result kept => ?_
  refine (collapseRoot_promoted result.2.2.nodes result.2.1).bind fun collapsed promoted => ?_
  have sorted := kept.1.sorted sound.sorted sorted_nil
    fun _ _ absurd => (covered_nil absurd).elim
  refine ⟨⟨?_, promoted.filled kept.2, sound.room⟩, sorted.2⟩
  change Sorted collapsed.1.extents
  rw [promoted.extents]
  exact sorted.1

end ExtentTree

/-! ## Decoded trees are sound -/

namespace ExtentNode

mutual

/-- All nodes below have blocks and entries, and all leaves one depth. -/
def Stored (capacity : Nat) : Nat → ExtentNode → Prop
  | 0, .leaf _ _ _ => True
  | below + 1, .branch _ _ children => StoredAll capacity below children
  | _, _ => False

def StoredAll (capacity : Nat) : Nat → List ExtentNode → Prop
  | _, [] => True
  | depth, child :: rest =>
    (0 < child.entryCount ∧ child.entryCount ≤ capacity ∧
      child.location.isBlock = true) ∧
      child.Stored capacity depth ∧ StoredAll capacity depth rest

end

mutual

theorem filled_of_stored {capacity : Nat} :
    (node : ExtentNode) → (depth : Nat) → node.Stored capacity depth → node.Filled
  | .leaf location dirty extents, _, _ => filled_leaf location dirty extents
  | .branch _ _ _, 0, stored => by simp only [Stored] at stored
  | .branch _ _ children, below + 1, stored => by
    simp only [Stored] at stored
    rw [filled_branch]
    exact filledAll_of_storedAll children below stored

theorem filledAll_of_storedAll {capacity : Nat} :
    (children : List ExtentNode) → (depth : Nat) → StoredAll capacity depth children →
      FilledAll children
  | [], _, _ => by simp only [FilledAll]
  | child :: rest, depth, stored => by
    simp only [StoredAll] at stored
    simp only [FilledAll]
    refine ⟨?_, filled_of_stored child depth stored.2.1,
      filledAll_of_storedAll rest depth stored.2.2⟩
    by_contra empty
    rw [Bool.not_eq_false, isEmpty_iff] at empty
    omega

end

mutual

theorem validate_stored (blockCapacity : Nat) (root : Bool) :
    (node : ExtentNode) →
      (node.validate (E := E) blockCapacity root).All fun _ =>
        node.Stored blockCapacity node.depth ∧
          node.entryCount ≤ (if root = true then rootCapacity else blockCapacity) ∧
          (root = false → 0 < node.entryCount)
  | .leaf location dirty extents => by
    rw [validate]
    refine all_refuseIf_bind fun accepted => ?_
    refine (all_true _).mono fun _ _ => ?_
    rw [not_or, not_lt] at accepted
    refine ⟨by simp only [depth, Stored], accepted.1, fun below => ?_⟩
    have some : ¬ extents.isEmpty = true := fun empty => accepted.2 ⟨below, empty⟩
    rw [List.isEmpty_iff] at some
    exact List.length_pos_iff.mpr some
  | .branch location dirty [] => by
    rw [validate]
    exact all_refuseIf_bind fun accepted => absurd (Or.inl rfl) accepted
  | .branch location dirty (child :: rest) => by
    rw [validate]
    refine all_refuseIf_bind fun accepted => ?_
    refine (validateChildren_stored blockCapacity child.depth none
      (child :: rest)).bind fun _ below => ?_
    refine all_refuseIf fun _ => ⟨?_, ?_, fun _ => ?_⟩
    · simp only [depth, Stored]
      exact below
    · rw [not_or, not_lt] at accepted
      exact accepted.2
    · exact Nat.zero_lt_succ _

theorem validateChildren_stored (blockCapacity childDepth : Nat) :
    (previous : Option Nat) → (children : List ExtentNode) →
      (validateChildren (E := E) blockCapacity childDepth previous children).All fun _ =>
        StoredAll blockCapacity childDepth children
  | _, [] => by
    rw [validateChildren]
    simp only [StoredAll, all_done]
  | previous, child :: rest => by
    rw [validateChildren]
    refine all_refuseIf_bind fun accepted => ?_
    refine all_orFail_bind fun first _ => ?_
    refine all_refuseIf_bind fun _ => ?_
    refine (validate_stored blockCapacity false child).bind fun _ own => ?_
    refine (validateChildren_stored blockCapacity childDepth (some first)
      rest).mono fun _ others => ?_
    simp only [not_or, not_not, Bool.not_eq_false] at accepted
    simp only [StoredAll]
    rw [accepted.1] at own
    exact ⟨⟨own.2.2 rfl, own.2.1, accepted.2⟩, own.1, others⟩

end

theorem loadExtents_encodable (bytes : Bytes) (left index : Nat) :
    (loadExtents (E := E) bytes left index).All fun extents =>
      ∀ extent ∈ extents, extent.Encodable ∧ extent.logical < 2 ^ 32 := by
  induction left generalizing index with
  | zero =>
    intro extent member
    cases member
  | succ left induction =>
    refine (Extent.new_encodable _ _ _ _).bind fun extent own => ?_
    refine (induction (index + 1)).bind fun rest others => ?_
    refine List.forall_mem_cons.mpr ⟨⟨own.2, ?_⟩, others⟩
    rw [own.1]
    exact Bytes.leAt_lt 4 bytes _

section Load

variable {blockCapacity blocksCount : Nat} {identity : ExtentIdentity}
    {readBlock : Nat → Query (Error E) Bytes}

theorem loadChildren_extents
    {loadChild : Bytes → NodeLocation → List Nat → Query (Error E) (ExtentNode × List Nat)}
    (bytes : Bytes)
    (below :
      ∀ bytes location visited, (loadChild bytes location visited).All fun result =>
          ∀ extent ∈ result.1.extents, extent.Encodable ∧ extent.logical < 2 ^ 32)
    (left index : Nat) (previous : Option Nat) (visited : List Nat) :
    (loadChildren bytes blockCapacity blocksCount identity readBlock
        loadChild left index previous visited).All fun result =>
      ∀ extent ∈ childExtents result.1, extent.Encodable ∧ extent.logical < 2 ^ 32 := by
  induction left generalizing index previous visited with
  | zero =>
    intro extent member
    simp at member
  | succ left induction =>
    iterate 2 refine all_refuseIf_bind fun _ => ?_
    refine all_bind_of_forall fun _ => ?_
    refine all_bind_of_forall fun childBytes => ?_
    refine all_refuseIf_bind fun _ => ?_
    refine all_bind_of_forall fun _ => ?_
    refine (below childBytes _ _).bind fun child own => ?_
    refine all_refuseIf_bind fun _ => ?_
    refine (induction _ _ _).bind fun rest others => ?_
    intro extent member
    simp only [childExtents_cons, List.mem_append] at member
    cases member with
    | inl here => exact own extent here
    | inr later => exact others extent later

theorem loadNode_extents (depth : Nat) :
    (capacity : Nat) → (bytes : Bytes) → (location : NodeLocation) →
      (visited : List Nat) →
      (loadNode blockCapacity blocksCount identity readBlock depth capacity
          bytes location visited).All fun result =>
        ∀ extent ∈ result.1.extents, extent.Encodable ∧ extent.logical < 2 ^ 32 := by
  induction depth with
  | zero =>
    intro capacity bytes location visited
    refine all_bind_of_forall fun _ => ?_
    iterate 2 refine all_refuseIf_bind fun _ => ?_
    refine all_bind_of_forall fun _ => ?_
    refine (loadExtents_encodable bytes _ 0).bind fun extents own => ?_
    change ∀ extent ∈ (leaf _ _ _).extents, _
    rw [ExtentNode.extents]
    exact own
  | succ below induction =>
    intro capacity bytes location visited
    refine all_bind_of_forall fun _ => ?_
    iterate 2 refine all_refuseIf_bind fun _ => ?_
    refine all_bind_of_forall fun _ => ?_
    refine (loadChildren_extents bytes (induction _) _ _ _ _).bind fun result own => ?_
    change ∀ extent ∈ (branch _ _ _).extents, _
    rw [ExtentNode.extents]
    exact own

end Load

end ExtentNode

namespace ExtentTree

/-- What decoding checks. -/
structure Loaded (blockSize : Nat) (tree : ExtentTree) : Prop where
  large : 16 ≤ blockSize
  capacity : tree.blockCapacity = (blockSize - 16) / 12
  room : rootCapacity < tree.blockCapacity
  stored : tree.root.Stored tree.blockCapacity tree.root.depth
  root : tree.root.entryCount ≤ rootCapacity
  ordered : Ordered tree.root.extents
  extents : ∀ extent ∈ tree.root.extents, extent.Encodable ∧ extent.logical < 2 ^ 32

theorem load_loaded (root : Bytes) (blockSize blocksCount : Nat) (identity : ExtentIdentity)
    (readBlock : Nat → Query (Error E) Bytes) :
    (load root blockSize blocksCount identity readBlock).All (Loaded blockSize) := by
  refine all_refuseIf_bind fun large => ?_
  refine all_refuseIf_bind fun _ => ?_
  refine all_bind_of_forall fun depth => ?_
  refine all_refuseIf_bind fun _ => ?_
  refine (ExtentNode.loadNode_extents depth _ root .root []).bind fun node records => ?_
  have built :
      (new (E := E) node.1 ((blockSize - 16) / 12)).All fun tree =>
        Ordered tree.root.extents → Loaded blockSize tree := by
    refine all_refuseIf_bind fun accepted => ?_
    refine (ExtentNode.validate_stored _ true node.1).bind fun _ stored ordered => ?_
    exact ⟨not_lt.mp large, rfl, Nat.lt_of_not_le fun small => accepted (Or.inr small),
      stored.1, stored.2.1, ordered, records⟩
  refine built.bind fun tree loaded => ?_
  refine (dataExtents_eq tree).bind fun extents same => ?_
  refine (checkExtents_ordered blocksCount node.2 [] extents
    List.Pairwise.nil).bind fun _ ordered => ?_
  rw [List.nil_append, same] at ordered
  exact loaded ordered

theorem Loaded.sound {blockSize : Nat} {tree : ExtentTree} (loaded : tree.Loaded blockSize) :
    tree.Sound where
  sorted := ⟨loaded.ordered, fun extent member => (loaded.extents extent member).1.positive⟩
  filled := ExtentNode.filled_of_stored _ _ loaded.stored
  room := loaded.room

/-! ## Edits follow the map -/

variable {tree : ExtentTree}

/-- A tree that follows an edited map, and the records that left it. -/
structure Follows (map deleted : BlockMap)
    (result : ExtentTree × List Extent) : Prop where
  sound : result.1.Sound
  map : result.1.blockMap = map
  removed : Sorted result.2 ∧ BlockMap.ofExtents result.2 = deleted

theorem blockMap_eq (sound : tree.Sound) {map : BlockMap} (same :
      ∀ logical physical state, tree.Maps { logical, physical, state } ↔
          map logical = some (physical, state)) :
    tree.blockMap = map :=
  ofExtents_eq sound.sorted same

theorem ofExtents_nil : BlockMap.ofExtents [] = fun _ => none := rfl

theorem insert_follows (sound : tree.Sound) (extent : Extent) :
    (tree.insert (E := E) extent).All fun after =>
      after.Sound ∧ after.blockMap = tree.blockMap.insert extent := by
  have checked :
      (tree.insert (E := E) extent).All fun _ =>
        extent.Apart tree.root.extents := by
    refine all_bind_of_forall fun _ => ?_
    refine all_refuseIf_bind fun accepted => ?_
    refine all_bind_of_forall fun result => ?_
    refine (all_true _).mono fun _ _ => ?_
    exact apart_of_accepted accepted
  refine ((sound.insert extent).and ((insert_maps tree extent).and
    checked)).mono fun after kept => ?_
  obtain ⟨afterSound, maps, apart⟩ := kept
  refine ⟨afterSound, blockMap_eq afterSound fun logical physical state => ?_⟩
  rw [maps, sound.maps_iff, BlockMap.insert]
  split_ifs with covers
  · rw [Extent.covers_iff] at covers
    constructor
    · rintro (⟨-, -, place, stated⟩ | old)
      · simp only at place stated
        rw [place, stated]
      · refine absurd ?_ (apart logical covers.1 covers.2)
        exact ⟨physical, state, (ofExtents_eq_some sound.sorted).mp old⟩
    · intro same
      cases same
      exact Or.inl ⟨covers.1, covers.2, rfl, rfl⟩
  · rw [Extent.covers_iff] at covers
    constructor
    · rintro (⟨low, high, -⟩ | old)
      · exact absurd ⟨low, high⟩ covers
      · exact old
    · exact Or.inr

theorem setState_follows (sound : tree.Sound) (start stop : Nat) (state : ExtentState) :
    (tree.setState (E := E) start stop state).All fun after =>
      after.Sound ∧ after.blockMap = tree.blockMap.setState start stop state := by
  refine ((sound.setState start stop state).and
    (setState_maps tree start stop state)).mono fun after kept => ?_
  obtain ⟨afterSound, maps⟩ := kept
  refine ⟨afterSound, blockMap_eq afterSound fun logical physical given => ?_⟩
  rw [maps, BlockMap.setState, Mapping.Restated]
  simp only [Mapping.Within, sound.maps_iff]
  split_ifs with within
  · simp only [within, and_self, true_and, not_true_eq_false, false_and, or_false]
    rw [Option.map_eq_some_iff]
    constructor
    · rintro ⟨rfl, old, known⟩
      exact ⟨(physical, old), known, rfl⟩
    · rintro ⟨place, known, same⟩
      cases same
      exact ⟨rfl, place.2, known⟩
  · simp only [within, false_and, not_false_eq_true, true_and, false_or]

theorem remove_follows (sound : tree.Sound) (start stop : Nat) :
    (tree.remove (E := E) start stop).All (Follows (tree.blockMap.remove start stop)
        (tree.blockMap.within start stop)) := by
  refine ((sound.remove start stop).and (remove_cuts tree start stop)).mono fun result kept => ?_
  obtain ⟨⟨afterSound, gone⟩, cuts⟩ := kept
  refine ⟨afterSound, blockMap_eq afterSound
    fun logical physical state => ?_, gone, ofExtents_eq gone
    fun logical physical state => ?_⟩
  · rw [Maps, cuts.kept, ← Maps, sound.maps_iff, BlockMap.remove]
    simp only [Mapping.Within]
    split_ifs with within
    · simp [within]
    · simp [within]
  · rw [cuts.removed, ← Maps, sound.maps_iff, BlockMap.within]
    simp only [Mapping.Within, mapped_nil, false_or]
    split_ifs with within
    · simp [within]
    · simp [within]

theorem edit_follows (sound : tree.Sound) (edit : Edit) :
    (tree.edit (E := E) edit).All
      (Follows (tree.blockMap.edit edit) (tree.blockMap.deleted edit)) := by
  cases edit with
  | insert extent =>
    refine (insert_follows sound extent).bind fun after kept => ?_
    exact ⟨kept.1, kept.2, sorted_nil, ofExtents_nil⟩
  | remove start stop => exact remove_follows sound start stop
  | setState start stop state =>
    refine (setState_follows sound start stop state).bind fun after kept => ?_
    exact ⟨kept.1, kept.2, sorted_nil, ofExtents_nil⟩

theorem edits_follow (sound : tree.Sound) (edits : List Edit) :
    (tree.edits (E := E) edits).All fun result =>
      result.1.Sound ∧ result.1.blockMap = (tree.blockMap.edits edits).1 ∧
        (∀ removed ∈ result.2, Sorted removed) ∧
        result.2.map BlockMap.ofExtents = (tree.blockMap.edits edits).2 := by
  induction edits generalizing tree with
  | nil => exact ⟨sound, rfl, List.forall_mem_nil _, rfl⟩
  | cons edit rest induction =>
    refine (edit_follows sound edit).bind fun result follows => ?_
    refine (induction follows.sound).bind fun later kept => ?_
    rw [follows.map] at kept
    refine ⟨kept.1, kept.2.1, ?_, ?_⟩
    · intro removed member
      cases List.mem_cons.mp member with
      | inl own => exact own ▸ follows.removed.1
      | inr other => exact kept.2.2.1 removed other
    · simp only [List.map_cons, BlockMap.edits, follows.removed.2, kept.2.2.2]

/--
Edits of a decoded tree follow its map: lookups answer what the edited map
says, and each removal returns, in order, the blocks the map lost.
-/
theorem extent_edits_refine (root : Bytes) (blockSize blocksCount : Nat)
    (identity : ExtentIdentity) (readBlock : Nat → Query (Error E) Bytes)
    (edits : List Edit) :
    (load root blockSize blocksCount identity readBlock).All fun tree =>
      (tree.edits (E := E) edits).All fun result =>
        (∀ logical, result.1.lookup logical =
            (BlockMap.edits (BlockMap.ofExtents tree.root.extents) edits).1 logical) ∧
          (∀ removed ∈ result.2, Ordered removed) ∧
          result.2.map BlockMap.ofExtents =
            (BlockMap.edits (BlockMap.ofExtents tree.root.extents) edits).2 := by
  refine (load_loaded root blockSize blocksCount identity readBlock).mono fun tree loaded => ?_
  refine (edits_follow loaded.sound edits).mono fun result kept => ?_
  refine ⟨fun logical => ?_, ?_, kept.2.2.2⟩
  · rw [kept.1.lookup_eq, kept.2.1]
    rfl
  · exact fun removed member => (kept.2.2.1 removed member).ordered

/-! ## A run -/

/-- A root of one record: eight blocks from logical 0, stored from 100. -/
def oneRecordRoot : Bytes :=
  [0x0A, 0xF3, 1, 0, 4, 0, 0, 0, 0, 0, 0, 0,
    0, 0, 0, 0, 8, 0, 0, 0, 100, 0, 0, 0] ++ List.replicate 36 0

def plainIdentity : ExtentIdentity :=
  { checksumSeed := 0, inode := 12, generation := 0, metadataChecksums := false }

/-- A record behind a hole, a cut through the first, a change of state. -/
def sampleEdits : List Edit :=
  [.insert { logical := 20, physical := 200, length := 4, state := .unwritten },
    .remove 2 5, .setState 6 22 .written]

theorem sample_edits_refine :
    ((((load (E := Unit) oneRecordRoot 4096 1000 plainIdentity
            fun _ => .fail .outOfMemory).bind fun tree =>
          tree.edits sampleEdits).eval
        fun _ _ => .error .outOfMemory).toOption.map fun result =>
      ([1, 3, 21, 22].map result.1.lookup, result.2)) =
        some ([some (101, .written), none, some (201, .written), some (202, .unwritten)],
            [[], [{ logical := 2, physical := 102, length := 3, state := .written }], []]) ∧
      (load (E := Unit) oneRecordRoot 4096 1000 plainIdentity
          fun _ => .fail .outOfMemory).All fun tree =>
        (tree.edits (E := Unit) sampleEdits).All fun result =>
          ∀ logical, result.1.lookup logical =
              (BlockMap.edits (BlockMap.ofExtents tree.root.extents) sampleEdits).1 logical :=
  ⟨by decide +kernel, (extent_edits_refine oneRecordRoot 4096 1000 plainIdentity
      (fun _ => .fail .outOfMemory) sampleEdits).mono
      fun _ kept => kept.mono fun _ both => both.1⟩

end ExtentTree

end RetroOS.Ext
