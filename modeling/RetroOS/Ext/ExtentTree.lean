import RetroOS.Ext.Filesystem

/-!
# Extent trees in memory

The decoded extent tree of an inode and its edits: insertion with leaf
merging, node splitting and root promotion; removal with node release and
root collapse; changes of the initialised state; and the two directions of
the on-disk format.

A node keeps where it is stored.  A node that a split or a promotion made
has no block yet; its caller gives it one before the nodes marked dirty are
serialised.
-/

namespace RetroOS.Ext

open Lib Lib.Bytes
open Query (orFail refuseIf)

variable {E : Type}

/-! ## Extents -/

def maxDepth : Nat := 5
def rootCapacity : Nat := 4
def writtenMaxLen : Nat := 32768
def unwrittenMaxLen : Nat := 32767

/-- What the checksum of an extent block is bound to. -/
structure ExtentIdentity where
  checksumSeed : Nat
  inode : Nat
  generation : Nat
  metadataChecksums : Bool

structure SerializedNode where
  number : Nat
  bytes : Bytes

inductive ExtentState where
  | written
  | unwritten
  deriving DecidableEq, Repr

def ExtentState.maxLen : ExtentState → Nat
  | .written => writtenMaxLen
  | .unwritten => unwrittenMaxLen

/-- One leaf record, in decoded form. -/
structure Extent where
  logical : Nat
  physical : Nat
  length : Nat
  state : ExtentState
  deriving DecidableEq, Repr

namespace Extent

/-- The record, unless a field is outside what the format can hold. -/
def new (logical physical length : Nat) (state : ExtentState) : Query (Error E) Extent := do
  refuseIf (length = 0 ∨ length > state.maxLen ∨ physical = 0 ∨
      physical >>> 48 ≠ 0 ∨ physical + length > 2 ^ 48)
    (.corrupt .invalidExtentTree)
  return { logical, physical, length, state }

variable (extent : Extent)

def logicalEnd : Nat := extent.logical + extent.length

def overlaps (start stop : Nat) : Bool := extent.logical < stop && start < extent.logicalEnd

/-- The extent maps the logical block. -/
def covers (logical : Nat) : Bool := extent.logical ≤ logical && logical < extent.logicalEnd

def canMerge (right : Extent) : Bool :=
  extent.state == right.state && extent.logicalEnd == right.logical &&
    extent.physical + extent.length == right.physical &&
    decide (extent.length + right.length ≤ extent.state.maxLen)

/-- The record for the part `[start, stop)`; none when the part is empty. -/
def part (start stop : Nat) (state : ExtentState) : Query (Error E) (List Extent) :=
  if start < stop then do
    let logical ← orFail (checked 32 start) (.corrupt .invalidExtentTree)
    let length ← orFail (checked 32 (stop - start)) (.corrupt .invalidExtentTree)
    return [{ logical, physical := extent.physical + (start - extent.logical), length, state }]
  else return []

end Extent

/-- Merge adjacent records, the pending one with its successors first. -/
def mergeFrom (current : Extent) : List Extent → List Extent
  | [] => [current]
  | right :: rest =>
    if current.canMerge right = true then
      mergeFrom { current with length := current.length + right.length } rest
    else current :: mergeFrom right rest

def mergeLeaf : List Extent → List Extent
  | [] => []
  | first :: rest => mergeFrom first rest

/-- Insert a record at its place in a sorted leaf. -/
def insertExtent (extent : Extent) (extents : List Extent) : List Extent :=
  extents.takeWhile (fun entry => entry.logical < extent.logical) ++
    extent :: extents.dropWhile (fun entry => entry.logical < extent.logical)

/-- The records of one extent after a range changed its state. -/
def setStateExtent (start stop : Nat) (state : ExtentState)
    (extent : Extent) : Query (Error E) (List Extent) :=
  if extent.state = state ∨ extent.overlaps start stop = false then .done [extent]
  else do
    let middleStart := max start extent.logical
    let middleEnd := min stop extent.logicalEnd
    let before ← extent.part extent.logical middleStart extent.state
    let middle ← extent.part middleStart middleEnd state
    let after ← extent.part middleEnd extent.logicalEnd extent.state
    return before ++ middle ++ after

def setStateExtents (start stop : Nat) (state : ExtentState) :
    List Extent → Query (Error E) (List Extent)
  | [] => .done []
  | extent :: rest => do
    let pieces ← setStateExtent start stop state extent
    let rest ← setStateExtents start stop state rest
    return pieces ++ rest

/-- Some extent of another state overlaps the range. -/
def hasDifferentState (start stop : Nat) (state : ExtentState) (extents : List Extent) : Bool :=
  extents.any fun extent => extent.state != state && extent.overlaps start stop

/--
Cut a range out of the records of a leaf.  Returns the surviving records and
the removed ones, appended to those removed before.
-/
def removeExtents (start stop : Nat) :
    List Extent → List Extent → Query (Error E) (List Extent × List Extent)
  | [], removed => .done ([], removed)
  | extent :: rest, removed =>
    if extent.overlaps start stop = true then do
      .reserve (.done ())
      let cut ← extent.part (max start extent.logical) (min stop extent.logicalEnd) extent.state
      let before ← extent.part extent.logical start extent.state
      let after ← extent.part stop extent.logicalEnd extent.state
      let (kept, removed) ← removeExtents start stop rest (removed ++ cut)
      return (before ++ after ++ kept, removed)
    else do
      let (kept, removed) ← removeExtents start stop rest removed
      return (extent :: kept, removed)

def removeFromLeaf (start stop : Nat) (extents removed : List Extent) :
    Query (Error E) (Bool × List Extent × List Extent) := do
  .reserve (.done ())
  let (output, removed) ← removeExtents start stop extents removed
  return (extents.any (·.overlaps start stop), mergeLeaf output, removed)

/-! ## Nodes -/

inductive NodeLocation where
  | root
  | block (number : Nat)
  | unassigned
  deriving DecidableEq, Repr

def NodeLocation.isBlock : NodeLocation → Bool
  | .block _ => true
  | _ => false

/-- One decoded node; its records or children stand in logical order. -/
inductive ExtentNode where
  | leaf (location : NodeLocation) (dirty : Bool) (extents : List Extent)
  | branch (location : NodeLocation) (dirty : Bool) (children : List ExtentNode)

namespace ExtentNode

def location : ExtentNode → NodeLocation
  | .leaf location _ _ => location
  | .branch location _ _ => location

def dirty : ExtentNode → Bool
  | .leaf _ dirty _ => dirty
  | .branch _ dirty _ => dirty

def setLocation (location : NodeLocation) : ExtentNode → ExtentNode
  | .leaf _ dirty extents => .leaf location dirty extents
  | .branch _ dirty children => .branch location dirty children

def entryCount : ExtentNode → Nat
  | .leaf _ _ extents => extents.length
  | .branch _ _ children => children.length

def isEmpty : ExtentNode → Bool
  | .leaf _ _ extents => extents.isEmpty
  | .branch _ _ children => children.isEmpty

def depth : ExtentNode → Nat
  | .leaf _ _ _ => 0
  | .branch _ _ [] => 1
  | .branch _ _ (child :: _) => child.depth + 1

def firstLogical : ExtentNode → Option Nat
  | .leaf _ _ extents => extents.head?.map (·.logical)
  | .branch _ _ [] => none
  | .branch _ _ (child :: _) => child.firstLogical

/-- The node starts at or before a logical block. -/
def startsBy (logical : Nat) (node : ExtentNode) : Bool := node.firstLogical.any (· ≤ logical)

mutual

/-- The records below a node, in order. -/
def extents : ExtentNode → List Extent
  | .leaf _ _ extents => extents
  | .branch _ _ children => childExtents children

def childExtents : List ExtentNode → List Extent
  | [] => []
  | child :: rest => child.extents ++ childExtents rest

end

mutual

/-- The blocks that hold a node and the nodes below it. -/
def blocks : ExtentNode → List Nat
  | .leaf (.block number) _ _ => [number]
  | .leaf _ _ _ => []
  | .branch (.block number) _ children => number :: childBlocks children
  | .branch _ _ children => childBlocks children

def childBlocks : List ExtentNode → List Nat
  | [] => []
  | child :: rest => child.blocks ++ childBlocks rest

end

/-! ## Validation -/

/-- The records of a leaf are acceptable and do not overlap. -/
def validateExtents : Option Nat → List Extent → Query (Error E) Unit
  | _, [] => .done ()
  | previous, extent :: rest => do
    let _ ← Extent.new (E := E) extent.logical extent.physical extent.length extent.state
    refuseIf (previous.any (extent.logical < ·) = true) (.corrupt .invalidExtentTree)
    validateExtents (some extent.logicalEnd) rest

mutual

def validate (blockCapacity : Nat) (root : Bool) : ExtentNode → Query (Error E) Unit
  | .leaf _ _ extents => do
    let capacity := if root = true then rootCapacity else blockCapacity
    refuseIf (extents.length > capacity ∨ root = false ∧ extents.isEmpty = true)
      (.corrupt .invalidExtentTree)
    validateExtents none extents
  | .branch location dirty children => do
    let capacity := if root = true then rootCapacity else blockCapacity
    refuseIf (children.isEmpty = true ∨ children.length > capacity) (.corrupt .invalidExtentTree)
    validateChildren blockCapacity ((children.head?.map depth).getD 0) none children
    refuseIf ((branch location dirty children).depth > maxDepth) (.corrupt .invalidExtentTree)

def validateChildren (blockCapacity childDepth : Nat) :
    Option Nat → List ExtentNode → Query (Error E) Unit
  | _, [] => .done ()
  | previous, child :: rest => do
    refuseIf (child.depth ≠ childDepth ∨ child.location.isBlock = false)
      (.corrupt .invalidExtentTree)
    let first ← orFail child.firstLogical (.corrupt .invalidExtentTree)
    refuseIf (previous.any (first ≤ ·) = true) (.corrupt .invalidExtentTree)
    child.validate blockCapacity false
    validateChildren blockCapacity childDepth (some first) rest

end

/-! ## Edits -/

/-- A node over its capacity keeps its first half; the rest is a sibling. -/
def splitOver (capacity : Nat) (node : ExtentNode) : ExtentNode × Option ExtentNode :=
  if node.entryCount ≤ capacity then (node, none)
  else
    match node with
    | .leaf location dirty extents =>
      let half := extents.length / 2
      (.leaf location dirty (extents.take half), some (.leaf .unassigned true (extents.drop half)))
    | .branch location dirty children =>
      let half := children.length / 2
      (.branch location dirty (children.take half),
        some (.branch .unassigned true (children.drop half)))

/-- Room in the parent for a sibling. -/
def reserveSibling : Option ExtentNode → Query (Error E) Unit
  | none => .done ()
  | some _ => .reserve (.done ())

mutual

def insert (extent : Extent) (blockCapacity : Nat) :
    ExtentNode → (capacity : Nat) → Query (Error E) (ExtentNode × Option ExtentNode)
  | .leaf location _ extents, capacity => do
    .reserve (.done ())
    return splitOver capacity (.leaf location true (mergeLeaf (insertExtent extent extents)))
  | .branch location _ children, capacity => do
    let children ← insertChild extent blockCapacity children
    return splitOver capacity (.branch location true children)

/-- Descend into the last child that starts at or before the extent. -/
def insertChild (extent : Extent) (blockCapacity : Nat) :
    List ExtentNode → Query (Error E) (List ExtentNode)
  -- A branch always has children.
  | [] => .fail (.corrupt .invalidExtentTree)
  | child :: rest =>
    if rest.head?.any (startsBy extent.logical) = true then do
      let rest ← insertChild extent blockCapacity rest
      return child :: rest
    else do
      let (child, sibling) ← child.insert extent blockCapacity blockCapacity
      reserveSibling sibling
      return child :: (sibling.toList ++ rest)

end

mutual

def setStateRange (start stop : Nat) (state : ExtentState) (blockCapacity : Nat) :
    ExtentNode → (capacity : Nat) → Query (Error E) (ExtentNode × Option ExtentNode)
  | .leaf location dirty extents, capacity => do
    .reserve (.done ())
    let output ← setStateExtents start stop state extents
    let changed := hasDifferentState start stop state extents
    return splitOver capacity (.leaf location (dirty || changed) (mergeLeaf output))
  | .branch location dirty children, capacity => do
    let (changed, children) ← setStateChildren start stop state blockCapacity children
    return splitOver capacity (.branch location (dirty || changed) children)

def setStateChildren (start stop : Nat) (state : ExtentState) (blockCapacity : Nat) :
    List ExtentNode → Query (Error E) (Bool × List ExtentNode)
  | [] => .done (false, [])
  | child :: rest => do
    let (updated, sibling) ← child.setStateRange start stop state blockCapacity blockCapacity
    reserveSibling sibling
    let (changed, rest) ← setStateChildren start stop state blockCapacity rest
    return (updated.dirty != child.dirty || sibling.isSome || changed,
      updated :: (sibling.toList ++ rest))

end

mutual

/-- Append the blocks of a node that left the tree. -/
def collectBlocks : ExtentNode → List Nat → Query (Error E) (List Nat)
  | .leaf (.block number) _ _, blocks => .reserve (.done (blocks ++ [number]))
  | .leaf _ _ _, blocks => .done blocks
  | .branch (.block number) _ children, blocks =>
    .reserve (collectChildBlocks children (blocks ++ [number]))
  | .branch _ _ children, blocks => collectChildBlocks children blocks

def collectChildBlocks : List ExtentNode → List Nat → Query (Error E) (List Nat)
  | [], blocks => .done blocks
  | child :: rest, blocks => do
    let blocks ← child.collectBlocks blocks
    collectChildBlocks rest blocks

end

/-- What a removal took out of a tree so far. -/
structure Removal where
  extents : List Extent
  nodes : List Nat

mutual

/-- Cut a range out of a node; also whether the node changed. -/
def removeRange (start stop : Nat) :
    ExtentNode → Removal → Query (Error E) (Bool × ExtentNode × Removal)
  | .leaf location dirty extents, removal => do
    let (changed, extents, removed) ← removeFromLeaf start stop extents removal.extents
    return (changed, .leaf location (dirty || changed) extents, { removal with extents := removed })
  | .branch location dirty children, removal => do
    let (changed, children, removal) ← removeChildren start stop children removal
    return (changed, .branch location (dirty || changed) children, removal)

def removeChildren (start stop : Nat) :
    List ExtentNode → Removal → Query (Error E) (Bool × List ExtentNode × Removal)
  | [], removal => .done (false, [], removal)
  | child :: rest, removal => do
    let (changed, child, removal) ← child.removeRange start stop removal
    if child.isEmpty = true then do
      let nodes ← child.collectBlocks removal.nodes
      let (_, rest, removal) ← removeChildren start stop rest { removal with nodes }
      return (true, rest, removal)
    else do
      let (after, rest, removal) ← removeChildren start stop rest removal
      return (changed || after, child :: rest, removal)

end

/-! ## Questions -/

/-- Some record covers the logical range. -/
def overlaps (node : ExtentNode) (start stop : Nat) : Bool :=
  node.extents.any (·.overlaps start stop)

def overlapsData (node : ExtentNode) (physical length : Nat) : Bool :=
  node.extents.any fun extent =>
    physical < extent.physical + extent.length && extent.physical < physical + length

def overlapsBlockRange (node : ExtentNode) (physical length : Nat) : Bool :=
  node.blocks.any fun block => physical ≤ block && block < physical + length

/-- The last record of a leaf that starts at or before a logical block. -/
def lookupExtents (logical : Nat) (extents : List Extent) : Option (Nat × ExtentState) := do
  let extent ← (extents.takeWhile fun extent => extent.logical ≤ logical).getLast?
  if logical < extent.logicalEnd then
    some (extent.physical + (logical - extent.logical), extent.state)
  else none

mutual

def find (logical : Nat) : ExtentNode → Option (Nat × ExtentState)
  | .leaf _ _ extents => lookupExtents logical extents
  | .branch _ _ children => findChild logical none children

/-- Descend into the last child that starts at or before the block. -/
def findChild (logical : Nat) (found : Option (Nat × ExtentState)) :
    List ExtentNode → Option (Nat × ExtentState)
  | [] => found
  | child :: rest =>
    if child.startsBy logical = true then findChild logical (child.find logical) rest
    else found

end

/-! ## The on-disk form -/

/-- Store the records of a leaf from an index on. -/
def putExtents : (index : Nat) → List Extent → Bytes → Bytes
  | _, [], target => target
  | index, extent :: rest, target =>
    let record := 12 + index * 12
    let encodedLength :=
      match extent.state with
      | .written => extent.length
      | .unwritten => extent.length + writtenMaxLen
    let target := putLe32 target record extent.logical
    let target := putLe16 target (record + 4) encodedLength
    let target := putLe16 target (record + 6) (extent.physical >>> 32)
    let target := putLe32 target (record + 8) extent.physical
    putExtents (index + 1) rest target

/-- Store the index records of a branch from an index on. -/
def putChildren : (index : Nat) → List ExtentNode → Bytes → Query (Error E) Bytes
  | _, [], target => .done target
  | index, child :: rest, target =>
    match child.location with
    | .block number => do
      let record := 12 + index * 12
      let first ← orFail child.firstLogical (.corrupt .invalidExtentTree)
      let target := putLe32 target record first
      let target := putLe32 target (record + 4) number
      let target := putLe16 target (record + 8) (number >>> 32)
      putChildren (index + 1) rest target
    | _ => .fail (.corrupt .invalidExtentTree)

def putEntries (target : Bytes) : ExtentNode → Query (Error E) Bytes
  | .leaf _ _ extents => .done (putExtents 0 extents target)
  | .branch _ _ children => putChildren 0 children target

/-- The header of a node in a cleared buffer. -/
def nodeHeader (length entries capacity depth : Nat) : Bytes :=
  let target := putLe16 (zeros length) 0 extentMagic
  let target := putLe16 target 2 entries
  let target := putLe16 target 4 capacity
  putLe16 target 6 depth

def writeNode (target : Bytes) (node : ExtentNode) (capacity : Nat) : Query (Error E) Bytes := do
  refuseIf (target.length < 12 + capacity * 12 ∨ node.entryCount > capacity)
    (.corrupt .invalidExtentTree)
  putEntries (nodeHeader target.length node.entryCount capacity node.depth) node

/-- The checksum of the records of an extent block. -/
def nodeChecksum (identity : ExtentIdentity) (capacity : Nat) (bytes : Bytes) : Nat :=
  crc32c identity.checksumSeed (leBytes 4 identity.inode ++ leBytes 4 identity.generation ++
      slice bytes 0 (12 + capacity * 12))

/-- Store the checksum behind the records, when the volume has checksums. -/
def sealNode (identity : ExtentIdentity) (capacity : Nat) (bytes : Bytes) : Bytes :=
  if identity.metadataChecksums = true then
    putLe32 bytes (12 + capacity * 12) (nodeChecksum identity capacity bytes)
  else bytes

def verifyNodeChecksum (bytes : Bytes) (capacity : Nat)
    (identity : ExtentIdentity) : Query (Error E) Unit :=
  if identity.metadataChecksums = true then do
    let checksumOffset := 12 + capacity * 12
    refuseIf (checksumOffset + 4 > bytes.length) (.corrupt .invalidExtentTree)
    refuseIf (nodeChecksum identity capacity bytes ≠ le32 bytes checksumOffset)
      (.corrupt (.extentChecksum identity.inode))
  else .done ()

/-- Serialise a node when it changed. -/
def serializeNode (blockSize capacity : Nat) (identity : ExtentIdentity)
    (node : ExtentNode) (out : List SerializedNode) :
    Query (Error E) (List SerializedNode) :=
  if node.dirty = true then
    match node.location with
    | .block number => do
      .reserve (.done ())
      let bytes ← writeNode (zeros blockSize) node capacity
      .reserve (.done ())
      return out ++ [{ number, bytes := sealNode identity capacity bytes }]
    | _ => .fail (.corrupt .invalidExtentTree)
  else .done out

mutual

def serialize (blockSize capacity : Nat) (identity : ExtentIdentity) :
    ExtentNode → List SerializedNode → Query (Error E) (List SerializedNode)
  | .leaf location dirty extents, out =>
    serializeNode blockSize capacity identity (.leaf location dirty extents) out
  | .branch location dirty children, out => do
    let out ← serializeNode blockSize capacity identity (.branch location dirty children) out
    serializeChildren blockSize capacity identity children out

def serializeChildren (blockSize capacity : Nat) (identity : ExtentIdentity) :
    List ExtentNode → List SerializedNode → Query (Error E) (List SerializedNode)
  | [], out => .done out
  | child :: rest, out => do
    let out ← child.serialize blockSize capacity identity out
    serializeChildren blockSize capacity identity rest out

end

def extentHeader (bytes : Bytes) (capacity : Nat) : Query (Error E) Nat := do
  refuseIf (bytes.length < 12 + capacity * 12 ∨ le16 bytes 0 ≠ extentMagic ∨
      le16 bytes 2 > capacity ∨ le16 bytes 4 ≠ capacity)
    (.corrupt .invalidExtentHeader)
  return le16 bytes 6

/-- The length of a record from its stored length. -/
def decodedLength (encodedLength : Nat) : Nat :=
  if encodedLength ≤ writtenMaxLen then encodedLength
  else encodedLength - writtenMaxLen

def decodedState (encodedLength : Nat) : ExtentState :=
  if encodedLength ≤ writtenMaxLen then .written else .unwritten

/-- Decode the records of a leaf from an index on. -/
def loadExtents (bytes : Bytes) : (left index : Nat) → Query (Error E) (List Extent)
  | 0, _ => .done []
  | left + 1, index => do
    let record := 12 + index * 12
    let encodedLength := le16 bytes (record + 4)
    let physical := le32 bytes (record + 8) ||| (le16 bytes (record + 6) <<< 32)
    let extent ← Extent.new (le32 bytes record) physical
        (decodedLength encodedLength) (decodedState encodedLength)
    let rest ← loadExtents bytes left (index + 1)
    return extent :: rest

/--
Decode the children of a branch from an index on.  `loadChild` decodes the
node of a block one level down.
-/
def loadChildren (bytes : Bytes) (blockCapacity blocksCount : Nat) (identity : ExtentIdentity)
    (readBlock : Nat → Query (Error E) Bytes)
    (loadChild : Bytes → NodeLocation → List Nat → Query (Error E) (ExtentNode × List Nat)) :
    (left index : Nat) → (previous : Option Nat) → (visited : List Nat) →
      Query (Error E) (List ExtentNode × List Nat)
  | 0, _, _, visited => .done ([], visited)
  | left + 1, index, previous, visited => do
    let record := 12 + index * 12
    let logical := le32 bytes record
    refuseIf (previous.any (logical ≤ ·) = true) (.corrupt .invalidExtentTree)
    let number := le32 bytes (record + 4) ||| (le16 bytes (record + 8) <<< 32)
    refuseIf (number = 0 ∨ number ≥ blocksCount ∨ visited.contains number = true)
      (.corrupt .invalidExtentTree)
    .reserve (.done ())
    let childBytes ← readBlock number
    refuseIf (childBytes.length ≠ 12 + blockCapacity * 12 + 4) (.corrupt .invalidExtentTree)
    verifyNodeChecksum childBytes blockCapacity identity
    let (child, visited) ← loadChild childBytes (.block number) (visited ++ [number])
    refuseIf (child.firstLogical ≠ some logical) (.corrupt .invalidExtentTree)
    let (rest, visited) ← loadChildren bytes blockCapacity blocksCount identity readBlock
        loadChild left (index + 1) (some logical) visited
    return (child :: rest, visited)

/-- Decode a node of a known depth and the nodes below it. -/
def loadNode (blockCapacity blocksCount : Nat) (identity : ExtentIdentity)
    (readBlock : Nat → Query (Error E) Bytes) :
    (expectedDepth capacity : Nat) → Bytes → NodeLocation → List Nat →
      Query (Error E) (ExtentNode × List Nat)
  | 0, capacity, bytes, location, visited => do
    let depth ← extentHeader bytes capacity
    refuseIf (depth ≠ 0) (.corrupt .invalidExtentTree)
    let entries := le16 bytes 2
    refuseIf (location ≠ .root ∧ entries = 0) (.corrupt .invalidExtentTree)
    .reserve (.done ())
    let extents ← loadExtents bytes entries 0
    return (.leaf location false extents, visited)
  | below + 1, capacity, bytes, location, visited => do
    let depth ← extentHeader bytes capacity
    refuseIf (depth ≠ below + 1) (.corrupt .invalidExtentTree)
    let entries := le16 bytes 2
    refuseIf (entries = 0) (.corrupt .invalidExtentTree)
    .reserve (.done ())
    let (children, visited) ← loadChildren bytes blockCapacity blocksCount identity readBlock
        (loadNode blockCapacity blocksCount identity readBlock below blockCapacity)
        entries 0 none visited
    return (.branch location false children, visited)

end ExtentNode

/-! ## Trees -/

/-- A decoded tree; its root is the node in the inode. -/
structure ExtentTree where
  root : ExtentNode
  blockCapacity : Nat
  releasedNodes : List Nat

namespace ExtentTree

def new (root : ExtentNode) (blockCapacity : Nat) : Query (Error E) ExtentTree := do
  refuseIf (root.location ≠ .root ∨ blockCapacity ≤ rootCapacity) (.corrupt .invalidExtentTree)
  root.validate blockCapacity true
  return { root, blockCapacity, releasedNodes := [] }

mutual

/-- Append the records below a node. -/
def collectExtents : ExtentNode → List Extent → Query (Error E) (List Extent)
  | .leaf _ _ extents, out => .reserve (.done (out ++ extents))
  | .branch _ _ children, out => collectChildExtents children out

def collectChildExtents : List ExtentNode → List Extent → Query (Error E) (List Extent)
  | [], out => .done out
  | child :: rest, out => do
    let out ← collectExtents child out
    collectChildExtents rest out

end

def dataExtents (tree : ExtentTree) : Query (Error E) (List Extent) := collectExtents tree.root []

def lookup (tree : ExtentTree) (logical : Nat) : Option (Nat × ExtentState) :=
  tree.root.find logical

/-- Append the block of a node. -/
def collectLocation (location : NodeLocation) (out : List Nat) : Query (Error E) (List Nat) :=
  match location with
  | .block number => .reserve (.done (out ++ [number]))
  | _ => .done out

/--
The records of a loaded tree follow one another, end on the volume, and
share no block with each other or with the tree's own nodes.
-/
def checkExtents (blocksCount : Nat) (visited : List Nat) :
    (before : List Extent) → List Extent → Query (Error E) Unit
  | _, [] => .done ()
  | before, extent :: rest => do
    refuseIf (before.getLast?.any (extent.logical < ·.logicalEnd) = true)
      (.corrupt .invalidExtentTree)
    let stop := extent.physical + extent.length
    refuseIf (stop > blocksCount) (.corrupt .invalidExtentTree)
    refuseIf (visited.any (fun block =>
          extent.physical ≤ block && block < stop) = true ∨
        before.any (fun previous =>
          extent.physical < previous.physical + previous.length && previous.physical < stop) = true)
      (.corrupt .invalidExtentTree)
    checkExtents blocksCount visited (before ++ [extent]) rest

def load (root : Bytes) (blockSize blocksCount : Nat) (identity : ExtentIdentity)
    (readBlock : Nat → Query (Error E) Bytes) :
    Query (Error E) ExtentTree := do
  refuseIf (blockSize < 16) (.corrupt .invalidExtentTree)
  let blockCapacity := (blockSize - 16) / 12
  refuseIf (blockCapacity ≤ rootCapacity) (.corrupt .invalidExtentTree)
  let depth ← ExtentNode.extentHeader root rootCapacity
  refuseIf (depth > maxDepth) (.unsupported .extentTreeTooDeep)
  let (node, visited) ← ExtentNode.loadNode blockCapacity blocksCount identity readBlock depth
      rootCapacity root .root []
  let tree ← new node blockCapacity
  let extents ← tree.dataExtents
  checkExtents blocksCount visited [] extents
  return tree

/-- A root over its capacity moves one level down. -/
def promoteRoot (root : ExtentNode) : ExtentNode :=
  if root.entryCount > rootCapacity then .branch .root true [root.setLocation .unassigned]
  else root

/-- Take over an edited root. -/
def withRoot (tree : ExtentTree) (root : ExtentNode)
    (sibling : Option ExtentNode) : Query (Error E) ExtentTree := do
  refuseIf (sibling.isSome = true) (.corrupt .invalidExtentTree)
  let root := promoteRoot root
  refuseIf (root.depth > maxDepth) (.unsupported .extentTreeTooDeep)
  return { tree with root }

def insert (tree : ExtentTree) (extent : Extent) : Query (Error E) ExtentTree := do
  let _ ← Extent.new (E := E) extent.logical extent.physical extent.length extent.state
  refuseIf (tree.root.overlaps extent.logical extent.logicalEnd = true ∨
      tree.root.overlapsData extent.physical extent.length = true ∨
      tree.root.overlapsBlockRange extent.physical extent.length = true)
    (.corrupt .invalidExtentTree)
  let (root, sibling) ← tree.root.insert extent tree.blockCapacity tree.blockCapacity
  tree.withRoot root sibling

mutual

/-- A root with one child becomes the child; an empty one is a leaf. -/
def collapseChildren :
    List ExtentNode → (dirty : Bool) → List Nat → Query (Error E) (ExtentNode × List Nat)
  | [], _, released => .done (.leaf .root true [], released)
  | [child], _, released => promoteChild child released
  | first :: second :: rest, dirty, released =>
    .done (.branch .root dirty (first :: second :: rest), released)

/-- The only child of the root takes its place and gives back its block. -/
def promoteChild : ExtentNode → List Nat → Query (Error E) (ExtentNode × List Nat)
  | .leaf location _ extents, released => do
    let released ← collectLocation location released
    return (.leaf .root true extents, released)
  | .branch location _ children, released => do
    let released ← collectLocation location released
    collapseChildren children true released

end

def collapseRoot (released : List Nat) : ExtentNode → Query (Error E) (ExtentNode × List Nat)
  | .leaf _ dirty extents => .done (.leaf .root dirty extents, released)
  | .branch _ dirty children => collapseChildren children dirty released

/-- Remove the mappings of a logical range; returns the removed records. -/
def remove (tree : ExtentTree) (start stop : Nat) : Query (Error E) (ExtentTree × List Extent) :=
  if start ≥ stop then .done (tree, [])
  else do
    let (_, root, removal) ← tree.root.removeRange start stop
        { extents := [], nodes := tree.releasedNodes }
    let (root, releasedNodes) ← collapseRoot removal.nodes root
    return ({ tree with root, releasedNodes }, removal.extents)

/-- Change the state of every mapped block of a logical range. -/
def setState (tree : ExtentTree) (start stop : Nat) (state : ExtentState) :
    Query (Error E) ExtentTree :=
  if start ≥ stop ∨ hasDifferentState start stop state tree.root.extents = false then .done tree
  else do
    let (root, sibling) ← tree.root.setStateRange start stop state tree.blockCapacity
        tree.blockCapacity
    tree.withRoot root sibling

/-- The root as it stands in the inode. -/
def writeRoot (tree : ExtentTree) (target : Bytes) : Query (Error E) Bytes :=
  ExtentNode.writeNode target tree.root rootCapacity

/-- The external nodes that changed, as blocks. -/
def serializeDirty (tree : ExtentTree) (blockSize : Nat) (identity : ExtentIdentity) :
    Query (Error E) (List SerializedNode) := do
  refuseIf (blockSize < 16) (.corrupt .invalidExtentTree)
  let capacity := (blockSize - 16) / 12
  match tree.root with
  | .leaf _ _ _ => return []
  | .branch _ _ children => ExtentNode.serializeChildren blockSize capacity identity children []

end ExtentTree

end RetroOS.Ext
