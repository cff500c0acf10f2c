import RetroOS.Lib.Assoc
import RetroOS.Lib.Search
import RetroOS.Vfs.Paths

/-!
# The names of the overlay

Over read-only file systems, files and directories are kept in memory under
their resolved paths.  Which names a directory shows depends on the paths
alone: first the files of the overlay, then its directories, then what the
file systems below list, without those that differ from an earlier one in case
only.  So everything about names is a function of the two lists of paths.

The file systems below are an oracle.  They can neither create nor change
anything.
-/

namespace RetroOS.Vfs

open Lib Lib.Bytes

def toAsciiLowercase (byte : UInt8) : UInt8 :=
  if 0x41 ≤ byte ∧ byte ≤ 0x5a then byte + 0x20 else byte

def folded (name : Bytes) : Bytes := name.map toAsciiLowercase

/-- An entry of a directory. -/
structure Listed where
  name : Bytes
  isDir : Bool
  isSymlink : Bool
  target : Option Bytes
  deriving DecidableEq

/-- The read-only file systems below. -/
structure Backing where
  children : Bytes → List Listed
  dirExists : Bytes → Bool
  opens : Bytes → Bool
  sameMount : Bytes → Bytes → Bool

/-- Parent and name of a path. -/
def splitParentBytes (path : Bytes) : Option (Bytes × Bytes) :=
  if path = [] then none
  else
    match path.reverse.findIdx? (· = slash) with
    | some back => some (path.take (path.length - 1 - back), path.drop (path.length - back))
    | none => some ([], path)

/-- A path without the slash behind it. -/
def stripSlash (path : Bytes) : Bytes := if path.getLast? = some slash then path.dropLast else path

def entryInRamDir (dir path : Bytes) : Option Bytes :=
  match splitParentBytes path with
  | none => none
  | some (parent, name) =>
    if name ≠ [] ∧ folded parent = folded (stripSlash dir) then some name
    else none

/-- The paths of the overlay. -/
structure View where
  files : List Bytes
  dirs : List Bytes

namespace View

/-- Everything that could be listed, the first ones first. -/
def candidates (view : View) (backing : Backing) (dir : Bytes) : List Listed :=
  (view.files.filterMap (entryInRamDir dir)).map
      (fun name => { name, isDir := false, isSymlink := false, target := none })
    ++ (view.dirs.filterMap (entryInRamDir dir)).map
      (fun name => { name, isDir := true, isSymlink := false, target := none })
    ++ backing.children dir

/-- Leave out names that differ in case only from one before. -/
def claimVisible (kept : List Listed) (entry : Listed) : List Listed :=
  if kept.any fun other => folded other.name = folded entry.name then kept
  else kept ++ [entry]

/-- The listing of a directory, with room for 100 bytes of each name. -/
def listing (view : View) (backing : Backing) (dir : Bytes) : List Listed :=
  ((view.candidates backing dir).foldl claimVisible []).map fun entry =>
    { entry with name := entry.name.take 100 }

/-- Of entries with one name, the last one is found. -/
def cachedChild (view : View) (backing : Backing) (parent name : Bytes) : Option Listed :=
  (view.listing backing parent).reverse.find? fun entry => entry.name = name

def names (view : View) (backing : Backing) : Names where
  cachedChild parent name :=
    (view.cachedChild backing parent name).map fun entry =>
      { name := entry.name, isSymlink := entry.isSymlink, target := entry.target }
  openFile _ := none

def resolveSymlinks (view : View) (backing : Backing) (path : Bytes) : Option Bytes :=
  (view.names backing).resolveSymlinks path true

def resolveParentSymlinks (view : View) (backing : Backing) (path : Bytes) : Option Bytes :=
  match splitParentBytes path with
  | none => none
  | some (parent, name) =>
    if name = [] ∨ name = [0x2e] ∨ name = [0x2e, 0x2e] then none
    else
      (view.resolveSymlinks backing parent).map fun resolved =>
        (if resolved = [] then [] else resolved ++ [slash]) ++ name

/-- Where a file would be created. -/
def resolveNew (view : View) (backing : Backing) (path : Bytes) : Option Bytes :=
  (view.resolveSymlinks backing path).or (view.resolveParentSymlinks backing path)

/-- The entry that a resolved path has in its parent. -/
def entryOf (view : View) (backing : Backing) (path : Bytes) : Option Listed :=
  match splitParentBytes path with
  | none => none
  | some (parent, name) => view.cachedChild backing parent name

def dirExists (view : View) (backing : Backing) (path : Bytes) : Bool :=
  match view.resolveSymlinks backing path with
  | none => false
  | some resolved =>
    view.dirs.contains resolved ||
      match view.entryOf backing resolved with
      | some entry => entry.isDir
      | none => backing.dirExists resolved

def pathExists (view : View) (backing : Backing) (path : Bytes) : Bool :=
  match view.resolveSymlinks backing path with
  | none => false
  | some resolved =>
    view.files.contains resolved || view.dirs.contains resolved ||
      (view.entryOf backing resolved).isSome || resolved = [] ||
      backing.opens resolved

end View

/-! ## Moving names -/

/-- Whether a path is below a directory. -/
def below (dir path : Bytes) : Bool := (dir ++ [slash]).isPrefixOf path

/-- A path under the new name of a directory above it. -/
def retarget (old new path : Bytes) : Bytes := new ++ path.drop old.length

/-- What a rename does. -/
inductive NameChange where
  | file (old new : Bytes)
  | dir (old new : Bytes)

def View.rename (view : View) (backing : Backing) (old new : Bytes) : Except Int NameChange :=
  match view.resolveParentSymlinks backing old, view.resolveParentSymlinks backing new with
  | some old, some new =>
    if view.pathExists backing new then .error (-17)
    else if view.files.contains old then .ok (.file old new)
    else if view.dirs.contains old then .ok (.dir old new)
    else if backing.sameMount old new then .error (-38)
    else .error (-18)
  | _, _ => .error (-2)

/-- Files of the overlay with what is kept for each, and directories. -/
structure Tree (β : Type) where
  files : Assoc Bytes β
  dirs : Assoc Bytes Unit

namespace Tree

variable {β : Type}

def view (tree : Tree β) : View where
  files := tree.files.keys
  dirs := tree.dirs.keys

/-- Move one file to another path. -/
def moveFile (tree : Tree β) (src dst : Bytes) : Tree β :=
  match tree.files.find src with
  | none => tree
  | some value => { tree with files := (tree.files.remove src).insert dst value }

def moveDir (dirs : Assoc Bytes Unit) (src dst : Bytes) : Assoc Bytes Unit :=
  (dirs.remove src).insert dst ()

/-- The directories below and at an old name, moved to a new one. -/
def moveDirs (tree : Tree β) (old new : Bytes) : Tree β :=
  { tree with
    dirs :=
      (tree.dirs.keys.filter fun path => path = old ∨ below old path).foldl
        (fun dirs src => moveDir dirs src (retarget old new src))
        tree.dirs }

/-- The files below a directory. -/
def filesBelow (tree : Tree β) (dir : Bytes) : List Bytes := tree.files.keys.filter (below dir)

def mkdir (tree : Tree β) (backing : Backing) (path : Bytes) : Int × Tree β :=
  if tree.view.dirExists backing path then (-17, tree)
  else
    match tree.view.resolveParentSymlinks backing path with
    | none => (-2, tree)
    | some resolved => (0, { tree with dirs := tree.dirs.insert resolved () })

def rmdir (tree : Tree β) (backing : Backing) (path : Bytes) : Int × Tree β :=
  match tree.view.resolveParentSymlinks backing path with
  | none => (-2, tree)
  | some resolved =>
    if tree.dirs.keys.contains resolved then
      if tree.dirs.keys.any (below resolved) || tree.files.keys.any (below resolved) then
        (-39, tree)
      else (0, { tree with dirs := tree.dirs.remove resolved })
    else (-38, tree)

end Tree

end RetroOS.Vfs
