import RetroOS.Kernel.Pipe
import RetroOS.Lib.Machine
import RetroOS.Vfs.Tree

/-!
# Files in memory

The overlay keeps the contents of its files under their paths.  An open handle
remembers the path of its file, as far as 164 bytes of it go, and looks the
contents up with every read and write.  Renames rewrite the paths of handles.

Beside it stands what handles are meant to be: each file is an object, names
lead to objects, and a handle holds its object.  Removing or moving a name
does nothing to the handle.  Both machines take the same requests and find
names the same way.

Handles of files below the overlay take their place in the table, and nothing
more is said of them.
-/

namespace RetroOS.Vfs

open Lib Lib.Bytes
open Kernel (asI32)
open Function (update)

/-- How much of a path a handle remembers. -/
def pathKeyMax : Nat := 164

inductive OverlayRequest where
  | create (path : Bytes)
  | openFile (path : Bytes)
  | read (handle count : Nat)
  | write (handle : Nat) (data : Bytes)
  | seek (handle : Nat) (offset whence : Int)
  | close (handle : Nat)
  | rename (old new : Bytes)
  | delete (path : Bytes)
  | mkdir (path : Bytes)
  | rmdir (path : Bytes)

inductive OverlayAnswer where
  | code (value : Int)
  | bytes (code : Int) (data : Bytes)
  /-- The handle is of a file below the overlay. -/
  | elsewhere
  deriving DecidableEq

/-- The first free entry of a table. -/
def allocFileEntry {α : Type} (table : Nat → Option α) : Option Nat :=
  (List.range maxOpenFiles).find? fun idx => (table idx).isNone

/-- The entry of a handle. -/
def handleEntry {α : Type} (table : Nat → Option α) (handle : Nat) : Option α :=
  if handle < maxOpenFiles then table handle else none

/-- Write data at an offset, with zeros before it where the file ends. -/
def writeBytes (contents : Bytes) (offset : Nat) (data : Bytes) : Bytes :=
  put (contents ++ zeros (offset + data.length - contents.length)) offset data

/-- Where a seek leads to. -/
def seekTarget (current size : Nat) (offset whence : Int) : Option Int :=
  if whence = 0 then some offset
  else if whence = 1 then some (current + offset)
  else if whence = 2 then some (size + offset)
  else none

/-! ## The overlay -/

structure RamHandle where
  /-- The file is in the overlay. -/
  ram : Bool
  key : Bytes
  offset : Nat

structure RamOverlay where
  tree : Tree Bytes
  table : Nat → Option RamHandle

namespace RamOverlay

def boot : RamOverlay where
  tree := { files := [], dirs := [] }
  table _ := none

def setHandle (overlay : RamOverlay) (idx : Nat) (entry : RamHandle) : RamOverlay :=
  { overlay with table := update overlay.table idx (some entry) }

/-- Give out a handle. -/
def install (overlay : RamOverlay) (ram : Bool) (path : Bytes) : OverlayAnswer × RamOverlay :=
  match allocFileEntry overlay.table with
  | none => (.code (-24), overlay)
  | some idx => (.code idx, overlay.setHandle idx { ram, key := path.take pathKeyMax, offset := 0 })

def createToHandle (overlay : RamOverlay) (backing : Backing)
    (path : Bytes) : OverlayAnswer × RamOverlay :=
  match overlay.tree.view.resolveNew backing path with
  | none => (.code (-2), overlay)
  | some resolved =>
    -- The file is emptied before there is a handle for it.
    install
      { overlay with tree := { overlay.tree with files := overlay.tree.files.insert resolved [] } }
      true resolved

def openToHandle (overlay : RamOverlay) (backing : Backing) (path : Bytes) :
    OverlayAnswer × RamOverlay :=
  match overlay.tree.view.resolveSymlinks backing path with
  | none => (.code (-2), overlay)
  | some resolved =>
    if overlay.tree.files.contains resolved then overlay.install true resolved
    else if backing.opens resolved then overlay.install false resolved
    else (.code (-2), overlay)

def readByHandle (overlay : RamOverlay) (handle count : Nat) : OverlayAnswer × RamOverlay :=
  match handleEntry overlay.table handle with
  | none => (.code (-9), overlay)
  | some entry =>
    if entry.ram then
      match overlay.tree.files.find entry.key with
      | none => (.bytes 0 [], overlay)
      | some contents =>
        if contents.length ≤ entry.offset then (.bytes 0 [], overlay)
        else
          let got := min count (contents.length - entry.offset)
          (.bytes (asI32 got) (slice contents entry.offset got), overlay.setHandle handle
              { entry with offset := (entry.offset + got) % 2 ^ 32 })
    else (.elsewhere, overlay)

def writeByHandle (overlay : RamOverlay) (handle : Nat) (data : Bytes) :
    OverlayAnswer × RamOverlay :=
  match handleEntry overlay.table handle with
  | none => (.code (-9), overlay)
  | some entry =>
    if entry.ram then
      match overlay.tree.files.find entry.key with
      | none => (.code (-9), overlay)
      | some contents =>
        (.code (asI32 data.length),
          { tree :=
              { overlay.tree with
                files :=
                  overlay.tree.files.modify entry.key fun _ =>
                    writeBytes contents entry.offset data }
            table :=
              update overlay.table handle (some
                  { entry with offset := (entry.offset + data.length) % 2 ^ 32 }) })
    else (.elsewhere, overlay)

/-- The size that a seek from the end starts at. -/
def sizeOf (overlay : RamOverlay) (key : Bytes) : Nat :=
  match overlay.tree.files.find key with
  | none => 0
  | some contents => contents.length % 2 ^ 32

def seekByHandle (overlay : RamOverlay) (handle : Nat)
    (offset whence : Int) : OverlayAnswer × RamOverlay :=
  match handleEntry overlay.table handle with
  | none => (.code (-9), overlay)
  | some entry =>
    if entry.ram then
      match seekTarget entry.offset (overlay.sizeOf entry.key) offset whence with
      | none => (.code (-22), overlay)
      | some target =>
        if target < 0 then (.code (-22), overlay)
        else
          (.code (asI32 (target.toNat % 2 ^ 32)), overlay.setHandle handle
              { entry with offset := target.toNat % 2 ^ 32 })
    else (.elsewhere, overlay)

def closeHandle (overlay : RamOverlay) (handle : Nat) : RamOverlay :=
  if handle < maxOpenFiles then { overlay with table := update overlay.table handle none }
  else overlay

/-- Rewrite the path of handles, if the new one fits. -/
def rekeyOpenPaths (overlay : RamOverlay) (old new : Bytes) : RamOverlay :=
  { overlay with
    table := fun handle =>
      (overlay.table handle).map fun entry =>
        if entry.key = old ∧ new.length ≤ pathKeyMax then { entry with key := new }
        else entry }

def moveFile (overlay : RamOverlay) (src dst : Bytes) : RamOverlay :=
  rekeyOpenPaths { overlay with tree := overlay.tree.moveFile src dst } src dst

def rename (overlay : RamOverlay) (backing : Backing) (old new : Bytes) :
    OverlayAnswer × RamOverlay :=
  match overlay.tree.view.rename backing old new with
  | .error code => (.code code, overlay)
  | .ok (.file old new) => (.code 0, overlay.moveFile old new)
  | .ok (.dir old new) =>
    (.code 0, (overlay.tree.filesBelow old).foldl
        (fun overlay src => overlay.moveFile src (retarget old new src))
        { overlay with tree := overlay.tree.moveDirs old new })

def delete (overlay : RamOverlay) (backing : Backing) (path : Bytes) : OverlayAnswer × RamOverlay :=
  match overlay.tree.view.resolveParentSymlinks backing path with
  | none => (.code (-2), overlay)
  | some resolved =>
    if overlay.tree.files.contains resolved then
      (.code 0,
        { overlay with tree := { overlay.tree with files := overlay.tree.files.remove resolved } })
    else (.code (-1), overlay)

end RamOverlay

def overlayMachine (backing : Backing) : Machine RamOverlay OverlayRequest OverlayAnswer
  | overlay, .create path => overlay.createToHandle backing path
  | overlay, .openFile path => overlay.openToHandle backing path
  | overlay, .read handle count => overlay.readByHandle handle count
  | overlay, .write handle data => overlay.writeByHandle handle data
  | overlay, .seek handle offset whence => overlay.seekByHandle handle offset whence
  | overlay, .close handle => (.code 0, overlay.closeHandle handle)
  | overlay, .rename old new => overlay.rename backing old new
  | overlay, .delete path => overlay.delete backing path
  | overlay, .mkdir path =>
    (.code (overlay.tree.mkdir backing path).1,
      { overlay with tree := (overlay.tree.mkdir backing path).2 })
  | overlay, .rmdir path =>
    (.code (overlay.tree.rmdir backing path).1,
      { overlay with tree := (overlay.tree.rmdir backing path).2 })

/-! ## Objects -/

structure ObjectHandle where
  /-- The file, or nothing for a file below the overlay. -/
  object : Option Nat
  offset : Nat

/-- Names lead to objects, and handles hold them. -/
structure Objects where
  tree : Tree Nat
  contents : Nat → Bytes
  next : Nat
  table : Nat → Option ObjectHandle

namespace Objects

def boot : Objects where
  tree := { files := [], dirs := [] }
  contents _ := []
  next := 0
  table _ := none

def setHandle (objects : Objects) (idx : Nat) (entry : ObjectHandle) : Objects :=
  { objects with table := update objects.table idx (some entry) }

/-- The object that a create at a path is about. -/
def objectAt (objects : Objects) (path : Bytes) : Nat :=
  (objects.tree.files.find path).getD objects.next

/-- An empty file under a path: the one that is there, or a new one. -/
def emptied (objects : Objects) (path : Bytes) : Objects :=
  { objects with
    tree := { objects.tree with files := objects.tree.files.insert path (objects.objectAt path) }
    contents := update objects.contents (objects.objectAt path) []
    next := max objects.next (objects.objectAt path + 1) }

def create (objects : Objects) (backing : Backing) (path : Bytes) : OverlayAnswer × Objects :=
  match objects.tree.view.resolveNew backing path with
  | none => (.code (-2), objects)
  | some resolved =>
    match allocFileEntry objects.table with
    | none => (.code (-24), objects)
    | some idx =>
      (.code idx, (objects.emptied resolved).setHandle idx
          { object := some (objects.objectAt resolved), offset := 0 })

def openFile (objects : Objects) (backing : Backing) (path : Bytes) : OverlayAnswer × Objects :=
  match objects.tree.view.resolveSymlinks backing path with
  | none => (.code (-2), objects)
  | some resolved =>
    if objects.tree.files.contains resolved ∨ backing.opens resolved then
      match allocFileEntry objects.table with
      | none => (.code (-24), objects)
      | some idx =>
        (.code idx, objects.setHandle idx
            { object := objects.tree.files.find resolved, offset := 0 })
    else (.code (-2), objects)

def read (objects : Objects) (handle count : Nat) : OverlayAnswer × Objects :=
  match handleEntry objects.table handle with
  | none => (.code (-9), objects)
  | some entry =>
    match entry.object with
    | none => (.elsewhere, objects)
    | some object =>
      let data := slice (objects.contents object) entry.offset count
      (.bytes (asI32 data.length) data, objects.setHandle handle
          { entry with offset := entry.offset + data.length })

def write (objects : Objects) (handle : Nat) (data : Bytes) : OverlayAnswer × Objects :=
  match handleEntry objects.table handle with
  | none => (.code (-9), objects)
  | some entry =>
    match entry.object with
    | none => (.elsewhere, objects)
    | some object =>
      (.code (asI32 data.length),
        { objects with
          contents :=
            update objects.contents object (writeBytes (objects.contents object) entry.offset data)
          table :=
            update objects.table handle (some
                { entry with offset := entry.offset + data.length }) })

def seek (objects : Objects) (handle : Nat) (offset whence : Int) : OverlayAnswer × Objects :=
  match handleEntry objects.table handle with
  | none => (.code (-9), objects)
  | some entry =>
    match entry.object with
    | none => (.elsewhere, objects)
    | some object =>
      match seekTarget entry.offset (objects.contents object).length offset whence with
      | none => (.code (-22), objects)
      | some target =>
        if target < 0 then (.code (-22), objects)
        else
          (.code (asI32 target.toNat), objects.setHandle handle
              { entry with offset := target.toNat })

def close (objects : Objects) (handle : Nat) : Objects :=
  if handle < maxOpenFiles then { objects with table := update objects.table handle none }
  else objects

def rename (objects : Objects) (backing : Backing) (old new : Bytes) : OverlayAnswer × Objects :=
  match objects.tree.view.rename backing old new with
  | .error code => (.code code, objects)
  | .ok (.file old new) => (.code 0, { objects with tree := objects.tree.moveFile old new })
  | .ok (.dir old new) =>
    (.code 0,
      { objects with
        tree :=
          (objects.tree.filesBelow old).foldl
            (fun tree src => tree.moveFile src (retarget old new src))
            (objects.tree.moveDirs old new) })

def delete (objects : Objects) (backing : Backing) (path : Bytes) : OverlayAnswer × Objects :=
  match objects.tree.view.resolveParentSymlinks backing path with
  | none => (.code (-2), objects)
  | some resolved =>
    if objects.tree.files.contains resolved then
      (.code 0,
        { objects with tree := { objects.tree with files := objects.tree.files.remove resolved } })
    else (.code (-1), objects)

end Objects

def objectsMachine (backing : Backing) : Machine Objects OverlayRequest OverlayAnswer
  | objects, .create path => objects.create backing path
  | objects, .openFile path => objects.openFile backing path
  | objects, .read handle count => objects.read handle count
  | objects, .write handle data => objects.write handle data
  | objects, .seek handle offset whence => objects.seek handle offset whence
  | objects, .close handle => (.code 0, objects.close handle)
  | objects, .rename old new => objects.rename backing old new
  | objects, .delete path => objects.delete backing path
  | objects, .mkdir path =>
    (.code (objects.tree.mkdir backing path).1,
      { objects with tree := (objects.tree.mkdir backing path).2 })
  | objects, .rmdir path =>
    (.code (objects.tree.rmdir backing path).1,
      { objects with tree := (objects.tree.rmdir backing path).2 })

end RetroOS.Vfs
