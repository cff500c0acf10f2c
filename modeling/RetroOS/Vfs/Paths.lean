import Mathlib.Tactic
import RetroOS.Lib.Bytes

/-!
# Paths

A path is cut at its slashes; empty components and single dots fall out.  The
components are looked up one after the other.  A symbolic link is replaced by
its target, at most 40 times.  The file system behind the names is an oracle
for the entries of a directory.

The number of a file is computed from the text of the path it was opened by,
before any link in it is followed.
-/

namespace RetroOS.Vfs

open Lib Lib.Bytes

def slash : UInt8 := 0x2f

/-- Entries of the file table. -/
def maxOpenFiles : Nat := 128

/-- The number of a path, from its text. -/
def pathIno (path : Bytes) : Nat :=
  path.foldl (fun hash byte => ((hash ^^^ byte.toNat) * 0x100000001b3) % 2 ^ 64)
      0xcbf29ce484222325 |||
    1

/-- The components of a path. -/
def components (path : Bytes) : List Bytes :=
  (path.splitOn slash).filter fun component => component ≠ [] ∧ component ≠ [0x2e]

def joinPathComponents : List Bytes → Bytes
  | [] => []
  | [component] => component
  | component :: rest => component ++ slash :: joinPathComponents rest

/-- An entry of a directory, with the target if it is a link. -/
structure Child where
  name : Bytes
  isSymlink : Bool
  target : Option Bytes

/-- A file behind the names. -/
structure BackingFile where
  identity : Nat
  writable : Bool
  deriving DecidableEq

/-- What lookups find. -/
structure Names where
  cachedChild : Bytes → Bytes → Option Child
  /-- The file at a resolved path. -/
  openFile : Bytes → Option BackingFile

namespace Names

/--
Look up components up to the next link that is followed, and leave that to
`onLink`.
-/
def walk (names : Names) (followFinal : Bool)
    (onLink : List Bytes → List Bytes → Option (List Bytes)) :
    (pending resolved : List Bytes) → Option (List Bytes)
  | [], resolved => some resolved
  | component :: pending, resolved =>
    if component = [0x2e, 0x2e] then names.walk followFinal onLink pending resolved.dropLast
    else
      match names.cachedChild (joinPathComponents resolved) component with
      | none => none
      | some entry =>
        if entry.isSymlink && (followFinal || pending ≠ []) then
          match entry.target with
          | none => none
          | some target =>
            if target = [] ∨ 0 ∈ target then none
            else
              onLink (components target ++ pending)
                (if target.head? = some slash then [] else resolved)
        else names.walk followFinal onLink pending (resolved ++ [entry.name])

/-- Follow up to `links` links. -/
def follow (names : Names) (followFinal : Bool) :
    (links : Nat) → (pending resolved : List Bytes) → Option (List Bytes)
  | 0 => names.walk followFinal fun _ _ => none
  | links + 1 => names.walk followFinal (names.follow followFinal links)

def resolveSymlinks (names : Names) (path : Bytes) (followFinal : Bool) : Option Bytes :=
  if 0 ∈ path then none
  else (names.follow followFinal 40 (components path) []).map joinPathComponents

/-- The file that a path leads to. -/
def lookup (names : Names) (path : Bytes) : Option BackingFile :=
  (names.resolveSymlinks path true).bind names.openFile

end Names

end RetroOS.Vfs
