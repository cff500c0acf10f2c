import RetroOS.Vfs.RamOverlay

/-!
# The mount table

A path leads to the mounts with the longest matching mount point, the latest
one first.  Redirects are followed to another path, up to a depth.  Names are
created and removed on the first file system alone.

Mounts are counted in a byte.  As long as the table has no more than 256
entries this is the mount itself (`resolveHead_idx`).

Every mount says who decides about writes to it.  What the file systems answer
during a request is arbitrary.
-/

namespace RetroOS.Vfs

open Lib Lib.Bytes

/-! ## Who may write -/

/-- Owner and mode, as file systems report them. -/
structure Meta where
  uid : Nat
  gid : Nat
  mode : Nat
  deriving DecidableEq

/-- The group that owns what may be written on a mount. -/
structure Grant where
  gid : Nat
  deriving DecidableEq

namespace Grant

def sIwgrp : Nat := 0o020

def sIrgrp : Nat := 0o040

def allows (grant : Grant) (found : Meta) : Bool :=
  found.gid = grant.gid ∧ found.mode &&& sIwgrp ≠ 0

def claimMode (current : Nat) : Nat := current ||| sIwgrp ||| sIrgrp

/-- The metadata that a new object is given. -/
def claimed (grant : Grant) (found : Meta) : Meta where
  uid := found.uid
  gid := grant.gid
  mode := claimMode found.mode

/-- What has been claimed may be written. -/
theorem allows_claimed (grant : Grant) (found : Meta) :
    grant.allows (grant.claimed found) = true := by
  have group : sIwgrp.testBit 4 = true := by decide
  have bit : (claimMode found.mode &&& sIwgrp).testBit 4 = true := by
    rw [claimMode, Nat.testBit_and, Nat.testBit_or, Nat.testBit_or, group]
    simp
  have nonzero : claimMode found.mode &&& sIwgrp ≠ 0 := by
    intro zero
    rw [zero, Nat.zero_testBit] at bit
    exact Bool.false_ne_true bit
  simp [allows, claimed, nonzero]

end Grant

inductive WriteAccess where
  | none
  | granted (grant : Grant)
  | delegated
  deriving DecidableEq

/-- Whether writes are allowed, given the metadata that decides. -/
def WriteAccess.permits (access : WriteAccess) (deciding : Option Meta) : Bool :=
  match access with
  | .none => false
  | .delegated => true
  | .granted grant => deciding.any grant.allows

/-- The directory that decides on a name. -/
def parentOf (path : Bytes) : Option Bytes := (splitParentBytes (stripSlash path)).map Prod.fst

/-! ## Bindings -/

inductive BindTarget where
  | server
  /-- Lookups are tried again at another path. -/
  | redirect (source : Bytes)

structure Binding where
  mountPoint : Bytes
  target : BindTarget
  access : WriteAccess
  seq : Nat

def BindTarget.isServer : BindTarget → Bool
  | .server => true
  | .redirect _ => false

def maxUnion : Nat := 8

def aliasDepth : Nat := 8

/-- Where the path below a mount point begins. -/
def matchPrefix (mountPoint path : Bytes) : Option Nat :=
  if mountPoint = [] then some 0
  else if folded (path.take mountPoint.length) = folded mountPoint then some mountPoint.length
  else if mountPoint.getLast? = some slash ∧ folded path = folded mountPoint.dropLast then
    some path.length
  else none

/-- The path below a mount point. -/
def subpath (mountPoint path : Bytes) : Bytes := path.drop ((matchPrefix mountPoint path).getD 0)

/-- The byte that a mount is recorded in. -/
def mountIdx (mount : Nat) : Nat := mount % 2 ^ 8

/-! ## The first file system -/

structure Head where
  mount : Nat
  idx : Nat
  /-- Without any file system, nothing is found and nothing supported. -/
  server : Bool
  sub : Bytes

/-- Whether a binding comes before the best one up to here. -/
def better (mounts : List Binding) (best : Option Nat) (binding : Binding) : Bool :=
  match best.bind (mounts[·]?) with
  | none => true
  | some other =>
    other.mountPoint.length < binding.mountPoint.length ∨
      (binding.mountPoint.length = other.mountPoint.length ∧ other.seq < binding.seq)

def betterHead (mounts : List Binding) (path : Bytes) (best : Option Nat)
    (mount : Nat) : Option Nat :=
  match mounts[mount]? with
  | none => best
  | some binding =>
    if binding.target.isServer ∧
        (matchPrefix binding.mountPoint path).isSome ∧
        better mounts best binding then
      some mount
    else best

def headMount (mounts : List Binding) (path : Bytes) : Option Nat :=
  (List.range mounts.length).foldl (betterHead mounts path) none

def resolveHead (mounts : List Binding) (path : Bytes) : Head :=
  match headMount mounts path with
  | none => { mount := 0, idx := 0, server := false, sub := path }
  | some mount =>
    { mount
      idx := mountIdx mount
      server := true
      sub :=
        match mounts[mount]? with
        | some binding => subpath binding.mountPoint path
        | none => path }

theorem betterHead_lt {mounts : List Binding} {path : Bytes} {best : Option Nat} {mount : Nat}
    (bounded : ∀ found, best = some found → found < mounts.length) :
    ∀ found, betterHead mounts path best mount = some found → found < mounts.length := by
  intro found chosen
  unfold betterHead at chosen
  split at chosen
  · exact bounded found chosen
  · next binding there =>
      split at chosen
      · cases chosen
        exact (List.getElem?_eq_some_iff.mp there).1
      · exact bounded found chosen

theorem headMount_lt {mounts : List Binding} {path : Bytes} {mount : Nat}
    (chosen : headMount mounts path = some mount) :
    mount < mounts.length := by
  -- The best mount up to here is one of the table.
  have bounded :
      ∀ (candidates : List Nat) (best : Option Nat),
        (∀ found, best = some found → found < mounts.length) →
        ∀ found, candidates.foldl (betterHead mounts path) best = some found →
          found < mounts.length := by
    intro candidates
    induction candidates with
    | nil => exact fun best known => known
    | cons candidate rest induction =>
      intro best known
      exact induction _ (betterHead_lt known)
  exact bounded _ none (fun _ absurd => by cases absurd) mount chosen

/-- In a table of 256 entries the recorded byte is the mount. -/
theorem resolveHead_idx {mounts : List Binding} (small : mounts.length ≤ 2 ^ 8) (path : Bytes) :
    (resolveHead mounts path).idx = (resolveHead mounts path).mount := by
  unfold resolveHead
  split
  · rfl
  · next mount chosen => exact Nat.mod_eq_of_lt (Nat.lt_of_lt_of_le (headMount_lt chosen) small)

/-! ## All file systems of a path -/

/-- The bindings at the longest mount point, the latest one first. -/
def bindingGroup (mounts : List Binding) (path : Bytes) : List (Binding × Nat) :=
  match (mounts.filter fun binding =>
      (matchPrefix binding.mountPoint path).isSome).map (·.mountPoint.length) |>.max? with
  | none => []
  | some longest =>
    ((mounts.zipIdx.filter fun entry =>
      entry.1.mountPoint.length = longest ∧ (matchPrefix entry.1.mountPoint path).isSome).take
      maxUnion).mergeSort fun first second => second.1.seq ≤ first.1.seq

/-- The file systems of a path with the paths below them, in their order. -/
def resolveMembers (mounts : List Binding) : (depth : Nat) → (path : Bytes) → List (Nat × Bytes)
  | 0, path =>
    (bindingGroup mounts path).flatMap fun entry =>
      match entry.1.target with
      | .server => [(entry.2, subpath entry.1.mountPoint path)]
      | .redirect _ => []
  | depth + 1, path =>
    (bindingGroup mounts path).flatMap fun entry =>
      match entry.1.target with
      | .server => [(entry.2, subpath entry.1.mountPoint path)]
      | .redirect source =>
        if source.length + (subpath entry.1.mountPoint path).length ≤ pathKeyMax then
          resolveMembers mounts depth (source ++ subpath entry.1.mountPoint path)
        else []

/-! ## What file systems answer -/

/-- The answers of all file systems during one request. -/
structure Answers where
  /-- `meta` of a path. -/
  found : (mount : Nat) → Bytes → Option Meta
  opens : (mount : Nat) → Bytes → Bool
  /-- The recorded mount of an entry that is opened by its identity. -/
  cachedNode : Bytes → Option Nat
  supportsCreate : Nat → Bool
  supportsMkdir : Nat → Bool
  supportsDirectoryMutation : Nat → Bool
  /-- `create` returned a file. -/
  created : (mount : Nat) → Bytes → Bool
  /-- Only a file system that says it has `create` returns a file from it. -/
  created_supported : ∀ mount sub, created mount sub = true → supportsCreate mount = true
  /-- What the other calls return. -/
  code : Int
  /-- `set_meta` and `set_mtime` succeed. -/
  changed : Bool
  /-- `meta` of what the request has just created. -/
  fresh : Option Meta
  /-- `meta` of the file that is written through a handle or an image. -/
  written : Option Meta
  /-- Drives whose media write to their images during the request. -/
  touched : List Nat

section Checks

variable (mounts : List Binding) (answers : Answers)

def accessOf (mount : Nat) : WriteAccess :=
  match mounts[mount]? with
  | some binding => binding.access
  | none => .none

def mayWrite (mount : Nat) (sub : Bytes) : Bool :=
  (accessOf mounts mount).permits (answers.found mount sub)

def mayWriteParent (mount : Nat) (sub : Bytes) : Bool :=
  match parentOf sub with
  | some parent => mayWrite mounts answers mount parent
  | none => false

/-- A create asks the object if there is one, and its directory if not. -/
def mayCreate (mount : Nat) (existing : Option Meta) (sub : Bytes) : Bool :=
  if existing.isSome then mayWrite mounts answers mount sub
  else mayWriteParent mounts answers mount sub

def openCachedNode (path : Bytes) : Option (Nat × Bytes) :=
  match answers.cachedNode path with
  | none => none
  | some idx =>
    ((resolveMembers mounts aliasDepth path).find? fun member =>
      mountIdx member.1 = idx).map fun member => (idx, member.2)

/-- The recorded mount that opens a path, and the path below it. -/
def openMember (path : Bytes) : Option (Nat × Bytes) :=
  (openCachedNode mounts answers path).or
    (((resolveMembers mounts aliasDepth path).find? fun member =>
      answers.opens member.1 member.2).map fun member => (mountIdx member.1, member.2))

end Checks

end RetroOS.Vfs
