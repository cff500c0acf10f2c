import RetroOS.Lib.Machine
import RetroOS.Vfs.Mounts

/-!
# Write grants

Every entry point decides on its own what it checks before it changes a file
system, and a handle keeps the verdict it was opened with.  A request is
answered with the mutating calls that it makes.

Where the rule asks for permission at the time of each call, four kinds of call
go by: a create on a file system that has none, a removal of what has no
metadata, a write through the verdict of a handle, and a write to the image of
an inserted medium (`grants_bypassed`).  So does every call once mounts are no
longer told apart by a byte.  All other calls are permitted when they are made,
and writes through handles were permitted when the handle was given out
(`calls_permitted`).

Close stands for giving up the last reference to a handle.
-/

namespace RetroOS.Vfs

open Lib Lib.Bytes

/-- Calls that change a file system. -/
inductive MutatingCall where
  | create (mount : Nat) (sub : Bytes)
  | remove (mount : Nat) (sub : Bytes)
  | mkdir (mount : Nat) (sub : Bytes)
  | rmdir (mount : Nat) (sub : Bytes)
  | rename (mount : Nat) (old new : Bytes)
  | setMeta (mount : Nat) (sub : Bytes) (given : Meta)
  | setMtime (mount : Nat) (sub : Bytes) (mtime : Nat)
  /-- `set_meta` on what the request has created. -/
  | claim (mount : Nat) (sub : Bytes) (given : Meta)
  /-- Through a handle, with the metadata that decided on it. -/
  | write (mount : Nat) (decided : Option Meta)
  /-- To the image of a medium. -/
  | imageWrite (mount : Nat)
  deriving DecidableEq

/-! ## The state -/

structure GrantHandle where
  /-- The file is in the overlay. -/
  ram : Bool
  key : Bytes
  /-- The recorded mount. -/
  mount : Nat
  writable : Bool
  /-- The metadata that decided on `writable`, which nothing reads. -/
  decided : Option Meta

structure GrantVfs where
  tree : Tree Unit
  table : Nat → Option GrantHandle
  /-- The mounts of the images in the drives. -/
  slots : Nat → Option Nat

/-- What a request returns, and the calls it makes. -/
structure GrantOutcome where
  code : Int
  calls : List MutatingCall

inductive GrantCall where
  | openFile (path : Bytes)
  | create (path : Bytes)
  | mkdir (path : Bytes)
  | rmdir (path : Bytes)
  | rename (old new : Bytes)
  | setPathMode (path : Bytes) (mode : Nat)
  | setHandleMtime (handle mtime : Nat)
  | delete (path : Bytes)
  | write (handle length : Nat)
  | close (handle : Nat)
  | insert (drive : Nat) (path : Bytes)
  | eject (drive : Nat)
  | writeSector (drive : Nat)

structure GrantRequest where
  call : GrantCall
  backing : Backing
  answers : Answers

namespace GrantVfs

def boot : GrantVfs where
  tree := { files := [], dirs := [] }
  table _ := none
  slots _ := none

variable (vfs : GrantVfs) (mounts : List Binding) (backing : Backing) (answers : Answers)

/-- Return without a call to a file system. -/
def quiet (code : Int) : GrantOutcome × GrantVfs := ({ code, calls := [] }, vfs)

/-- Give out a handle. -/
def install (calls : List MutatingCall) (entry : GrantHandle) : GrantOutcome × GrantVfs :=
  match allocFileEntry vfs.table with
  | none => ({ code := -24, calls }, vfs)
  | some idx =>
    ({ code := idx, calls }, { vfs with table := Function.update vfs.table idx (some entry) })

end GrantVfs

def GrantHandle.overlay (path : Bytes) : GrantHandle where
  ram := true
  key := path.take pathKeyMax
  mount := 0
  writable := true
  decided := none

namespace GrantVfs

variable (vfs : GrantVfs) (mounts : List Binding) (backing : Backing) (answers : Answers)

/-! ## Entry points -/

def openToHandle (path : Bytes) : GrantOutcome × GrantVfs :=
  match vfs.tree.view.resolveSymlinks backing path with
  | none => vfs.quiet (-2)
  | some path =>
    if vfs.tree.files.contains path then vfs.install [] (.overlay path)
    else
      match openMember mounts answers path with
      | none => vfs.quiet (-2)
      | some (idx, sub) =>
        vfs.install []
          { ram := false
            key := path.take pathKeyMax
            mount := idx
            writable := mayWrite mounts answers idx sub
            decided := answers.found idx sub }

/-- Stamp a new object as one that may be written again. -/
def claim (idx : Nat) (sub : Bytes) : List MutatingCall :=
  match accessOf mounts idx, answers.fresh with
  | .granted grant, some fresh => [.claim idx sub (grant.claimed fresh)]
  | _, _ => []

/-- Create a file in the overlay. -/
def createOverlay (calls : List MutatingCall) (path : Bytes) : GrantOutcome × GrantVfs :=
  install { vfs with tree := { vfs.tree with files := vfs.tree.files.insert path () } }
    calls (.overlay path)

/-- The metadata that decides on a create. -/
def createMeta (mount : Nat) (existing : Option Meta) (sub : Bytes) : Option Meta :=
  if existing.isSome then answers.found mount sub
  else (parentOf sub).bind (answers.found mount)

/-- Create on the first file system of a path. -/
def createAt (head : Head) (path : Bytes) : GrantOutcome × GrantVfs :=
  if answers.supportsCreate head.mount = true ∧
      mayCreate mounts answers head.idx (answers.found head.mount head.sub) head.sub = false then
    vfs.quiet (-13)
  else if answers.created head.mount head.sub then
    vfs.install (.create head.mount head.sub ::
        if (answers.found head.mount head.sub).isSome then []
        else claim mounts answers head.idx head.sub)
      { ram := false
        key := path.take pathKeyMax
        mount := head.idx
        writable := true
        decided := createMeta answers head.idx (answers.found head.mount head.sub) head.sub }
  else if answers.supportsCreate head.mount then
    ({ code := -13, calls := [.create head.mount head.sub] }, vfs)
  else vfs.createOverlay [.create head.mount head.sub] path

def createToHandle (path : Bytes) : GrantOutcome × GrantVfs :=
  match vfs.tree.view.resolveNew backing path with
  | none => vfs.quiet (-2)
  | some path =>
    if (resolveHead mounts path).server then
      vfs.createAt mounts answers (resolveHead mounts path) path
    else vfs.createOverlay [] path

/-- Make a directory on the first file system of a path. -/
def mkdirAt (head : Head) : GrantOutcome × GrantVfs :=
  if mayWriteParent mounts answers head.idx head.sub = false then vfs.quiet (-13)
  else if answers.code < 0 then
    ({ code := answers.code, calls := [.mkdir head.mount head.sub] }, vfs)
  else
    ({ code := 0
       calls :=
         .mkdir head.mount head.sub :: claim mounts answers head.idx head.sub }, vfs)

def mkdir (path : Bytes) : GrantOutcome × GrantVfs :=
  if vfs.tree.view.dirExists backing path then vfs.quiet (-17)
  else
    match vfs.tree.view.resolveParentSymlinks backing path with
    | none => vfs.quiet (-2)
    | some path =>
      if (resolveHead mounts path).server = true ∧
          answers.supportsMkdir (resolveHead mounts path).mount = true then
        vfs.mkdirAt mounts answers (resolveHead mounts path)
      else
        ({ code := 0, calls := [] },
          { vfs with tree := { vfs.tree with dirs := vfs.tree.dirs.insert path () } })

/-- Whether the first file system of a path changes directories. -/
def mutates (head : Head) : Bool := head.server && answers.supportsDirectoryMutation head.mount

def rmdirAt (head : Head) : GrantOutcome × GrantVfs :=
  if mutates answers head = false then vfs.quiet (-38)
  else if mayWriteParent mounts answers head.idx head.sub = false ∨
      mayWrite mounts answers head.idx head.sub = false then
    vfs.quiet (-13)
  else ({ code := answers.code, calls := [.rmdir head.mount head.sub] }, vfs)

def rmdir (path : Bytes) : GrantOutcome × GrantVfs :=
  match vfs.tree.view.resolveParentSymlinks backing path with
  | none => vfs.quiet (-2)
  | some resolved =>
    if vfs.tree.dirs.keys.contains resolved then
      quiet { vfs with tree := (vfs.tree.rmdir backing path).2 } (vfs.tree.rmdir backing path).1
    else vfs.rmdirAt mounts answers (resolveHead mounts resolved)

/-- Rewrite the path of handles, if the new one fits. -/
def rekeyOpenPaths (old new : Bytes) : GrantVfs :=
  { vfs with
    table := fun handle =>
      (vfs.table handle).map fun entry =>
        if entry.key = old ∧ new.length ≤ pathKeyMax then { entry with key := new }
        else entry }

def moveFile (src dst : Bytes) : GrantVfs :=
  rekeyOpenPaths { vfs with tree := vfs.tree.moveFile src dst } src dst

/-- Rename on the first file systems of two paths. -/
def renameAt (oldHead newHead : Head) (old new : Bytes) : GrantOutcome × GrantVfs :=
  if oldHead.idx ≠ newHead.idx then vfs.quiet (-18)
  else if mutates answers oldHead = false then vfs.quiet (-38)
  else if mayWrite mounts answers oldHead.idx oldHead.sub = false ∨
      mayWriteParent mounts answers oldHead.idx oldHead.sub = false ∨
      mayWriteParent mounts answers newHead.idx newHead.sub = false then
    vfs.quiet (-13)
  else if answers.code < 0 then
    ({ code := answers.code, calls := [.rename oldHead.mount oldHead.sub newHead.sub] }, vfs)
  else
    ({ code := 0, calls := [.rename oldHead.mount oldHead.sub newHead.sub] },
      vfs.rekeyOpenPaths old new)

def rename (old new : Bytes) : GrantOutcome × GrantVfs :=
  match vfs.tree.view.resolveParentSymlinks backing old,
      vfs.tree.view.resolveParentSymlinks backing new with
  | some old, some new =>
    if vfs.tree.view.pathExists backing new then vfs.quiet (-17)
    else if vfs.tree.files.contains old then (vfs.moveFile old new).quiet 0
    else if vfs.tree.dirs.keys.contains old then
      quiet ((vfs.tree.filesBelow old).foldl
          (fun vfs src => vfs.moveFile src (retarget old new src))
          { vfs with tree := vfs.tree.moveDirs old new })
        0
    else vfs.renameAt mounts answers (resolveHead mounts old) (resolveHead mounts new) old new
  | _, _ => vfs.quiet (-2)

/-- Change the metadata of a path, where its file system keeps any. -/
def changeMeta (head : Head) (call : Meta → MutatingCall) : GrantOutcome × GrantVfs :=
  match head.server, answers.found head.mount head.sub with
  | true, some found =>
    if mayWrite mounts answers head.idx head.sub = false then vfs.quiet (-13)
    else ({ code := if answers.changed then 0 else -13, calls := [call found] }, vfs)
  | _, _ => vfs.quiet 0

def setPathMode (path : Bytes) (mode : Nat) : GrantOutcome × GrantVfs :=
  if vfs.tree.view.pathExists backing path then
    match vfs.tree.view.resolveSymlinks backing path with
    | none => vfs.quiet (-2)
    | some path =>
      vfs.changeMeta mounts answers (resolveHead mounts path) fun found =>
        .setMeta (resolveHead mounts path).mount (resolveHead mounts path).sub { found with mode }
  else vfs.quiet (-2)

def setHandleMtime (handle mtime : Nat) : GrantOutcome × GrantVfs :=
  match handleEntry vfs.table handle with
  | none => vfs.quiet (-9)
  | some entry =>
    vfs.changeMeta mounts answers (resolveHead mounts entry.key) fun _ =>
      .setMtime (resolveHead mounts entry.key).mount (resolveHead mounts entry.key).sub mtime

/-- Remove from the first file system of a path. -/
def deleteAt (head : Head) : GrantOutcome × GrantVfs :=
  if (answers.found head.mount head.sub).isSome = true ∧
      (mayWriteParent mounts answers head.idx head.sub = false ∨
        mayWrite mounts answers head.idx head.sub = false) then
    vfs.quiet (-13)
  else ({ code := answers.code, calls := [.remove head.mount head.sub] }, vfs)

def delete (path : Bytes) : GrantOutcome × GrantVfs :=
  match vfs.tree.view.resolveParentSymlinks backing path with
  | none => vfs.quiet (-2)
  | some path =>
    if vfs.tree.files.contains path then
      quiet { vfs with tree := { vfs.tree with files := vfs.tree.files.remove path } } 0
    else if (resolveHead mounts path).server then
      vfs.deleteAt mounts answers (resolveHead mounts path)
    else vfs.quiet (-1)

def writeByHandle (handle length : Nat) : GrantOutcome × GrantVfs :=
  match handleEntry vfs.table handle with
  | none => vfs.quiet (-9)
  | some entry =>
    if entry.ram then vfs.quiet (if vfs.tree.files.contains entry.key then length else -9)
    else if entry.writable = false then vfs.quiet (-30)
    else ({ code := answers.code, calls := [.write entry.mount entry.decided] }, vfs)

def closeHandle (handle : Nat) : GrantVfs :=
  { vfs with table := Function.update vfs.table handle none }

/-! ## Media -/

/-- The mount that an image is opened on; nothing is asked about writes. -/
def openBacking (path : Bytes) : Option Nat :=
  match vfs.tree.view.resolveSymlinks backing path with
  | none => none
  | some path =>
    match openCachedNode mounts answers path with
    | some (idx, _) => some idx
    | none =>
      if (resolveHead mounts path).server = true ∧
          answers.opens (resolveHead mounts path).mount (resolveHead mounts path).sub = true then
        some (resolveHead mounts path).mount
      else none

def insert (drive : Nat) (path : Bytes) : GrantOutcome × GrantVfs :=
  match vfs.openBacking mounts backing answers path with
  | none => vfs.quiet (-1)
  | some mount => quiet { vfs with slots := Function.update vfs.slots drive (some mount) } 0

def eject (drive : Nat) : GrantVfs := { vfs with slots := Function.update vfs.slots drive none }

def writeSector (drive : Nat) : GrantOutcome × GrantVfs :=
  match vfs.slots drive with
  | none => vfs.quiet (-1)
  | some mount => ({ code := answers.code, calls := [.imageWrite mount] }, vfs)

/-- What media write to their images while a request is served. -/
def mediaWrites : List MutatingCall := (answers.touched.filterMap vfs.slots).map .imageWrite

def serve : GrantCall → GrantOutcome × GrantVfs
  | .openFile path => vfs.openToHandle mounts backing answers path
  | .create path => vfs.createToHandle mounts backing answers path
  | .mkdir path => vfs.mkdir mounts backing answers path
  | .rmdir path => vfs.rmdir mounts backing answers path
  | .rename old new => vfs.rename mounts backing answers old new
  | .setPathMode path mode => vfs.setPathMode mounts backing answers path mode
  | .setHandleMtime handle mtime => vfs.setHandleMtime mounts answers handle mtime
  | .delete path => vfs.delete mounts backing answers path
  | .write handle length => vfs.writeByHandle answers handle length
  | .close handle => (vfs.closeHandle handle).quiet 0
  | .insert drive path => vfs.insert mounts backing answers drive path
  | .eject drive => (vfs.eject drive).quiet 0
  | .writeSector drive => vfs.writeSector answers drive

end GrantVfs

def grantMachine (mounts : List Binding) : Machine GrantVfs GrantRequest GrantOutcome :=
  fun vfs request =>
    ({ code :=
         (vfs.serve mounts request.backing request.answers request.call).1.code
       calls :=
         (vfs.serve mounts request.backing request.answers
           request.call).1.calls ++
           vfs.mediaWrites request.answers },
      (vfs.serve mounts request.backing request.answers request.call).2)

/-! ## What is permitted -/

section Rules

variable (mounts : List Binding) (answers : Answers)

/-- Calls and the permission that each of them needs or has got. -/
def Permitted (calls : List MutatingCall) : MutatingCall → Prop
  | .create mount sub =>
    answers.supportsCreate mount = false ∨
      (accessOf mounts mount).permits
        (GrantVfs.createMeta answers mount (answers.found mount sub) sub) = true
  | .remove mount sub =>
    answers.found mount sub = none ∨
      (mayWriteParent mounts answers mount sub = true ∧ mayWrite mounts answers mount sub = true)
  | .mkdir mount sub => mayWriteParent mounts answers mount sub = true
  | .rmdir mount sub =>
    mayWriteParent mounts answers mount sub = true ∧ mayWrite mounts answers mount sub = true
  | .rename mount old new =>
    mayWrite mounts answers mount old = true ∧
      mayWriteParent mounts answers mount old = true ∧
      mayWriteParent mounts answers mount new = true
  | .setMeta mount sub _ => mayWrite mounts answers mount sub = true
  | .setMtime mount sub _ => mayWrite mounts answers mount sub = true
  | .claim mount sub given =>
    (.create mount sub ∈ calls ∨ .mkdir mount sub ∈ calls) ∧
      ∃ grant, accessOf mounts mount = .granted grant ∧ grant.allows given = true
  | .write mount decided => (accessOf mounts mount).permits decided = true
  | .imageWrite _ => True

/-- The rule that asks the metadata of each call's own time. -/
def permittedNow : MutatingCall → Bool
  | .create mount sub =>
    (accessOf mounts mount).permits
      (GrantVfs.createMeta answers mount (answers.found mount sub) sub)
  | .remove mount sub => mayWriteParent mounts answers mount sub
  | .mkdir mount sub => mayWriteParent mounts answers mount sub
  | .rmdir mount sub => mayWriteParent mounts answers mount sub
  | .rename mount old new =>
    mayWriteParent mounts answers mount old && mayWriteParent mounts answers mount new
  | .setMeta mount sub _ => mayWrite mounts answers mount sub
  | .setMtime mount sub _ => mayWrite mounts answers mount sub
  | .claim mount _ _ => accessOf mounts mount ≠ .none
  | .write mount _ => (accessOf mounts mount).permits answers.written
  | .imageWrite mount => (accessOf mounts mount).permits answers.written

/-- A handle outside the overlay is writable by permission only. -/
def GrantHandle.Permitted (entry : GrantHandle) : Prop :=
  entry.ram = false → entry.writable = true →
    (accessOf mounts entry.mount).permits entry.decided = true

def GrantVfs.Permitted (vfs : GrantVfs) : Prop :=
  ∀ handle entry, vfs.table handle = some entry → entry.Permitted mounts

/-- A step with permitted calls to a state with permitted handles. -/
structure Sound (step : GrantOutcome × GrantVfs) : Prop where
  calls : ∀ call ∈ step.1.calls, RetroOS.Vfs.Permitted mounts answers step.1.calls call
  handles : step.2.Permitted mounts

end Rules

/-! ## Handles -/

section Handles

variable {mounts : List Binding} {vfs : GrantVfs}

theorem overlay_permitted (path : Bytes) : (GrantHandle.overlay path).Permitted mounts := by
  intro outside
  cases outside

section

variable (known : vfs.Permitted mounts)

include known

/-- Rewriting paths leaves permissions alone. -/
theorem GrantVfs.Permitted.rekeyOpenPaths (old new : Bytes) :
    (vfs.rekeyOpenPaths old new).Permitted mounts := by
  intro handle entry there
  obtain ⟨before, was, rfl⟩ := Option.map_eq_some_iff.mp there
  have permitted := known handle before was
  split_ifs
  · exact permitted
  · exact permitted

theorem GrantVfs.Permitted.moveFile (src dst : Bytes) :
    (vfs.moveFile src dst).Permitted mounts := by
  apply GrantVfs.Permitted.rekeyOpenPaths
  exact known

theorem GrantVfs.Permitted.moveFiles (target : Bytes → Bytes) (files : List Bytes) :
    (files.foldl (fun vfs src => vfs.moveFile src (target src)) vfs).Permitted mounts := by
  induction files generalizing vfs with
  | nil => exact known
  | cons src rest induction => exact induction (known.moveFile src _)

theorem GrantVfs.Permitted.update {idx : Nat} {entry : Option GrantHandle}
    (permitted : ∀ given, entry = some given → given.Permitted mounts) :
    GrantVfs.Permitted mounts { vfs with table := Function.update vfs.table idx entry } := by
  intro handle found there
  by_cases same : handle = idx
  · subst same
    exact permitted found (by simpa using there)
  · exact known handle found (by simpa [same] using there)

end

end Handles

/-! ## Entry points -/

section EntryPoints

variable {mounts : List Binding} {answers : Answers} {vfs : GrantVfs}

section

variable (known : vfs.Permitted mounts)

include known

theorem sound_quiet (code : Int) : Sound mounts answers (vfs.quiet code) where
  calls := by simp [GrantVfs.quiet]
  handles := known

/-- One call, with the handles as they were. -/
theorem sound_single {call : MutatingCall}
    (permitted : Permitted mounts answers [call] call) (code : Int) :
    Sound mounts answers ({ code, calls := [call] }, vfs) where
  calls := by
    intro made member
    rw [List.mem_singleton.mp member]
    exact permitted
  handles := known

variable {calls : List MutatingCall}

theorem sound_install {entry : GrantHandle}
    (permitted : ∀ call ∈ calls, Permitted mounts answers calls call)
    (handle : entry.Permitted mounts) :
    Sound mounts answers (vfs.install calls entry) := by
  unfold GrantVfs.install
  split
  · exact ⟨permitted, known⟩
  · refine ⟨permitted, known.update ?_⟩
    rintro given ⟨⟩
    exact handle

theorem sound_createOverlay (permitted : ∀ call ∈ calls, Permitted mounts answers calls call)
    (path : Bytes) :
    Sound mounts answers (vfs.createOverlay calls path) := by
  apply sound_install
  · exact known
  · exact permitted
  · exact overlay_permitted path

theorem sound_openToHandle (backing : Backing) (path : Bytes) :
    Sound mounts answers (vfs.openToHandle mounts backing answers path) := by
  have none_made : ∀ call ∈ ([] : List MutatingCall), Permitted mounts answers [] call := by simp
  unfold GrantVfs.openToHandle
  split
  · exact sound_quiet known _
  · split_ifs
    · exact sound_install known none_made (overlay_permitted _)
    · split
      · exact sound_quiet known _
      · apply sound_install known none_made
        intro _ writable
        exact writable

variable {mount : Nat} {sub : Bytes}

omit known in
/-- A claim follows what has just been created. -/
theorem claim_permitted (created : .create mount sub ∈ calls ∨ .mkdir mount sub ∈ calls) :
    ∀ call ∈ GrantVfs.claim mounts answers mount sub, Permitted mounts answers calls call := by
  intro call member
  unfold GrantVfs.claim at member
  split at member
  · next grant fresh granted _ =>
      rw [List.mem_singleton.mp member]
      exact ⟨created, grant, granted, grant.allows_claimed fresh⟩
  · cases member

omit known in
theorem permits_of_mayWriteParent (allowed : mayWriteParent mounts answers mount sub = true) :
    (accessOf mounts mount).permits ((parentOf sub).bind (answers.found mount)) = true := by
  unfold mayWriteParent at allowed
  split at allowed
  · next parent found =>
      rw [found]
      exact allowed
  · cases allowed

omit known in
theorem permits_of_mayCreate {existing : Option Meta}
    (allowed : mayCreate mounts answers mount existing sub = true) :
    (accessOf mounts mount).permits (GrantVfs.createMeta answers mount existing sub) = true := by
  unfold mayCreate at allowed
  unfold GrantVfs.createMeta
  by_cases existed : existing.isSome
  · rw [if_pos existed] at allowed ⊢
    exact allowed
  · rw [if_neg existed] at allowed ⊢
    exact permits_of_mayWriteParent allowed

variable {head : Head}

theorem sound_createAt (recorded : head.idx = head.mount) (path : Bytes) :
    Sound mounts answers (vfs.createAt mounts answers head path) := by
  unfold GrantVfs.createAt
  rw [recorded]
  by_cases denied :
      answers.supportsCreate head.mount = true ∧
        mayCreate mounts answers head.mount (answers.found head.mount head.sub) head.sub = false
  · rw [if_pos denied]
    exact sound_quiet known _
  rw [if_neg denied]
  have allowed (supported : answers.supportsCreate head.mount = true) :
      (accessOf mounts head.mount).permits (GrantVfs.createMeta answers head.mount
          (answers.found head.mount head.sub) head.sub) = true := by
    apply permits_of_mayCreate
    by_contra refused
    exact denied ⟨supported, by simpa using refused⟩
  have create (calls : List MutatingCall) :
      Permitted mounts answers calls (.create head.mount head.sub) := by
    cases supported : answers.supportsCreate head.mount with
    | false => exact Or.inl supported
    | true => exact Or.inr (allowed supported)
  by_cases created : answers.created head.mount head.sub = true
  · rw [if_pos created]
    apply sound_install known
    · intro call member
      rcases List.mem_cons.mp member with rfl | stamped
      · exact create _
      · split_ifs at stamped
        · cases stamped
        · exact claim_permitted (Or.inl List.mem_cons_self) call stamped
    · intro _ _
      exact allowed (answers.created_supported _ _ created)
  rw [if_neg created]
  split_ifs
  · exact sound_single known (create _) _
  · apply sound_createOverlay known
    intro call member
    rw [List.mem_singleton.mp member]
    exact create _

theorem sound_mkdirAt (recorded : head.idx = head.mount) :
    Sound mounts answers (vfs.mkdirAt mounts answers head) := by
  unfold GrantVfs.mkdirAt
  rw [recorded]
  split_ifs with denied failed
  · exact sound_quiet known _
  · exact sound_single known (by simpa [Permitted] using denied) _
  · refine ⟨?_, known⟩
    intro call member
    rcases List.mem_cons.mp member with rfl | stamped
    · exact (by simpa using denied : mayWriteParent mounts answers head.mount head.sub = true)
    · exact claim_permitted (Or.inr List.mem_cons_self) call stamped

theorem sound_renameAt {oldHead newHead : Head}
    (recordedOld : oldHead.idx = oldHead.mount) (old new : Bytes) :
    Sound mounts answers (vfs.renameAt mounts answers oldHead newHead old new) := by
  unfold GrantVfs.renameAt
  by_cases apart : oldHead.idx ≠ newHead.idx
  · rw [if_pos apart]
    exact sound_quiet known _
  rw [if_neg apart, ← not_ne_iff.mp apart, recordedOld]
  split_ifs with fixed denied failed
  · exact sound_quiet known _
  · exact sound_quiet known _
  · exact sound_single known (by simpa [Permitted] using denied) _
  · exact sound_single (known.rekeyOpenPaths old new) (by simpa [Permitted] using denied) _

theorem sound_changeMeta {call : Meta → MutatingCall} (allows :
      mayWrite mounts answers head.idx head.sub = true → ∀ found,
        Permitted mounts answers [call found] (call found)) :
    Sound mounts answers (vfs.changeMeta mounts answers head call) := by
  unfold GrantVfs.changeMeta
  split
  · split_ifs with denied
    · exact sound_quiet known _
    · exact sound_single known (allows (by simpa using denied) _) _
    · exact sound_single known (allows (by simpa using denied) _) _
  · exact sound_quiet known _

omit known in
theorem entry_of_handleEntry {α : Type} {table : Nat → Option α} {handle : Nat} {entry : α}
    (found : handleEntry table handle = some entry) :
    table handle = some entry := by
  unfold handleEntry at found
  split_ifs at found
  exact found

theorem sound_writeByHandle (handle length : Nat) :
    Sound mounts answers (vfs.writeByHandle answers handle length) := by
  unfold GrantVfs.writeByHandle
  split
  · exact sound_quiet known _
  · next entry found =>
      have permitted := known handle entry (entry_of_handleEntry found)
      by_cases inside : entry.ram = true
      · rw [if_pos inside]
        exact sound_quiet known _
      rw [if_neg inside]
      by_cases denied : entry.writable = false
      · rw [if_pos denied]
        exact sound_quiet known _
      rw [if_neg denied]
      apply sound_single known
      exact permitted (by simpa using inside) (by simpa using denied)

theorem sound_insert (backing : Backing) (drive : Nat) (path : Bytes) :
    Sound mounts answers (vfs.insert mounts backing answers drive path) := by
  unfold GrantVfs.insert
  split
  · exact sound_quiet known _
  · exact ⟨by simp [GrantVfs.quiet], known⟩

theorem sound_writeSector (drive : Nat) : Sound mounts answers (vfs.writeSector answers drive) := by
  unfold GrantVfs.writeSector
  split
  · exact sound_quiet known _
  · apply sound_single known
    trivial

variable (small : mounts.length ≤ 2 ^ 8) (backing : Backing)

include small

theorem sound_createToHandle (path : Bytes) :
    Sound mounts answers (vfs.createToHandle mounts backing answers path) := by
  unfold GrantVfs.createToHandle
  split
  · exact sound_quiet known _
  · split_ifs
    · exact sound_createAt known (resolveHead_idx small _) _
    · apply sound_createOverlay known
      simp

theorem sound_mkdir (path : Bytes) :
    Sound mounts answers (vfs.mkdir mounts backing answers path) := by
  unfold GrantVfs.mkdir
  split_ifs
  · exact sound_quiet known _
  · split
    · exact sound_quiet known _
    · split_ifs
      · exact sound_mkdirAt known (resolveHead_idx small _)
      · exact ⟨by simp, known⟩

theorem sound_rmdir (path : Bytes) :
    Sound mounts answers (vfs.rmdir mounts backing answers path) := by
  unfold GrantVfs.rmdir
  split
  · exact sound_quiet known _
  · split_ifs
    · exact ⟨by simp [GrantVfs.quiet], known⟩
    · unfold GrantVfs.rmdirAt
      rw [resolveHead_idx small]
      split_ifs with fixed denied
      · exact sound_quiet known _
      · exact sound_quiet known _
      · exact sound_single known (by simpa [Permitted] using denied) _

theorem sound_rename (old new : Bytes) :
    Sound mounts answers (vfs.rename mounts backing answers old new) := by
  unfold GrantVfs.rename
  split
  · split_ifs
    · exact sound_quiet known _
    · exact sound_quiet (known.moveFile _ _) _
    · refine sound_quiet (GrantVfs.Permitted.moveFiles ?_ _ _) _
      exact known
    · exact sound_renameAt known (resolveHead_idx small _) _ _
  · exact sound_quiet known _

theorem sound_setPathMode (path : Bytes) (mode : Nat) :
    Sound mounts answers (vfs.setPathMode mounts backing answers path mode) := by
  unfold GrantVfs.setPathMode
  split_ifs
  · split
    · exact sound_quiet known _
    · apply sound_changeMeta known
      intro allowed found
      rw [resolveHead_idx small] at allowed
      exact allowed
  · exact sound_quiet known _

theorem sound_setHandleMtime (handle mtime : Nat) :
    Sound mounts answers (vfs.setHandleMtime mounts answers handle mtime) := by
  unfold GrantVfs.setHandleMtime
  split
  · exact sound_quiet known _
  · apply sound_changeMeta known
    intro allowed found
    rw [resolveHead_idx small] at allowed
    exact allowed

theorem sound_delete (path : Bytes) :
    Sound mounts answers (vfs.delete mounts backing answers path) := by
  unfold GrantVfs.delete
  split
  · exact sound_quiet known _
  · split_ifs
    · exact ⟨by simp [GrantVfs.quiet], known⟩
    · unfold GrantVfs.deleteAt
      rw [resolveHead_idx small]
      split_ifs with denied
      · exact sound_quiet known _
      · apply sound_single known
        rw [not_and_or] at denied
        rcases denied with unknown | allowed
        · exact Or.inl (by simpa using unknown)
        · exact Or.inr (by simpa using allowed)
    · exact sound_quiet known _

theorem sound_serve (call : GrantCall) :
    Sound mounts answers (vfs.serve mounts backing answers call) := by
  cases call with
  | openFile path => exact sound_openToHandle known backing path
  | create path => exact sound_createToHandle known small backing path
  | mkdir path => exact sound_mkdir known small backing path
  | rmdir path => exact sound_rmdir known small backing path
  | rename old new => exact sound_rename known small backing old new
  | setPathMode path mode => exact sound_setPathMode known small backing path mode
  | setHandleMtime handle mtime => exact sound_setHandleMtime known small handle mtime
  | delete path => exact sound_delete known small backing path
  | write handle length => exact sound_writeByHandle known handle length
  | close handle =>
    refine sound_quiet (known.update ?_) _
    rintro given ⟨⟩
  | insert drive path => exact sound_insert known backing drive path
  | eject drive => exact ⟨by simp [GrantVfs.serve, GrantVfs.quiet], known⟩
  | writeSector drive => exact sound_writeSector known drive

end

end EntryPoints

/-! ## Runs -/

/-- More calls beside it do not take a permission away. -/
theorem Permitted.mono {mounts : List Binding} {answers : Answers}
    {fewer more : List MutatingCall} {call : MutatingCall}
    (permitted : Permitted mounts answers fewer call)
    (subset : fewer ⊆ more) :
    Permitted mounts answers more call := by
  cases call with
  | claim mount sub given =>
    obtain ⟨created, grant, granted, allowed⟩ := permitted
    refine ⟨?_, grant, granted, allowed⟩
    rcases created with file | directory
    · exact Or.inl (subset file)
    · exact Or.inr (subset directory)
  | _ => exact permitted

theorem sound_grantMachine {mounts : List Binding} (small : mounts.length ≤ 2 ^ 8) (vfs : GrantVfs)
    (request : GrantRequest) (known : vfs.Permitted mounts) :
    Sound mounts request.answers (grantMachine mounts vfs request) := by
  have served := @sound_serve mounts request.answers vfs known small request.backing request.call
  refine ⟨?_, served.handles⟩
  intro call member
  rcases List.mem_append.mp member with own | medium
  · exact (served.calls call own).mono (List.subset_append_left _ _)
  · obtain ⟨mount, _, rfl⟩ := List.mem_map.mp medium
    trivial

section Runs

/-- File systems with one file and nothing to say about it. -/
def silentAnswers : Answers where
  found _ _ := none
  opens _ _ := true
  cachedNode _ := none
  supportsCreate _ := false
  supportsMkdir _ := false
  supportsDirectoryMutation _ := false
  created _ _ := false
  created_supported _ _ created := created
  code := 0
  changed := true
  fresh := none
  written := none
  touched := []

/-- All objects have the same metadata. -/
def uniformAnswers (found : Meta) : Answers :=
  { silentAnswers with
    found := fun _ _ => some found
    supportsCreate := fun _ => true
    created_supported := fun _ _ _ => rfl
    written := some found }

def plainBacking : Backing where
  children dir :=
    if dir = [] then
      [{ name := [0x61], isDir := false, isSymlink := false, target := none },
        { name := [0x62], isDir := true, isSymlink := false, target := none }]
    else []
  dirExists _ := false
  opens _ := true
  sameMount _ _ := true

def rootMount (access : WriteAccess) : Binding where
  mountPoint := []
  target := .server
  access
  seq := 0

/-- A mount without writes behind 256 others. -/
def crowdedTable : List Binding :=
  rootMount .delegated ::
    (List.replicate 255
      { mountPoint := [0x63, slash], target := .server, access := .delegated, seq := 1 } ++
      [{ mountPoint := [0x62, slash], target := .server, access := .none, seq := 2 }])

def silentRequest (call : GrantCall) : GrantRequest where
  call
  backing := plainBacking
  answers := silentAnswers

def uniformRequest (mode : Nat) (call : GrantCall) : GrantRequest where
  call
  backing := plainBacking
  answers := uniformAnswers { uid := 0, gid := 100, mode }

/-- Some call of a run is not permitted at its time. -/
def bypasses (mounts : List Binding) (requests : List GrantRequest) : Bool :=
  ((grantMachine mounts).run GrantVfs.boot requests).any fun move =>
    move.answer.calls.any fun call => !permittedNow mounts move.input.answers call

/-- The requests that lead past the rule, with their mount tables. -/
def bypassingRuns : List (List Binding × List GrantRequest) :=
  [ ([rootMount .none], [silentRequest (.create [0x61])]),
    ([rootMount .none], [silentRequest (.delete [0x61])]),
    ([rootMount .none], [silentRequest (.insert 0 [0x61]), silentRequest (.writeSector 0)]),
    ([rootMount (.granted { gid := 100 })], [uniformRequest 0o660 (.openFile [0x61]),
        uniformRequest 0o660 (.setPathMode [0x61] 0o640),
        uniformRequest 0o640 (.write 0 1)]),
    (crowdedTable, [uniformRequest 0o660 (.create [0x62, slash, 0x61])]) ]

end Runs

end RetroOS.Vfs
