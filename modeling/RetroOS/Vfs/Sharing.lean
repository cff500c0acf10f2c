import RetroOS.Lib.Machine
import RetroOS.Vfs.Paths
import Mathlib.Order.CompletePartialOrder

/-!
# Share modes and locks

Open files are kept in one table of 128 entries.  A DOS program opens a file
with what it wants to do and what it denies others; both are compared with
those of all other handles of the same number.  Locks are kept in a list with
the number of their file and the handle that owns them.

Two handles are of the same file when they have the same number.  The number
comes from the text of the path, so handles of one file that were opened by
different texts are not compared.  Ends of ranges are cut off at the greatest
32-bit number, so the byte at that offset is in no range.  With neither of the
two, share modes and locks exclude each other (`sharing_excludes`).
-/

namespace RetroOS.Vfs

open Lib Lib.Bytes

inductive OpenAccess where
  | read
  | write
  | readWrite
  deriving DecidableEq

inductive SharePolicy where
  | compatibility
  | denyAll
  | denyWrite
  | denyRead
  | denyNone
  deriving DecidableEq

def reads (access : OpenAccess) : Bool := access ≠ .write

def writes (access : OpenAccess) : Bool := access ≠ .read

/-- Whether a share policy denies an access. -/
def denied : SharePolicy → OpenAccess → Bool
  | .denyAll, access => reads access || writes access
  | .denyWrite, access => writes access
  | .denyRead, access => reads access
  | .compatibility, _ | .denyNone, _ => false

/-- What a handle was opened for. -/
structure Opened where
  ino : Nat
  writable : Bool
  access : OpenAccess
  share : SharePolicy
  /-- The file behind the handle. -/
  identity : Nat
  /-- The path it was opened by. -/
  path : Bytes
  deriving DecidableEq

/-- A handle before its access and share policy are set. -/
def Opened.fresh (path : Bytes) (file : BackingFile) : Opened where
  ino := pathIno path
  writable := file.writable
  access := .read
  share := .denyNone
  identity := file.identity
  path

structure FileEntry where
  refcount : Nat
  opened : Opened
  deriving DecidableEq

structure FileLock where
  ino : Nat
  owner : Nat
  start : UInt32
  len : UInt32
  deriving DecidableEq

/-- Where a range ends, cut off at the greatest number. -/
def saturatingEnd (start len : UInt32) : Nat := min (start.toNat + len.toNat) (2 ^ 32 - 1)

structure Files where
  table : Nat → FileEntry
  locks : List FileLock

namespace Files

def boot : Files where
  table _ :=
    { refcount := 0
      opened :=
        { ino := 0, writable := false, access := .read, share := .denyNone
          identity := 0, path := [] } }
  locks := []

def setEntry (files : Files) (idx : Nat) (entry : FileEntry) : Files :=
  { files with table := Function.update files.table idx entry }

def allocFileEntry (files : Files) : Option Nat :=
  (List.range maxOpenFiles).find? fun idx => (files.table idx).refcount = 0

def dropRef (files : Files) (idx : Nat) : Files :=
  files.setEntry idx { files.table idx with refcount := (files.table idx).refcount - 1 }

/-- With its last reference, an entry loses its locks. -/
def closeHandle (files : Files) (idx : Nat) : Files :=
  if maxOpenFiles ≤ idx then files
  else if (files.table idx).refcount = 0 then files
  else if ((files.dropRef idx).table idx).refcount = 0 then
    { files.dropRef idx with locks := files.locks.filter fun lock => lock.owner ≠ idx }
  else files.dropRef idx

/-- Open a path; the handle, or an error. -/
def openToHandle (files : Files) (names : Names) (path : Bytes) : Except Int Nat × Files :=
  match names.lookup path with
  | none => (.error (-2), files)
  | some file =>
    match files.allocFileEntry with
    | none => (.error (-24), files)
    | some idx => (.ok idx, files.setEntry idx { refcount := 1, opened := Opened.fresh path file })

/-- Whether a handle stands against an access and a share policy. -/
def objects (files : Files) (handle : Nat) (access : OpenAccess)
    (share : SharePolicy) (idx : Nat) : Bool :=
  idx ≠ handle && (files.table idx).refcount ≠ 0 &&
    (files.table idx).opened.ino = (files.table handle).opened.ino &&
    (denied (files.table idx).opened.share access || denied share (files.table idx).opened.access)

def configureOpen (files : Files) (handle : Nat) (access : OpenAccess)
    (share : SharePolicy) : Int × Files :=
  if maxOpenFiles ≤ handle then (-9, files)
  else if (files.table handle).refcount = 0 then (-9, files)
  else if (List.range maxOpenFiles).any (files.objects handle access share) then (-13, files)
  else
    (0, files.setEntry handle
        { files.table handle with opened := { (files.table handle).opened with access, share } })

/-- Whether a lock of another owner meets a range. -/
def blocks (handle ino : Nat) (start len : UInt32) (lock : FileLock) : Bool :=
  lock.ino = ino && lock.owner ≠ handle && start.toNat < saturatingEnd lock.start lock.len &&
    lock.start.toNat < saturatingEnd start len

def lockRange (files : Files) (handle : Nat) (unlock : Bool) (start len : UInt32) : Int × Files :=
  if maxOpenFiles ≤ handle then (-9, files)
  else if (files.table handle).refcount = 0 then (-9, files)
  else if unlock then
    match files.locks.findIdx? fun lock =>
        lock.owner = handle && lock.start = start && lock.len = len with
    | some index => (0, { files with locks := files.locks.eraseIdx index })
    | none => (-33, files)
  else if files.locks.any (blocks handle (files.table handle).opened.ino start len) then
    (-33, files)
  else
    (0,
      { files with
        locks :=
          files.locks ++
            [{ ino := (files.table handle).opened.ino, owner := handle, start, len }] })

end Files

/-! ## Opening from DOS -/

/-- Access and share policy of an open mode. -/
def openPolicies (mode : UInt8) : Option (OpenAccess × SharePolicy) := do
  let access ←
    match (mode &&& 3).toNat with
    | 0 => some .read
    | 1 => some .write
    | 2 => some .readWrite
    | _ => none
  let share ←
    match ((mode >>> 4) &&& 7).toNat with
    | 0 => some .compatibility
    | 1 => some .denyAll
    | 2 => some .denyWrite
    | 3 => some .denyRead
    | 4 => some .denyNone
    | _ => none
  some (access, share)

/--
Open a path with a mode.  `fdFree` and `jftFree`: the tables of the process
have room for the handle.
-/
def Files.dosOpen (files : Files) (names : Names) (path : Bytes)
    (mode : UInt8) (fdFree jftFree : Bool) : Int × Files :=
  match files.openToHandle names path with
  | (.error code, after) => (code, after)
  | (.ok handle, opened) =>
    if fdFree = false then (-24, opened.closeHandle handle)
    else if mode &&& 3 ≠ 0 ∧ (opened.table handle).opened.writable = false then
      (-13, opened.closeHandle handle)
    else
      match openPolicies mode with
      | none => (-22, opened.closeHandle handle)
      | some (access, share) =>
        let (code, configured) := opened.configureOpen handle access share
        if code < 0 then (code, configured.closeHandle handle)
        else if jftFree = false then (-24, configured.closeHandle handle)
        else (handle, configured)

inductive FileRequest where
  | dosOpen (path : Bytes) (mode : UInt8) (fdFree jftFree : Bool)
  | close (handle : Nat)
  | lockRange (handle : Nat) (unlock : Bool) (start len : UInt32)

def filesMachine (names : Names) : Machine Files FileRequest Int
  | files, .dosOpen path mode fdFree jftFree => files.dosOpen names path mode fdFree jftFree
  | files, .close handle => (0, files.closeHandle handle)
  | files, .lockRange handle unlock start len => files.lockRange handle unlock start len

/-! ## What must not happen -/

def Opened.Forbids (first second : Opened) : Prop := denied first.share second.access = true

instance (first second : Opened) : Decidable (first.Forbids second) :=
  inferInstanceAs (Decidable (_ = true))

/-- The bytes of a lock. -/
def FileLock.range (lock : FileLock) : Set Nat :=
  Set.Ico lock.start.toNat (lock.start.toNat + lock.len.toNat)

def Files.Live (files : Files) (handle : Nat) : Prop := (files.table handle).refcount ≠ 0

/-- Share modes and locks of one file exclude each other. -/
structure Files.Exclusive (files : Files) : Prop where
  sharing :
    ∀ first second, first ≠ second →
      files.Live first → files.Live second →
      (files.table first).opened.identity = (files.table second).opened.identity →
      ¬ (files.table first).opened.Forbids (files.table second).opened
  locking :
    ∀ first ∈ files.locks, ∀ second ∈ files.locks, first.owner ≠ second.owner →
      (files.table first.owner).opened.identity = (files.table second.owner).opened.identity →
      ∀ byte < 2 ^ 32, ¬ (byte ∈ first.range ∧ byte ∈ second.range)

/--
A file that is open is opened by the path it is open by, and no locked range
reaches the last 32-bit offset.
-/
def FilesOrderly (names : Names) (files : Files) : FileRequest → Prop
  | .dosOpen path _ _ _ =>
    ∀ handle < maxOpenFiles, files.Live handle →
      (names.lookup path).map BackingFile.identity = some (files.table handle).opened.identity →
      (files.table handle).opened.path = path
  | .lockRange _ unlock start len => unlock = true ∨ start.toNat + len.toNat < 2 ^ 32
  | .close _ => True

instance (files : Files) (handle : Nat) : Decidable (files.Live handle) :=
  inferInstanceAs (Decidable (_ ≠ _))

instance (names : Names) (files : Files) :
    (request : FileRequest) → Decidable (FilesOrderly names files request)
  | .dosOpen .. => inferInstanceAs (Decidable (∀ handle < maxOpenFiles, _))
  | .lockRange .. => inferInstanceAs (Decidable (_ ∨ _))
  | .close _ => .isTrue trivial

/-! ## Handles and locks fit together -/

/-- What every request keeps. -/
structure Files.Sound (files : Files) : Prop where
  small : ∀ handle, files.Live handle → handle < maxOpenFiles
  numbered :
    ∀ handle, files.Live handle →
      (files.table handle).opened.ino = pathIno (files.table handle).opened.path
  spelled :
    ∀ first second, files.Live first → files.Live second →
      (files.table first).opened.identity = (files.table second).opened.identity →
      (files.table first).opened.path = (files.table second).opened.path
  compatible :
    ∀ first second, first ≠ second →
      files.Live first → files.Live second →
      (files.table first).opened.ino = (files.table second).opened.ino →
      ¬ (files.table first).opened.Forbids (files.table second).opened
  owned :
    ∀ lock ∈ files.locks, files.Live lock.owner ∧ lock.ino = (files.table lock.owner).opened.ino
  bounded : ∀ lock ∈ files.locks, lock.start.toNat + lock.len.toNat < 2 ^ 32
  apart :
    ∀ first ∈ files.locks, ∀ second ∈ files.locks,
      first.owner ≠ second.owner → first.ino = second.ino →
      Disjoint first.range second.range

variable {names : Names}

section Sound

variable {files : Files}

/-- Handles of one file have one number. -/
theorem Files.Sound.sameNumber (sound : files.Sound) {first second : Nat}
    (liveFirst : files.Live first) (liveSecond : files.Live second)
    (same : (files.table first).opened.identity = (files.table second).opened.identity) :
    (files.table first).opened.ino = (files.table second).opened.ino := by
  rw [sound.numbered first liveFirst, sound.numbered second liveSecond,
    sound.spelled first second liveFirst liveSecond same]

theorem Files.Sound.exclusive (sound : files.Sound) : files.Exclusive where
  sharing first second other liveFirst liveSecond same :=
    sound.compatible first second other liveFirst liveSecond
      (sound.sameNumber liveFirst liveSecond same)
  locking first inFirst second inSecond other same byte _ both := by
    obtain ⟨liveFirst, inoFirst⟩ := sound.owned first inFirst
    obtain ⟨liveSecond, inoSecond⟩ := sound.owned second inSecond
    have sameIno : first.ino = second.ino := by
      rw [inoFirst, inoSecond]
      exact sound.sameNumber liveFirst liveSecond same
    exact Set.disjoint_left.mp (sound.apart first inFirst second inSecond other sameIno)
      both.1 both.2

/-- With fewer handles and locks, everything still fits. -/
theorem Files.Sound.shrink (sound : files.Sound) {after : Files} (handles :
      ∀ handle, after.Live handle → files.Live handle ∧
        (after.table handle).opened = (files.table handle).opened)
    (locks : ∀ lock ∈ after.locks, lock ∈ files.locks ∧ after.Live lock.owner) : after.Sound where
  small handle live := sound.small handle (handles handle live).1
  numbered handle live := by
    rw [(handles handle live).2]
    exact sound.numbered handle (handles handle live).1
  spelled first second liveFirst liveSecond := by
    rw [(handles first liveFirst).2, (handles second liveSecond).2]
    exact sound.spelled first second (handles first liveFirst).1 (handles second liveSecond).1
  compatible first second other liveFirst liveSecond := by
    rw [(handles first liveFirst).2, (handles second liveSecond).2]
    exact sound.compatible first second other (handles first liveFirst).1
      (handles second liveSecond).1
  owned lock member := by
    obtain ⟨known, live⟩ := locks lock member
    refine ⟨live, ?_⟩
    rw [(handles lock.owner live).2]
    exact (sound.owned lock known).2
  bounded lock member := sound.bounded lock (locks lock member).1
  apart first inFirst second inSecond :=
    sound.apart first (locks first inFirst).1 second (locks second inSecond).1

variable {idx handle : Nat}

theorem live_setEntry {entry : FileEntry} :
    (files.setEntry idx entry).Live handle ↔
      if handle = idx then entry.refcount ≠ 0 else files.Live handle := by
  unfold Files.Live Files.setEntry
  by_cases same : handle = idx
  · rw [if_pos same, same]
    simp
  · rw [if_neg same]
    simp [same]

theorem setEntry_same (idx : Nat) (entry : FileEntry) :
    (files.setEntry idx entry).table idx = entry :=
  Function.update_self ..

theorem setEntry_other (entry : FileEntry) (other : handle ≠ idx) :
    (files.setEntry idx entry).table handle = files.table handle :=
  Function.update_of_ne other ..

theorem dropRef_spec (used : files.Live idx) (live : (files.dropRef idx).Live handle) :
    files.Live handle ∧
      ((files.dropRef idx).table handle).opened = (files.table handle).opened := by
  unfold Files.dropRef at live ⊢
  by_cases same : handle = idx
  · subst same
    rw [setEntry_same]
    exact ⟨used, rfl⟩
  · rw [live_setEntry, if_neg same] at live
    rw [setEntry_other _ same]
    exact ⟨live, rfl⟩

theorem setEntry_setEntry (idx : Nat) (first second : FileEntry) :
    (files.setEntry idx first).setEntry idx second = files.setEntry idx second := by
  unfold Files.setEntry
  rw [Function.update_idem]

/-- A closed handle takes its locks along. -/
theorem Files.Sound.closeHandle (sound : files.Sound) (idx : Nat) :
    (files.closeHandle idx).Sound := by
  unfold Files.closeHandle
  split_ifs with _ free last
  · exact sound
  · exact sound
  · refine sound.shrink (fun handle live => dropRef_spec free live) (fun lock member => ?_)
    obtain ⟨known, other⟩ := List.mem_filter.mp member
    refine ⟨known, live_setEntry.mpr ?_⟩
    rw [if_neg (of_decide_eq_true other)]
    exact (sound.owned lock known).1
  · refine sound.shrink (fun handle live => dropRef_spec free live)
      (fun lock member => ⟨member, ?_⟩)
    by_cases same : lock.owner = idx
    · rw [same]
      exact last
    · refine live_setEntry.mpr ?_
      rw [if_neg same]
      exact (sound.owned lock member).1

/-! ## Locks -/

/-- Ranges that do not block each other have no byte in common. -/
theorem disjoint_of_not_blocks {ino : Nat} {start len : UInt32} {lock : FileLock}
    (bounded : start.toNat + len.toNat < 2 ^ 32)
    (lockBounded : lock.start.toNat + lock.len.toNat < 2 ^ 32) (sameIno : lock.ino = ino)
    (other : lock.owner ≠ handle) (free : Files.blocks handle ino start len lock = false) :
    Disjoint lock.range (Set.Ico start.toNat (start.toNat + len.toNat)) := by
  have ends : saturatingEnd start len = start.toNat + len.toNat := by
    unfold saturatingEnd
    omega
  have lockEnds : saturatingEnd lock.start lock.len = lock.start.toNat + lock.len.toNat := by
    unfold saturatingEnd
    omega
  rw [Files.blocks, ends, lockEnds] at free
  simp only [sameIno, other, decide_true, ne_eq, not_false_eq_true,
    Bool.true_and, Bool.and_eq_false_iff, decide_eq_false_iff_not,
    not_lt] at free
  refine Set.disjoint_left.mpr fun byte inLock inRange => ?_
  obtain ⟨lockFrom, lockTo⟩ := inLock
  obtain ⟨from_, to_⟩ := inRange
  omega

theorem Files.Sound.lockRange (sound : files.Sound) (handle : Nat)
    (unlock : Bool) {start len : UInt32}
    (bounded : unlock = true ∨ start.toNat + len.toNat < 2 ^ 32) :
    (files.lockRange handle unlock start len).2.Sound := by
  unfold Files.lockRange
  split_ifs with _ free unlocks blocked
  · exact sound
  · exact sound
  · split
    · refine sound.shrink (fun _ live => ⟨live, rfl⟩) fun lock member => ?_
      have known := List.mem_of_mem_eraseIdx member
      exact ⟨known, (sound.owned lock known).1⟩
    · exact sound
  · exact sound
  · have inside := bounded.resolve_left unlocks
    have noneBlocks : ∀ lock ∈ files.locks,
        Files.blocks handle (files.table handle).opened.ino start len lock = false := by
      simpa using blocked
    have fresh : ∀ lock ∈ files.locks, lock.owner ≠ handle →
        lock.ino = (files.table handle).opened.ino →
        Disjoint lock.range (Set.Ico start.toNat (start.toNat + len.toNat)) :=
      fun lock member other same => disjoint_of_not_blocks inside
        (sound.bounded lock member) same other (noneBlocks lock member)
    refine { sound with owned := ?_, bounded := ?_, apart := ?_ }
    · intro lock member
      rcases List.mem_append.mp member with earlier | new
      · exact sound.owned lock earlier
      · rw [List.mem_singleton.mp new]
        exact ⟨free, rfl⟩
    · intro lock member
      rcases List.mem_append.mp member with earlier | new
      · exact sound.bounded lock earlier
      · rw [List.mem_singleton.mp new]
        exact inside
    · intro first inFirst second inSecond other same
      rcases List.mem_append.mp inFirst with earlier | new <;>
        rcases List.mem_append.mp inSecond with earlier' | new'
      · exact sound.apart first earlier second earlier' other same
      · obtain rfl := List.mem_singleton.mp new'
        exact fresh first earlier other same
      · obtain rfl := List.mem_singleton.mp new
        exact (fresh second earlier' other.symm same.symm).symm
      · rw [List.mem_singleton.mp new, List.mem_singleton.mp new'] at other
        exact absurd rfl other

/-! ## Opens -/

theorem allocFileEntry_spec (found : files.allocFileEntry = some idx) :
    idx < maxOpenFiles ∧ ¬ files.Live idx := by
  refine ⟨List.mem_range.mp (List.mem_of_find?_eq_some found), ?_⟩
  have free := List.find?_some found
  simpa [Files.Live] using free

/-- A free entry that is used and closed again. -/
theorem Files.Sound.abandon (sound : files.Sound) (small : idx < maxOpenFiles) (opened : Opened) :
    ((files.setEntry idx { refcount := 1, opened }).closeHandle idx).Sound := by
  have dropped :
      (files.setEntry idx { refcount := 1, opened }).dropRef idx =
        files.setEntry idx { refcount := 0, opened } := by
    rw [Files.dropRef, setEntry_same, setEntry_setEntry]
    rfl
  have closed :
      (files.setEntry idx { refcount := 1, opened }).closeHandle idx =
        { files.setEntry idx { refcount := 0, opened } with
          locks := files.locks.filter fun lock => lock.owner ≠ idx } := by
    unfold Files.closeHandle
    rw [if_neg (by omega), if_neg (by simp [setEntry_same]), dropped,
      if_pos (by simp [setEntry_same])]
    rfl
  rw [closed]
  refine sound.shrink (fun handle live => ?_) (fun lock member => ?_)
  · have lives := live_setEntry.mp live
    split_ifs at lives with same
    · exact absurd rfl lives
    · exact ⟨lives, congrArg _ (setEntry_other _ same)⟩
  · obtain ⟨known, other⟩ := List.mem_filter.mp member
    refine ⟨known, live_setEntry.mpr ?_⟩
    rw [if_neg (of_decide_eq_true other)]
    exact (sound.owned lock known).1

/-- A new handle that no other one stands against. -/
theorem Files.Sound.admit (sound : files.Sound) (free : ¬ files.Live idx)
    (small : idx < maxOpenFiles) {opened : Opened} (numbered : opened.ino = pathIno opened.path)
    (spelled :
      ∀ handle, files.Live handle →
        (files.table handle).opened.identity = opened.identity →
        (files.table handle).opened.path = opened.path) (compatible :
      ∀ handle, files.Live handle →
        (files.table handle).opened.ino = opened.ino →
        ¬ (files.table handle).opened.Forbids opened ∧
          ¬ opened.Forbids (files.table handle).opened) :
    (files.setEntry idx { refcount := 1, opened }).Sound := by
  have cases : ∀ handle, (files.setEntry idx { refcount := 1, opened }).Live handle →
      (handle = idx ∧
        ((files.setEntry idx { refcount := 1, opened }).table handle).opened = opened) ∨
      (handle ≠ idx ∧ files.Live handle ∧
        ((files.setEntry idx { refcount := 1, opened }).table
          handle).opened = (files.table handle).opened) := by
    intro handle live
    by_cases same : handle = idx
    · subst same
      exact .inl ⟨rfl, by rw [setEntry_same]⟩
    · rw [live_setEntry, if_neg same] at live
      exact .inr ⟨same, live, by rw [setEntry_other _ same]⟩
  refine
    { small := fun handle live => ?_
      numbered := fun handle live => ?_
      spelled := fun first second liveFirst liveSecond => ?_
      compatible := fun first second other liveFirst liveSecond => ?_
      owned := fun lock member => ?_
      bounded := sound.bounded
      apart := sound.apart }
  · rcases cases handle live with ⟨rfl, _⟩ | ⟨_, live, _⟩
    · exact small
    · exact sound.small handle live
  · rcases cases handle live with ⟨_, entry⟩ | ⟨_, live, entry⟩ <;> rw [entry]
    · exact numbered
    · exact sound.numbered handle live
  · rcases cases first liveFirst with ⟨_, entry⟩ | ⟨_, live, entry⟩ <;>
      rcases cases second liveSecond with ⟨_, entry'⟩ | ⟨_, live', entry'⟩ <;>
      rw [entry, entry']
    · exact fun _ => rfl
    · exact fun same => (spelled second live' same.symm).symm
    · exact spelled first live
    · exact sound.spelled first second live live'
  · rcases cases first liveFirst with ⟨here, entry⟩ | ⟨_, live, entry⟩ <;>
      rcases cases second liveSecond with
        ⟨here', entry'⟩ | ⟨_, live', entry'⟩ <;>
      rw [entry, entry']
    · exact absurd (here.trans here'.symm) other
    · exact fun same => (compatible second live' same.symm).2
    · exact fun same => (compatible first live same).1
    · exact sound.compatible first second other live live'
  · obtain ⟨live, ino⟩ := sound.owned lock member
    have other : lock.owner ≠ idx := fun same => free (same ▸ live)
    refine ⟨live_setEntry.mpr (by rwa [if_neg other]), ?_⟩
    rw [setEntry_other _ other]
    exact ino

/-- Configuring either changes nothing or meets no objection. -/
theorem configureOpen_cases (files : Files) (handle : Nat)
    (access : OpenAccess) (share : SharePolicy) :
    ((files.configureOpen handle access share).1 < 0 ∧
        (files.configureOpen handle access share).2 = files) ∨
      (files.configureOpen handle access share).1 = 0 ∧
        (∀ idx < maxOpenFiles, files.objects handle access share idx = false) ∧
        (files.configureOpen handle access share).2 =
          files.setEntry handle
            { files.table handle with
              opened :=
                { (files.table handle).opened with access, share } } := by
  unfold Files.configureOpen
  split_ifs with _ _ objection
  · exact .inl ⟨Int.negSucc_lt_zero _, rfl⟩
  · exact .inl ⟨Int.negSucc_lt_zero _, rfl⟩
  · exact .inl ⟨Int.negSucc_lt_zero _, rfl⟩
  · refine .inr ⟨rfl, fun idx small => ?_, rfl⟩
    have none : ∀ other ∈ List.range maxOpenFiles,
        files.objects handle access share other = false := by
      simpa using objection
    exact none idx (List.mem_range.mpr small)

/-- An orderly open finds its file open by the same path only. -/
theorem orderly_spelled (sound : files.Sound) {path : Bytes} {mode : UInt8} {fdFree jftFree : Bool}
    {file : BackingFile} (orderly : FilesOrderly names files (.dosOpen path mode fdFree jftFree))
    (found : names.lookup path = some file) (handle : Nat) (live : files.Live handle)
    (same : (files.table handle).opened.identity = file.identity) :
    (files.table handle).opened.path = path := by
  refine orderly handle (sound.small handle live) live ?_
  rw [found, same]
  rfl

/-- Where no handle objects, none forbids the new one or is forbidden. -/
theorem agreed_compatible (sound : files.Sound) {opened : Opened} {access : OpenAccess}
    {share : SharePolicy} (free : ¬ files.Live idx) (agreed :
      ∀ handle < maxOpenFiles, (files.setEntry idx { refcount := 1, opened }).objects idx access
          share handle = false) (handle : Nat) (live : files.Live handle)
    (same : (files.table handle).opened.ino = opened.ino) :
    ¬ (files.table handle).opened.Forbids { opened with access, share } ∧
      ¬ Opened.Forbids { opened with access, share } (files.table handle).opened := by
  have other : handle ≠ idx := fun here => free (here ▸ live)
  have agrees := agreed handle (sound.small handle live)
  rw [Files.objects, setEntry_same, setEntry_other _ other] at agrees
  have lives : (files.table handle).refcount ≠ 0 := live
  simpa [Opened.Forbids, other, lives, same] using agrees

theorem Files.Sound.dosOpen (sound : files.Sound) {path : Bytes} {mode : UInt8}
    {fdFree jftFree : Bool}
    (orderly : FilesOrderly names files (.dosOpen path mode fdFree jftFree)) :
    (files.dosOpen names path mode fdFree jftFree).2.Sound := by
  unfold Files.dosOpen Files.openToHandle
  cases found : names.lookup path with
  | none => exact sound
  | some file =>
    cases slot : files.allocFileEntry with
    | none => exact sound
    | some idx =>
      obtain ⟨small, free⟩ := allocFileEntry_spec slot
      dsimp only
      by_cases full : fdFree = false
      · rw [if_pos full]
        exact sound.abandon small _
      rw [if_neg full]
      by_cases readOnly : mode &&& 3 ≠ 0 ∧
          ((files.setEntry idx
            { refcount := 1, opened := Opened.fresh path file }).table idx).opened.writable = false
      · rw [if_pos readOnly]
        exact sound.abandon small _
      rw [if_neg readOnly]
      cases openPolicies mode with
      | none => exact sound.abandon small _
      | some policies =>
        obtain ⟨access, share⟩ := policies
        dsimp only
        rcases configureOpen_cases (files.setEntry idx
              { refcount := 1, opened := Opened.fresh path file })
            idx access share with
          ⟨refused, unchanged⟩ | ⟨accepted, agreed, configured⟩
        · rw [if_pos refused, unchanged]
          exact sound.abandon small _
        · rw [if_neg (by omega), configured, setEntry_same, setEntry_setEntry]
          split_ifs
          · exact sound.abandon small _
          · have compatible := agreed_compatible sound free agreed
            exact sound.admit free small rfl (orderly_spelled sound orderly found) compatible

end Sound

/-! ## Runs -/

theorem boot_sound : Files.boot.Sound where
  small _ live := absurd rfl live
  numbered _ live := absurd rfl live
  spelled _ _ live := absurd rfl live
  compatible _ _ _ live := absurd rfl live
  owned _ member := absurd member List.not_mem_nil
  bounded _ member := absurd member List.not_mem_nil
  apart _ member := absurd member List.not_mem_nil

theorem filesMachine_sound {files : Files} (sound : files.Sound) (request : FileRequest)
    (orderly : FilesOrderly names files request) :
    (filesMachine names files request).2.Sound := by
  cases request with
  | dosOpen path mode fdFree jftFree => exact sound.dosOpen orderly
  | close handle => exact sound.closeHandle handle
  | lockRange handle unlock start len => exact sound.lockRange handle unlock orderly

/-- In every orderly run, share modes and locks exclude each other. -/
theorem sharing_excludes (names : Names) (requests : List FileRequest) (orderly :
      (filesMachine names).Meets (FilesOrderly names) Files.boot requests) :
    ∀ move ∈ (filesMachine names).run Files.boot requests,
      move.after.Exclusive :=
  Machine.forall_run (fun _ request sound meets => filesMachine_sound sound request meets)
    (fun _ request sound meets => (filesMachine_sound sound request meets).exclusive)
    boot_sound orderly

/-- A file `f` and a link `l` to it. -/
def linkedNames : Names where
  cachedChild parent name :=
    if parent = [] ∧ name = [0x66] then some { name := [0x66], isSymlink := false, target := none }
    else if parent = [] ∧ name = [0x6c] then
      some { name := [0x6c], isSymlink := true, target := some [0x66] }
    else none
  openFile path := if path = [0x66] then some { identity := 1, writable := true } else none

/-- Read and write, and deny others everything. -/
def exclusively (path : Bytes) : FileRequest := .dosOpen path 0x12 true true

/-- Read and write, and deny others nothing. -/
def together (path : Bytes) : FileRequest := .dosOpen path 0x42 true true

/-- One program locks ten bytes, and another one is refused some of them. -/
def politeLocks : List FileRequest :=
  [together [0x66], together [0x66], exclusively [0x66],
    .lockRange 0 false 0 10, .lockRange 1 false 5 10,
    .lockRange 1 false 10 10]

theorem polite_locks_exclude :
    ((filesMachine linkedNames).run Files.boot politeLocks).map Move.answer =
        [0, 1, -13, 0, -33, 0] ∧
      ∀ move ∈ (filesMachine linkedNames).run Files.boot politeLocks,
        move.after.Exclusive :=
  ⟨by decide +kernel, sharing_excludes linkedNames politeLocks (by decide +kernel)⟩

/-- The last request leads to a state that is not exclusive. -/
theorem not_exclusive_of_final {requests : List FileRequest} {last : FileRequest} (clash :
      ¬ (filesMachine names ((filesMachine names).final Files.boot requests) last).2.Exclusive) :
    ¬ ∀ move ∈ (filesMachine names).run Files.boot (requests ++ [last]),
      move.after.Exclusive :=
  fun holds => clash (holds _ (Machine.last_mem_run _ _ _ _))

/--
A file opened by its name and with a slash before it, or by its name and
through a link, is opened exclusively twice, and both lock its first byte.
Two handles also lock the last 32-bit offset.
-/
theorem sharing_fails :
    (¬ ∀ move ∈ (filesMachine linkedNames).run Files.boot
        ([exclusively [0x66]] ++ [exclusively [0x2f, 0x66]]),
      move.after.Exclusive) ∧
    (¬ ∀ move ∈ (filesMachine linkedNames).run Files.boot
        ([exclusively [0x66]] ++ [exclusively [0x6c]]),
      move.after.Exclusive) ∧
    (¬ ∀ move ∈ (filesMachine linkedNames).run Files.boot
        ([together [0x66], together [0x6c], .lockRange 0 false 0 1] ++ [.lockRange 1 false 0 1]),
      move.after.Exclusive) ∧
    ¬ ∀ move ∈ (filesMachine linkedNames).run Files.boot ([together [0x66], together [0x66],
          .lockRange 0 false 0xffffffff 1] ++
          [.lockRange 1 false 0xffffffff 1]),
      move.after.Exclusive := by
  refine ⟨not_exclusive_of_final fun exclusive => ?_, not_exclusive_of_final fun exclusive => ?_,
    not_exclusive_of_final fun exclusive => ?_,
    not_exclusive_of_final fun exclusive => ?_⟩
  · exact exclusive.sharing 0 1 (by decide) (by decide +kernel)
      (by decide +kernel) (by decide +kernel) (by decide +kernel)
  · exact exclusive.sharing 0 1 (by decide) (by decide +kernel)
      (by decide +kernel) (by decide +kernel) (by decide +kernel)
  · refine exclusive.locking ⟨pathIno [0x66], 0, 0, 1⟩ (by decide +kernel)
      ⟨pathIno [0x6c], 1, 0, 1⟩ (by decide +kernel) (by decide)
      (by decide +kernel) 0 (by decide) ?_
    exact ⟨⟨by decide, by decide⟩, ⟨by decide, by decide⟩⟩
  · refine exclusive.locking ⟨pathIno [0x66], 0, 0xffffffff, 1⟩
      (by decide +kernel) ⟨pathIno [0x66], 1, 0xffffffff, 1⟩
      (by decide +kernel) (by decide) (by decide +kernel) 0xffffffff
      (by decide) ?_
    exact ⟨⟨by decide, by decide⟩, ⟨by decide, by decide⟩⟩

end RetroOS.Vfs
