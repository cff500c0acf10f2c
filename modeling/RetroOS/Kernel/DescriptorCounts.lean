import RetroOS.Kernel.Descriptors

/-!
# Reference counts of descriptors

The counts are exact when each is the number of descriptors of live processes
that refer to the object, and what the kernel itself holds.  Then an object is
released with its last descriptor, and what is opened anew is nothing a
descriptor still refers to.

Three calls break this: dup2 and fcntl do not count a directory they
duplicate, nothing counts a shared socket, and a directory handle has only
eight bits for its count.
-/

namespace RetroOS.Kernel

open Lib
open Finset (range mem_range)

/-! ## Exact counts -/

/-- What the descriptors of live processes refer to. -/
def Handles.table (handles : Handles) (pid fd : Nat) : Option Object :=
  if (handles.owners pid).live then ((handles.owners pid).fds fd).refers
  else none

/-- An object with references is one its table has room for. -/
def Handles.Holds (handles : Handles) : Object → Prop
  | .file idx => idx < maxOpenFiles
  | .directory idx => idx < dirHandles
  | .reader _ | .writer _ => True
  | .socket handle =>
    handles.counts (.socket handle) = 1 ∧ (handle < handles.nextSocket ∨ handles.nextSocket < 0)

/-- The counts are exact, beside what the kernel holds itself. -/
structure Counted (maxThreads : Nat) (held : Object → Nat)
    (handles : Handles) : Prop where
  exact : Exact (range maxThreads) (range maxFds) handles.table held handles.counts
  holds : ∀ object, 0 < handles.counts object → handles.Holds object

/-- The bits of the count of an object. -/
def Object.bits : Object → Nat
  | .directory _ => 8
  | .file _ | .reader _ | .writer _ | .socket _ => 16

/-- A descriptor that dup2 and fcntl count, with room for one more. -/
def Handles.Duplicable (handles : Handles) (kind : FdKind) : Prop :=
  match kind with
  | .dir _ _ | .socket _ => False
  | .vfs _ | .pipeRead _ | .pipeWrite _ | .consoleOut | .none =>
    ∀ object ∈ kind.refers, handles.counts object + 1 < 2 ^ object.bits

def Object.isSocket : Object → Bool
  | .socket _ => true
  | .file _ | .directory _ | .reader _ | .writer _ => false

/-- Descriptors that a fork counts, with room for all of them. -/
def Handles.Inheritable (handles : Handles) (pid : Nat) : Prop :=
  ∀ fd < maxFds, ∀ object ∈ ((handles.owners pid).fds fd).refers, object.isSocket = false ∧
      handles.counts object + (List.range maxFds).countP (fun other =>
              ((handles.owners pid).fds other).refers = some object) <
        2 ^ object.bits

/-- What a call is asked for, in the state it arrives in. -/
def Careful (handles : Handles) (input : FdInput) : Prop :=
  match input.call with
  | .dup2 oldfd _ => handles.Duplicable ((handles.owners input.pid).fds oldfd)
  | .dupfd fd _ _ => handles.Duplicable ((handles.owners input.pid).fds fd)
  | .fork => handles.Inheritable input.pid
  | .socket _ | .accept _ _ => 0 ≤ handles.nextSocket
  | .open _ | .close _ | .pipe _ | .setfd _ _ | .exec | .exit | .reap => True

instance Handles.Duplicable.decidable (handles : Handles) :
    (kind : FdKind) → Decidable (handles.Duplicable kind)
  | .dir _ _ | .socket _ => .isFalse id
  | .vfs _ | .pipeRead _ | .pipeWrite _ | .consoleOut | .none =>
    inferInstanceAs (Decidable (∀ object ∈ FdKind.refers _, _))

instance Handles.Inheritable.decidable (handles : Handles) (pid : Nat) :
    Decidable (handles.Inheritable pid) :=
  inferInstanceAs (Decidable (∀ fd < maxFds, _))

instance Careful.decidable (handles : Handles) :
    (input : FdInput) → Decidable (Careful handles input)
  | ⟨_, .dup2 _ _⟩ | ⟨_, .dupfd _ _ _⟩ => Handles.Duplicable.decidable handles _
  | ⟨pid, .fork⟩ => Handles.Inheritable.decidable handles pid
  | ⟨_, .socket _⟩ | ⟨_, .accept _ _⟩ => inferInstanceAs (Decidable (0 ≤ handles.nextSocket))
  | ⟨_, .open _⟩ | ⟨_, .close _⟩ | ⟨_, .pipe _⟩ | ⟨_, .setfd _ _⟩
  | ⟨_, .exec⟩ | ⟨_, .exit⟩ | ⟨_, .reap⟩ => .isTrue trivial

/-! ## What changes the tables -/

variable {after : Handles} {object : Object} {kind : FdKind}

section Tables

variable {handles : Handles}

@[simp]
theorem counts_setFd (pid fd : Nat) (kind : FdKind) :
    (handles.setFd pid fd kind).counts = handles.counts :=
  rfl

@[simp]
theorem counts_setCloexec (pid fd : Nat) (flag : Bool) :
    (handles.setCloexec pid fd flag).counts = handles.counts :=
  rfl

@[simp]
theorem table_setCloexec (pid fd : Nat) (flag : Bool) :
    (handles.setCloexec pid fd flag).table = handles.table := by
  funext row slot
  rcases eq_or_ne row pid with rfl | other
  · simp [Handles.table, Handles.setCloexec, Handles.setOwner, FdOwner.live]
  · simp [Handles.table, Handles.setCloexec, Handles.setOwner, other]

theorem table_setFd {pid : Nat} (live : (handles.owners pid).live) (fd : Nat) (kind : FdKind) :
    (handles.setFd pid fd kind).table =
      Function.update handles.table pid (Function.update (handles.table pid) fd kind.refers) := by
  have still :
      FdOwner.live
        { handles.owners pid with fds := Function.update (handles.owners pid).fds fd kind } :=
    live
  funext row slot
  rcases eq_or_ne row pid with rfl | other
  · rcases eq_or_ne slot fd with rfl | elsewhere
    · simp [Handles.table, Handles.setFd, Handles.setOwner, still]
    · simp [Handles.table, Handles.setFd, Handles.setOwner, still, live, elsewhere]
  · simp [Handles.table, Handles.setFd, Handles.setOwner, other]

/-- Only the descriptors and the states of their owners matter. -/
theorem table_congr (same : after.owners = handles.owners) : after.table = handles.table := by
  funext pid fd
  simp only [Handles.table, same]

theorem table_setFd_congr (same : after.owners = handles.owners) (pid fd : Nat) (kind : FdKind) :
    (after.setFd pid fd kind).table = (handles.setFd pid fd kind).table := by
  apply table_congr
  simp only [Handles.setFd, Handles.setOwner, same]

/-- No function that counts references touches a descriptor or the next socket. -/
theorem closeRef_frame (handles : Handles) (kind : FdKind) :
    (handles.closeRef kind).owners = handles.owners ∧
      (handles.closeRef kind).nextSocket = handles.nextSocket := by
  cases kind <;>
    simp only [Handles.closeRef, Handles.closeVfsHandle, Handles.closeReader,
      Handles.closeWriter, Handles.socketClose, Handles.closeDirHandle] <;>
    (try split_ifs) <;> trivial

theorem dupRef_frame (handles : Handles) (kind : FdKind) :
    (handles.dupRef kind).owners = handles.owners ∧
      (handles.dupRef kind).nextSocket = handles.nextSocket := by
  cases kind <;>
    simp only [Handles.dupRef, Handles.addVfsRef, Handles.addReader, Handles.addWriter] <;>
    (try split_ifs) <;> trivial

theorem forkRef_frame (handles : Handles) (kind : FdKind) :
    (handles.forkRef kind).owners = handles.owners ∧
      (handles.forkRef kind).nextSocket = handles.nextSocket := by
  cases kind <;>
    simp only [Handles.forkRef, Handles.addVfsRef, Handles.addReader,
      Handles.addWriter, Handles.addDirRef] <;>
    (try split_ifs) <;> trivial

theorem table_of_live {pid : Nat} (live : (handles.owners pid).live) (fd : Nat) :
    handles.table pid fd = ((handles.owners pid).fds fd).refers :=
  if_pos live

/-! ## What changes the counts -/

theorem counts_dropRef (present : 0 < handles.counts object) (key : Object) :
    (handles.dropRef object).counts key + refersTo (some object) key = handles.counts key := by
  by_cases same : object = key
  · subst same
    simp only [Handles.dropRef, Handles.setCount, Function.update_self, refersTo_some, if_true]
    omega
  · simp [Handles.dropRef, Handles.setCount, same, Function.update_of_ne (Ne.symm same)]

theorem counts_addRef {bits : Nat} (room : handles.counts object + 1 < 2 ^ bits) (key : Object) :
    (handles.addRef bits object).counts key = handles.counts key + refersTo (some object) key := by
  by_cases same : object = key
  · subst same
    simp [Handles.addRef, Handles.setCount, Nat.mod_eq_of_lt room]
  · simp [Handles.addRef, Handles.setCount, same, Function.update_of_ne (Ne.symm same)]

theorem counts_socketClose {handle : Int}
    (single : handles.counts (.socket handle) = 1) (key : Object) :
    (handles.socketClose handle).counts key + refersTo (some (.socket handle)) key =
      handles.counts key := by
  by_cases same : Object.socket handle = key
  · subst same
    simp [Handles.socketClose, Handles.setCount, single]
  · simp [Handles.socketClose, Handles.setCount, same, Function.update_of_ne (Ne.symm same)]

/-- Closing takes one reference from the object of a descriptor. -/
theorem counts_closeRef (present :
      ∀ object ∈ kind.refers, 0 < handles.counts object ∧ handles.Holds object)
    (key : Object) :
    (handles.closeRef kind).counts key + refersTo kind.refers key = handles.counts key := by
  cases kind with
  | none | consoleOut => rfl
  | socket handle => exact counts_socketClose (present _ rfl).2.1 key
  | pipeRead idx | pipeWrite idx => exact counts_dropRef (present _ rfl).1 key
  | vfs idx =>
    obtain ⟨some, holds⟩ := present _ rfl
    have inside : idx < maxOpenFiles := holds
    simp only [Handles.closeRef, Handles.closeVfsHandle]
    rw [if_pos inside]
    exact counts_dropRef some key
  | dir idx next =>
    obtain ⟨some, holds⟩ := present _ rfl
    have inside : idx < dirHandles := holds
    simp only [Handles.closeRef, Handles.closeDirHandle]
    rw [if_pos inside]
    exact counts_dropRef some key

/-- Duplicating adds one reference, for the kinds that are counted. -/
theorem counts_dupRef (holds : ∀ object ∈ kind.refers, handles.Holds object)
    (duplicable : handles.Duplicable kind) (key : Object) :
    (handles.dupRef kind).counts key = handles.counts key + refersTo kind.refers key := by
  cases kind with
  | none | consoleOut => rfl
  | socket _ | dir _ _ => exact duplicable.elim
  | pipeRead idx | pipeWrite idx => exact counts_addRef (duplicable _ rfl) key
  | vfs idx =>
    have inside : idx < maxOpenFiles := holds _ rfl
    simp only [Handles.dupRef, Handles.addVfsRef]
    rw [if_pos inside]
    exact counts_addRef (duplicable _ rfl) key

/-- A fork can count so many more references to an object. -/
structure Handles.Shares (handles : Handles) (object : Object) (more : Nat) : Prop where
  referred : 0 < handles.counts object
  holds : handles.Holds object
  noSocket : object.isSocket = false
  room : handles.counts object + more < 2 ^ object.bits

/-- A fork adds one reference, for every kind but sockets. -/
theorem counts_forkRef (present : ∀ object ∈ kind.refers, handles.Shares object 1) (key : Object) :
    (handles.forkRef kind).counts key = handles.counts key + refersTo kind.refers key := by
  cases kind with
  | none | consoleOut => rfl
  | socket handle => exact absurd (present _ rfl).noSocket (by simp [Object.isSocket])
  | pipeRead idx | pipeWrite idx => exact counts_addRef (present _ rfl).room key
  | vfs idx =>
    have inside : idx < maxOpenFiles := (present _ rfl).holds
    simp only [Handles.forkRef, Handles.addVfsRef]
    rw [if_pos inside]
    exact counts_addRef (present _ rfl).room key
  | dir idx next =>
    have inside : idx < dirHandles := (present _ rfl).holds
    simp only [Handles.forkRef, Handles.addDirRef]
    rw [if_pos ⟨inside, (present _ rfl).referred⟩]
    exact counts_addRef (present _ rfl).room key

/-- Tables have room for all objects that had a reference, or are new and no sockets. -/
theorem holds_of_le (holds : ∀ object, 0 < handles.counts object → handles.Holds object)
    (next : after.nextSocket = handles.nextSocket)
    (old :
      ∀ object, 0 < after.counts object →
        0 < handles.counts object ∨ object.isSocket = false ∧ handles.Holds object)
    (sockets : ∀ handle, after.counts (.socket handle) ≤ handles.counts (.socket handle)) :
    ∀ object, 0 < after.counts object → after.Holds object := by
  intro object some
  have before : handles.Holds object := (old object some).elim (holds object) And.right
  cases object with
  | file _ | directory _ | reader _ | writer _ => exact before
  | socket handle =>
    obtain ⟨single, fresh⟩ := before
    have less := sockets handle
    refine ⟨by omega, ?_⟩
    rw [next]
    exact fresh

theorem holds_of_less (holds : ∀ object, 0 < handles.counts object → handles.Holds object)
    (next : after.nextSocket = handles.nextSocket)
    (less : ∀ object, after.counts object ≤ handles.counts object) :
    ∀ object, 0 < after.counts object → after.Holds object :=
  holds_of_le holds next (fun object some => .inl (some.trans_le (less object))) fun _ => less _

end Tables

variable {fd : Nat}

section Steps

variable {maxThreads : Nat} {held : Object → Nat} {handles : Handles}
    (counted : Counted maxThreads held handles) {pid : Nat}
    (inside : pid < maxThreads) (live : (handles.owners pid).live)

include counted inside live

/-- What a descriptor of a live process refers to is there. -/
theorem Counted.present (fdIn : fd < maxFds) :
    ∀ object ∈ ((handles.owners pid).fds fd).refers,
      0 < handles.counts object ∧ handles.Holds object := by
  intro object refers
  have known : handles.table pid fd = some object := by
    rw [table_of_live live]
    exact refers
  have some := counted.exact.pos (mem_range.mpr inside) (mem_range.mpr fdIn) known
  exact ⟨some, counted.holds object some⟩

/-- A descriptor is replaced, and the counts follow. -/
theorem Counted.setFd (fdIn : fd < maxFds) (kind : FdKind)
    (table : after.table = (handles.setFd pid fd kind).table)
    (follows :
      ∀ key, after.counts key + refersTo ((handles.owners pid).fds fd).refers key =
          handles.counts key + refersTo kind.refers key)
    (holds : ∀ object, 0 < after.counts object → after.Holds object) :
    Counted maxThreads held after where
  exact := by
    rw [table, table_setFd live]
    refine counted.exact.setSlot (mem_range.mpr inside) (mem_range.mpr fdIn) ?_
    rwa [table_of_live live]
  holds := holds

theorem Counted.closeFd (fd : Nat) : Counted maxThreads held (handles.closeFd pid fd) := by
  unfold Handles.closeFd
  split_ifs with fdIn
  · have counts := counts_closeRef (counted.present inside live fdIn)
    refine counted.setFd inside live fdIn .none ?_ counts ?_
    · rw [table_setCloexec, table_setFd_congr (closeRef_frame _ _).1]
    · refine holds_of_less counted.holds (closeRef_frame _ _).2 fun object => ?_
      exact (counts object).symm ▸ Nat.le_add_right _ _
  · exact counted

omit counted inside in
theorem live_closeFd (fd : Nat) : ((handles.closeFd pid fd).owners pid).live := by
  unfold Handles.closeFd
  split_ifs
  · simpa [Handles.setCloexec, Handles.setFd, Handles.setOwner,
      closeRef_frame, FdOwner.live] using live
  · exact live

/-- A live process closes descriptors one after another. -/
theorem Counted.closeFds (fds : List Nat) :
    Counted maxThreads held (handles.closeFds pid fds) ∧
      ((handles.closeFds pid fds).owners pid).live := by
  induction fds generalizing handles with
  | nil => exact ⟨counted, live⟩
  | cons fd rest induction =>
    exact induction (counted.closeFd inside live fd) (live_closeFd live fd)

end Steps

/-! ## Objects on their way to a descriptor -/

section Placing

variable {maxThreads : Nat} {held : Object → Nat} {handles : Handles} {pid : Nat}

/-- An object is opened and held. -/
theorem Counted.acquire {object : Option Object} (counted : Counted maxThreads held handles)
    (owners : after.owners = handles.owners)
    (counts : ∀ key, after.counts key = handles.counts key + refersTo object key)
    (holds : ∀ key, 0 < after.counts key → after.Holds key) :
    Counted maxThreads (holdAlso held object) after where
  exact := by
    rw [table_congr owners]
    exact counted.exact.acquire counts
  holds := holds

/-- A held object is put into a free descriptor. -/
theorem Counted.place (kind : FdKind)
    (counted : Counted maxThreads (holdAlso held kind.refers) handles)
    (inside : pid < maxThreads) (live : (handles.owners pid).live)
    (fdIn : fd < maxFds) (free : (handles.owners pid).fds fd = .none) :
    Counted maxThreads held (handles.setFd pid fd kind) where
  exact := by
    rw [table_setFd live]
    refine counted.exact.place (mem_range.mpr inside) (mem_range.mpr fdIn) ?_
    rw [table_of_live live, free]
    rfl
  holds := counted.holds

/-- A held object is given up again. -/
theorem Counted.discard (kind : FdKind)
    (counted : Counted maxThreads (holdAlso held kind.refers) handles) :
    Counted maxThreads held (handles.closeRef kind) := by
  have present (object : Object) (refers : object ∈ kind.refers) :
      0 < handles.counts object ∧ handles.Holds object := by
    have known : kind.refers = some object := refers
    have exact := counted.exact
    rw [known] at exact
    exact ⟨exact.pos_of_held, counted.holds object exact.pos_of_held⟩
  have counts := counts_closeRef present
  refine ⟨?_, holds_of_less counted.holds (closeRef_frame _ _).2 fun object => ?_⟩
  · rw [table_congr (closeRef_frame _ _).1]
    exact counted.exact.discard counts
  · exact (counts object).symm ▸ Nat.le_add_right _ _

theorem allocFd_some {first fd : Nat} (found : handles.allocFd pid first = some fd) :
    fd < maxFds ∧ (handles.owners pid).fds fd = .none := by
  have member := List.mem_of_find?_eq_some found
  have free := List.find?_some found
  simp only [Bool.and_eq_true, decide_eq_true_eq, beq_iff_eq] at free
  exact ⟨List.mem_range.mp member, free.2⟩

theorem Counted.install (kind : FdKind)
    (counted : Counted maxThreads (holdAlso held kind.refers) handles)
    (inside : pid < maxThreads) (live : (handles.owners pid).live)
    (first : Nat) :
    Counted maxThreads held (handles.install pid first kind).2 := by
  unfold Handles.install
  cases found : handles.allocFd pid first with
  | some fd =>
    obtain ⟨fdIn, free⟩ := allocFd_some found
    exact counted.place kind inside live fdIn free
  | none => exact counted.discard kind

theorem Counted.setCloexec (counted : Counted maxThreads held handles) (fd : Nat) (flag : Bool) :
    Counted maxThreads held (handles.setCloexec pid fd flag) where
  exact := by
    rw [table_setCloexec]
    exact counted.exact
  holds := counted.holds

/-- A descriptor that is counted is duplicated into a free one. -/
theorem Counted.duplicate (counted : Counted maxThreads held handles)
    (inside : pid < maxThreads) (live : (handles.owners pid).live)
    (present : ∀ object ∈ kind.refers, 0 < handles.counts object ∧ handles.Holds object)
    (duplicable : handles.Duplicable kind)
    (fdIn : fd < maxFds) (free : (handles.owners pid).fds fd = .none) :
    Counted maxThreads held ((handles.dupRef kind).setFd pid fd kind) := by
  have counts := counts_dupRef (fun object refers => (present object refers).2) duplicable
  obtain ⟨owners, next⟩ := dupRef_frame handles kind
  have noSocket (handle : Int) : kind.refers ≠ some (.socket handle) := by
    intro refers
    cases kind <;> cases refers
    exact duplicable
  refine Counted.place kind ?_ inside (by rwa [owners]) fdIn (by rwa [owners])
  refine counted.acquire owners counts (holds_of_le counted.holds next ?_ ?_)
  · intro object some
    rw [counts object] at some
    by_cases refers : kind.refers = Option.some object
    · exact .inl (present object refers).1
    · exact .inl (by simpa [refersTo, refers] using some)
  · intro handle
    rw [counts (.socket handle)]
    simp [refersTo, noSocket]

/-- What opens an object: a free entry of its table gets one reference. -/
theorem counts_setCount (free : handles.counts object = 0) (key : Object) :
    (handles.setCount object 1).counts key = handles.counts key + refersTo (some object) key := by
  by_cases same : object = key
  · subst same
    simp [Handles.setCount, free]
  · simp [Handles.setCount, same, Function.update_of_ne (Ne.symm same)]

/-- An entry of a table other than the sockets' is opened. -/
theorem Counted.opened (counted : Counted maxThreads held handles)
    (free : handles.counts object = 0) (inside : handles.Holds object)
    (noSocket : object.isSocket = false) :
    Counted maxThreads (holdAlso held (some object)) (handles.setCount object 1) := by
  have counts := counts_setCount free
  refine counted.acquire rfl counts (holds_of_le counted.holds rfl ?_ ?_)
  · intro key some
    rw [counts key] at some
    by_cases same : object = key
    · exact .inr (same ▸ ⟨noSocket, inside⟩)
    · exact .inl (by simpa [same] using some)
  · intro handle
    rw [counts (.socket handle), refersTo_some, if_neg]
    · rfl
    · rintro rfl
      cases noSocket

/-- A new socket is held. -/
theorem Counted.socketOpen (counted : Counted maxThreads held handles)
    (next : 0 ≤ handles.nextSocket) :
    Counted maxThreads (holdAlso held (some (.socket handles.nextSocket)))
      handles.socketOpen.2 := by
  have free : handles.counts (.socket handles.nextSocket) = 0 := by
    by_contra some
    have holds := counted.holds _ (Nat.pos_of_ne_zero some)
    simp only [Handles.Holds] at holds
    omega
  have counts := counts_setCount free
  refine counted.acquire rfl counts ?_
  intro key some
  have known : handles.socketOpen.2.counts key = handles.counts key +
      refersTo (Option.some (.socket handles.nextSocket)) key := counts key
  by_cases same : Object.socket handles.nextSocket = key
  · subst same
    refine ⟨by rw [known, free]; simp, ?_⟩
    simp only [Handles.socketOpen]
    split_ifs with last <;> omega
  · simp only [refersTo_some, same, if_false, Nat.add_zero] at known
    rw [known] at some
    have holds := counted.holds key some
    cases key with
    | file _ | directory _ | reader _ | writer _ => exact holds
    | socket handle =>
      refine ⟨known.trans holds.1, ?_⟩
      have fresh := holds.2
      simp only [Handles.socketOpen]
      split_ifs with last <;> omega

end Placing

/-! ## Fork and exit -/

section Processes

variable {maxThreads : Nat} {held : Object → Nat} {handles : Handles}

/-- A fork takes one reference for each descriptor in a list. -/
def Handles.forkRefs (handles : Handles) (fds : Nat → FdKind) (list : List Nat) : Handles :=
  list.foldl (fun handles fd => handles.forkRef (fds fd)) handles

theorem forkRefs_frame (handles : Handles) (fds : Nat → FdKind) (list : List Nat) :
    (handles.forkRefs fds list).owners = handles.owners ∧
      (handles.forkRefs fds list).nextSocket = handles.nextSocket := by
  induction list generalizing handles with
  | nil => exact ⟨rfl, rfl⟩
  | cons fd rest induction =>
    have later := induction (handles.forkRef (fds fd))
    rwa [(forkRef_frame _ _).1, (forkRef_frame _ _).2] at later

theorem Handles.Holds.of_noSocket (holds : handles.Holds object)
    (noSocket : object.isSocket = false) : after.Holds object := by
  cases object with
  | file _ | directory _ | reader _ | writer _ => exact holds
  | socket handle => cases noSocket

theorem counts_forkRefs {fds : Nat → FdKind} {list : List Nat}
    (present :
      ∀ fd ∈ list, ∀ object ∈ (fds fd).refers,
        handles.Shares object (list.countP fun other => (fds other).refers = some object))
    (key : Object) :
    (handles.forkRefs fds list).counts key =
      handles.counts key + list.countP (fun fd => (fds fd).refers = some key) := by
  induction list generalizing handles with
  | nil => rfl
  | cons fd rest induction =>
    have split (object : Object) :
        (fd :: rest).countP (fun other => (fds other).refers = some object) =
          rest.countP (fun other => (fds other).refers = some object) +
            refersTo (fds fd).refers object := by
      simp [List.countP_cons, refersTo]
    have here : ∀ object ∈ (fds fd).refers, handles.Shares object 1 := by
      intro object refers
      have shares := present fd List.mem_cons_self object refers
      have room := shares.room
      rw [split object, refers, refersTo_some, if_pos rfl] at room
      exact { shares with room := by omega }
    have counts := counts_forkRef here
    have later :
        ∀ other ∈ rest, ∀ object ∈ (fds other).refers, (handles.forkRef (fds fd)).Shares object
          (rest.countP fun other => (fds other).refers = some object) := by
      intro other member object refers
      have shares := present other (List.mem_cons_of_mem _ member) object refers
      have room := shares.room
      rw [split object] at room
      refine ⟨?_, shares.holds.of_noSocket shares.noSocket, shares.noSocket, ?_⟩
      · rw [counts object]
        exact Nat.add_pos_left shares.referred _
      · rw [counts object]
        omega
    have rest := induction later
    rw [split key]
    rw [counts key] at rest
    exact rest.trans (by omega)

/-- A child in an unused slot shares the descriptors of its parent. -/
theorem Counted.dupAllFds {parent child : Nat} (counted : Counted maxThreads held handles)
    (parentIn : parent < maxThreads) (childIn : child < maxThreads)
    (live : (handles.owners parent).live)
    (unused : (handles.owners child).state = .unused)
    (inheritable : handles.Inheritable parent) :
    Counted maxThreads held (handles.dupAllFds parent child) := by
  set fds := (handles.owners parent).fds with known
  set shared := handles.setOwner child
    { state := .ready, fds, cloexec := (handles.owners parent).cloexec }
    with sharedIs
  have present (fd : Nat) (member : fd ∈ List.range maxFds)
      (object : Object) (refers : object ∈ (fds fd).refers) :
      shared.Shares object
        ((List.range maxFds).countP fun other => (fds other).refers = some object) := by
    have fdIn := List.mem_range.mp member
    obtain ⟨some, holds⟩ := counted.present parentIn live fdIn object refers
    obtain ⟨noSocket, room⟩ := inheritable fd fdIn object refers
    exact ⟨some, holds.of_noSocket noSocket, noSocket, room⟩
  have counts := counts_forkRefs present
  obtain ⟨owners, next⟩ := forkRefs_frame shared fds (List.range maxFds)
  have table : shared.table = Function.update handles.table child fun fd => (fds fd).refers := by
    funext pid fd
    rcases eq_or_ne pid child with rfl | other
    · simp [Handles.table, sharedIs, Handles.setOwner, FdOwner.live]
    · simp [Handles.table, sharedIs, Handles.setOwner, other]
  have empty (fd : Nat) : handles.table child fd = none := by
    simp [Handles.table, FdOwner.live, unused]
  show Counted maxThreads held (shared.forkRefs fds (List.range maxFds))
  refine ⟨?_, holds_of_le counted.holds next ?_ ?_⟩
  · rw [table_congr owners, table]
    refine counted.exact.setRow (mem_range.mpr childIn) ?_
    intro key
    have none : refsIn (range maxFds) (handles.table child) key = 0 :=
      refsIn_eq_zero.mpr fun fd _ => by simp [empty]
    rw [none, counts key, refsIn_range]
    rfl
  · intro object some
    rw [counts object] at some
    rcases Nat.eq_zero_or_pos (handles.counts object) with zero | before
    · have refers := some.trans_eq (by rw [show shared.counts object = 0 from zero, Nat.zero_add])
      obtain ⟨fd, member, found⟩ := List.countP_pos_iff.mp refers
      exact .inl (present fd member object (by simpa using found)).referred
    · exact .inl before
  · intro handle
    rw [counts (.socket handle)]
    have none :
        (List.range maxFds).countP (fun fd => (fds fd).refers = some (.socket handle)) = 0 := by
      rw [List.countP_eq_zero]
      intro fd member refers
      cases (present fd member _ (by simpa using refers)).noSocket
    rw [none]
    exact le_rfl

theorem fds_closeFd (handles : Handles) (pid : Nat) (fdIn : fd < maxFds) (other : Nat) :
    ((handles.closeFd pid fd).owners pid).fds other =
      if other = fd then .none else (handles.owners pid).fds other := by
  simp [Handles.closeFd, fdIn, Handles.setCloexec, Handles.setFd,
    Handles.setOwner, closeRef_frame, Function.update_apply]

/-- Closed descriptors are free, and stay free as more are closed. -/
theorem fds_closeFds (handles : Handles) (pid : Nat) {list : List Nat}
    (inside : ∀ fd ∈ list, fd < maxFds)
    (closed : fd ∈ list ∨ (handles.owners pid).fds fd = .none) :
    ((handles.closeFds pid list).owners pid).fds fd = .none := by
  induction list generalizing handles with
  | nil => exact closed.resolve_left (by simp)
  | cons first rest induction =>
    refine induction (handles.closeFd pid first)
      (fun fd member => inside fd (List.mem_cons_of_mem _ member)) ?_
    rw [fds_closeFd handles pid (inside first List.mem_cons_self)]
    split_ifs with here
    · exact .inr rfl
    · refine closed.imp_left fun member => ?_
      exact (List.mem_cons.mp member).resolve_left here

theorem Counted.sysExit {pid : Nat}
    (counted : Counted maxThreads held handles) (inside : pid < maxThreads)
    (live : (handles.owners pid).live) :
    Counted maxThreads held (handles.sysExit pid).2 := by
  obtain ⟨closed, -⟩ := counted.closeFds inside live (List.range maxFds)
  refine ⟨closed.exact.congr ?_, closed.holds⟩
  intro row _ fd fdIn
  have free : ((handles.closeFds pid (List.range maxFds)).owners pid).fds fd = .none := by
    refine fds_closeFds handles pid (fun fd member => List.mem_range.mp member) (.inl ?_)
    exact List.mem_range.mpr (mem_range.mp fdIn)
  rcases eq_or_ne row pid with rfl | other
  · simp [Handles.table, free, Handles.sysExit, Handles.closeAllFds,
      Handles.setOwner, FdOwner.live, FdKind.refers]
  · simp [Handles.table, Handles.sysExit, Handles.closeAllFds, Handles.setOwner, other]

theorem Counted.reapSlot {pid : Nat} (counted : Counted maxThreads held handles) :
    Counted maxThreads held (handles.reapSlot pid).2 := by
  unfold Handles.reapSlot
  simp only
  split_ifs with zombie
  · refine ⟨counted.exact.congr ?_, counted.holds⟩
    intro row _ fd _
    rcases eq_or_ne row pid with rfl | other
    · simp [Handles.table, Handles.setOwner, FdOwner.live, zombie]
    · simp [Handles.table, Handles.setOwner, other]
  · exact counted

end Processes

/-! ## The calls -/

section Calls

variable {maxThreads : Nat} {held : Object → Nat} {handles : Handles}
    {pid : Nat} (counted : Counted maxThreads held handles)
    (inside : pid < maxThreads) (live : (handles.owners pid).live)

include counted inside live

theorem Counted.sysOpen (target : Target) :
    Counted maxThreads held (handles.sysOpen pid target).2 := by
  cases target with
  | missing => exact counted
  | file =>
    unfold Handles.sysOpen Handles.openToHandle
    cases found : (List.range maxOpenFiles).find? fun idx =>
        handles.counts (.file idx) == 0 with
    | none => exact counted
    | some idx =>
      have free : handles.counts (.file idx) = 0 := by simpa using List.find?_some found
      have idxIn := List.mem_range.mp (List.mem_of_find?_eq_some found)
      have opened := counted.opened free idxIn rfl
      exact Counted.install (.vfs idx) opened inside live 3
  | directory =>
    unfold Handles.sysOpen Handles.openDirHandle
    cases slot : handles.allocFd pid 3 with
    | none => exact counted
    | some fd =>
      cases found : (List.range dirHandles).find? fun idx =>
          handles.counts (.directory idx) == 0 with
      | none => exact counted
      | some idx =>
        have free : handles.counts (.directory idx) = 0 := by simpa using List.find?_some found
        have idxIn := List.mem_range.mp (List.mem_of_find?_eq_some found)
        have opened := counted.opened free idxIn rfl
        obtain ⟨fdIn, none⟩ := allocFd_some slot
        exact Counted.place (.dir idx 0) opened inside live fdIn none

theorem Counted.sysPipe (cloexec : Bool) :
    Counted maxThreads held (handles.sysPipe pid cloexec).2 := by
  unfold Handles.sysPipe Handles.pipeAlloc
  cases found : (List.range maxPipes).find? fun idx =>
      handles.counts (.reader idx) == 0 && handles.counts (.writer idx) == 0 with
  | none => exact counted
  | some idx =>
    have free := List.find?_some found
    simp only [Bool.and_eq_true, beq_iff_eq] at free
    have reading := counted.opened free.1 trivial rfl
    have writing :
        Counted maxThreads (holdAlso (holdAlso held (some (.reader idx))) (some (.writer idx)))
          ((handles.setCount (.reader idx) 1).setCount (.writer idx) 1) :=
      reading.opened (by simpa [Handles.setCount, Function.update_apply] using free.2)
        trivial rfl
    have swapped := writing
    rw [holdAlso_comm] at swapped
    simp only [Option.map_some]
    set opened := (handles.setCount (.reader idx) 1).setCount (.writer idx) 1
    cases first : opened.allocFd pid 0 with
    | none =>
      have closed := Counted.discard (.pipeRead idx) swapped
      exact Counted.discard (.pipeWrite idx) closed
    | some readFd =>
      obtain ⟨readIn, readFree⟩ := allocFd_some first
      have half := Counted.place (.pipeRead idx) swapped inside live readIn readFree
      have halfLive : ((opened.setFd pid readFd (.pipeRead idx)).owners pid).live := by
        simpa [opened, Handles.setFd, Handles.setOwner, Handles.setCount, FdOwner.live] using live
      simp only
      cases second : (opened.setFd pid readFd (.pipeRead idx)).allocFd pid 0 with
      | none =>
        have closed := half.closeFd inside halfLive readFd
        exact Counted.discard (.pipeWrite idx) closed
      | some writeFd =>
        obtain ⟨writeIn, writeFree⟩ := allocFd_some second
        have whole := Counted.place (.pipeWrite idx) half inside halfLive writeIn writeFree
        simp only
        split_ifs
        · exact (whole.setCloexec readFd true).setCloexec writeFd true
        · exact whole

theorem Counted.sysSocket (granted : Bool) (next : 0 ≤ handles.nextSocket) :
    Counted maxThreads held (handles.sysSocket pid granted).2 := by
  unfold Handles.sysSocket
  cases granted with
  | false => exact counted
  | true =>
    have opened := counted.socketOpen next
    have natural : ¬ handles.socketOpen.1 < 0 := by simpa [Handles.socketOpen] using next
    simp only [if_true, natural, if_false]
    exact Counted.install (.socket handles.nextSocket) opened inside live 3

/-- Closing a descriptor leaves room for a duplicate of another. -/
theorem Counted.duplicable_closeFd (fdIn : fd < maxFds) (duplicable : handles.Duplicable kind) :
    (handles.closeFd pid fd).Duplicable kind := by
  have counts := counts_closeRef (counted.present inside live fdIn)
  have less (object : Object) : (handles.closeFd pid fd).counts object ≤ handles.counts object := by
    have change := counts object
    simp only [Handles.closeFd, fdIn, if_true, counts_setCloexec, counts_setFd]
    omega
  cases kind with
  | dir _ _ | socket _ => exact duplicable
  | vfs _ | pipeRead _ | pipeWrite _ | consoleOut | none =>
    intro object refers
    have room := duplicable object refers
    have bound := less object
    omega

theorem Counted.sysDup2 {oldfd newfd : Nat}
    (duplicable : handles.Duplicable ((handles.owners pid).fds oldfd)) :
    Counted maxThreads held (handles.sysDup2 pid oldfd newfd).2 := by
  unfold Handles.sysDup2
  split_ifs with outside none same taken
  · exact counted
  · exact counted
  · exact counted
  · have oldIn : oldfd < maxFds := by omega
    have newIn : newfd < maxFds := by omega
    have cleared := counted.closeFd inside live newfd
    have clearedLive := live_closeFd live newfd
    have kind := fds_closeFd handles pid newIn oldfd
    rw [if_neg same] at kind
    have free := fds_closeFd handles pid newIn newfd
    rw [if_pos rfl] at free
    have room := counted.duplicable_closeFd inside live newIn duplicable
    rw [← kind] at room
    exact (cleared.duplicate inside clearedLive
      (cleared.present inside clearedLive oldIn) room newIn
      free).setCloexec newfd false
  · have oldIn : oldfd < maxFds := by omega
    have newIn : newfd < maxFds := by omega
    exact (counted.duplicate inside live (counted.present inside live oldIn) duplicable newIn
      (not_not.mp taken)).setCloexec newfd false

theorem Counted.fcntlDupfd {fd minfd : Nat} (cloexec : Bool)
    (duplicable : handles.Duplicable ((handles.owners pid).fds fd)) :
    Counted maxThreads held (handles.fcntlDupfd pid fd minfd cloexec).2 := by
  unfold Handles.fcntlDupfd
  split_ifs with guard
  · cases slot : handles.allocFd pid (min minfd maxFds) with
    | none => exact counted
    | some newfd =>
      obtain ⟨fdIn, free⟩ := allocFd_some slot
      have present := counted.present inside live guard.1
      exact (counted.duplicate inside live present duplicable fdIn free).setCloexec newfd cloexec
  · exact counted

end Calls

/-- Every careful call keeps the counts exact. -/
theorem Counted.step {maxThreads : Nat} {held : Object → Nat} {handles : Handles} {input : FdInput}
    (counted : Counted maxThreads held handles)
    (careful : Careful handles input) :
    Counted maxThreads held (fdMachine maxThreads handles input).2 := by
  obtain ⟨pid, call⟩ := input
  unfold fdMachine
  simp only
  split_ifs with reap inside guard
  · exact counted.reapSlot
  · exact counted
  · obtain ⟨inside, live⟩ := guard
    cases call with
    | «open» target => exact counted.sysOpen inside live target
    | close fd =>
      simp only [Handles.sysClose]
      split_ifs
      · exact counted.closeFd inside live fd
      · exact counted
    | pipe cloexec => exact counted.sysPipe inside live cloexec
    | socket granted => exact counted.sysSocket inside live granted careful
    | accept fd granted =>
      simp only [Handles.sysAccept]
      split_ifs
      · split
        · exact counted.sysSocket inside live granted careful
        all_goals exact counted
      · exact counted
    | dup2 oldfd newfd => exact counted.sysDup2 inside live careful
    | dupfd fd minfd cloexec => exact counted.fcntlDupfd inside live cloexec careful
    | setfd fd cloexec =>
      simp only [Handles.fcntlSetfd]
      split_ifs
      · exact counted.setCloexec fd cloexec
      · exact counted
    | fork =>
      simp only [Handles.sysFork]
      split
      · rename_i child found
        have unused := List.find?_some found
        have childIn := List.mem_range.mp (List.mem_of_find?_eq_some found)
        exact counted.dupAllFds inside childIn live (by simpa using unused) careful
      · exact counted
    | exec => exact (counted.closeFds inside live _).1
    | exit => exact counted.sysExit inside live
    | reap => exact counted
  · exact counted

/-! ## Runs -/

/--
What exact counts mean after a call: each is the number of descriptors of
live processes that refer to the object and what the kernel holds; so what
the kernel does not hold is released just when nobody refers to it.
-/
structure CountedMove (maxThreads : Nat) (held : Object → Nat)
    (move : Move Handles FdInput Int) : Prop where
  exact :
    ∀ object, move.after.counts object =
        refsOver (range maxThreads) (range maxFds) move.after.table object + held object
  released :
    ∀ object, held object = 0 →
      (move.after.counts object = 0 ↔
        ∀ pid < maxThreads, ∀ fd < maxFds, move.after.table pid fd ≠ some object)
  /-- What is opened anew is nothing a descriptor referred to. -/
  renewed :
    ∀ object, move.before.counts object = 0 →
      0 < move.after.counts object →
        ∀ pid < maxThreads, ∀ fd < maxFds, move.before.table pid fd ≠ some object

/--
On every run of careful calls from a state with exact counts, the counts stay
exact.
-/
theorem descriptor_counts_exact {maxThreads : Nat} {held : Object → Nat}
    {start : Handles} {inputs : List FdInput}
    (counted : Counted maxThreads held start)
    (careful : (fdMachine maxThreads).Meets Careful start inputs) :
    ∀ move ∈ (fdMachine maxThreads).run start inputs, CountedMove maxThreads held move := by
  refine Machine.forall_run (fun _ _ => Counted.step) ?_ counted careful
  intro handles input before careful
  have after := before.step careful
  refine ⟨after.exact, ?_, ?_⟩
  · intro object free
    have zero := after.exact.eq_zero_iff free
    simp only [mem_range] at zero
    exact zero
  · intro object zero _ pid inside fd fdIn refers
    have some := before.exact.pos (mem_range.mpr inside) (mem_range.mpr fdIn) refers
    exact absurd zero (Nat.pos_iff_ne_zero.mp some)

namespace Sample

/-- The first process, with an empty descriptor table. -/
def noDescriptors : Handles where
  owners pid :=
    { state :=
        if pid = 0 then .running else if pid = 1 then .ready else .unused
      fds := fun _ => .none
      cloexec := fun _ => false }
  counts _ := 0
  nextSocket := 1

theorem noDescriptors_counted (maxThreads : Nat) :
    Counted maxThreads (fun _ => 0) noDescriptors where
  exact := by
    intro key
    have empty : refsOver (range maxThreads) (range maxFds) noDescriptors.table key = 0 := by
      refine refsOver_eq_zero.mpr fun pid _ fd _ => ?_
      unfold Handles.table
      split_ifs <;> simp [noDescriptors, FdKind.refers]
    rw [empty]
    rfl
  holds := by
    intro object some
    exact absurd some (lt_irrefl 0)

/-- A file, a pipe and a directory are shared, duplicated and closed. -/
def shared : List FdInput :=
  [⟨1, .open .file⟩, ⟨1, .dup2 3 5⟩, ⟨1, .pipe true⟩,
    ⟨1, .open .directory⟩, ⟨1, .fork⟩, ⟨2, .close 3⟩, ⟨2, .exec⟩,
    ⟨1, .socket true⟩, ⟨1, .exit⟩, ⟨2, .exit⟩]

/-- A directory is duplicated, and one of the two descriptors is closed. -/
def directoryTwice : List FdInput := [⟨1, .open .directory⟩, ⟨1, .dup2 3 4⟩]

/-- A socket is inherited. -/
def socketTwice : List FdInput := [⟨1, .socket true⟩, ⟨1, .fork⟩]

end Sample

theorem shared_descriptors_are_counted :
    Counted 4 (fun _ => 0) Sample.noDescriptors ∧
      (fdMachine 4).Meets Careful Sample.noDescriptors Sample.shared ∧
      ∀ move ∈ (fdMachine 4).run Sample.noDescriptors Sample.shared,
        CountedMove 4 (fun _ => 0) move := by
  have counted := Sample.noDescriptors_counted 4
  have careful : (fdMachine 4).Meets Careful Sample.noDescriptors Sample.shared := by decide +kernel
  exact ⟨counted, careful, descriptor_counts_exact counted careful⟩

/--
A directory with a duplicate is released by the first close, and the next
open gives its handle to another directory; a socket is gone for everybody
when one of the processes that share it closes it.
-/
theorem duplicates_are_not_counted :
    (¬ ∀ move ∈ (fdMachine 4).run Sample.noDescriptors (Sample.directoryTwice ++ [⟨1, .close 3⟩]),
      CountedMove 4 (fun _ => 0) move) ∧
    (¬ ∀ move ∈ (fdMachine 4).run Sample.noDescriptors (Sample.socketTwice ++ [⟨2, .close 3⟩]),
      CountedMove 4 (fun _ => 0) move) := by
  constructor
  · intro law
    have last := law _ ((fdMachine 4).last_mem_run _ _ _)
    exact (last.released (.directory 0) rfl).mp (by decide +kernel) 1
      (by decide) 4 (by decide) (by decide +kernel)
  · intro law
    have last := law _ ((fdMachine 4).last_mem_run _ _ _)
    exact (last.released (.socket 1) rfl).mp (by decide +kernel) 1
      (by decide) 3 (by decide) (by decide +kernel)

end RetroOS.Kernel
