import RetroOS.Lib.Machine

/-!
# The thread table

Fork, exit and wait4 over the kernel's table of threads, with the calls that
block a Linux thread and the switch that lets a thread go on.

A thread's number is its slot.  One state, `blocked`, stands for every call a
thread can wait in; only the pending read or poll of a Linux thread tells
them apart, and a blocked wait4 leaves no trace but the address its status
goes to.  The scheduler is left open: any thread that is ready, running or
blocked may be switched to at any time, as the task picker can.
-/

namespace RetroOS.Kernel

open Lib

inductive ThreadState where
  | unused
  | running
  | ready
  | blocked
  | zombie
  deriving DecidableEq

/-- A read that waits for bytes in a pipe. -/
structure PendingRead where
  pipe : Nat
  bufPtr : Nat
  bufLen : Nat
  deriving DecidableEq

/-- A poll that waits for one of its descriptors. -/
structure PendingPoll where
  fdsPtr : Nat
  nfds : Nat
  timeoutMs : Int
  deriving DecidableEq

structure LinuxState where
  pendingRead : Option PendingRead
  pendingPoll : Option PendingPoll
  waitStatusPtr : Nat
  waitExitCode : Int
  deriving DecidableEq

def LinuxState.new : LinuxState where
  pendingRead := none
  pendingPoll := none
  waitStatusPtr := 0
  waitExitCode := 0

inductive Personality where
  | linux (state : LinuxState)
  | dos (lastChildExitStatus : Nat)
  | os2
  | windows
  deriving DecidableEq

/-- A slot of the table; `rax` is the register, read as a signed word. -/
structure Thread where
  tid : Int
  parentTid : Int
  state : ThreadState
  rax : Int
  exitCode : Int
  personality : Personality
  deriving DecidableEq

/-- The table and the thread that has the processor. -/
structure ThreadTable where
  threads : Nat → Thread
  current : Nat

def eChild : Int := 10

def eAgain : Int := 11

def eNoMem : Int := 12

namespace Thread

/-- The event loop lends the processor to this thread. -/
def runs (thread : Thread) : Bool := thread.state == .ready || thread.state == .running

def isLinux (thread : Thread) : Bool :=
  match thread.personality with
  | .linux _ => true
  | .dos _ | .os2 | .windows => false

/-- Change the Linux part of a thread that has one. -/
def modifyLinux (thread : Thread) (change : LinuxState → LinuxState) : Thread :=
  match thread.personality with
  | .linux state => { thread with personality := .linux (change state) }
  | .dos _ | .os2 | .windows => thread

def waitStatusPtr (thread : Thread) : Nat :=
  match thread.personality with
  | .linux state => state.waitStatusPtr
  | .dos _ | .os2 | .windows => 0

/-- The word wait4 stores for an exit code: `(code & 0xFF) << 8`. -/
def statusWord (code : Int) : Int := code % 256 * 256

/-- What a store of a status through a pointer writes, if anything. -/
def storeStatus (pointer : Nat) (code : Int) : Option (Nat × Int) :=
  if pointer ≠ 0 then some (pointer, statusWord code) else none

/-- The deferred status write of a thread that is swapped in. -/
def onResume (thread : Thread) : Option (Nat × Int) × Thread :=
  match thread.personality with
  | .linux state =>
    (storeStatus state.waitStatusPtr state.waitExitCode,
      { thread with personality := .linux { state with waitStatusPtr := 0 } })
  | .dos _ | .os2 | .windows => (none, thread)

/-- A blocked parent is made ready by the exit of a child. -/
def wake (child code : Int) (parent : Thread) : Thread :=
  if parent.state = .blocked then
    match parent.personality with
    | .dos _ => { parent with state := .ready, rax := parent.rax - parent.rax % 2 ^ 16 }
    | .linux state =>
      { parent with
        state := .ready
        rax := child
        personality := .linux { state with waitExitCode := code } }
    | .os2 | .windows => { parent with state := .ready, rax := child }
  else parent

/-- A DOS parent keeps the status of its last child. -/
def noteExit (code : Int) (parent : Thread) : Thread :=
  match parent.personality with
  | .dos _ => { parent with personality := .dos (code % 2 ^ 16).toNat }
  | .linux _ | .os2 | .windows => parent

end Thread

/-- The child a wait4 asks for: any, or the one with this number. -/
def waitsFor (pid tid : Int) : Bool := pid == -1 || tid == pid

namespace ThreadTable

variable (maxThreads : Nat) (table : ThreadTable)

def modify (slot : Nat) (change : Thread → Thread) : ThreadTable :=
  { table with threads := Function.update table.threads slot (change (table.threads slot)) }

/-- The first unused slot. -/
def freeSlot : Option Nat :=
  (List.range maxThreads).find? fun slot => (table.threads slot).state == .unused

def createThread (parentTid : Int) (slot : Nat) : ThreadTable :=
  table.modify slot fun _ =>
    { tid := slot, parentTid, state := .ready, rax := 0, exitCode := 0, personality := .linux .new }

/-- The slot of a thread's parent, when there is one to wake. -/
def parentOf (slot : Nat) : Option Nat :=
  let parentTid := (table.threads slot).parentTid
  if 0 ≤ parentTid ∧ parentTid < maxThreads ∧ parentTid ≠ slot then some parentTid.toNat
  else none

def exitThread (code : Int) : ThreadTable :=
  let thread := table.threads table.current
  let closed := table.modify table.current fun thread => { thread with exitCode := code }
  let woken :=
    match table.parentOf maxThreads table.current with
    | some parent => closed.modify parent fun parent => (parent.wake thread.tid code).noteExit code
    | none => closed
  woken.modify table.current fun thread => { thread with state := .zombie }

/-- The exited child a wait4 would report, or an error number. -/
def peekZombieChild (current : Nat) (pid : Int) : Int × Int :=
  let currentTid := (table.threads current).tid
  let children := ((List.range maxThreads).drop 1).filter fun slot =>
    (table.threads slot).parentTid == currentTid && (table.threads slot).state != .unused
  let found := children.find? fun slot =>
    (table.threads slot).state == .zombie && waitsFor pid (table.threads slot).tid
  match found with
  | some slot => ((table.threads slot).tid, (table.threads slot).exitCode)
  | none => if children.isEmpty then (-eChild, 0) else (-eAgain, 0)

/-- Recycle the slot of a zombie. -/
def reap (tid : Int) : ThreadTable :=
  if tid < 0 ∨ maxThreads ≤ tid then table
  else if (table.threads tid.toNat).state = .zombie then
    table.modify tid.toNat fun thread =>
      { thread with personality := .linux .new, state := .unused }
  else table

end ThreadTable

/-! ## The calls -/

inductive ThreadCall where
  | fork
  | exit (code : Int)
  | wait4 (pid : Int) (statusPtr : Nat)
  /-- A read of an empty pipe that still has writers. -/
  | blockRead (pending : PendingRead)
  /-- A poll with no descriptor ready. -/
  | blockPoll (pending : PendingPoll)
  /-- The event loop retries the pending call and gets `count`. -/
  | completeIo (count : Nat)
  | switch (next : Nat)
  deriving DecidableEq

inductive ThreadAnswer where
  /-- The thread at the processor cannot make this call now. -/
  | ignored
  | forked (child : Nat)
  | exited
  /-- A wait4 that returned a child, with the store it made. -/
  | reported (child : Int) (store : Option (Nat × Int))
  | returned (value : Int)
  | blocked
  | completed
  /--
  A thread was swapped in, with the store that made and the register it goes
  on with unless it is still blocked.
  -/
  | switched (resumed : Option Int) (store : Option (Nat × Int))
  deriving DecidableEq

namespace ThreadTable

variable (maxThreads : Nat) (table : ThreadTable)

/-- Return a value to the thread at the processor. -/
def returns (value : Int) : ThreadTable :=
  table.modify table.current fun thread => { thread with rax := value }

def handleFork : ThreadAnswer × ThreadTable :=
  let parent := table.threads table.current
  match table.freeSlot maxThreads with
  | none => (.returned (-eNoMem), table.returns (-eNoMem))
  | some child =>
    (.forked child, (table.createThread parent.tid child).modify table.current
        fun thread => { thread with state := .ready, rax := child })

def handleWait (pid : Int) (statusPtr : Nat) : ThreadAnswer × ThreadTable :=
  let found := table.peekZombieChild maxThreads table.current pid
  if 0 ≤ found.1 then
    (.reported found.1 (Thread.storeStatus statusPtr found.2),
      (table.reap maxThreads found.1).returns found.1)
  else if found.1 = -eChild then (.returned (-eChild), table.returns (-eChild))
  else
    (.blocked, table.modify table.current fun thread =>
        { thread.modifyLinux fun state =>
            { state with waitStatusPtr := statusPtr } with
          state := .blocked
          rax := 0 })

/-- Block the thread at the processor in place. -/
def block (change : LinuxState → LinuxState) : ThreadAnswer × ThreadTable :=
  (.blocked, table.modify table.current fun thread =>
      { thread.modifyLinux change with state := .blocked, rax := 0 })

/-- End a pending read, or else a pending poll, that now yields `count`. -/
def completePendingIo (count : Nat) : ThreadAnswer × ThreadTable :=
  match (table.threads table.current).personality with
  | .linux state =>
    if state.pendingRead.isSome ∧ 0 < count then
      (.completed, table.modify table.current fun thread =>
          { thread with
            rax := count
            state := .ready
            personality := .linux { state with pendingRead := none } })
    else if state.pendingRead = none ∧ state.pendingPoll.isSome ∧ 0 < count then
      (.completed, table.modify table.current fun thread =>
          { thread with
            rax := count
            state := .ready
            personality := .linux { state with pendingPoll := none } })
    else (.ignored, table)
  | .dos _ | .os2 | .windows => (.ignored, table)

def switchTo (next : Nat) : ThreadAnswer × ThreadTable :=
  let thread := table.threads next
  if next ≠ table.current ∧ next < maxThreads ∧ (thread.runs ∨ thread.state = .blocked) then
    let resumed := thread.onResume
    (.switched (if thread.runs then some thread.rax else none) resumed.1,
      { table.modify next (fun _ => resumed.2) with current := next })
  else (.ignored, table)

end ThreadTable

/-- The thread calls as a machine over the table. -/
def threadMachine (maxThreads : Nat) :
    Machine ThreadTable ThreadCall ThreadAnswer := fun table call =>
  let thread := table.threads table.current
  match call with
  | .fork =>
    if thread.runs ∧ thread.isLinux then table.handleFork maxThreads
    else (.ignored, table)
  | .exit code =>
    if thread.runs then (.exited, table.exitThread maxThreads code)
    else (.ignored, table)
  | .wait4 pid statusPtr =>
    if thread.runs ∧ thread.isLinux then table.handleWait maxThreads pid statusPtr
    else (.ignored, table)
  | .blockRead pending =>
    if thread.runs ∧ thread.isLinux then
      table.block fun state => { state with pendingRead := some pending }
    else (.ignored, table)
  | .blockPoll pending =>
    if thread.runs ∧ thread.isLinux then
      table.block fun state => { state with pendingPoll := some pending }
    else (.ignored, table)
  | .completeIo count =>
    if thread.state = .blocked then table.completePendingIo count
    else (.ignored, table)
  | .switch next => table.switchTo maxThreads next

end RetroOS.Kernel
