import RetroOS.Kernel.Descriptors
import RetroOS.Kernel.Pipe
import RetroOS.Lib.Memory

/-!
# Calls that wait

A `read` of an empty pipe and a `poll` with nothing ready block their thread
in place and leave a note of what they wait for.  The event loop tries the
note again until it can be answered.

Trying again is not issuing the call again: only the call looks for writers.
So a thread that waits for a pipe whose last writer has gone is never told of
the end of file.  In every other state the two agree.

The copy of the registers that a blocking call saves is left out; nothing
here reads it.
-/

namespace RetroOS.Kernel

open Lib Lib.Bytes
open Function (update update_self)

/-- Reads of files and sockets: a count or an error, and the bytes. -/
structure Sources (φ : Type) where
  readByHandle : φ → Nat → Nat → Int × Bytes × φ
  recvfrom : φ → Int → Nat → Int × Bytes × φ

/-- A Linux thread with its memory, and what it shares with the others. -/
structure Caller (φ : Type) where
  state : ThreadState
  rax : Int
  linux : LinuxState
  fds : Nat → FdKind
  memory : Memory UInt8
  pipes : Nat → KernelPipe
  files : φ

def eBadf : Int := 9

def KernelPipe.hasData (pipe : KernelPipe) : Bool := !pipe.buffer.isEmpty

section Calls

variable {φ : Type} (width : PointerWidth) (sources : Sources φ)

/-! ## read -/

/-- Hand over what a file or a socket gave. -/
def Caller.deliver (caller : Caller φ) (buf : Nat) (answer : Int × Bytes × φ) : Int × Caller φ :=
  let (count, bytes, files) := answer
  let memory :=
    if 0 < count then caller.memory.store buf (bytes.take count.toNat) else caller.memory
  (count, { caller with memory, files })

/-- `read`: the value it returns, unless it leaves the thread blocked. -/
def Caller.sysRead (caller : Caller φ) (fd buf length : Nat) : Int × Caller φ :=
  if maxFds ≤ fd then (-eBadf, caller)
  else
    match caller.fds fd with
    | .pipeRead idx =>
      let (answer, pipe) := Kernel.sysRead width (caller.pipes idx) length
      let caller := { caller with pipes := update caller.pipes idx pipe }
      match answer with
      -- At most the size of the ring, so the cast to 32 bits keeps it.
      | .delivered bytes =>
        (bytes.length, { caller with memory := caller.memory.store buf bytes })
      | .blocked =>
        (0,
          { caller with
            state := .blocked
            linux := { caller.linux with pendingRead := some ⟨idx, buf, length⟩ } })
      | _ => (0, caller)
    | .vfs handle => caller.deliver buf (sources.readByHandle caller.files handle length)
    | .socket handle => caller.deliver buf (sources.recvfrom caller.files handle length)
    | .consoleOut | .pipeWrite _ | .dir _ _ | .none => (-eBadf, caller)

/-! ## poll -/

def pollIn : BitVec 16 := 1

def pollOut : BitVec 16 := 4

/-- What is ready of the events asked for. -/
def readyEvents (pipes : Nat → KernelPipe) (events : BitVec 16) : FdKind → BitVec 16
  | .pipeRead idx => if events &&& pollIn ≠ 0 ∧ (pipes idx).hasData then pollIn else 0
  | .consoleOut | .pipeWrite _ => if events &&& pollOut ≠ 0 then pollOut else 0
  | .vfs _ | .dir _ _ =>
    (if events &&& pollIn ≠ 0 then pollIn else 0) |||
      (if events &&& pollOut ≠ 0 then pollOut else 0)
  | .socket _ => events &&& (pollIn ||| pollOut)
  | .none => 0

/-- One entry of the array; a negative descriptor is past every table. -/
def pollEntry (fds : Nat → FdKind) (pipes : Nat → KernelPipe) (fdsPtr : Nat)
    (seen : Nat × Memory UInt8) (index : Nat) : Nat × Memory UInt8 :=
  let base := fdsPtr + index * 8
  let fd := leNat (seen.2.load base 4)
  let events := BitVec.ofNat 16 (leNat (seen.2.load (base + 4) 2))
  let revents := if fd < maxFds then readyEvents pipes events (fds fd) else 0
  (if revents ≠ 0 then seen.1 + 1 else seen.1, seen.2.store (base + 6) (leBytes 2 revents.toNat))

/-- Evaluate the array once: the entries that are ready, and their events. -/
def Caller.runPoll (caller : Caller φ) (fdsPtr nfds : Nat) : Int × Caller φ :=
  let (ready, memory) :=
    (List.range nfds).foldl (pollEntry caller.fds caller.pipes fdsPtr) (0, caller.memory)
  (asI32 ready, { caller with memory })

def Caller.sysPoll (caller : Caller φ) (fdsPtr nfds : Nat) (timeout : Int) : Int × Caller φ :=
  let (ready, caller) := caller.runPoll fdsPtr nfds
  if 0 < ready ∨ timeout = 0 then (ready, caller)
  else
    (0,
      { caller with
        state := .blocked
        linux := { caller.linux with pendingPoll := some ⟨fdsPtr, nfds, timeout⟩ } })

/-! ## Trying again -/

/-- Answer the pending read, or else the pending poll, if that can be done. -/
def Caller.completePendingIo (caller : Caller φ) : Caller φ :=
  match caller.linux.pendingRead, caller.linux.pendingPoll with
  | some pending, _ =>
    let (answer, pipe) := completePendingRead width (caller.pipes pending.pipe) pending.bufLen
    let caller := { caller with pipes := update caller.pipes pending.pipe pipe }
    match answer with
    | .delivered bytes =>
      { caller with
        memory := caller.memory.store pending.bufPtr bytes
        rax := bytes.length
        linux := { caller.linux with pendingRead := none }
        state := .ready }
    | _ => caller
  | none, some pending =>
    let (ready, caller) := caller.runPoll pending.fdsPtr pending.nfds
    if 0 < ready then
      { caller with
        rax := ready
        linux := { caller.linux with pendingPoll := none }
        state := .ready }
    else caller
  | none, none => caller

inductive IoCall where
  | read (fd buf length : Nat)
  | poll (fdsPtr nfds : Nat) (timeout : Int)

/-- A system call of the running thread. -/
def Caller.issue (caller : Caller φ) (call : IoCall) : Caller φ :=
  let (value, caller) :=
    match call with
    | .read fd buf length => caller.sysRead width sources fd buf length
    | .poll fdsPtr nfds timeout => caller.sysPoll fdsPtr nfds timeout
  { caller with rax := value }

/-- The thread as it would be if it had not blocked. -/
def Caller.running (caller : Caller φ) : Caller φ :=
  { caller with
    state := .running
    linux := { caller.linux with pendingRead := none, pendingPoll := none } }

end Calls

/-! ## Completing against issuing again -/

section Reissue

variable {φ : Type} {width : PointerWidth} {sources : Sources φ}

/-- Whatever other threads do, they leave the thread itself alone. -/
structure OthersAct (before now : Caller φ) : Prop where
  state : now.state = before.state
  linux : now.linux = before.linux
  fds : now.fds = before.fds

/-- A pending call is answered as the call issued again was. -/
structure Reissued (again completed : Caller φ) : Prop where
  blocks : completed.state = .blocked ↔ again.state = .blocked
  returns :
    again.state ≠ .blocked →
      completed.state = .ready ∧ completed.rax = again.rax ∧
        completed.memory = again.memory ∧ completed.pipes = again.pipes

/-- The pipe holds a byte for a read of this length, or has a writer that may yet write one. -/
def KernelPipe.Answers (pipe : KernelPipe) (length : Nat) : Prop :=
  0 < length ∧ pipe.buffer.readPos < pipe.buffer.writePos ∨ pipe.hasWriters

def Answerable (now : Caller φ) : IoCall → Prop
  | .read fd _ length => ∀ idx, now.fds fd = .pipeRead idx → (now.pipes idx).Answers length
  | .poll _ _ _ => True

/-- With nothing to hand out, only the call itself looks for writers. -/
theorem completePendingRead_eq (width : PointerWidth) (pipe : KernelPipe) (length : Nat) :
    (pipe.Answers length → completePendingRead width pipe length = sysRead width pipe length) ∧
      (¬ pipe.Answers length → (completePendingRead width pipe length).1 = .blocked ∧
        (sysRead width pipe length).1 = .endOfFile) := by
  have found :
      0 < (pipe.read width length).1.length ↔
        0 < length ∧ pipe.buffer.readPos < pipe.buffer.writePos := by
    cases length <;> simp only [KernelPipe.read, Ring.read]
    · simp
    · split <;> simp_all
  have kept : (pipe.read width length).2.hasWriters = pipe.hasWriters := rfl
  simp only [KernelPipe.Answers, ← found, completePendingRead, Kernel.sysRead, kept]
  by_cases some : 0 < (pipe.read width length).1.length <;> cases pipe.hasWriters <;> simp [some]

/-- A pending read gets bytes, or stays blocked. -/
theorem completePendingRead_cases (width : PointerWidth) (pipe : KernelPipe) (length : Nat) :
    (completePendingRead width pipe length).1 = .blocked ∨
      ∃ bytes, (completePendingRead width pipe length).1 = .delivered bytes := by
  simp only [completePendingRead]
  split
  · exact .inr ⟨_, rfl⟩
  · exact .inl rfl

/-- Only a read of a pipe blocks, and it leaves its arguments. -/
theorem sysRead_blocked {caller : Caller φ} {fd buf length : Nat} (runs : caller.state = .running)
    (blocks : (caller.sysRead width sources fd buf length).2.state = .blocked) :
    fd < maxFds ∧ ∃ idx, caller.fds fd = .pipeRead idx ∧
      (caller.sysRead width sources fd buf length).2.linux.pendingRead = some ⟨idx, buf, length⟩ ∧
      (caller.sysRead width sources fd buf length).2.fds = caller.fds := by
  unfold Caller.sysRead Caller.deliver at blocks ⊢
  split_ifs at blocks ⊢ with past
  · simp [runs] at blocks
  · refine ⟨Nat.lt_of_not_le past, ?_⟩
    split at blocks
    case h_1 idx kind =>
      refine ⟨idx, kind, ?_⟩
      dsimp only at blocks ⊢
      split at blocks
      case h_2 => simp
      all_goals simp [runs] at blocks
    all_goals simp [runs] at blocks

/-- A poll that blocks was told to wait, and leaves its arguments. -/
theorem sysPoll_blocked {caller : Caller φ} {fdsPtr nfds : Nat} {timeout : Int}
    (runs : caller.state = .running)
    (blocks : (caller.sysPoll fdsPtr nfds timeout).2.state = .blocked) :
    timeout ≠ 0 ∧ (caller.sysPoll fdsPtr nfds timeout).2.linux =
        { caller.linux with pendingPoll := some ⟨fdsPtr, nfds, timeout⟩ } := by
  unfold Caller.sysPoll Caller.runPoll at blocks ⊢
  dsimp only at blocks ⊢
  split_ifs at blocks ⊢ with answered
  · simp [runs] at blocks
  · exact ⟨fun zero => answered (.inr zero), rfl⟩

end Reissue

def noSources : Sources Unit where
  readByHandle _ _ _ := (0, [], ())
  recvfrom _ _ _ := (0, [], ())

/-- A thread whose descriptors all read the first pipe. -/
def pipeReader : Caller Unit where
  state := .running
  rax := 0
  linux := .new
  fds _ := .pipeRead 0
  memory _ := 0
  pipes _ := .alloc
  files := ()

/-- It has blocked in a read of one byte, and others then used the pipe. -/
def waitingReader (call : PipeCall) : Caller Unit :=
  { pipeReader.running.issue .bits64 noSources (.read 3 0x1000 1) with
    pipes := update (fun _ => .alloc) 0 (pipeMachine .bits64 .alloc call).2 }

end RetroOS.Kernel
