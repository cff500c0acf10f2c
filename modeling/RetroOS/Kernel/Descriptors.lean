import RetroOS.Kernel.Threads
import RetroOS.Lib.RefCount

/-!
# Descriptor tables

The descriptor tables of all processes and the objects they refer to: open
files, directory handles, the two ends of pipes, and sockets.  Each kind of
object has a table of its own with functions of its own for one more and one
less reference; a socket has no count at all and is gone with its first
close.

The counts are kept in one function over the objects, the sockets' as one or
zero.  What is opened, and whether it can be, is up to the caller: the path
lookup and the network are outside of the model.
-/

namespace RetroOS.Kernel

open Lib

/-- What a descriptor stands for. -/
inductive FdKind where
  | none
  | vfs (handle : Nat)
  | pipeRead (idx : Nat)
  | pipeWrite (idx : Nat)
  | consoleOut
  | dir (handle next : Nat)
  | socket (handle : Int)
  deriving DecidableEq

/-- An object whose references are counted. -/
inductive Object where
  | file (idx : Nat)
  | directory (idx : Nat)
  | reader (idx : Nat)
  | writer (idx : Nat)
  | socket (handle : Int)
  deriving DecidableEq

namespace FdKind

/-- The object a descriptor refers to. -/
def refers : FdKind → Option Object
  | .vfs handle => some (.file handle)
  | .pipeRead idx => some (.reader idx)
  | .pipeWrite idx => some (.writer idx)
  | .dir handle _ => some (.directory handle)
  | .socket handle => some (.socket handle)
  | .none | .consoleOut => Option.none

end FdKind

def maxFds : Nat := 64

def maxOpenFiles : Nat := 128

def dirHandles : Nat := 32

def maxPipes : Nat := 64

/-- The descriptors of the process in a slot. -/
structure FdOwner where
  state : ThreadState
  fds : Nat → FdKind
  cloexec : Nat → Bool

/-- A process that has neither exited nor not yet started. -/
def FdOwner.live (owner : FdOwner) : Bool := owner.state != .unused && owner.state != .zombie

/-- All descriptor tables, all reference counts, and the next socket. -/
structure Handles where
  owners : Nat → FdOwner
  counts : Object → Nat
  nextSocket : Int

namespace Handles

variable (handles : Handles)

def setCount (object : Object) (count : Nat) : Handles :=
  { handles with counts := Function.update handles.counts object count }

def setOwner (pid : Nat) (owner : FdOwner) : Handles :=
  { handles with owners := Function.update handles.owners pid owner }

def setFd (pid fd : Nat) (kind : FdKind) : Handles :=
  let owner := handles.owners pid
  handles.setOwner pid { owner with fds := Function.update owner.fds fd kind }

def setCloexec (pid fd : Nat) (flag : Bool) : Handles :=
  let owner := handles.owners pid
  handles.setOwner pid { owner with cloexec := Function.update owner.cloexec fd flag }

/-! ## The tables of objects -/

/-- One more reference in a count of `bits` bits. -/
def addRef (bits : Nat) (object : Object) : Handles :=
  handles.setCount object ((handles.counts object + 1) % 2 ^ bits)

/-- One reference less, if there is one. -/
def dropRef (object : Object) : Handles := handles.setCount object (handles.counts object - 1)

def addVfsRef (idx : Nat) : Handles :=
  if idx < maxOpenFiles then handles.addRef 16 (.file idx) else handles

def closeVfsHandle (idx : Nat) : Handles :=
  if idx < maxOpenFiles then handles.dropRef (.file idx) else handles

def addReader (idx : Nat) : Handles := handles.addRef 16 (.reader idx)

def addWriter (idx : Nat) : Handles := handles.addRef 16 (.writer idx)

def closeReader (idx : Nat) : Handles := handles.dropRef (.reader idx)

def closeWriter (idx : Nat) : Handles := handles.dropRef (.writer idx)

/-- A handle that is not open gets no reference. -/
def addDirRef (idx : Nat) : Handles :=
  if idx < dirHandles ∧ 0 < handles.counts (.directory idx) then handles.addRef 8 (.directory idx)
  else handles

def closeDirHandle (idx : Nat) : Handles :=
  if idx < dirHandles then handles.dropRef (.directory idx) else handles

/-- Forget a socket, whoever else still has its handle. -/
def socketClose (handle : Int) : Handles := handles.setCount (.socket handle) 0

/-- The first entry of the file table that is free, now open. -/
def openToHandle : Option (Nat × Handles) :=
  ((List.range maxOpenFiles).find? fun idx =>
    handles.counts (.file idx) == 0).map fun idx => (idx, handles.setCount (.file idx) 1)

/-- The first free directory handle, now open. -/
def openDirHandle : Option (Nat × Handles) :=
  ((List.range dirHandles).find? fun idx =>
    handles.counts (.directory idx) == 0).map fun idx => (idx, handles.setCount (.directory idx) 1)

/-- The first pipe without readers and writers, now with one of each. -/
def pipeAlloc : Option (Nat × Handles) :=
  ((List.range maxPipes).find? fun idx =>
    handles.counts (.reader idx) == 0 && handles.counts (.writer idx) == 0).map fun idx =>
        (idx, (handles.setCount (.reader idx) 1).setCount (.writer idx) 1)

/-- A new socket; the handles are counted in 32 bits. -/
def socketOpen : Int × Handles :=
  let handle := handles.nextSocket
  let nextSocket := if handle = 2 ^ 31 - 1 then -2 ^ 31 else handle + 1
  (handle, { handles.setCount (.socket handle) 1 with nextSocket })

/-! ## One table -/

/-- The first free descriptor from `first` on. -/
def allocFd (pid first : Nat) : Option Nat :=
  (List.range maxFds).find? fun fd => decide (first ≤ fd) && (handles.owners pid).fds fd == .none

/-- What closing a descriptor does to its object. -/
def closeRef : FdKind → Handles
  | .vfs idx => handles.closeVfsHandle idx
  | .pipeRead idx => handles.closeReader idx
  | .pipeWrite idx => handles.closeWriter idx
  | .socket handle => handles.socketClose handle
  | .dir handle _ => handles.closeDirHandle handle
  | .consoleOut | .none => handles

/-- What dup2 and fcntl do to the object they duplicate. -/
def dupRef : FdKind → Handles
  | .vfs idx => handles.addVfsRef idx
  | .pipeRead idx => handles.addReader idx
  | .pipeWrite idx => handles.addWriter idx
  | .socket _ | .consoleOut | .none | .dir _ _ => handles

/-- What a fork does to an object the child shares. -/
def forkRef : FdKind → Handles
  | .vfs idx => handles.addVfsRef idx
  | .pipeRead idx => handles.addReader idx
  | .pipeWrite idx => handles.addWriter idx
  | .dir handle _ => handles.addDirRef handle
  | .socket _ | .consoleOut | .none => handles

def closeFd (pid fd : Nat) : Handles :=
  if fd < maxFds then
    let closed := handles.closeRef ((handles.owners pid).fds fd)
    (closed.setFd pid fd .none).setCloexec pid fd false
  else handles

def closeFds (pid : Nat) (fds : List Nat) : Handles :=
  fds.foldl (fun handles fd => handles.closeFd pid fd) handles

def closeAllFds (pid : Nat) : Handles := handles.closeFds pid (List.range maxFds)

def closeCloexec (pid : Nat) : Handles :=
  handles.closeFds pid ((List.range maxFds).filter (handles.owners pid).cloexec)

/-- Give the process in `child` the descriptors of the one in `parent`. -/
def dupAllFds (parent child : Nat) : Handles :=
  let owner := handles.owners parent
  let shared := handles.setOwner child
    { state := .ready, fds := owner.fds, cloexec := owner.cloexec }
  (List.range maxFds).foldl (fun handles fd => handles.forkRef (owner.fds fd)) shared

/-- Put an object into a free descriptor, or else undo its opening. -/
def install (pid first : Nat) (kind : FdKind) : Int × Handles :=
  match handles.allocFd pid first with
  | some fd => ((fd : Int), handles.setFd pid fd kind)
  | none => (-24, handles.closeRef kind)

end Handles

/-! ## The calls -/

/-- What a path turned out to name. -/
inductive Target where
  | directory
  | file
  | missing
  deriving DecidableEq

inductive FdCall where
  | open (target : Target)
  | close (fd : Nat)
  | pipe (cloexec : Bool)
  /-- A socket, unless the backend refuses it. -/
  | socket (granted : Bool)
  | accept (fd : Nat) (granted : Bool)
  | dup2 (oldfd newfd : Nat)
  | dupfd (fd minfd : Nat) (cloexec : Bool)
  | setfd (fd : Nat) (cloexec : Bool)
  | fork
  | exec
  | exit
  /-- The parent of an exited process has waited for it. -/
  | reap
  deriving DecidableEq

namespace Handles

variable (handles : Handles) (maxThreads pid : Nat)

def sysOpen : Target → Int × Handles
  | .directory =>
    match handles.allocFd pid 3 with
    | some fd =>
      match handles.openDirHandle with
      | some (idx, opened) => ((fd : Int), opened.setFd pid fd (.dir idx 0))
      | none => (-24, handles)
    | none => (-24, handles)
  | .file =>
    match handles.openToHandle with
    | some (idx, opened) => opened.install pid 3 (.vfs idx)
    | none => (-24, handles)
  | .missing => (-2, handles)

def sysClose (fd : Nat) : Int × Handles :=
  if fd < maxFds ∧ (handles.owners pid).fds fd ≠ .none then (0, handles.closeFd pid fd)
  else (-9, handles)

def sysPipe (cloexec : Bool) : Int × Handles :=
  match handles.pipeAlloc with
  | none => (-24, handles)
  | some (idx, opened) =>
    match opened.allocFd pid 0 with
    | none => (-24, (opened.closeReader idx).closeWriter idx)
    | some readFd =>
      let half := opened.setFd pid readFd (.pipeRead idx)
      match half.allocFd pid 0 with
      | none => (-24, (half.closeFd pid readFd).closeWriter idx)
      | some writeFd =>
        let whole := half.setFd pid writeFd (.pipeWrite idx)
        if cloexec then (0, (whole.setCloexec pid readFd true).setCloexec pid writeFd true)
        else (0, whole)

def sysSocket (granted : Bool) : Int × Handles :=
  if granted then
    let opened := handles.socketOpen
    if opened.1 < 0 then opened
    else opened.2.install pid 3 (.socket opened.1)
  else (-97, handles)

def sysAccept (fd : Nat) (granted : Bool) : Int × Handles :=
  if fd < maxFds then
    match (handles.owners pid).fds fd with
    | .socket _ => handles.sysSocket pid granted
    | .none => (-9, handles)
    | .vfs _ | .pipeRead _ | .pipeWrite _ | .consoleOut | .dir _ _ => (-88, handles)
  else (-9, handles)

def sysDup2 (oldfd newfd : Nat) : Int × Handles :=
  if maxFds ≤ oldfd ∨ maxFds ≤ newfd then (-9, handles)
  else if (handles.owners pid).fds oldfd = .none then (-9, handles)
  else if oldfd = newfd then (newfd, handles)
  else
    let cleared :=
      if (handles.owners pid).fds newfd ≠ .none then handles.closeFd pid newfd
      else handles
    let kind := (cleared.owners pid).fds oldfd
    (newfd, ((cleared.dupRef kind).setFd pid newfd kind).setCloexec pid newfd false)

def fcntlDupfd (fd minfd : Nat) (cloexec : Bool) : Int × Handles :=
  if fd < maxFds ∧ (handles.owners pid).fds fd ≠ .none then
    match handles.allocFd pid (min minfd maxFds) with
    | none => (-24, handles)
    | some newfd =>
      let kind := (handles.owners pid).fds fd
      (newfd, ((handles.dupRef kind).setFd pid newfd kind).setCloexec pid newfd cloexec)
  else (-9, handles)

def fcntlSetfd (fd : Nat) (cloexec : Bool) : Int × Handles :=
  if fd < maxFds ∧ (handles.owners pid).fds fd ≠ .none then (0, handles.setCloexec pid fd cloexec)
  else (-9, handles)

def sysFork : Int × Handles :=
  let free := (List.range maxThreads).find? fun slot => (handles.owners slot).state == .unused
  match free with
  | some child => (child, handles.dupAllFds pid child)
  | none => (-12, handles)

def sysExit : Int × Handles :=
  let closed := handles.closeAllFds pid
  (0, closed.setOwner pid { closed.owners pid with state := .zombie })

def reapSlot : Int × Handles :=
  let owner := handles.owners pid
  if owner.state = .zombie then (pid, handles.setOwner pid { owner with state := .unused })
  else (-10, handles)

end Handles

/-- A call, with the slot of the process it is about. -/
structure FdInput where
  pid : Nat
  call : FdCall
  deriving DecidableEq

/-- The descriptor calls as a machine; only live processes make calls. -/
def fdMachine (maxThreads : Nat) : Machine Handles FdInput Int :=
  fun handles input =>
    let pid := input.pid
    if input.call = .reap then
      if pid < maxThreads then handles.reapSlot pid else (-10, handles)
    else if pid < maxThreads ∧ (handles.owners pid).live then
      match input.call with
      | .open target => handles.sysOpen pid target
      | .close fd => handles.sysClose pid fd
      | .pipe cloexec => handles.sysPipe pid cloexec
      | .socket granted => handles.sysSocket pid granted
      | .accept fd granted => handles.sysAccept pid fd granted
      | .dup2 oldfd newfd => handles.sysDup2 pid oldfd newfd
      | .dupfd fd minfd cloexec => handles.fcntlDupfd pid fd minfd cloexec
      | .setfd fd cloexec => handles.fcntlSetfd pid fd cloexec
      | .fork => handles.sysFork maxThreads pid
      | .exec => (0, handles.closeCloexec pid)
      | .exit => handles.sysExit pid
      | .reap => (-10, handles)
    else (-3, handles)

end RetroOS.Kernel
