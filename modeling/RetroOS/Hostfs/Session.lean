import RetroOS.Hostfs.Frame
import RetroOS.Lib.Machine

/-!
# Sessions of the host file system

The client sends a request and waits for a frame of the matching kind; nothing
else ties a reply to its request.  When a wait is given up, the client asks
for a new session with the next token before it sends anything again, and
passes over every frame until that token is acknowledged.

One machine holds the client, the peer and the two queues between them.  Its
inputs are what can happen next: an operation starts, a frame arrives, a wait
runs out, the peer takes a frame, the peer asks for a session of its own, a
frame is lost.  Packets carry, beside their frame, which handshake or request
they belong to.  The client never looks at that.

The peer takes frames in order, acknowledges a handshake with its token and
answers a request at most once.  A frame is sent in full or not at all; one
cut off in the middle counts as lost.
-/

namespace RetroOS.Hostfs

open Lib Lib.Bytes

def typeHello : UInt8 := 0xf0

def typeHelloAck : UInt8 := 0xf1

/-- The requests that wait for a reply. -/
inductive Command where
  | openFile
  | read
  | stat
  | readdir
  | create
  | write
  | mkdir
  deriving DecidableEq

def Command.code : Command → UInt8
  | .openFile => 0x01
  | .read => 0x02
  | .stat => 0x04
  | .readdir => 0x05
  | .create => 0x06
  | .write => 0x07
  | .mkdir => 0x08

def cmdClose : UInt8 := 0x03

/-- The kind of the reply to a command. -/
def replyKind (cmd : UInt8) : UInt8 := 0x80 ||| cmd

theorem replyKind_injective {cmd other : Command}
    (same : replyKind cmd.code = replyKind other.code) : cmd = other := by
  cases cmd <;> cases other <;> first | rfl | exact absurd same (by decide)

/-- No other frame that the peer sends has the kind of a reply. -/
theorem replyKind_ne (cmd : Command) :
    typeHello ≠ replyKind cmd.code ∧ typeHelloAck ≠ replyKind cmd.code ∧
      replyKind cmdClose ≠ replyKind cmd.code := by
  cases cmd <;> decide

/-- A payload that fits into a frame. -/
abbrev Payload : Type := { bytes : Bytes // bytes.length ≤ maxFramePayload }

def tokenPayload (token : Nat) : Payload := ⟨leBytes 4 token, by rw [length_leBytes]; decide⟩

/-! ## Packets -/

/-- A frame under way, with the handshake or request it belongs to. -/
inductive Packet where
  | hello (token handshake : Nat)
  | ack (token handshake : Nat)
  | request (cmd : Command) (payload : Payload) (number : Nat)
  | reply (cmd : Command) (payload : Payload) (number : Nat)
  | peerHello (token : Nat)
  | peerAck (token : Nat)
  | close (payload : Payload)
  | closeReply (payload : Payload)
  deriving DecidableEq

def frameOf (kind : UInt8) (payload : Payload) : Frame where
  kind
  payload := payload.1
  fits := payload.2

/-- What is on the wire. -/
def Packet.frame : Packet → Frame
  | .hello token _ | .peerHello token => frameOf typeHello (tokenPayload token)
  | .ack token _ | .peerAck token => frameOf typeHelloAck (tokenPayload token)
  | .request cmd payload _ => frameOf cmd.code payload
  | .reply cmd payload _ => frameOf (replyKind cmd.code) payload
  | .close payload => frameOf cmdClose payload
  | .closeReply payload => frameOf (replyKind cmdClose) payload

/-- The handshake that a packet belongs to. -/
def Packet.handshake : Packet → Option Nat
  | .hello _ handshake | .ack _ handshake => some handshake
  | _ => none

/-- What the peer puts on the wire for a packet, if it answers. -/
def Packet.answered (answer : Option Payload) : Packet → Option Packet
  | .hello token handshake => some (.ack token handshake)
  | .request cmd _ number => answer.map fun payload => .reply cmd payload number
  | .close _ => answer.map .closeReply
  | _ => none

/-! ## The client -/

/-- What an operation wants to send once there is a session. -/
inductive Work where
  | request (cmd : Command) (payload : Payload)
  | close (payload : Payload)
  | oversized
  | probe
  deriving DecidableEq

inductive Phase where
  | idle
  | handshake (token number : Nat) (work : Work)
  | awaiting (cmd : Command) (number : Nat)
  | served
  deriving DecidableEq

structure Session where
  ready : Bool
  session : Nat
  phase : Phase
  /-- Frames on the way to the peer. -/
  up : List Packet
  /-- Frames on the way to the client. -/
  down : List Packet
  handshakes : Nat
  requests : Nat
  /-- A wait was given up, and no handshake since then was acknowledged. -/
  lapsed : Bool
  deriving DecidableEq

/-- The request that a step sent, and the one it ended with a packet. -/
structure Report where
  sent : Option Nat
  returned : Option (Nat × Packet)
  deriving DecidableEq

def Report.quiet : Report where
  sent := none
  returned := none

namespace Session

/-- The client as it boots. -/
def boot : Session where
  ready := false
  session := 0x13579bdf
  phase := .idle
  up := []
  down := []
  handshakes := 0
  requests := 0
  lapsed := true

/-- The operation fails and the session is given up. -/
def markUnavailable (state : Session) : Session :=
  { state with ready := false, phase := .idle, lapsed := true }

/-- Send what an operation has to send.  `sent`: the line took the frame. -/
def startWork (state : Session) (sent : Bool) : Work → Report × Session
  | .request cmd payload =>
    if sent then
      ({ sent := some state.requests, returned := none },
        { state with
          phase := .awaiting cmd state.requests
          up := state.up ++ [.request cmd payload state.requests]
          requests := state.requests + 1 })
    else (.quiet, state.markUnavailable)
  | .close payload =>
    if sent then (.quiet, { state with phase := .idle, up := state.up ++ [.close payload] })
    else (.quiet, state.markUnavailable)
  -- A payload that fits no frame is refused before anything is sent.
  | .oversized => (.quiet, { state with phase := .idle })
  | .probe => (.quiet, { state with phase := .idle })

def nextSession (state : Session) : Nat := (state.session + 1) % 2 ^ 32

/-- Ask for a session.  `present`: there is a UART. -/
def init (state : Session) (present sent : Bool) (work : Work) : Report × Session :=
  if present then
    let token := state.nextSession
    if sent then
      (.quiet,
        { state with
          ready := false
          session := token
          phase := .handshake token state.handshakes work
          up := state.up ++ [.hello token state.handshakes]
          handshakes := state.handshakes + 1
          lapsed := true })
    else (.quiet, { state.markUnavailable with session := token })
  else (.quiet, state.markUnavailable)

/-- Whether a frame acknowledges a token. -/
def acknowledges (frame : Frame) (token : Nat) : Bool :=
  frame.kind = typeHelloAck ∧ frame.payload.length = 4 ∧ leNat frame.payload = token

/-- The next frame reaches a client that waits for one. -/
def deliver (state : Session) (sent : Bool) : Report × Session :=
  match state.down with
  | [] => (.quiet, state)
  | packet :: rest =>
    match state.phase with
    | .idle | .served => (.quiet, state)
    | .handshake token number work =>
      if acknowledges packet.frame token then
        startWork
          { state with ready := true, down := rest, lapsed := packet.handshake ≠ some number }
          sent work
      else (.quiet, { state with down := rest })
    | .awaiting cmd number =>
      if packet.frame.kind = replyKind cmd.code then
        ({ sent := none, returned := some (number, packet) },
          { state with phase := .served, down := rest })
      else if packet.frame.kind = typeHello ∧ packet.frame.payload.length = 4 then
        -- The peer resets the session; it gets its token back.
        let token := leNat packet.frame.payload
        (.quiet,
          { state.markUnavailable with
            down := rest
            up :=
              if sent then state.up ++ [.peerAck token] else state.up })
      else (.quiet, { state with down := rest })

/-- A wait runs out. -/
def timeout (state : Session) : Report × Session :=
  match state.phase with
  | .handshake .. | .awaiting .. => (.quiet, state.markUnavailable)
  | .idle | .served => (.quiet, state)

/-- The peer takes the next frame and may answer it. -/
def peerTakes (state : Session) (answer : Option Payload) : Report × Session :=
  match state.up with
  | [] => (.quiet, state)
  | packet :: rest =>
    (.quiet, { state with up := rest, down := state.down ++ (packet.answered answer).toList })

end Session

/-! ## Everything that can happen -/

inductive Event where
  /-- An operation starts: it makes sure of a session and sends. -/
  | begin (work : Work) (present sent : Bool)
  /-- A session is asked for without an operation. -/
  | reset (present sent : Bool)
  /-- An operation goes on after a reply, without a look at the session. -/
  | next (cmd : Command) (payload : Payload) (sent : Bool)
  | finish
  | deliver (sent : Bool)
  | timeout
  | peerTakes (answer : Option Payload)
  | peerResets (token : Nat)
  | loseUp (index : Nat)
  | loseDown (index : Nat)

def sessionMachine : Machine Session Event Report
  | state, .begin work present sent =>
    if state.phase = .idle then
      if state.ready then state.startWork sent work
      else state.init present sent work
    else (.quiet, state)
  | state, .reset present sent =>
    if state.phase = .idle then state.init present sent .probe
    else (.quiet, state)
  | state, .next cmd payload sent =>
    if state.phase = .served then state.startWork sent (.request cmd payload)
    else (.quiet, state)
  | state, .finish =>
    if state.phase = .served then (.quiet, { state with phase := .idle })
    else (.quiet, state)
  | state, .deliver sent => state.deliver sent
  | state, .timeout => state.timeout
  | state, .peerTakes answer => state.peerTakes answer
  | state, .peerResets token => (.quiet, { state with down := state.down ++ [.peerHello token] })
  | state, .loseUp index => (.quiet, { state with up := state.up.eraseIdx index })
  | state, .loseDown index => (.quiet, { state with down := state.down.eraseIdx index })

end RetroOS.Hostfs
