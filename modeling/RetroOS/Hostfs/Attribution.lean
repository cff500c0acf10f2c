import RetroOS.Hostfs.Session

/-!
# Replies belong to their requests

Both queues together are one line: what the client sent last is at its end,
and what it reads next at its front.  The peer turns packets into replies in
place.  So of a line only the handshakes and the requests on it matter, in
their order (`Session.marks`), and whatever happens outside the client leaves
a sublist of them, of which the client knows what it knew before
(`Session.Knows.outside`).

A request finds no other one on the line, because a handshake was the last
thing sent before it and everything in front of that handshake has been read.
This holds as long as a token is not on the line already when it is used
again.  Tokens have 32 bits, and `reply_misattributed` runs through all of
them while two old acknowledgements are held up.
-/

namespace RetroOS.Hostfs

open Lib Lib.Bytes

/-! ## The line -/

inductive Mark where
  | session (token handshake : Nat)
  | pending (number : Nat)
  deriving DecidableEq

def Packet.mark : Packet → Option Mark
  | .hello token handshake | .ack token handshake => some (.session (token % 2 ^ 32) handshake)
  | .request _ _ number | .reply _ _ number => some (.pending number)
  | _ => none

def Mark.token : Mark → Option Nat
  | .session token _ => some token
  | .pending _ => none

def Mark.number : Mark → Option Nat
  | .session .. => none
  | .pending number => some number

/-- The requests among some marks. -/
def pendings (marks : List Mark) : List Nat := marks.filterMap Mark.number

/-- The handshakes and requests on the line. -/
def Session.marks (state : Session) : List Mark := (state.down ++ state.up).filterMap Packet.mark

/-- Packets that the peer sends. -/
def Packet.FromPeer : Packet → Prop
  | .ack .. | .reply .. | .peerHello _ | .closeReply _ => True
  | _ => False

theorem answered_fromPeer {answer : Option Payload} {packet reply : Packet}
    (found : packet.answered answer = some reply) : reply.FromPeer := by
  cases packet with
  | hello token handshake =>
    obtain rfl := Option.some.inj found
    trivial
  | request cmd payload number =>
    obtain ⟨answer, _, rfl⟩ := Option.map_eq_some_iff.mp found
    trivial
  | close payload =>
    obtain ⟨answer, _, rfl⟩ := Option.map_eq_some_iff.mp found
    trivial
  | ack | reply | peerHello | peerAck | closeReply => cases found

/-- An answer stands for the packet it answers. -/
theorem answered_marks (answer : Option Payload) (packet : Packet) :
    ((packet.answered answer).toList.filterMap Packet.mark).Sublist
      ([packet].filterMap Packet.mark) := by
  cases packet <;> cases answer <;>
    simp [Packet.answered, Packet.mark, List.filterMap_cons]

/-- A frame that acknowledges a token answers a handshake with it. -/
theorem eq_ack_of_acknowledges {packet : Packet} {token : Nat} (fromPeer : packet.FromPeer)
    (acknowledges : Session.acknowledges packet.frame token = true) :
    ∃ sent handshake, packet = .ack sent handshake ∧ sent % 2 ^ 32 = token := by
  obtain ⟨kind, _, value⟩ := of_decide_eq_true acknowledges
  cases packet with
  | ack sent handshake =>
    refine ⟨sent, handshake, rfl, ?_⟩
    rw [← value]
    exact (leNat_leBytes 4 sent).symm
  | reply cmd payload number => exact absurd (Eq.symm kind) (replyKind_ne cmd).2.1
  | peerHello sent =>
    have other : typeHello = typeHelloAck := kind
    exact absurd other (by decide)
  | closeReply payload =>
    have other : replyKind cmdClose = typeHelloAck := kind
    exact absurd other (by decide)
  | hello | request | peerAck | close => cases fromPeer

/-- A frame of the kind of a reply is a reply. -/
theorem eq_reply_of_kind {packet : Packet} {cmd : Command} (fromPeer : packet.FromPeer)
    (kind : packet.frame.kind = replyKind cmd.code) :
    ∃ payload number, packet = .reply cmd payload number := by
  cases packet with
  | reply other payload number =>
    obtain rfl := replyKind_injective kind
    exact ⟨payload, number, rfl⟩
  | ack sent handshake => exact absurd kind (replyKind_ne cmd).2.1
  | peerHello sent => exact absurd kind (replyKind_ne cmd).1
  | closeReply payload => exact absurd kind (replyKind_ne cmd).2.2
  | hello | request | peerAck | close => cases fromPeer

/-! ## What each phase knows of the line -/

/-- Where a token is found, it is of one handshake and no request follows. -/
def Drained (token handshake : Nat) : List Mark → Prop
  | [] => True
  | mark :: rest =>
    (∀ other, mark = .session token other → other = handshake ∧ pendings rest = []) ∧
    Drained token handshake rest

theorem pendings_eq_nil_of_sublist {small large : List Mark}
    (sublist : small.Sublist large) (none : pendings large = []) :
    pendings small = [] :=
  List.sublist_nil.mp (none ▸ sublist.filterMap Mark.number)

theorem Drained.sublist {token handshake : Nat} {small large : List Mark}
    (sublist : small.Sublist large)
    (drained : Drained token handshake large) :
    Drained token handshake small := by
  induction sublist with
  | slnil => trivial
  | cons mark _ induction => exact induction drained.2
  | cons_cons mark rest induction =>
    refine ⟨fun other same => ?_, induction drained.2⟩
    obtain ⟨own, none⟩ := drained.1 other same
    exact ⟨own, pendings_eq_nil_of_sublist rest none⟩

/-- A handshake at the end of a line that does not have its token. -/
theorem Drained.append {token : Nat} {marks : List Mark}
    (unused : ∀ mark ∈ marks, mark.token ≠ some token) (handshake : Nat) :
    Drained token handshake (marks ++ [.session token handshake]) := by
  induction marks with
  | nil =>
    refine ⟨fun other same => ?_, trivial⟩
    obtain ⟨_, rfl⟩ := Mark.session.inj same
    exact ⟨rfl, rfl⟩
  | cons mark rest induction =>
    refine ⟨fun other same => ?_, induction fun later member =>
      unused later (List.mem_cons_of_mem _ member)⟩
    refine absurd ?_ (unused mark List.mem_cons_self)
    rw [same]
    rfl

/-- What the client knows in its phase. -/
def Session.Knows (state : Session) : Prop :=
  match state.phase with
  | .idle => state.ready = true → state.lapsed = false ∧ pendings state.marks = []
  | .handshake token number _ => Drained token number state.marks
  | .awaiting _ number =>
    state.lapsed = false ∧ state.ready = true ∧ (pendings state.marks).Sublist [number]
  | .served => state.lapsed = false ∧ state.ready = true ∧ pendings state.marks = []

structure Session.Sound (state : Session) : Prop where
  fromPeer : ∀ packet ∈ state.down, packet.FromPeer
  knows : state.Knows

/-- What the client knows it also knows of a part of the line. -/
theorem Session.Knows.outside {state after : Session} (knows : state.Knows)
    (phase : after.phase = state.phase) (ready : after.ready = state.ready)
    (lapsed : after.lapsed = state.lapsed)
    (marks : after.marks.Sublist state.marks) : after.Knows := by
  unfold Session.Knows at knows ⊢
  rw [phase, ready, lapsed]
  cases found : state.phase with
  | idle =>
    rw [found] at knows
    exact fun isReady => ⟨(knows isReady).1, pendings_eq_nil_of_sublist marks (knows isReady).2⟩
  | handshake token number work =>
    rw [found] at knows
    exact knows.sublist marks
  | awaiting cmd number =>
    rw [found] at knows
    exact ⟨knows.1, knows.2.1, (marks.filterMap Mark.number).trans knows.2.2⟩
  | served =>
    rw [found] at knows
    exact ⟨knows.1, knows.2.1, pendings_eq_nil_of_sublist marks knows.2.2⟩

/-! ## One step -/

/-- Replies are returned to their own requests, under a session. -/
structure SessionLaw (move : Move Session Event Report) : Prop where
  attributed :
    ∀ number packet, move.answer.returned = some (number, packet) →
      ∃ cmd payload, packet = .reply cmd payload number
  acknowledged : ∀ number, move.answer.sent = some number → move.after.lapsed = false

/-- The next token is on no handshake under way. -/
def Session.TokenUnused (state : Session) : Prop :=
  ∀ mark ∈ state.marks, mark.token ≠ some state.nextSession

instance (state : Session) : Decidable state.TokenUnused :=
  inferInstanceAs (Decidable (∀ mark ∈ _, _))

/-- A session is asked for with a token that is not under way. -/
def SessionOrderly (state : Session) : Event → Prop
  | .begin .. => state.ready = true ∨ state.TokenUnused
  | .reset .. => state.TokenUnused
  | _ => True

instance (state : Session) : (event : Event) → Decidable (SessionOrderly state event)
  | .begin .. => inferInstanceAs (Decidable (_ ∨ _))
  | .reset .. => inferInstanceAs (Decidable state.TokenUnused)
  | .next .. | .finish | .deliver _ | .timeout | .peerTakes _
  | .peerResets _ | .loseUp _ | .loseDown _ => .isTrue trivial

/-- What a step has to show. -/
structure Lawful (result : Report × Session) : Prop where
  sound : result.2.Sound
  attributed :
    ∀ number packet, result.1.returned = some (number, packet) →
      ∃ cmd payload, packet = .reply cmd payload number
  acknowledged : ∀ number, result.1.sent = some number → result.2.lapsed = false

theorem Lawful.quiet {after : Session} (sound : after.Sound) : Lawful (.quiet, after) where
  sound
  attributed _ _ found := by cases found
  acknowledged _ found := by cases found

section Step

variable {state : Session}

theorem markUnavailable_sound (fromPeer : ∀ packet ∈ state.down, packet.FromPeer) :
    state.markUnavailable.Sound :=
  ⟨fromPeer, fun isReady => by cases isReady⟩

/-- Under a session, with no request under way, work can start. -/
theorem startWork_lawful (fromPeer : ∀ packet ∈ state.down, packet.FromPeer)
    (ready : state.ready = true) (lapsed : state.lapsed = false)
    (none : pendings state.marks = []) (sent : Bool) (work : Work) :
    Lawful (state.startWork sent work) := by
  cases work with
  | request cmd payload =>
    unfold Session.startWork
    split_ifs
    · refine ⟨⟨fromPeer, lapsed, ready, ?_⟩, fun _ _ found => ?_, fun _ _ => lapsed⟩
      · change (pendings ((state.down ++ (state.up ++
          [Packet.request cmd payload state.requests])).filterMap Packet.mark)).Sublist _
        rw [← List.append_assoc, List.filterMap_append, pendings, List.filterMap_append]
        change (pendings state.marks ++ [state.requests]).Sublist _
        rw [none, List.nil_append]
      · cases found
    · exact .quiet (markUnavailable_sound fromPeer)
  | close payload =>
    unfold Session.startWork
    split_ifs
    · refine .quiet ⟨fromPeer, fun _ => ⟨lapsed, ?_⟩⟩
      change pendings ((state.down ++ (state.up ++
        [Packet.close payload])).filterMap Packet.mark) = []
      have neutral : [Packet.close payload].filterMap Packet.mark = [] := rfl
      rw [← List.append_assoc, List.filterMap_append, neutral, List.append_nil]
      exact none
    · exact .quiet (markUnavailable_sound fromPeer)
  | oversized => exact .quiet ⟨fromPeer, fun _ => ⟨lapsed, none⟩⟩
  | probe => exact .quiet ⟨fromPeer, fun _ => ⟨lapsed, none⟩⟩

theorem init_lawful (fromPeer : ∀ packet ∈ state.down, packet.FromPeer)
    (unused : state.TokenUnused) (present sent : Bool) (work : Work) :
    Lawful (state.init present sent work) := by
  unfold Session.init
  dsimp only
  split_ifs
  · refine .quiet ⟨fromPeer, ?_⟩
    change Drained state.nextSession state.handshakes ((state.down ++ (state.up ++
        [Packet.hello state.nextSession state.handshakes])).filterMap Packet.mark)
    rw [← List.append_assoc, List.filterMap_append]
    have small : state.nextSession % 2 ^ 32 = state.nextSession := Nat.mod_mod _ _
    simp only [List.filterMap_cons, Packet.mark, List.filterMap_nil, small]
    exact Drained.append unused state.handshakes
  · exact .quiet ⟨fromPeer, fun isReady => by cases isReady⟩
  · exact .quiet (markUnavailable_sound fromPeer)

/-- A frame is read from the front of the line. -/
theorem marks_read {packet : Packet} {rest : List Packet} (down : state.down = packet :: rest) :
    state.marks = packet.mark.toList ++ (rest ++ state.up).filterMap Packet.mark := by
  rw [Session.marks, down, List.cons_append]
  cases found : packet.mark <;> simp [found]

theorem deliver_lawful (sound : state.Sound) (sent : Bool) : Lawful (state.deliver sent) := by
  unfold Session.deliver
  cases down : state.down with
  | nil => exact .quiet sound
  | cons packet rest =>
    have fromPeer : ∀ other ∈ rest, other.FromPeer := fun other member =>
      sound.fromPeer other (down ▸ List.mem_cons_of_mem _ member)
    have mine : packet.FromPeer := sound.fromPeer packet (down ▸ List.mem_cons_self)
    have marks := marks_read down
    have fewer : Session.marks { state with down := rest } |>.Sublist
        state.marks := by
      rw [marks]
      exact List.sublist_append_right _ _
    have knows := sound.knows
    cases phase : state.phase with
    | idle => exact .quiet sound
    | served => exact .quiet sound
    | handshake token number work =>
      dsimp only
      by_cases acknowledges : Session.acknowledges packet.frame token = true
      · rw [if_pos acknowledges]
        obtain ⟨told, handshake, rfl, same⟩ := eq_ack_of_acknowledges mine acknowledges
        unfold Session.Knows at knows
        rw [phase, marks] at knows
        obtain ⟨own, none⟩ := knows.1 handshake (by rw [← same])
        refine startWork_lawful fromPeer rfl ?_ ?_ sent work
        · simp [Packet.handshake, own]
        · exact none
      · rw [if_neg acknowledges]
        exact .quiet ⟨fromPeer, knows.outside phase.symm rfl rfl fewer⟩
    | awaiting cmd number =>
      dsimp only
      by_cases kind : packet.frame.kind = replyKind cmd.code
      · rw [if_pos kind]
        obtain ⟨payload, other, rfl⟩ := eq_reply_of_kind mine kind
        unfold Session.Knows at knows
        rw [phase, marks] at knows
        obtain ⟨lapsed, ready, pending⟩ := knows
        change (other :: pendings ((rest ++ state.up).filterMap Packet.mark)).Sublist [number]
            at pending
        have whole := pending.length_le
        have empty : pendings ((rest ++ state.up).filterMap Packet.mark) = [] := by
          rw [← List.length_eq_zero_iff]
          simpa using whole
        rw [empty] at pending
        have own : other = number := by simpa using pending
        refine ⟨⟨fromPeer, lapsed, ready, empty⟩, ?_, fun _ found => by cases found⟩
        rintro _ _ ⟨⟩
        exact ⟨cmd, payload, by rw [own]⟩
      · rw [if_neg kind]
        by_cases resets : packet.frame.kind = typeHello ∧ packet.frame.payload.length = 4
        · rw [if_pos resets]
          exact .quiet ⟨fromPeer, fun isReady => by cases isReady⟩
        · rw [if_neg resets]
          exact .quiet ⟨fromPeer, knows.outside phase.symm rfl rfl fewer⟩

/-- Whatever happens outside the client leaves a part of the line. -/
theorem outside_lawful (sound : state.Sound) {after : Session}
    (phase : after.phase = state.phase) (ready : after.ready = state.ready)
    (lapsed : after.lapsed = state.lapsed)
    (fromPeer : ∀ packet ∈ after.down, packet.FromPeer)
    (marks : after.marks.Sublist state.marks) : Lawful (.quiet, after) :=
  .quiet ⟨fromPeer, sound.knows.outside phase ready lapsed marks⟩

theorem peerTakes_lawful (sound : state.Sound) (answer : Option Payload) :
    Lawful (state.peerTakes answer) := by
  unfold Session.peerTakes
  cases up : state.up with
  | nil => exact .quiet sound
  | cons packet rest =>
    refine outside_lawful sound rfl rfl rfl ?_ ?_
    · intro other member
      rcases List.mem_append.mp member with earlier | answered
      · exact sound.fromPeer other earlier
      · exact answered_fromPeer (Option.mem_toList.mp answered)
    · -- The answer takes the place of the packet.
      unfold Session.marks
      rw [up, List.append_cons]
      simp only [List.filterMap_append]
      exact ((List.Sublist.refl _).append (answered_marks answer packet)).append (.refl _)

theorem sessionMachine_lawful (sound : state.Sound) (event : Event)
    (orderly : SessionOrderly state event) :
    Lawful (sessionMachine state event) := by
  cases event with
  | begin work present sent =>
    simp only [sessionMachine]
    split_ifs with idle ready
    · have knows := sound.knows
      unfold Session.Knows at knows
      rw [idle] at knows
      exact startWork_lawful sound.fromPeer ready (knows ready).1 (knows ready).2 sent work
    · exact init_lawful sound.fromPeer (orderly.resolve_left ready) present sent work
    · exact .quiet sound
  | reset present sent =>
    simp only [sessionMachine]
    split_ifs
    · exact init_lawful sound.fromPeer orderly present sent .probe
    · exact .quiet sound
  | next cmd payload sent =>
    simp only [sessionMachine]
    split_ifs with served
    · have knows := sound.knows
      unfold Session.Knows at knows
      rw [served] at knows
      exact startWork_lawful sound.fromPeer knows.2.1 knows.1 knows.2.2 sent _
    · exact .quiet sound
  | finish =>
    simp only [sessionMachine]
    split_ifs with served
    · have knows := sound.knows
      unfold Session.Knows at knows
      rw [served] at knows
      exact .quiet ⟨sound.fromPeer, fun _ => ⟨knows.1, knows.2.2⟩⟩
    · exact .quiet sound
  | deliver sent => exact deliver_lawful sound sent
  | timeout =>
    simp only [sessionMachine, Session.timeout]
    cases state.phase with
    | handshake => exact .quiet (markUnavailable_sound sound.fromPeer)
    | awaiting => exact .quiet (markUnavailable_sound sound.fromPeer)
    | idle => exact .quiet sound
    | served => exact .quiet sound
  | peerTakes answer => exact peerTakes_lawful sound answer
  | peerResets token =>
    refine outside_lawful sound rfl rfl rfl ?_ ?_
    · intro other member
      rcases List.mem_append.mp member with earlier | fresh
      · exact sound.fromPeer other earlier
      · rw [List.mem_singleton.mp fresh]
        trivial
    · have neutral : [Packet.peerHello token].filterMap Packet.mark = [] := rfl
      unfold Session.marks
      rw [List.filterMap_append, List.filterMap_append, neutral,
        List.append_nil, ← List.filterMap_append]
  | loseUp index =>
    refine outside_lawful sound rfl rfl rfl sound.fromPeer ?_
    exact (List.Sublist.append (.refl _) (List.eraseIdx_sublist _ _)).filterMap _
  | loseDown index =>
    refine outside_lawful sound rfl rfl rfl ?_ ?_
    · exact fun other member => sound.fromPeer other (List.mem_of_mem_eraseIdx member)
    · exact (List.Sublist.append (List.eraseIdx_sublist _ _) (.refl _)).filterMap _

end Step

/-! ## Runs -/

theorem boot_sound : Session.boot.Sound :=
  ⟨fun _ member => absurd member List.not_mem_nil, fun isReady => by cases isReady⟩

/-- In every run without a token used twice at once, replies are attributed. -/
theorem replies_attributed (events : List Event) (orderly :
      sessionMachine.Meets SessionOrderly Session.boot events) :
    ∀ move ∈ sessionMachine.run Session.boot events, SessionLaw move :=
  Machine.forall_run (fun _ event sound meets =>
      (sessionMachine_lawful sound event meets).sound)
    (fun _ event sound meets =>
      have lawful := sessionMachine_lawful sound event meets
      ⟨lawful.attributed, lawful.acknowledged⟩)
    boot_sound orderly

/-- A read with nothing in it. -/
def smallRead : Work := .request .read ⟨[], by decide⟩

/-- A reply with one byte. -/
def byteReply (byte : UInt8) : Option Payload := some ⟨[byte], by simp [maxFramePayload, maxBody]⟩

/-- A read is given up, and its reply arrives in the next session. -/
def lateReply : List Event :=
  [.begin smallRead true true, .peerTakes none, .deliver true, .timeout,
    .begin smallRead true true, .peerTakes (byteReply 1), .peerTakes none,
    .deliver true, .deliver true, .peerTakes (byteReply 2), .deliver true]

theorem late_reply_passed_over :
    ((sessionMachine.run Session.boot lateReply).map Move.answer).filterMap Report.returned =
        [(1, .reply .read ⟨[2], by decide⟩ 1)] ∧
      ∀ move ∈ sessionMachine.run Session.boot lateReply, SessionLaw move :=
  ⟨by decide +kernel, replies_attributed lateReply (by decide +kernel)⟩

/-! ## Tokens used up -/

/-- A handshake is given up and its frame is lost behind two others. -/
def wornToken : List Event := [.begin smallRead true true, .timeout, .loseUp 2]

/-- The client with two handshakes held up on their way to the peer. -/
def heldUp (session handshakes : Nat) : Session :=
  { Session.boot with session, up := [.hello 0x13579be0 0, .hello 0x13579be1 1], handshakes }

theorem final_wornToken (session handshakes : Nat) :
    sessionMachine.final (heldUp session handshakes) wornToken =
      heldUp ((session + 1) % 2 ^ 32) (handshakes + 1) :=
  rfl

/-- Each round uses up a token and leaves the line as it was. -/
theorem final_wornTokens (rounds session handshakes : Nat) (small : session < 2 ^ 32) :
    sessionMachine.final (heldUp session handshakes) (List.replicate rounds wornToken).flatten =
      heldUp ((session + rounds) % 2 ^ 32) (handshakes + rounds) := by
  induction rounds generalizing session handshakes with
  | zero =>
    rw [Nat.add_zero, Nat.mod_eq_of_lt small]
    rfl
  | succ rounds induction =>
    rw [List.replicate_succ, List.flatten_cons, Machine.final_append,
      final_wornToken, induction _ _ (Nat.mod_lt _ (by decide)),
      Nat.mod_add_mod]
    congr 1
    · rw [Nat.add_assoc, Nat.add_comm 1]
    · omega

/-- Two handshakes are held up while so many tokens are used up. -/
def wornTokens (rounds : Nat) : List Event :=
  [.begin smallRead true true, .timeout, .begin smallRead true true, .timeout] ++
    (List.replicate rounds wornToken).flatten

/-- The old acknowledgements open two sessions, and the first read is late. -/
def staleSessions : List Event :=
  [.begin smallRead true true, .peerTakes none, .deliver true, .timeout,
    .begin smallRead true true, .peerTakes none, .deliver true,
    .peerTakes none, .peerTakes (byteReply 1), .deliver true]

/-- With all tokens used up, a reply is returned to another request. -/
theorem reply_misattributed :
    ¬ ∀ move ∈ sessionMachine.run Session.boot
        ((wornTokens (2 ^ 32 - 2) ++ staleSessions) ++ [.deliver true]),
      SessionLaw move := by
  intro law
  have last := law _ (Machine.last_mem_run sessionMachine Session.boot
    (wornTokens (2 ^ 32 - 2) ++ staleSessions) (.deliver true))
  have reached :
      sessionMachine.final Session.boot (wornTokens (2 ^ 32 - 2) ++ staleSessions) =
        sessionMachine.final (heldUp 0x13579bdf (2 ^ 32)) staleSessions := by
    rw [Machine.final_append, wornTokens, Machine.final_append]
    refine congrArg (sessionMachine.final · staleSessions) ?_
    exact final_wornTokens (2 ^ 32 - 2) 0x13579be1 2 (by decide)
  rw [reached] at last
  obtain ⟨cmd, payload, own⟩ := last.attributed 1
    (.reply .read ⟨[1], by decide⟩ 0) (by decide +kernel)
  cases own

end RetroOS.Hostfs
