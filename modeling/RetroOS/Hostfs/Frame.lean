import RetroOS.Lib.Bytes

/-!
# Frames on a serial line

A frame is a kind, a payload and a checksum between two flags; flag and escape
bytes inside it are escaped.  The receiver takes every flag for the end of one
frame and, unless that gave a valid frame, for the start of the next.

What the receiver knows at a point of the line is determined by the bytes
since the last flag (`Decoder.Read`).  So bytes that hold no frame leave it in
one of two states: the next flag completes nothing, and all frames after it
arrive; or these bytes end in a frame that lost its closing flag, the opening
flag of the next frame completes it, and that next frame is lost.  There is no
third case: `frames_resync_iff`.

A line that has run dry is the end of the list.  Timeouts in the middle of a
frame belong to the session above.
-/

namespace RetroOS.Hostfs

open Lib Lib.Bytes

def flag : UInt8 := 0x7e

def esc : UInt8 := 0x7d

def escFlag : UInt8 := 0x5e

def escEsc : UInt8 := 0x5d

/-- Kind, payload and checksum. -/
def maxBody : Nat := 4096

def maxFramePayload : Nat := maxBody - 3

/-! ## Checksum -/

def crc16Bit (crc : UInt16) : UInt16 :=
  if crc &&& 0x8000 ≠ 0 then (crc <<< 1) ^^^ 0x1021 else crc <<< 1

def crc16Byte (crc : UInt16) (byte : UInt8) : UInt16 :=
  Nat.repeat crc16Bit 8 (crc ^^^ (byte.toUInt16 <<< 8))

def crc16Update (crc : UInt16) (data : Bytes) : UInt16 := data.foldl crc16Byte crc

def crc16 (data : Bytes) : UInt16 := crc16Update 0xffff data

def crc16Parts (first second : Bytes) : UInt16 := crc16Update (crc16Update 0xffff first) second

theorem crc16Parts_eq (first second : Bytes) : crc16Parts first second = crc16 (first ++ second) :=
  List.foldl_append.symm

/-! ## Sending -/

/-- A frame within the size limit. -/
@[ext]
structure Frame where
  kind : UInt8
  payload : Bytes
  fits : payload.length ≤ maxFramePayload
  deriving DecidableEq

/-- The bytes between the flags, before they are escaped. -/
def bodyOf (kind : UInt8) (payload : Bytes) : Bytes :=
  kind :: payload ++ leBytes 2 (crc16Parts [kind] payload).toNat

def escape (byte : UInt8) : Bytes :=
  if byte = flag then [esc, escFlag]
  else if byte = esc then [esc, escEsc]
  else [byte]

section Sink

variable {σ : Type} (sendRaw : σ → UInt8 → Bool × σ)

/-- Send bytes until the sink refuses one. -/
def sendAll : σ → Bytes → Bool × σ
  | state, [] => (true, state)
  | state, byte :: rest =>
    if (sendRaw state byte).1 then sendAll (sendRaw state byte).2 rest
    else (false, (sendRaw state byte).2)

def sendFrame (state : σ) (kind : UInt8) (payload : Bytes) : Bool × σ :=
  if maxFramePayload < payload.length then (false, state)
  else sendAll sendRaw state (flag :: (bodyOf kind payload).flatMap escape ++ [flag])

end Sink

/-- A sink that keeps what it is given. -/
def collect (sent : Bytes) (byte : UInt8) : Bool × Bytes := (true, sent ++ [byte])

namespace Frame

def body (frame : Frame) : Bytes := bodyOf frame.kind frame.payload

/-- A frame without its closing flag. -/
def truncated (frame : Frame) : Bytes := flag :: frame.body.flatMap escape

/-- The bytes of a frame. -/
def enc (frame : Frame) : Bytes := frame.truncated ++ [flag]

end Frame

theorem sendAll_collect (sent bytes : Bytes) :
    sendAll collect sent bytes = (true, sent ++ bytes) := by
  induction bytes generalizing sent with
  | nil => simp [sendAll]
  | cons byte rest induction => simp [sendAll, collect, induction]

/-! ## Receiving -/

/-- What the receiver has of a frame. -/
structure Decoder where
  inFrame : Bool
  escaped : Bool
  body : Bytes
  fits : body.length ≤ maxBody

namespace Decoder

/-- The receiver at the start of a call. -/
def start : Decoder where
  inFrame := false
  escaped := false
  body := []
  fits := Nat.zero_le _

/-- The receiver after a flag that completed nothing. -/
def opened : Decoder where
  inFrame := true
  escaped := false
  body := []
  fits := Nat.zero_le _

/-- Enough bytes, the last two of which are the checksum of the others. -/
def Valid (decoder : Decoder) : Prop :=
  decoder.inFrame = true ∧ decoder.escaped = false ∧
    3 ≤ decoder.body.length ∧
    (crc16 (decoder.body.take (decoder.body.length - 2))).toNat =
      leNat (decoder.body.drop (decoder.body.length - 2))

instance (decoder : Decoder) : Decidable decoder.Valid := inferInstanceAs (Decidable (_ ∧ _))

/-- The frame that a flag would complete. -/
def complete (decoder : Decoder) : Option Frame :=
  if decoder.Valid then
    some
      { kind := decoder.body.getD 0 0
        payload := (decoder.body.drop 1).take (decoder.body.length - 3)
        fits := by
          have fits := decoder.fits
          rw [List.length_take, List.length_drop]
          unfold maxFramePayload
          omega }
  else none

/-- The receiver with one more byte of the body. -/
def push (decoder : Decoder) (byte : UInt8) : Decoder :=
  if room : decoder.body.length < maxBody then
    { inFrame := decoder.inFrame
      escaped := false
      body := decoder.body ++ [byte]
      fits := by
        rw [List.length_append]
        exact room }
  else start

/-- The receiver after a byte that is no flag. -/
def take (decoder : Decoder) (byte : UInt8) : Decoder :=
  if decoder.inFrame = false then decoder
  else if decoder.escaped then
    if byte = escFlag then decoder.push flag
    else if byte = escEsc then decoder.push esc
    else start
  else if byte = esc then { decoder with escaped := true }
  else decoder.push byte

end Decoder

/-- Read until a frame is complete or the line runs dry. -/
def listen : Decoder → Bytes → Decoder ⊕ Frame × Bytes
  | decoder, [] => .inl decoder
  | decoder, byte :: rest =>
    if byte = flag then
      match decoder.complete with
      | some frame => .inr (frame, rest)
      | none => listen .opened rest
    else listen (decoder.take byte) rest

/-- One call: the frame, and what is left of the line. -/
def recvFrame (line : Bytes) : Option (Frame × Bytes) := (listen .start line).getRight?

variable {decoder : Decoder}

variable {frame : Frame}

variable {line rest : Bytes}

theorem listen_shorter (found : listen decoder line = .inr (frame, rest)) :
    rest.length < line.length := by
  induction line generalizing decoder with
  | nil => cases found
  | cons byte tail induction =>
    unfold listen at found
    split_ifs at found
    · cases complete : decoder.complete with
      | some stale =>
        rw [complete] at found
        cases found
        exact Nat.lt_succ_self _
      | none =>
        rw [complete] at found
        exact (induction found).trans (Nat.lt_succ_self _)
    · exact (induction found).trans (Nat.lt_succ_self _)

/-- Call after call, from a receiver in some state. -/
def recvAllFrom (decoder : Decoder) (line : Bytes) : List Frame :=
  match _found : listen decoder line with
  | .inl _ => []
  | .inr (frame, rest) => frame :: recvAllFrom .start rest
termination_by line.length
decreasing_by exact listen_shorter _found

/-- All frames that repeated calls receive. -/
def recvAll (line : Bytes) : List Frame := recvAllFrom .start line

variable {decoder after : Decoder}

theorem recvAllFrom_dry (dry : listen decoder line = .inl after) :
    recvAllFrom decoder line = [] := by
  rw [recvAllFrom]
  split
  case h_1 => rfl
  case h_2 frame rest found => rw [dry] at found; cases found

theorem recvAllFrom_frame (received : listen decoder line = .inr (frame, rest)) :
    recvAllFrom decoder line = frame :: recvAll rest := by
  rw [recvAllFrom]
  split
  case h_1 after dry => rw [received] at dry; cases dry
  case h_2 other left found =>
    rw [received] at found
    obtain ⟨rfl, rfl⟩ := Prod.mk.inj (Sum.inr.inj found)
    rfl

/-! ## One frame -/

theorem listen_flag (none : decoder.complete = none) (rest : Bytes) :
    listen decoder (flag :: rest) = listen .opened rest := by
  rw [listen, if_pos rfl, none]

theorem listen_flag_complete (complete : decoder.complete = some frame) (rest : Bytes) :
    listen decoder (flag :: rest) = .inr (frame, rest) := by
  rw [listen, if_pos rfl, complete]

variable {byte : UInt8}

theorem listen_byte (plain : byte ≠ flag) (decoder : Decoder) (rest : Bytes) :
    listen decoder (byte :: rest) = listen (decoder.take byte) rest := by
  rw [listen, if_neg plain]

theorem listen_append {first : Bytes} (dry : listen decoder first = .inl after) (second : Bytes) :
    listen decoder (first ++ second) = listen after second := by
  induction first generalizing decoder with
  | nil =>
    obtain rfl := Sum.inl.inj dry
    rfl
  | cons byte rest induction =>
    rw [List.cons_append]
    rcases eq_or_ne byte flag with rfl | plain
    · cases complete : decoder.complete with
      | some frame =>
        rw [listen_flag_complete complete] at dry
        cases dry
      | none =>
        rw [listen_flag complete] at dry ⊢
        exact induction dry
    · rw [listen_byte plain] at dry ⊢
      exact induction dry

theorem listen_append_frame {first : Bytes} (received : listen decoder first = .inr (frame, rest))
    (second : Bytes) :
    listen decoder (first ++ second) = .inr (frame, rest ++ second) := by
  induction first generalizing decoder with
  | nil => cases received
  | cons byte tail induction =>
    rw [List.cons_append]
    rcases eq_or_ne byte flag with rfl | plain
    · cases complete : decoder.complete with
      | some stale =>
        rw [listen_flag_complete complete] at received ⊢
        obtain ⟨rfl, rfl⟩ := Prod.mk.inj (Sum.inr.inj received)
        rfl
      | none =>
        rw [listen_flag complete] at received ⊢
        exact induction received
    · rw [listen_byte plain] at received ⊢
      exact induction received

/-- The receiver inside a frame, after a whole byte of its body. -/
def Decoder.reading (body : Bytes) (fits : body.length ≤ maxBody) : Decoder where
  inFrame := true
  escaped := false
  body
  fits

/-- An escaped byte adds the byte. -/
theorem listen_escape {body : Bytes} (byte : UInt8) (room : body.length < maxBody) :
    listen (.reading body room.le) (escape byte) =
      .inl (.reading (body ++ [byte]) (by rw [List.length_append]; exact room)) := by
  unfold escape
  split_ifs with isFlag isEsc
  · subst isFlag
    simp [listen, Decoder.take, Decoder.reading, Decoder.push, room, esc, flag, escFlag]
  · subst isEsc
    simp [listen, Decoder.take, Decoder.reading, Decoder.push, room, esc, flag, escFlag, escEsc]
  · simp [listen, Decoder.take, Decoder.reading, Decoder.push, room, isFlag, isEsc]

/-- Escaped bytes add the bytes. -/
theorem listen_escaped (body bytes : Bytes) (room : (body ++ bytes).length ≤ maxBody) :
    listen (.reading body ((by simp : body.length ≤ _).trans room)) (bytes.flatMap escape) =
      .inl (.reading (body ++ bytes) room) := by
  induction bytes generalizing body with
  | nil => simp [listen]
  | cons byte rest induction =>
    have space : body.length < maxBody := by
      rw [List.length_append, List.length_cons] at room
      omega
    have longer : ((body ++ [byte]) ++ rest).length ≤ maxBody := by simpa using room
    rw [List.flatMap_cons, listen_append (listen_escape byte space)]
    have next := induction (body ++ [byte]) longer
    simpa using next

namespace Frame

theorem body_eq (frame : Frame) :
    frame.body =
      (frame.kind :: frame.payload) ++ leBytes 2 (crc16 (frame.kind :: frame.payload)).toNat := by
  rw [body, bodyOf, crc16Parts_eq]
  rfl

@[simp]
theorem length_body (frame : Frame) : frame.body.length = frame.payload.length + 3 := by
  simp [body_eq]

theorem body_fits (frame : Frame) : frame.body.length ≤ maxBody := by
  have fits := frame.fits
  unfold maxFramePayload maxBody at fits
  unfold maxBody
  rw [length_body]
  omega

end Frame

/-- A flag completes a frame just when its body has been read. -/
theorem complete_eq_some :
    decoder.complete = some frame ↔
      decoder.inFrame = true ∧ decoder.escaped = false ∧ decoder.body = frame.body := by
  constructor
  · intro complete
    unfold Decoder.complete at complete
    split_ifs at complete with valid
    obtain rfl := Option.some.inj complete
    obtain ⟨inFrame, plain, long, check⟩ := valid
    refine ⟨inFrame, plain, ?_⟩
    -- The first bytes are kind and payload, the last two their checksum.
    have front : decoder.body.take (decoder.body.length - 2) =
        decoder.body.getD 0 0 :: (decoder.body.drop 1).take (decoder.body.length - 3) := by
      cases known : decoder.body with
      | nil => simp [known] at long
      | cons kind rest =>
        rw [known, List.length_cons] at long
        rw [show (kind :: rest).length - 2 = (rest.length - 2) + 1 by
          rw [List.length_cons]; omega]
        simp
    have two : (decoder.body.drop (decoder.body.length - 2)).length = 2 := by
      rw [List.length_drop]
      omega
    have back := leBytes_leNat (decoder.body.drop (decoder.body.length - 2))
    rw [two, ← check, front] at back
    rw [Frame.body_eq, back, ← front, List.take_append_drop]
  · rintro ⟨inFrame, plain, body⟩
    have length : decoder.body.length = frame.payload.length + 3 := by rw [body, Frame.length_body]
    have front : decoder.body.take (decoder.body.length - 2) = frame.kind :: frame.payload := by
      rw [length, body, Frame.body_eq]
      exact List.take_left' rfl
    have back : decoder.body.drop (decoder.body.length - 2) =
        leBytes 2 (crc16 (frame.kind :: frame.payload)).toNat := by
      rw [length, body, Frame.body_eq]
      exact List.drop_left' rfl
    have valid : decoder.Valid := by
      refine ⟨inFrame, plain, by omega, ?_⟩
      rw [front, back, leNat_leBytes]
      exact (Nat.mod_eq_of_lt (UInt16.toNat_lt _)).symm
    rw [Decoder.complete, if_pos valid]
    refine congrArg some (Frame.ext ?_ ?_)
    · change decoder.body.getD 0 0 = _
      rw [body, Frame.body_eq]
      rfl
    · change (decoder.body.drop 1).take (decoder.body.length - 3) = _
      rw [length, body, Frame.body_eq]
      exact List.take_left' rfl

theorem complete_start : Decoder.start.complete = none := rfl

theorem complete_opened : Decoder.opened.complete = none := rfl

/-- The bytes of a frame up to its closing flag. -/
theorem listen_truncated (none : decoder.complete = none) (frame : Frame) :
    listen decoder frame.truncated = .inl (.reading frame.body frame.body_fits) := by
  rw [Frame.truncated, listen_flag none]
  exact listen_escaped [] frame.body frame.body_fits

/-- A frame arrives where the flag before it completes nothing. -/
theorem listen_enc (none : decoder.complete = none) (frame : Frame) (rest : Bytes) :
    listen decoder (frame.enc ++ rest) = .inr (frame, rest) := by
  rw [Frame.enc, List.append_assoc, listen_append (listen_truncated none frame),
    List.singleton_append]
  exact listen_flag_complete (complete_eq_some.mpr ⟨rfl, rfl, rfl⟩) rest

/-- Frames arrive in order. -/
theorem recvAllFrom_encs (none : decoder.complete = none) (frames : List Frame) :
    recvAllFrom decoder (frames.flatMap Frame.enc) = frames := by
  induction frames generalizing decoder with
  | nil => exact recvAllFrom_dry rfl
  | cons frame rest induction =>
    rw [List.flatMap_cons, recvAllFrom_frame (listen_enc none frame _)]
    exact congrArg _ (induction complete_start)

/-- The line after frames are sent. -/
def sendFrames (requests : List (UInt8 × Bytes)) : Bytes :=
  requests.foldl (fun line request => (sendFrame collect line request.1 request.2).2) []

theorem flag_not_mem_escape (byte : UInt8) : flag ∉ escape byte := by
  unfold escape
  split_ifs with isFlag isEsc
  · decide
  · decide
  · simpa [eq_comm] using isFlag

/-- Outside a frame everything but a flag is passed over. -/
theorem listen_outside {bytes : Bytes} (plain : flag ∉ bytes) :
    listen .start bytes = .inl .start := by
  induction bytes with
  | nil => rfl
  | cons byte rest induction =>
    obtain ⟨other, later⟩ := not_or.mp (mt List.mem_cons.mpr plain)
    rw [listen_byte (Ne.symm other)]
    exact induction later

/-- A frame whose opening flag is gone leaves the receiver between frames. -/
theorem listen_headless (frame : Frame) :
    listen .start (frame.body.flatMap escape ++ [flag]) = .inl .opened := by
  have plain : flag ∉ frame.body.flatMap escape := by
    intro member
    obtain ⟨byte, _, inside⟩ := List.mem_flatMap.mp member
    exact flag_not_mem_escape byte inside
  rw [listen_append (listen_outside plain), listen_flag complete_start]
  rfl

/-- A stale frame takes the place of the one whose flag completed it. -/
theorem recvAllFrom_stale {stale : Frame} (complete : decoder.complete = some stale) (first : Frame)
    (rest : List Frame) :
    recvAllFrom decoder ((first :: rest).flatMap Frame.enc) = stale :: rest := by
  have line : (first :: rest).flatMap Frame.enc =
      flag :: ((first.body.flatMap escape ++ [flag]) ++ rest.flatMap Frame.enc) := by
    simp [Frame.enc, Frame.truncated]
  rw [line, recvAllFrom_frame (listen_flag_complete complete _), recvAll]
  refine congrArg _ ?_
  -- The rest of the first frame has no opening flag any more.
  have headless := listen_append (listen_headless first) (rest.flatMap Frame.enc)
  have after := recvAllFrom_encs complete_opened rest
  cases found : listen .opened (rest.flatMap Frame.enc) with
  | inl dry =>
    rw [found] at headless
    rw [recvAllFrom_dry headless, ← after, recvAllFrom_dry found]
  | inr result =>
    obtain ⟨frame, left⟩ := result
    rw [found] at headless
    rw [recvAllFrom_frame headless, ← recvAllFrom_frame found, after]

/-- What the receiver has is what came since the last flag. -/
def Decoder.Read (decoder : Decoder) (line : Bytes) : Prop :=
  decoder.inFrame = true → ∃ before, line = before ++ flag :: decoder.body.flatMap escape ++
      if decoder.escaped then [esc] else []

theorem Decoder.Read.push {raw : Bytes} (read : decoder.Read line)
    (escaped : (if decoder.escaped then [esc] else []) ++ raw = escape byte) :
    (decoder.push byte).Read (line ++ raw) := by
  unfold Decoder.push
  split_ifs with room
  · intro inFrame
    obtain ⟨before, rfl⟩ := read inFrame
    refine ⟨before, ?_⟩
    simp [← escaped]
  · intro inFrame
    cases inFrame

theorem Decoder.Read.take (read : decoder.Read line) (plain : byte ≠ flag) :
    (decoder.take byte).Read (line ++ [byte]) := by
  unfold Decoder.take
  split_ifs with outside escaped isFlag isEsc isEscape
  · intro inFrame
    rw [outside] at inFrame
    cases inFrame
  · subst isFlag
    exact read.push (by rw [if_pos escaped]; decide)
  · subst isEsc
    exact read.push (by rw [if_pos escaped]; decide)
  · intro inFrame
    cases inFrame
  · subst isEscape
    intro inFrame
    obtain ⟨before, rfl⟩ := read inFrame
    exact ⟨before, by simp [escaped]⟩
  · exact read.push (by simp [escape, escaped, plain, isEscape])

/-- The receiver has read the line. -/
theorem listen_read {more : Bytes} (read : decoder.Read line)
    (dry : listen decoder more = .inl after) :
    after.Read (line ++ more) := by
  induction more generalizing decoder line with
  | nil =>
    obtain rfl := Sum.inl.inj dry
    rwa [List.append_nil]
  | cons byte rest induction =>
    rw [List.append_cons]
    rcases eq_or_ne byte flag with rfl | plain
    · cases complete : decoder.complete with
      | some frame =>
        rw [listen_flag_complete complete] at dry
        cases dry
      | none =>
        rw [listen_flag complete] at dry
        exact induction (fun _ => ⟨line, by simp [Decoder.opened]⟩) dry
    · rw [listen_byte plain] at dry
      exact induction (read.take plain) dry

/-- The next flag completes a frame that lost its own. -/
theorem complete_iff_truncated {noise : Bytes} {after : Decoder}
    (dry : listen .start noise = .inl after) {stale : Frame} :
    after.complete = some stale ↔ ∃ before, noise = before ++ stale.truncated := by
  constructor
  · intro complete
    obtain ⟨inFrame, plain, body⟩ := complete_eq_some.mp complete
    have read : after.Read noise := by
      have empty : Decoder.start.Read [] := fun inFrame => by cases inFrame
      simpa using listen_read empty dry
    obtain ⟨before, known⟩ := read inFrame
    refine ⟨before, ?_⟩
    rw [known, body, plain]
    simp [Frame.truncated]
  · rintro ⟨before, rfl⟩
    cases found : listen .start before with
    | inl middle =>
      rw [listen_append found] at dry
      cases complete : middle.complete with
      | some frame =>
        rw [Frame.truncated, listen_flag_complete complete] at dry
        cases dry
      | none =>
        rw [listen_truncated complete] at dry
        obtain rfl := Sum.inl.inj dry
        exact complete_eq_some.mpr ⟨rfl, rfl, rfl⟩
    | inr result =>
      rw [listen_append_frame found] at dry
      cases dry

/-- Noise that holds no frame is over with the first flag, or takes a frame. -/
theorem recvAll_noise {noise : Bytes} {after : Decoder}
    (dry : listen .start noise = .inl after) (line : Bytes) :
    recvAll (noise ++ line) = recvAllFrom after line := by
  have same := listen_append dry line
  cases found : listen after line with
  | inl rest =>
    rw [found] at same
    rw [recvAll, recvAllFrom_dry same, recvAllFrom_dry found]
  | inr result =>
    obtain ⟨frame, rest⟩ := result
    rw [found] at same
    rw [recvAll, recvAllFrom_frame same, recvAllFrom_frame found]

/--
After noise that holds no frame, exactly the frames sent are received, in
order, unless the noise ends in a frame that lost its closing flag and is not
the first of them.
-/
theorem frames_resync_iff (noise : Bytes) (quiet : recvFrame noise = none) (frames : List Frame) :
    recvAll (noise ++ frames.flatMap Frame.enc) = frames ↔
      ∀ first ∈ frames.head?, ∀ stale : Frame,
        (∃ before, noise = before ++ stale.truncated) → stale = first := by
  cases dry : listen .start noise with
  | inr result => rw [recvFrame, dry] at quiet; cases quiet
  | inl after =>
    rw [recvAll_noise dry]
    simp only [← complete_iff_truncated dry]
    cases complete : after.complete with
    | none => exact iff_of_true (recvAllFrom_encs complete frames) fun _ _ _ found => by cases found
    | some stale =>
      cases frames with
      | nil => exact iff_of_true (recvAllFrom_dry rfl) (by simp)
      | cons first rest =>
        rw [recvAllFrom_stale complete]
        simp

/-- Bytes without a flag are noise that every frame survives. -/
theorem frames_after_plain_bytes :
    recvFrame [0x00, 0x7d, 0x41] = none ∧
      recvAll ([0x00, 0x7d, 0x41] ++ [⟨0x42, [0x7e, 0x7d, 0x00, 0xff], by decide⟩,
            ⟨0x43, [], by decide⟩].flatMap Frame.enc) =
        [⟨0x42, [0x7e, 0x7d, 0x00, 0xff], by decide⟩, ⟨0x43, [], by decide⟩] := by
  refine ⟨by decide, (frames_resync_iff _ (by decide) _).mpr ?_⟩
  rintro first _ stale ⟨before, noise⟩
  have member : flag ∈ ([0x00, 0x7d, 0x41] : Bytes) := by
    rw [noise]
    exact List.mem_append_right _ List.mem_cons_self
  exact absurd member (by decide)

/-- A frame that lost its closing flag is received, and the next one is not. -/
theorem stale_frame_received :
    recvFrame (Frame.truncated ⟨0x42, [0x01], by decide⟩) = none ∧
      recvAll (Frame.truncated ⟨0x42, [0x01], by decide⟩ ++
          [⟨0x43, [0x02], by decide⟩].flatMap Frame.enc) =
        [⟨0x42, [0x01], by decide⟩] ∧
      recvAll (Frame.truncated ⟨0x42, [0x01], by decide⟩ ++
          [⟨0x43, [0x02], by decide⟩].flatMap Frame.enc) ≠
        [⟨0x43, [0x02], by decide⟩] := by
  have dry := listen_truncated complete_start ⟨0x42, [0x01], by decide⟩
  refine ⟨by rw [recvFrame, dry]; rfl, (and_iff_left_of_imp fun received => ?_).mpr ?_⟩
  · rw [received]
    decide
  · rw [recvAll_noise dry]
    exact recvAllFrom_stale (complete_eq_some.mpr ⟨rfl, rfl, rfl⟩) _ []

end RetroOS.Hostfs
