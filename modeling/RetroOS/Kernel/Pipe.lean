import RetroOS.Lib.Bytes
import RetroOS.Lib.Machine

/-!
# Kernel pipes

A kernel pipe is a ring of 1024 bytes with counts of its open ends.  The ring
keeps two positions that only grow and drops its oldest element when a push
finds it full; the pipe above it reports every byte of a write as written,
and the system calls report what the pipe reports.

A pipe is a queue as long as every write fits: it finds room for all its
bytes, and the positions have not run through the machine word.  On such
runs what was reported as written is what was read followed by what the ring
holds.
-/

namespace RetroOS.Kernel

open Lib

/-! ## The ring -/

/-- A ring of `N` elements; positions are words of `bits` bits. -/
structure Ring (T : Type) (N : Nat) where
  buf : Fin N → T
  readPos : Nat
  writePos : Nat

namespace Ring

variable {T : Type} {N : Nat} [NeZero N] (bits : Nat)

def new (init : T) : Ring T N where
  buf _ := init
  readPos := 0
  writePos := 0

/-- Push an element, dropping the oldest if full. -/
def push (ring : Ring T N) (value : T) : Ring T N :=
  let readPos :=
    if ring.writePos = (ring.readPos + N) % 2 ^ bits then (ring.readPos + 1) % 2 ^ bits
    else ring.readPos
  { buf := Function.update ring.buf (Fin.ofNat N ring.writePos) value
    readPos
    writePos := (ring.writePos + 1) % 2 ^ bits }

def isEmpty (ring : Ring T N) : Bool :=
  ring.readPos == ring.writePos

/-- Take up to `count` elements from the front. -/
def read (ring : Ring T N) : Nat → List T × Ring T N
  | 0 => ([], ring)
  | count + 1 =>
    if ring.readPos < ring.writePos then
      let value := ring.buf (Fin.ofNat N ring.readPos)
      let rest := read { ring with readPos := (ring.readPos + 1) % 2 ^ bits } count
      (value :: rest.1, rest.2)
    else ([], ring)

/-- The elements between the two positions, oldest first. -/
def contents (ring : Ring T N) : List T :=
  (List.range (ring.writePos - ring.readPos)).map fun index =>
    ring.buf (Fin.ofNat N (ring.readPos + index))

/-- No more than `N` elements, and positions that have not wrapped. -/
structure Sound (ring : Ring T N) : Prop where
  ordered : ring.readPos ≤ ring.writePos
  bounded : ring.writePos ≤ ring.readPos + N
  small : ring.writePos < 2 ^ bits

omit [NeZero N] in
theorem new_sound (init : T) : (new init : Ring T N).Sound bits :=
  ⟨le_rfl, Nat.zero_le _, Nat.two_pow_pos bits⟩

@[simp]
theorem length_contents (ring : Ring T N) :
    ring.contents.length = ring.writePos - ring.readPos := by
  simp [contents]

/-- Positions less than a turn apart are at different places. -/
theorem ofNat_ne {first second : Nat} (lower : first < second) (upper : second < first + N) :
    Fin.ofNat N first ≠ Fin.ofNat N second := by
  intro equal
  have congruent : first % N = second % N := by simpa [Fin.ofNat] using equal
  have turns : N ∣ second - first := (Nat.modEq_iff_dvd' lower.le).mp congruent
  have turn := Nat.le_of_dvd (by omega) turns
  omega

variable {bits}

/-- A push into a ring with room appends. -/
theorem contents_push {ring : Ring T N} (sound : ring.Sound bits)
    (fits : N < 2 ^ bits) (room : ring.contents.length < N)
    (small : ring.writePos + 1 < 2 ^ bits) (value : T) :
    (ring.push bits value).contents = ring.contents ++ [value] ∧
      (ring.push bits value).Sound bits ∧
      (ring.push bits value).writePos = ring.writePos + 1 := by
  obtain ⟨ordered, -, -⟩ := sound
  rw [length_contents] at room
  have open_ : ring.writePos ≠ (ring.readPos + N) % 2 ^ bits := by
    intro full
    rcases Nat.lt_or_ge (ring.readPos + N) (2 ^ bits) with below | above
    · rw [Nat.mod_eq_of_lt below] at full
      omega
    · rw [Nat.mod_eq_sub_mod above, Nat.mod_eq_of_lt (by omega)] at full
      omega
  have width :
      ring.writePos + 1 - ring.readPos = ring.writePos - ring.readPos + 1 := by
    omega
  have last :
      ring.readPos + (ring.writePos - ring.readPos) = ring.writePos := by
    omega
  refine ⟨?_, ⟨?_, ?_, ?_⟩, ?_⟩
  · simp only [contents, push, if_neg open_, Nat.mod_eq_of_lt small, width,
      List.range_succ, List.map_append, List.map_singleton, last,
      Function.update_self, List.append_cancel_right_eq]
    refine List.map_congr_left fun index member => ?_
    have inside := List.mem_range.mp member
    exact Function.update_of_ne (ofNat_ne (by omega) (by omega)) _ _
  · simp only [push, if_neg open_, Nat.mod_eq_of_lt small]
    omega
  · simp only [push, if_neg open_, Nat.mod_eq_of_lt small]
    omega
  · simp only [push, Nat.mod_eq_of_lt small]
    exact small
  · exact Nat.mod_eq_of_lt small

/-- Pushing a list into a ring with room for all of it. -/
theorem contents_foldl_push {ring : Ring T N} (sound : ring.Sound bits)
    (fits : N < 2 ^ bits) {values : List T}
    (room : ring.contents.length + values.length ≤ N)
    (small : ring.writePos + values.length < 2 ^ bits) :
    (values.foldl (push bits) ring).contents = ring.contents ++ values ∧
      (values.foldl (push bits) ring).Sound bits ∧
      (values.foldl (push bits) ring).writePos = ring.writePos + values.length := by
  induction values generalizing ring with
  | nil => simp [sound]
  | cons value rest induction =>
    simp only [List.length_cons] at room small
    obtain ⟨pushed, sound, moved⟩ := contents_push sound fits (by omega) (by omega) value
    have next :=
      induction sound (by rw [pushed, List.length_append, List.length_singleton]; omega) (by omega)
    simp only [List.foldl_cons, next, pushed, List.append_assoc,
      List.singleton_append, moved, List.length_cons, true_and]
    omega

/-- A read takes from the front. -/
theorem contents_read {ring : Ring T N} (sound : ring.Sound bits) (count : Nat) :
    ring.contents = (ring.read bits count).1 ++ (ring.read bits count).2.contents ∧
      (ring.read bits count).2.Sound bits ∧
      ((ring.read bits count).1 = [] → count = 0 ∨ ring.contents = []) := by
  induction count generalizing ring with
  | zero => simp [read, sound]
  | succ count induction =>
    rw [read]
    split
    · rename_i occupied
      obtain ⟨ordered, bounded, small⟩ := sound
      have step : (ring.readPos + 1) % 2 ^ bits = ring.readPos + 1 := Nat.mod_eq_of_lt (by omega)
      have advanced :
          ({ ring with readPos := ring.readPos + 1 } : Ring T N).Sound
            bits :=
        ⟨by simp only; omega, by simp only; omega, small⟩
      obtain ⟨split, sound, -⟩ := induction advanced
      have width :
          ring.writePos - ring.readPos = ring.writePos - (ring.readPos + 1) + 1 := by
        omega
      have front :
          ring.contents = ring.buf (Fin.ofNat N ring.readPos) ::
            ({ ring with readPos := ring.readPos + 1 } : Ring T N).contents := by
        rw [contents, width, List.range_succ_eq_map, List.map_cons, Nat.add_zero, List.map_map]
        simp only [contents, Function.comp_def, Nat.add_assoc, Nat.add_comm 1]
      simp only [step]
      exact ⟨by rw [front, split]; rfl, sound, by simp⟩
    · rename_i drained
      have empty : ring.contents = [] := by
        rw [contents, Nat.sub_eq_zero_of_le (by omega)]
        rfl
      exact ⟨by simp, sound, fun _ => .inr empty⟩

end Ring

/-! ## Pipes -/

def pipeBufSize : Nat := 1024

instance : NeZero pipeBufSize := ⟨by decide⟩

/-- A kernel pipe with counts of its open ends. -/
structure KernelPipe where
  buffer : Ring UInt8 pipeBufSize
  readers : Nat
  writers : Nat

/-- The width of the machine word of a build. -/
inductive PointerWidth where
  | bits32
  | bits64
  deriving DecidableEq

def PointerWidth.bits : PointerWidth → Nat
  | .bits32 => 32
  | .bits64 => 64

theorem PointerWidth.pipeBufSize_lt (width : PointerWidth) : pipeBufSize < 2 ^ width.bits := by
  cases width <;> decide

/-- The value of a cast to a signed 32-bit integer. -/
def asI32 (value : Nat) : Int :=
  let wrapped : Nat := value % 2 ^ 32
  if wrapped < 2 ^ 31 then wrapped else (wrapped : Int) - 2 ^ 32

theorem asI32_of_lt {value : Nat} (small : value < 2 ^ 31) : asI32 value = value := by
  have below : value < 2 ^ 32 := by omega
  simp only [asI32, Nat.mod_eq_of_lt below, if_pos small]

namespace KernelPipe

variable (width : PointerWidth)

/-- A pipe as `alloc` hands it out. -/
def alloc : KernelPipe where
  buffer := .new 0
  readers := 1
  writers := 1

def read (pipe : KernelPipe) (length : Nat) : Bytes × KernelPipe :=
  let (bytes, buffer) := pipe.buffer.read width.bits length
  (bytes, { pipe with buffer })

/-- The count reported, or -1 without readers. -/
def write (pipe : KernelPipe) (data : Bytes) : Int × KernelPipe :=
  if pipe.readers = 0 then (-1, pipe)
  else (asI32 data.length, { pipe with buffer := data.foldl (Ring.push width.bits) pipe.buffer })

def hasWriters (pipe : KernelPipe) : Bool := pipe.writers > 0

def addReader (pipe : KernelPipe) : KernelPipe :=
  { pipe with readers := (pipe.readers + 1) % 2 ^ 16 }

def addWriter (pipe : KernelPipe) : KernelPipe :=
  { pipe with writers := (pipe.writers + 1) % 2 ^ 16 }

def closeReader (pipe : KernelPipe) : KernelPipe :=
  if pipe.readers > 0 then { pipe with readers := pipe.readers - 1 }
  else pipe

def closeWriter (pipe : KernelPipe) : KernelPipe :=
  if pipe.writers > 0 then { pipe with writers := pipe.writers - 1 }
  else pipe

@[simp]
theorem buffer_closeReader (pipe : KernelPipe) : pipe.closeReader.buffer = pipe.buffer := by
  unfold closeReader
  split <;> rfl

@[simp]
theorem buffer_closeWriter (pipe : KernelPipe) : pipe.closeWriter.buffer = pipe.buffer := by
  unfold closeWriter
  split <;> rfl

end KernelPipe

/-! ## System calls -/

def ePipe : Int := 32

/-- A call on a pipe, or a change of its open ends. -/
inductive PipeCall where
  | write (data : Bytes)
  | read (length : Nat)
  | completeRead (length : Nat)
  | addReader
  | addWriter
  | closeReader
  | closeWriter
  deriving DecidableEq

/-- What a call reports. -/
inductive PipeAnswer where
  | returned (value : Int)
  | delivered (bytes : Bytes)
  | endOfFile
  | blocked
  | done
  deriving DecidableEq

section Calls

variable (width : PointerWidth)

/-- `write` on the write end. -/
def sysWrite (pipe : KernelPipe) (data : Bytes) : PipeAnswer × KernelPipe :=
  let (reported, pipe) := pipe.write width data
  if reported < 0 then (.returned (-ePipe), pipe)
  else (.returned reported, pipe)

/-- `read` on the read end: it blocks while a writer is left. -/
def sysRead (pipe : KernelPipe) (length : Nat) : PipeAnswer × KernelPipe :=
  let (bytes, pipe) := pipe.read width length
  if bytes.length > 0 then (.delivered bytes, pipe)
  else if ¬ pipe.hasWriters then (.endOfFile, pipe)
  else (.blocked, pipe)

/-- A blocked read is tried again, and stays blocked without bytes. -/
def completePendingRead (pipe : KernelPipe) (length : Nat) : PipeAnswer × KernelPipe :=
  let (bytes, pipe) := pipe.read width length
  if bytes.length > 0 then (.delivered bytes, pipe)
  else (.blocked, pipe)

/-- One pipe under calls from any number of descriptors. -/
def pipeMachine : Machine KernelPipe PipeCall PipeAnswer
  | pipe, .write data => sysWrite width pipe data
  | pipe, .read length => sysRead width pipe length
  | pipe, .completeRead length => completePendingRead width pipe length
  | pipe, .addReader => (.done, pipe.addReader)
  | pipe, .addWriter => (.done, pipe.addWriter)
  | pipe, .closeReader => (.done, pipe.closeReader)
  | pipe, .closeWriter => (.done, pipe.closeWriter)

end Calls

/-- The bytes a move reports as written. -/
def reportedWritten (move : Move KernelPipe PipeCall PipeAnswer) : Bytes :=
  match move.input, move.answer with
  | .write data, .returned value => data.take value.toNat
  | _, _ => []

/-- The bytes a move hands to a reader. -/
def returnedRead (move : Move KernelPipe PipeCall PipeAnswer) : Bytes :=
  match move.answer with
  | .delivered bytes => bytes
  | _ => []

/--
A write finds room for all its bytes, and the write position stays inside
the machine word.  A write without readers is refused before it looks.
-/
def WriteFits (width : PointerWidth) (pipe : KernelPipe) : PipeCall → Prop
  | .write data =>
    pipe.readers ≠ 0 →
      pipe.buffer.writePos - pipe.buffer.readPos + data.length ≤ pipeBufSize ∧
        pipe.buffer.writePos + data.length < 2 ^ width.bits
  | _ => True

instance (width : PointerWidth) (pipe : KernelPipe) (call : PipeCall) :
    Decidable (WriteFits width pipe call) := by
  unfold WriteFits
  cases call <;> infer_instance

/-! ## The law of a queue -/

section Queue

variable {width : PointerWidth}

/--
One move of a queue: the bytes reported as written go to the back, the bytes
returned come from the front, and end of file means empty without writers.
-/
structure QueueMove (move : Move KernelPipe PipeCall PipeAnswer) : Prop where
  conserved :
    move.before.buffer.contents ++ reportedWritten move =
      returnedRead move ++ move.after.buffer.contents
  endOfFile :
    ∀ length, move.input = .read length → 0 < length →
      move.answer = .endOfFile → move.before.buffer.contents = [] ∧ move.before.writers = 0
  written :
    ∀ data, move.input = .write data → move.before.readers ≠ 0 → move.answer = .returned data.length

/-- A move of a queue that leaves a sound ring. -/
def Queues (width : PointerWidth) (pipe : KernelPipe) (call : PipeCall)
    (result : PipeAnswer × KernelPipe) : Prop :=
  QueueMove ⟨pipe, call, result.1, result.2⟩ ∧ result.2.buffer.Sound width.bits

variable {pipe : KernelPipe} (sound : pipe.buffer.Sound width.bits)

include sound

theorem sysWrite_queues {data : Bytes} (fits : WriteFits width pipe (.write data)) :
    Queues width pipe (.write data) (sysWrite width pipe data) := by
  unfold sysWrite KernelPipe.write
  by_cases orphaned : pipe.readers = 0
  · rw [if_pos orphaned]
    refine ⟨⟨?_, nofun, fun _ _ manned => absurd orphaned manned⟩, sound⟩
    simp [reportedWritten, returnedRead, ePipe]
  · obtain ⟨room, small⟩ := fits orphaned
    have short : data.length < 2 ^ 31 := by
      simp only [pipeBufSize] at room
      omega
    obtain ⟨stored, kept, -⟩ :=
      Ring.contents_foldl_push sound width.pipeBufSize_lt
        (by rw [Ring.length_contents]; exact room) small
    rw [if_neg orphaned, asI32_of_lt short]
    dsimp only
    rw [if_neg (by omega)]
    refine ⟨⟨?_, nofun, fun _ input _ => ?_⟩, kept⟩
    · simp [reportedWritten, returnedRead, stored]
    · cases input
      rfl

/-- A call that takes bytes from the ring, or none. -/
theorem taking_queues {call : PipeCall} {answer : PipeAnswer} {after : KernelPipe} (length : Nat)
    (buffer : after.buffer = (pipe.buffer.read width.bits length).2)
    (reading : ∀ data, call ≠ .write data)
    (taken : returnedRead ⟨pipe, call, answer, after⟩ = (pipe.buffer.read width.bits length).1)
    (ended :
      ∀ length, call = .read length → 0 < length → answer = .endOfFile →
        pipe.buffer.contents = [] ∧ pipe.writers = 0) :
    Queues width pipe call (answer, after) := by
  obtain ⟨front, left, -⟩ := Ring.contents_read sound length
  have written : reportedWritten ⟨pipe, call, answer, after⟩ = [] := by
    cases call with
    | write data => exact absurd rfl (reading data)
    | _ => rfl
  refine ⟨⟨?_, ended, fun data input => absurd input (reading data)⟩, buffer ▸ left⟩
  rw [written, taken, buffer, List.append_nil]
  exact front

theorem sysRead_queues (length : Nat) :
    Queues width pipe (.read length) (sysRead width pipe length) := by
  have empty := (Ring.contents_read sound length).2.2
  unfold sysRead KernelPipe.read
  dsimp only
  split_ifs with some manned
  · exact taking_queues sound length rfl nofun rfl nofun
  · have nothing := List.eq_nil_of_length_eq_zero (Nat.eq_zero_of_not_pos some)
    exact taking_queues sound length rfl nofun nothing.symm nofun
  · have nothing := List.eq_nil_of_length_eq_zero (Nat.eq_zero_of_not_pos some)
    refine taking_queues sound length rfl nofun nothing.symm fun asked same positive _ => ?_
    cases same
    refine ⟨(empty nothing).resolve_left positive.ne', ?_⟩
    simpa [KernelPipe.hasWriters] using manned

theorem completePendingRead_queues (length : Nat) :
    Queues width pipe (.completeRead length) (completePendingRead width pipe length) := by
  unfold completePendingRead KernelPipe.read
  dsimp only
  split_ifs with some
  · exact taking_queues sound length rfl nofun rfl nofun
  · have nothing := List.eq_nil_of_length_eq_zero (Nat.eq_zero_of_not_pos some)
    exact taking_queues sound length rfl nofun nothing.symm nofun

/-- Every call that fits is a move of a queue. -/
theorem pipeMachine_queues (call : PipeCall) (fits : WriteFits width pipe call) :
    Queues width pipe call (pipeMachine width pipe call) := by
  cases call with
  | write data => exact sysWrite_queues sound fits
  | read length => exact sysRead_queues sound length
  | completeRead length => exact completePendingRead_queues sound length
  | addReader | addWriter => exact taking_queues sound 0 rfl nofun rfl nofun
  | closeReader => exact taking_queues sound 0 pipe.buffer_closeReader nofun rfl nofun
  | closeWriter => exact taking_queues sound 0 pipe.buffer_closeWriter nofun rfl nofun

end Queue

/--
A pipe is a lossless queue on every run whose writes fit: each move is one of
a queue, and what the reads returned is the front of what the writes
reported.
-/
theorem pipe_is_queue (width : PointerWidth) {calls : List PipeCall} (fits :
      (pipeMachine width).Meets (WriteFits width) KernelPipe.alloc calls) :
    (∀ move ∈ (pipeMachine width).run KernelPipe.alloc calls, QueueMove move) ∧
    ((pipeMachine width).run KernelPipe.alloc calls).flatMap returnedRead <+:
      ((pipeMachine width).run KernelPipe.alloc calls).flatMap
        reportedWritten := by
  have start : KernelPipe.alloc.buffer.Sound width.bits := Ring.new_sound width.bits 0
  have step (pipe : KernelPipe) (call : PipeCall) (sound : pipe.buffer.Sound width.bits)
      (fits : WriteFits width pipe call) :
      (pipeMachine width pipe call).2.buffer.Sound width.bits :=
    (pipeMachine_queues sound call fits).2
  refine ⟨?_, ?_⟩
  · exact Machine.forall_run step (fun _ call sound fits => (pipeMachine_queues sound call fits).1)
      start fits
  · have conserves (pipe : KernelPipe) (call : PipeCall) (sound : pipe.buffer.Sound width.bits)
        (fits : WriteFits width pipe call) :
        pipe.buffer.contents ++ reportedWritten ((pipeMachine width).move pipe call) =
          returnedRead ((pipeMachine width).move pipe call) ++
            (pipeMachine width pipe call).2.buffer.contents :=
      (pipeMachine_queues sound call fits).1.conserved
    have conserved := Machine.run_conserves step conserves start fits
    exact ⟨_, conserved.symm⟩

/-- Two short writes, read back across them. -/
theorem short_writes_read_back :
    let calls : List PipeCall :=
      [.write [1, 2], .write [3], .read 2, .closeWriter, .read 4, .read 1]
    (pipeMachine .bits32).Meets (WriteFits .bits32) KernelPipe.alloc calls ∧
      (∀ move ∈ (pipeMachine .bits32).run KernelPipe.alloc calls, QueueMove move) ∧
      ((pipeMachine .bits32).run KernelPipe.alloc calls).flatMap returnedRead <+:
        ((pipeMachine .bits32).run KernelPipe.alloc calls).flatMap
          reportedWritten := by
  intro calls
  have fits :
      (pipeMachine .bits32).Meets (WriteFits .bits32) KernelPipe.alloc
        calls := by
    decide +kernel
  exact ⟨fits, pipe_is_queue .bits32 fits⟩

/--
A write of 1025 bytes to an empty pipe is reported whole, and the first byte
read is its second.
-/
theorem long_write_loses_first_byte :
    let calls : List PipeCall := [.write (0 :: List.replicate 1024 1), .read 1]
    ((pipeMachine .bits32).run KernelPipe.alloc calls).map Move.answer =
        [.returned 1025, .delivered [1]] ∧
      ¬ ((pipeMachine .bits32).run KernelPipe.alloc calls).flatMap returnedRead <+:
        ((pipeMachine .bits32).run KernelPipe.alloc calls).flatMap
          reportedWritten := by
  intro calls
  refine ⟨?_, ?_⟩ <;> decide +kernel

end RetroOS.Kernel
