import RetroOS.Kernel.Threads

/-!
# What wait4 reports

A slot of the thread table is used by one process after another, so the table
alone cannot say which process a number means.  The ledger kept here beside a
run can: it gives every process a serial number when it is forked and notes
who forked it, how it exited, the wait4 it is blocked in, and which processes
a wait4 result has named.  It sees the calls and their answers only.

The exit path makes any blocked parent ready with the child's number as its
result, and leaves the child in the table.  So the reports are right on the
runs where a child exits only while its parent runs or waits for it, where
the parent does not wait again for a child whose exit woke it, where no slot
is given to a process while its number still stands for somebody's parent,
and where nobody is swapped in before its wait is over.
-/

namespace RetroOS.Kernel

open Lib
open Function (update update_of_ne update_self update_apply update_comm update_eq_self)

/-! ## The ledger -/

/-- The arguments of a wait4 that has not returned. -/
structure Wait where
  pid : Int
  statusPtr : Nat
  deriving DecidableEq

/-- What is known of the process in a slot. -/
structure Entry where
  serial : Nat
  forkedBy : Option Nat
  exit : Option Int
  /-- Its exit found its parent blocked. -/
  woke : Bool
  wait : Option Wait
  deriving DecidableEq

structure Ledger where
  entries : Nat → Entry
  clock : Nat
  /-- The serial numbers that wait4 results have named so far. -/
  reports : List Nat

/-- A thread table with the ledger of its run. -/
structure Watched where
  table : ThreadTable
  ledger : Ledger

namespace Ledger

def modify (ledger : Ledger) (slot : Nat) (change : Entry → Entry) : Ledger :=
  { ledger with entries := update ledger.entries slot (change (ledger.entries slot)) }

def report (ledger : Ledger) (slot : Nat) : Ledger :=
  { ledger with reports := (ledger.entries slot).serial :: ledger.reports }

/-- A fork by the process in `parent` put a new one into `child`. -/
def birth (ledger : Ledger) (parent child : Nat) : Ledger :=
  { ledger.modify child fun _ =>
      { serial := ledger.clock
        forkedBy := some (ledger.entries parent).serial
        exit := none
        woke := false
        wait := none } with
    clock := ledger.clock + 1 }

end Ledger

section Watching

variable (maxThreads : Nat)

/-- The exit of the thread at the processor finds its parent blocked. -/
def Watched.wakesParent (watched : Watched) : Bool :=
  (watched.table.parentOf maxThreads watched.table.current).any
    fun parent => (watched.table.threads parent).state == .blocked

/-- Enter a call and its answer into the ledger. -/
def Watched.note (before : Watched) : ThreadCall → ThreadAnswer → Ledger
  | .fork, .forked child => before.ledger.birth before.table.current child
  | .exit code, .exited =>
    before.ledger.modify before.table.current fun entry =>
      { entry with exit := some code, woke := before.wakesParent maxThreads }
  | .wait4 _ _, .reported child _ => before.ledger.report child.toNat
  | .wait4 pid statusPtr, .blocked =>
    before.ledger.modify before.table.current fun entry =>
      { entry with wait := some { pid, statusPtr } }
  | .switch next, .switched (some rax) _ =>
    if (before.ledger.entries next).wait.isSome then
      (before.ledger.report rax.toNat).modify next fun entry => { entry with wait := none }
    else before.ledger
  | _, _ => before.ledger

/-- The thread machine with its ledger. -/
def waitMachine : Machine Watched ThreadCall ThreadAnswer :=
  fun before call =>
    let moved := threadMachine maxThreads before.table call
    (moved.1, { table := moved.2, ledger := before.note maxThreads call moved.1 })

/-- Start a ledger for a table: its processes are numbered by their slots. -/
def watch (table : ThreadTable) : Watched where
  table
  ledger :=
    { entries slot :=
        let thread := table.threads slot
        { serial := slot
          forkedBy := if 0 ≤ thread.parentTid then some thread.parentTid.toNat else none
          exit := if thread.state = .zombie then some thread.exitCode else none
          woke := false
          wait := none }
      clock := maxThreads
      reports := [] }

/-! ## What a wait4 result says -/

/--
A result for `wait` of the process in `caller` names a child of that process
that has exited and was not named before, and stores its status.
-/
structure Reports (before : Watched) (caller : Nat) (wait : Wait)
    (child : Int) (store : Option (Nat × Int)) : Prop where
  forked : (before.ledger.entries child.toNat).forkedBy = some (before.ledger.entries caller).serial
  asked : waitsFor wait.pid child
  exited :
    ∃ code, (before.ledger.entries child.toNat).exit = some code ∧
      store = Thread.storeStatus wait.statusPtr code
  once : (before.ledger.entries child.toNat).serial ∉ before.ledger.reports

/-- The process in `slot` is blocked in a wait4 that asks for `child`. -/
def Watched.AwaitsExit (watched : Watched) (slot : Nat) (child : Int) : Prop :=
  ∃ wait, (watched.ledger.entries slot).wait = some wait ∧ waitsFor wait.pid child

/-- The law of one move: results are right, and exits disturb nobody else. -/
structure WaitMove (move : Move Watched ThreadCall ThreadAnswer) :
    Prop where
  immediate :
    ∀ pid statusPtr child store, move.input = .wait4 pid statusPtr →
        move.answer = .reported child store →
          Reports move.before move.before.table.current { pid, statusPtr } child store
  resumed :
    ∀ next wait rax store, move.input = .switch next →
        move.answer = .switched (some rax) store →
          (move.before.ledger.entries next).wait = some wait →
            Reports move.before next wait rax store
  undisturbed :
    ∀ code slot, move.input = .exit code →
        (move.before.table.threads slot).state = .blocked →
          ¬ move.before.AwaitsExit slot (move.before.table.threads move.before.table.current).tid →
            move.after.table.threads slot = move.before.table.threads slot

/-- What a call is asked for, in the state it arrives in. -/
def Orderly (watched : Watched) : ThreadCall → Prop
  | .fork =>
    -- Nobody still names the slot that is handed out as its parent's.
    ∀ free ∈ watched.table.freeSlot maxThreads, ∀ slot < maxThreads,
        (watched.table.threads slot).state ≠ .unused → (watched.table.threads slot).parentTid ≠ free
  | .exit _ =>
    -- A blocked parent waits for this child.
    ∀ parent ∈ watched.table.parentOf maxThreads watched.table.current,
      (watched.table.threads parent).state = .blocked →
        (watched.ledger.entries parent).wait.any fun wait =>
          waitsFor wait.pid (watched.table.threads watched.table.current).tid
  | .wait4 pid _ =>
    -- No child that it asks for has woken it before.
    ∀ slot < maxThreads, (watched.table.threads slot).state = .zombie →
        (watched.table.threads slot).parentTid = (watched.table.threads watched.table.current).tid →
          waitsFor pid (watched.table.threads slot).tid → (watched.ledger.entries slot).woke = false
  | .switch next =>
    -- Its status is not still to come.
    (watched.table.threads next).state = .blocked → (watched.table.threads next).waitStatusPtr = 0
  | .blockRead _ | .blockPoll _ | .completeIo _ => True

instance Orderly.decidable (watched : Watched) :
    (call : ThreadCall) → Decidable (Orderly maxThreads watched call)
  | .fork => inferInstanceAs (Decidable (∀ free ∈ watched.table.freeSlot _, _))
  | .exit _ => inferInstanceAs (Decidable (∀ parent ∈ watched.table.parentOf _ _, _))
  | .wait4 _ _ => inferInstanceAs (Decidable (∀ slot < maxThreads, _))
  | .switch _ => inferInstanceAs (Decidable (_ → _))
  | .blockRead _ | .blockPoll _ | .completeIo _ => .isTrue trivial

/-- A table in which nobody waits. -/
structure Quiet (table : ThreadTable) : Prop where
  current : table.current < maxThreads
  named :
    ∀ slot < maxThreads, (table.threads slot).state ≠ .unused → (table.threads slot).tid = slot
  awake : ∀ slot < maxThreads, (table.threads slot).state ≠ .blocked
  idle :
    ∀ slot < maxThreads, ∀ state, (table.threads slot).personality = .linux state →
        state.pendingRead = none ∧ state.pendingPoll = none

end Watching

/-! ## The register of processes -/

/-- Who is in a slot, from the table and the ledger together. -/
structure Record where
  tid : Int
  parentTid : Int
  /-- The exit code of a zombie. -/
  ended : Option Int
  serial : Nat
  forkedBy : Option Nat
  exit : Option Int
  woke : Bool

/-- The ledger knows how a process exited and whether it was reported. -/
structure Record.Sound (record : Record) (slot clock : Nat) (reports : List Nat) : Prop where
  named : record.tid = slot
  numbered : record.serial < clock
  exited : ∀ code, record.ended = some code → record.exit = some code
  reported : record.serial ∈ reports → record.ended.isSome ∧ record.woke

/-- The ledger tells two processes apart and knows if one forked the other. -/
structure Record.Kin (first : Record) (slot : Nat) (second : Record) (other : Nat) : Prop where
  distinct : first.serial = second.serial → slot = other
  forked : first.parentTid = other → first.forkedBy = some second.serial

/-- The processes in the slots are those the ledger knows. -/
structure Registered (records : Nat → Option Record) (clock : Nat) (reports : List Nat) :
    Prop where
  sound : ∀ slot, ∀ record ∈ records slot, record.Sound slot clock reports
  kin :
    ∀ slot, ∀ first ∈ records slot, ∀ other, ∀ second ∈ records other,
      first.Kin slot second other
  past : ∀ serial ∈ reports, serial < clock

/-- The record of one slot is replaced. -/
theorem Registered.replace {records : Nat → Option Record} {clock later slot : Nat}
    {reports : List Nat} {value : Option Record} (registered : Registered records clock reports)
    (next : clock ≤ later)
    (own :
      ∀ record ∈ value, record.Sound slot later reports ∧ record.Kin slot record slot ∧
        ∀ other ≠ slot, ∀ second ∈ records other,
          record.Kin slot second other ∧ second.Kin other record slot) :
    Registered (update records slot value) later reports := by
  refine ⟨fun place record found => ?_, fun place first found other second known => ?_,
    fun serial member => (registered.past serial member).trans_le next⟩
  · rcases eq_or_ne place slot with rfl | apart
    · rw [update_self] at found
      exact (own record found).1
    · rw [update_of_ne apart] at found
      have sound := registered.sound place record found
      exact { sound with numbered := sound.numbered.trans_le next }
  · rcases eq_or_ne place slot with here | apart <;> rcases eq_or_ne other slot with there | beside
    · rw [here, update_self] at found
      rw [there, update_self] at known
      obtain rfl := Option.some.inj (found.symm.trans known)
      rw [here, there]
      exact (own first found).2.1
    · rw [here, update_self] at found
      rw [update_of_ne beside] at known
      rw [here]
      exact ((own first found).2.2 other beside second known).1
    · rw [update_of_ne apart] at found
      rw [there, update_self] at known
      rw [there]
      exact ((own second known).2.2 place apart first found).2
    · rw [update_of_ne apart] at found
      rw [update_of_ne beside] at known
      exact registered.kin place first found other second known

/-! ## What the machine keeps -/

/-- The thread at the processor. -/
abbrev Watched.self (watched : Watched) : Thread := watched.table.threads watched.table.current

def Watched.record (watched : Watched) (slot : Nat) : Record :=
  let thread := watched.table.threads slot
  let entry := watched.ledger.entries slot
  { tid := thread.tid
    parentTid := thread.parentTid
    ended := if thread.state = .zombie then some thread.exitCode else none
    serial := entry.serial
    forkedBy := entry.forkedBy
    exit := entry.exit
    woke := entry.woke }

section Keeping

variable (maxThreads : Nat)

/-- The records of the slots in use. -/
def Watched.records (watched : Watched) (slot : Nat) : Option Record :=
  if slot < maxThreads ∧ (watched.table.threads slot).state ≠ .unused then
    some (watched.record slot)
  else none

/--
The exit that ends a wait4 has come: the result is a child that is still in
the table and was not reported.
-/
def Ended (records : Nat → Option Record) (reports : List Nat) (slot : Nat)
    (wait : Wait) (result code : Int) : Prop :=
  ∃ child : Nat, ∃ record ∈ records child, result = child ∧ record.ended = some code ∧
    record.parentTid = slot ∧ waitsFor wait.pid child ∧ record.woke ∧ record.serial ∉ reports

/-- The process in a slot has not returned from its wait4. -/
def Pending (records : Nat → Option Record) (reports : List Nat) (slot : Nat)
    (thread : Thread) (wait : Wait) : Prop :=
  ∃ state, thread.personality = .linux state ∧
      state.waitStatusPtr = wait.statusPtr ∧
      state.pendingRead = none ∧ state.pendingPoll = none ∧
      (thread.state = .blocked ∨
        thread.state = .ready ∧ Ended records reports slot wait thread.rax state.waitExitCode)

/-- At most one call of a thread is pending, and none when it runs. -/
def Thread.Idle (thread : Thread) : Prop :=
  ∀ state, thread.personality = .linux state →
    (state.pendingRead = none ∨ state.pendingPoll = none) ∧
      (thread.runs → state.pendingRead = none ∧ state.pendingPoll = none)

/-- What holds between a table and its ledger on every orderly run. -/
structure Kept (watched : Watched) : Prop where
  current : watched.table.current < maxThreads
  registered :
    Registered (watched.records maxThreads) watched.ledger.clock watched.ledger.reports
  waiting :
    ∀ slot < maxThreads, (watched.table.threads slot).state ≠ .unused →
      ∀ wait, (watched.ledger.entries slot).wait = some wait →
        Pending (watched.records maxThreads) watched.ledger.reports slot
          (watched.table.threads slot) wait
  idle : ∀ slot < maxThreads, (watched.table.threads slot).Idle
  atWork :
    watched.self.state = .blocked ∨
      (watched.ledger.entries watched.table.current).wait = none

variable {maxThreads}

@[simp]
theorem mem_records {watched : Watched} {slot : Nat} {record : Record} :
    record ∈ watched.records maxThreads slot ↔
      (slot < maxThreads ∧ (watched.table.threads slot).state ≠ .unused) ∧
        watched.record slot = record := by
  simp [Watched.records]

variable {thread : Thread} {table : ThreadTable}

theorem watch_kept (quiet : Quiet maxThreads table) : Kept maxThreads (watch maxThreads table) where
  current := quiet.current
  registered := by
    refine ⟨fun slot record found => ?_, fun slot first found other second known => ?_, nofun⟩
    · obtain ⟨⟨inside, used⟩, rfl⟩ := mem_records.mp found
      refine ⟨quiet.named slot inside used, inside, fun code zombie => ?_, nofun⟩
      exact zombie
    · obtain ⟨-, rfl⟩ := mem_records.mp found
      obtain ⟨-, rfl⟩ := mem_records.mp known
      refine ⟨id, fun names => ?_⟩
      replace names : (table.threads slot).parentTid = other := names
      simp [watch, Watched.record, names]
  waiting := nofun
  idle slot inside state linux :=
    have idle := quiet.idle slot inside state linux
    ⟨.inl idle.1, fun _ => idle⟩
  atWork := .inr rfl

section Steps

variable {before : Watched} (kept : Kept maxThreads before)

include kept in
theorem Kept.sound {slot : Nat} (inside : slot < maxThreads)
    (used : (before.table.threads slot).state ≠ .unused) :
    (before.record slot).Sound slot before.ledger.clock before.ledger.reports :=
  kept.registered.sound slot _ (mem_records.mpr ⟨⟨inside, used⟩, rfl⟩)

include kept in
theorem Kept.kin {slot other : Nat} (inside : slot < maxThreads)
    (used : (before.table.threads slot).state ≠ .unused) (within : other < maxThreads)
    (present : (before.table.threads other).state ≠ .unused) :
    (before.record slot).Kin slot (before.record other) other :=
  kept.registered.kin slot _ (mem_records.mpr ⟨⟨inside, used⟩, rfl⟩) other _
    (mem_records.mpr ⟨⟨within, present⟩, rfl⟩)

section Changes

variable {after : Watched} (slot : Nat) (current : after.table.current < maxThreads)
    (others :
      ∀ other ≠ slot, after.table.threads other = before.table.threads other ∧
        after.ledger.entries other = before.ledger.entries other)

include others in
theorem records_eq_update :
    after.records maxThreads =
      update (before.records maxThreads) slot (after.records maxThreads slot) := by
  funext place
  rcases eq_or_ne place slot with rfl | apart
  · rw [update_self]
  · simp [Watched.records, Watched.record, apart, others place apart]

include kept current others in
/--
Only the slot that changes needs an argument: for the others it is enough
that the zombies their waits end with stay.
-/
theorem Kept.next (reports : after.ledger.reports = before.ledger.reports)
    (registered :
      Registered (update (before.records maxThreads) slot (after.records maxThreads slot))
        after.ledger.clock after.ledger.reports)
    (stays :
      ∀ record ∈ before.records maxThreads slot, record.ended.isSome → record.woke →
        record ∈ after.records maxThreads slot)
    (waiting :
      (after.table.threads slot).state ≠ .unused →
        ∀ wait, (after.ledger.entries slot).wait = some wait →
          Pending (after.records maxThreads) after.ledger.reports slot
            (after.table.threads slot) wait)
    (idle : (after.table.threads slot).Idle)
    (atWork :
      after.self.state = .blocked ∨ (after.ledger.entries after.table.current).wait = none) :
    Kept maxThreads after := by
  rw [← records_eq_update slot others] at registered
  refine ⟨current, registered, fun place inside used wait waits => ?_, fun place inside => ?_,
    atWork⟩
  · rcases eq_or_ne place slot with rfl | other
    · exact waiting used wait waits
    · rw [(others place other).1] at used ⊢
      rw [(others place other).2] at waits
      obtain ⟨state, linux, pointer, noRead, noPoll, ends⟩ :=
        kept.waiting place inside used wait waits
      refine ⟨state, linux, pointer, noRead, noPoll, ends.imp_right ?_⟩
      rintro ⟨ready, child, record, known, named, zombie, parent, asked, woke, once⟩
      refine ⟨ready, child, record, ?_, named, zombie, parent, asked, woke, reports ▸ once⟩
      rw [records_eq_update slot others]
      rcases eq_or_ne child slot with rfl | apart
      · rw [update_self]
        exact stays record known (by simp [zombie]) woke
      · rwa [update_of_ne apart]
  · rcases eq_or_ne place slot with rfl | other
    · exact idle
    · rw [(others place other).1]
      exact kept.idle place inside

include kept current others in
/-- The process in a slot goes on, and its wait4 may change. -/
theorem Kept.same (clock : after.ledger.clock = before.ledger.clock)
    (reports : after.ledger.reports = before.ledger.reports)
    (same : after.records maxThreads slot = before.records maxThreads slot)
    (waiting :
      (after.table.threads slot).state ≠ .unused →
        ∀ wait, (after.ledger.entries slot).wait = some wait →
          Pending (before.records maxThreads) before.ledger.reports slot
            (after.table.threads slot) wait)
    (idle : (after.table.threads slot).Idle)
    (atWork :
      after.self.state = .blocked ∨ (after.ledger.entries after.table.current).wait = none) :
    Kept maxThreads after := by
  refine kept.next slot current others reports ?_ ?_ ?_ idle atWork
  · rw [same, update_eq_self, clock, reports]
    exact kept.registered
  · rw [same]
    exact fun _ member _ _ => member
  · rw [records_eq_update slot others, same, update_eq_self, reports]
    exact waiting

end Changes

include kept in
/-- A process is reported that nobody waits for any more. -/
theorem Kept.report {serial : Nat} (below : serial < before.ledger.clock)
    (marked :
      ∀ slot, ∀ record ∈ before.records maxThreads slot, record.serial = serial →
        (record.ended.isSome ∧ record.woke) ∧
          ∀ parent : Nat, record.parentTid = parent → (before.ledger.entries parent).wait = none) :
    Kept maxThreads
      { before with
        ledger := { before.ledger with reports := serial :: before.ledger.reports } } := by
  refine ⟨kept.current, ⟨fun slot record found => ?_, kept.registered.kin, ?_⟩,
    fun slot inside used wait waits => ?_, kept.idle, kept.atWork⟩
  · have sound := kept.registered.sound slot record found
    refine { sound with reported := fun member => ?_ }
    rcases List.mem_cons.mp member with same | earlier
    · exact (marked slot record found same).1
    · exact sound.reported earlier
  · exact List.forall_mem_cons.mpr ⟨below, kept.registered.past⟩
  · obtain ⟨state, linux, pointer, noRead, noPoll, ends⟩ := kept.waiting slot inside used wait waits
    refine ⟨state, linux, pointer, noRead, noPoll, ends.imp_right ?_⟩
    rintro ⟨ready, child, record, known, named, zombie, parent, asked, woke, once⟩
    refine ⟨ready, child, record, known, named, zombie, parent, asked, woke, fun member => ?_⟩
    rcases List.mem_cons.mp member with same | earlier
    · rw [(marked child record known same).2 slot parent] at waits
      cases waits
    · exact once earlier

/-! ## Calls that touch their caller only -/

@[simp]
theorem threads_modify (table : ThreadTable) (slot other : Nat) (change : Thread → Thread) :
    (table.modify slot change).threads other =
      if other = slot then change (table.threads slot)
      else table.threads other := by
  simp [ThreadTable.modify, update_apply]

@[simp]
theorem current_modify (table : ThreadTable) (slot : Nat) (change : Thread → Thread) :
    (table.modify slot change).current = table.current :=
  rfl

@[simp]
theorem entries_modify (ledger : Ledger) (slot other : Nat) (change : Entry → Entry) :
    (ledger.modify slot change).entries other =
      if other = slot then change (ledger.entries slot)
      else ledger.entries other := by
  simp [Ledger.modify, update_apply]

/-- A thread is used and has not exited. -/
def Thread.Alive (thread : Thread) : Prop := thread.state ≠ .unused ∧ thread.state ≠ .zombie

theorem Thread.alive_of_runs (runs : thread.runs) : thread.Alive := by
  constructor <;> intro state <;> simp [Thread.runs, state] at runs

theorem Thread.awake_of_runs (runs : thread.runs) : thread.state ≠ .blocked := by
  intro state
  simp [Thread.runs, state] at runs

theorem Thread.isLinux_iff : thread.isLinux ↔ ∃ state, thread.personality = .linux state := by
  cases known : thread.personality <;> simp [Thread.isLinux, known]

/-- A thread keeps its number and its parent, and neither exits nor goes. -/
structure Thread.Continues (thread after : Thread) : Prop where
  tid : after.tid = thread.tid
  parentTid : after.parentTid = thread.parentTid
  alive : thread.Alive
  stays : after.Alive

include kept in
/-- The thread at the processor goes on; nobody else is touched. -/
theorem Kept.caller {change : Thread → Thread} {wait : Option Wait}
    (continues : before.self.Continues (change before.self)) (idle : (change before.self).Idle)
    (atWork : (change before.self).state = .blocked ∨ wait = none)
    (pending :
      ∀ known, wait = some known →
        Pending (before.records maxThreads) before.ledger.reports before.table.current
          (change before.self) known) :
    Kept maxThreads
      { table := before.table.modify before.table.current change
        ledger := before.ledger.modify before.table.current fun entry => { entry with wait } } := by
  refine kept.same before.table.current kept.current (fun slot other => by simp [other]) rfl rfl
    ?_ ?_ (by simpa using idle) (by simpa [Watched.self] using atWork)
  · simp [Watched.records, Watched.record, continues.tid, continues.parentTid,
      continues.alive.1, continues.alive.2, continues.stays.1, continues.stays.2]
  · simpa using fun _ => pending

theorem modify_wait {ledger : Ledger} {slot : Nat} {wait : Option Wait}
    (same : (ledger.entries slot).wait = wait) :
    (ledger.modify slot fun entry => { entry with wait }) = ledger := by
  simp [Ledger.modify, ← same]

include kept in
/-- A thread in no wait4 goes on. -/
theorem Kept.goesOn {change : Thread → Thread}
    (none : (before.ledger.entries before.table.current).wait = none)
    (continues : before.self.Continues (change before.self)) (idle : (change before.self).Idle) :
    Kept maxThreads { before with table := before.table.modify before.table.current change } := by
  rw [← modify_wait none]
  exact kept.caller continues idle (.inr rfl) nofun

section

variable (runs : before.self.runs)

include kept runs

/-- A thread that runs is in no wait4. -/
theorem Kept.wait_of_runs : (before.ledger.entries before.table.current).wait = none :=
  kept.atWork.resolve_left (Thread.awake_of_runs runs)

theorem Kept.sound_of_runs :
    (before.record before.table.current).Sound before.table.current before.ledger.clock
      before.ledger.reports :=
  kept.sound kept.current (Thread.alive_of_runs runs).1

theorem Kept.unreported_of_runs :
    (before.ledger.entries before.table.current).serial ∉ before.ledger.reports := by
  intro member
  have ended := ((kept.sound_of_runs runs).reported member).1
  simp [Watched.record, (Thread.alive_of_runs runs).2] at ended

theorem Kept.returns (value : Int) :
    Kept maxThreads { before with table := before.table.returns value } := by
  have alive := Thread.alive_of_runs runs
  exact kept.goesOn (kept.wait_of_runs runs) ⟨rfl, rfl, alive, alive⟩ (kept.idle _ kept.current)

omit kept runs in
/-- A blocked thread with a new Linux part is still the same thread. -/
theorem Thread.blocked_continues (runs : thread.runs) (change : LinuxState → LinuxState) :
    thread.Continues { thread.modifyLinux change with state := .blocked, rax := 0 } := by
  refine ⟨?_, ?_, Thread.alive_of_runs runs, by simp [Thread.Alive]⟩ <;>
    cases known : thread.personality <;> simp [Thread.modifyLinux, known]

/-- A Linux thread blocks in a read, a poll or a wait4. -/
theorem Kept.block {change : LinuxState → LinuxState} {state : LinuxState}
    (linux : before.self.personality = .linux state) {wait : Option Wait}
    (one : (change state).pendingRead = none ∨ (change state).pendingPoll = none)
    (pending :
      ∀ known, wait = some known →
        state.pendingRead = none → state.pendingPoll = none →
          (change state).waitStatusPtr = known.statusPtr ∧
            (change state).pendingRead = none ∧ (change state).pendingPoll = none) :
    Kept maxThreads
      { table := (before.table.block change).2
        ledger := before.ledger.modify before.table.current fun entry => { entry with wait } } := by
  have free := (kept.idle _ kept.current state linux).2 runs
  have changed : before.self.modifyLinux change =
      { before.self with personality := .linux (change state) } := by
    simp only [Thread.modifyLinux, linux]
  simp only [ThreadTable.block]
  refine kept.caller (Thread.blocked_continues runs change) ?_ (.inl rfl) fun known waits => ?_
  · rw [changed]
    rintro _ ⟨⟩
    exact ⟨one, by simp [Thread.runs]⟩
  · obtain ⟨pointer, noRead, noPoll⟩ := pending known waits free.1 free.2
    rw [changed]
    exact ⟨change state, rfl, pointer, noRead, noPoll, .inl rfl⟩

end

variable {state : LinuxState}

include kept in
/-- A pending read or poll of the thread at the processor ends. -/
theorem Kept.unblock (value : Int) {old : LinuxState} (blocked : before.self.state = .blocked)
    (known : before.self.personality = .linux old)
    (pending : old.pendingRead ≠ none ∨ old.pendingPoll ≠ none)
    (idle : state.pendingRead = none ∧ state.pendingPoll = none) :
    Kept maxThreads
      { before with
        table :=
          before.table.modify before.table.current fun thread =>
            { thread with
              rax := value
              state := .ready
              personality := .linux state } } := by
  have waits : (before.ledger.entries before.table.current).wait = none := by
    rw [Option.eq_none_iff_forall_ne_some]
    intro wait waits
    obtain ⟨_, linux, -, noRead, noPoll, -⟩ :=
      kept.waiting _ kept.current (by simp [blocked]) wait waits
    obtain rfl := Personality.linux.inj (known.symm.trans linux)
    simp [noRead, noPoll] at pending
  refine kept.goesOn waits ⟨rfl, rfl, by simp [Thread.Alive, blocked], by simp [Thread.Alive]⟩ ?_
  rintro _ ⟨⟩
  exact ⟨.inl idle.1, fun _ => idle⟩

include kept in
theorem Kept.complete (count : Nat) (blocked : before.self.state = .blocked) :
    Kept maxThreads { before with table := (before.table.completePendingIo count).2 } := by
  unfold ThreadTable.completePendingIo
  cases known : before.self.personality with
  | linux state =>
    have one := (kept.idle _ kept.current state known).1
    simp only
    split_ifs with read poll
    · have pending := Option.isSome_iff_ne_none.mp read.1
      exact kept.unblock count blocked known (.inl pending) ⟨rfl, one.resolve_left pending⟩
    · have pending := Option.isSome_iff_ne_none.mp poll.2.1
      exact kept.unblock count blocked known (.inr pending) ⟨poll.1, rfl⟩
    · exact kept
  | dos _ | os2 | windows => exact kept

/-! ## Fork, exit and the reports -/

include kept in
/-- A process enters a slot whose number is nobody's parent. -/
theorem Kept.born {child : Nat} (runs : before.self.runs)
    (unused : (before.table.threads child).state = .unused)
    (unnamed :
      ∀ slot < maxThreads, (before.table.threads slot).state ≠ .unused →
        (before.table.threads slot).parentTid ≠ child) :
    Kept maxThreads
      { table := before.table.createThread before.self.tid child
        ledger := before.ledger.birth before.table.current child } := by
  have apart : before.table.current ≠ child := by
    rintro rfl
    exact (Thread.alive_of_runs runs).1 unused
  have named : before.self.tid = before.table.current := (kept.sound_of_runs runs).named
  refine kept.next child kept.current (fun other distinct => ?_) rfl ?_ ?_ ?_ ?_ (.inr ?_)
  · simp [ThreadTable.createThread, Ledger.birth, distinct]
  · refine kept.registered.replace (Nat.le_succ _) fun record found => ?_
    obtain ⟨-, rfl⟩ := mem_records.mp found
    simp only [Watched.record, ThreadTable.createThread, Ledger.birth, threads_modify,
      entries_modify, if_true]
    refine ⟨⟨rfl, Nat.lt_succ_self _, nofun, fun member => ?_⟩, ⟨fun _ => rfl, fun names => ?_⟩,
      fun other distinct second known => ⟨⟨fun same => ?_, fun names => ?_⟩,
        fun same => ?_, fun names => ?_⟩⟩
    · exact absurd (kept.registered.past _ member) (lt_irrefl _)
    · exact absurd (named.symm.trans names) (by exact_mod_cast apart)
    · exact absurd same.symm (kept.registered.sound other second known).numbered.ne
    · obtain rfl : before.table.current = other := by exact_mod_cast named.symm.trans names
      obtain ⟨-, rfl⟩ := mem_records.mp known
      rfl
    · exact absurd same (kept.registered.sound other second known).numbered.ne
    · obtain ⟨⟨within, used⟩, rfl⟩ := mem_records.mp known
      exact absurd names (unnamed other within used)
  · intro record found
    exact absurd unused (mem_records.mp found).1.2
  · intro _ wait waits
    simp [Ledger.birth] at waits
  · simp only [ThreadTable.createThread, threads_modify, if_true]
    rintro _ ⟨⟩
    exact ⟨.inl rfl, fun _ => ⟨rfl, rfl⟩⟩
  · simp [ThreadTable.createThread, Ledger.birth, apart, kept.wait_of_runs runs]

include kept in
theorem Kept.fork {child : Nat} (runs : before.self.runs)
    (free : before.table.freeSlot maxThreads = some child)
    (unnamed :
      ∀ slot < maxThreads, (before.table.threads slot).state ≠ .unused →
        (before.table.threads slot).parentTid ≠ child) :
    Kept maxThreads
      { table := (before.table.handleFork maxThreads).2
        ledger := before.ledger.birth before.table.current child } := by
  have unused : (before.table.threads child).state = .unused := by simpa using List.find?_some free
  have apart : before.table.current ≠ child := by
    rintro rfl
    exact (Thread.alive_of_runs runs).1 unused
  have born := kept.born runs unused unnamed
  have still : ((before.table.createThread before.self.tid child).threads
      before.table.current).runs := by
    simpa [ThreadTable.createThread, apart] using runs
  simp only [ThreadTable.handleFork, free]
  refine born.goesOn (born.wait_of_runs still)
    ⟨rfl, rfl, Thread.alive_of_runs still, by simp [Thread.Alive]⟩ fun state linux => ?_
  have free := (born.idle _ kept.current state linux).2 still
  exact ⟨.inl free.1, fun _ => free⟩

theorem parentOf_some {slot parent : Nat} (found : table.parentOf maxThreads slot = some parent) :
    parent < maxThreads ∧ parent ≠ slot ∧ (table.threads slot).parentTid = parent := by
  unfold ThreadTable.parentOf at found
  simp only at found
  split_ifs at found with inside
  obtain rfl := Option.some.inj found
  omega

/-- An exit closes the thread at the processor and then wakes its parent. -/
theorem exitThread_eq (table : ThreadTable) (code : Int) :
    table.exitThread maxThreads code =
      let closed :=
        table.modify table.current fun thread =>
          { thread with exitCode := code, state := .zombie }
      match table.parentOf maxThreads table.current with
      | some parent =>
        closed.modify parent fun parent =>
          (parent.wake (table.threads table.current).tid code).noteExit code
      | none => closed := by
  unfold ThreadTable.exitThread
  cases found : table.parentOf maxThreads table.current with
  | none => simp [ThreadTable.modify]
  | some parent =>
    have apart := (parentOf_some found).2.1
    simp [ThreadTable.modify, apart, apart.symm, update_comm apart]

/-- A parent that is not blocked keeps its state and its Linux part. -/
theorem Thread.wake_awake {parent : Thread} (awake : parent.state ≠ .blocked) (child code : Int) :
    (parent.wake child code).noteExit code = parent ∨
      (∀ state, parent.personality ≠ .linux state) ∧
        ∃ status, (parent.wake child code).noteExit code =
          { parent with personality := .dos status } := by
  cases known : parent.personality <;> simp [Thread.wake, Thread.noteExit, awake, known]

/-- A blocked parent of a thread that may exit waits for just that. -/
theorem parent_waits {parent : Nat} {code : Int} (orderly : Orderly maxThreads before (.exit code))
    (found : before.table.parentOf maxThreads before.table.current = some parent)
    (blocked : (before.table.threads parent).state = .blocked) :
    before.AwaitsExit parent before.self.tid := by
  have waits := orderly parent found blocked
  obtain ⟨wait, known, asked⟩ := Option.any_eq_true _ _ |>.mp waits
  exact ⟨wait, known, asked⟩

include kept in
/-- The thread at the processor is a zombie. -/
theorem Kept.closed (code : Int) (runs : before.self.runs) :
    Kept maxThreads
      { table :=
          before.table.modify before.table.current fun thread =>
            { thread with exitCode := code, state := .zombie }
        ledger := before.note maxThreads (.exit code) .exited } := by
  have alive := Thread.alive_of_runs runs
  have here : before.record before.table.current ∈
      before.records maxThreads before.table.current :=
    mem_records.mpr ⟨⟨kept.current, alive.1⟩, rfl⟩
  have sound := kept.sound_of_runs runs
  refine kept.next before.table.current kept.current (fun other apart => ?_) rfl
    ?_ ?_ ?_ ?_ (.inr ?_)
  · simp [Watched.note, apart]
  · refine kept.registered.replace le_rfl fun record found => ?_
    obtain ⟨-, rfl⟩ := mem_records.mp found
    simp only [Watched.record, Watched.note, threads_modify, entries_modify, if_true]
    -- The record is that of the running thread but for its end.
    refine ⟨⟨sound.named, sound.numbered, fun _ => id, fun member => ?_⟩, ?_,
      fun other _ second known => ⟨?_, ?_⟩⟩
    · exact absurd member (kept.unreported_of_runs runs)
    · obtain ⟨distinct, forked⟩ := kept.registered.kin _ _ here _ _ here
      exact ⟨distinct, forked⟩
    · obtain ⟨distinct, forked⟩ := kept.registered.kin _ _ here _ _ known
      exact ⟨distinct, forked⟩
    · obtain ⟨distinct, forked⟩ := kept.registered.kin _ _ known _ _ here
      exact ⟨distinct, forked⟩
  · intro record found ended
    obtain ⟨-, rfl⟩ := mem_records.mp found
    simp [Watched.record, alive.2] at ended
  · intro _ wait waits
    simp [Watched.note, kept.wait_of_runs runs] at waits
  · simp only [threads_modify, if_true]
    intro state linux
    exact ⟨(kept.idle _ kept.current state linux).1, by simp [Thread.runs]⟩
  · simp [Watched.note, kept.wait_of_runs runs]

include kept in
/-- A child that has exited wakes its parent if that waits for it. -/
theorem Kept.wakes {parent : Nat} {child code : Int} (inside : parent < maxThreads)
    (apart : parent ≠ before.table.current)
    (ended :
      (before.table.threads parent).state = .blocked →
        ∃ wait, (before.ledger.entries parent).wait = some wait ∧
          Ended (before.records maxThreads) before.ledger.reports parent wait child code) :
    Kept maxThreads
      { before with
        table :=
          before.table.modify parent fun thread => (thread.wake child code).noteExit code } := by
  have atWork := kept.atWork
  by_cases blocked : (before.table.threads parent).state = .blocked
  · obtain ⟨wait, waits, ended⟩ := ended blocked
    obtain ⟨state, linux, pointer, noRead, noPoll, -⟩ :=
      kept.waiting parent inside (by simp [blocked]) wait waits
    have woken : ((before.table.threads parent).wake child code).noteExit code =
        { before.table.threads parent with
          state := .ready
          rax := child
          personality := .linux { state with waitExitCode := code } } := by
      simp [Thread.wake, Thread.noteExit, blocked, linux]
    refine kept.same parent kept.current (fun other distinct => by simp [distinct]) rfl rfl ?_ ?_ ?_
      (by simpa [Watched.self, apart.symm] using atWork)
    · simp [Watched.records, Watched.record, woken, blocked]
    · simp only [threads_modify, if_true, woken]
      intro _ _ known
      obtain rfl := Option.some.inj (waits.symm.trans known)
      exact ⟨_, rfl, pointer, noRead, noPoll, .inr ⟨rfl, ended⟩⟩
    · simp only [threads_modify, if_true, woken]
      rintro _ ⟨⟩
      exact ⟨.inl noRead, fun _ => ⟨noRead, noPoll⟩⟩
  · have idle := kept.idle parent inside
    have waiting := kept.waiting parent inside
    refine kept.same parent kept.current (fun other distinct => by simp [distinct]) rfl rfl ?_ ?_ ?_
      (by simpa [Watched.self, apart.symm] using atWork) <;>
      simp only [Watched.records, Watched.record, threads_modify, if_true] <;>
      rcases Thread.wake_awake blocked child code with same | ⟨foreign, status, same⟩ <;>
      rw [same]
    · exact waiting
    · intro used wait waits
      obtain ⟨state, linux, -⟩ := waiting used wait waits
      exact absurd linux (foreign state)
    · exact idle
    · exact nofun

include kept in
theorem Kept.exit (code : Int) (runs : before.self.runs)
    (orderly : Orderly maxThreads before (.exit code)) :
    Kept maxThreads
      { table := before.table.exitThread maxThreads code
        ledger := before.note maxThreads (.exit code) .exited } := by
  have closed := kept.closed code runs
  rw [exitThread_eq]
  cases found : before.table.parentOf maxThreads before.table.current with
  | none => exact closed
  | some parent =>
    obtain ⟨inside, apart, names⟩ := parentOf_some found
    have named : before.self.tid = before.table.current := (kept.sound_of_runs runs).named
    refine closed.wakes inside apart fun blocked => ?_
    replace blocked : (before.table.threads parent).state = .blocked := by
      simpa [apart] using blocked
    obtain ⟨wait, waits, asked⟩ := parent_waits orderly found blocked
    refine ⟨wait, by simpa [Watched.note, apart] using waits, before.table.current, _,
      mem_records.mpr ⟨⟨kept.current, by simp⟩, rfl⟩, named, ?_, ?_, named ▸ asked, ?_, ?_⟩
    · simp [Watched.record]
    · simpa [Watched.record] using names
    · simp [Watched.record, Watched.note, Watched.wakesParent, found, blocked]
    · simp only [Watched.record, Watched.note, entries_modify, if_true]
      exact kept.unreported_of_runs runs

/-- The child a scan finds. -/
theorem peekZombieChild_found {current : Nat} {pid : Int}
    (found : 0 ≤ (table.peekZombieChild maxThreads current pid).1) :
    ∃ child < maxThreads, (table.threads child).state = .zombie ∧
        (table.threads child).parentTid = (table.threads current).tid ∧
        waitsFor pid (table.threads child).tid ∧
        table.peekZombieChild maxThreads current pid =
          ((table.threads child).tid, (table.threads child).exitCode) := by
  unfold ThreadTable.peekZombieChild at found ⊢
  simp only at found ⊢
  split at found
  · rename_i child search
    have member := List.mem_of_find?_eq_some search
    have zombie := List.find?_some search
    obtain ⟨place, family⟩ := List.mem_filter.mp member
    have inside := List.mem_range.mp (List.mem_of_mem_drop place)
    simp only [Bool.and_eq_true, beq_iff_eq] at zombie family
    exact ⟨child, inside, zombie.1, family.1, zombie.2, rfl⟩
  · split_ifs at found <;> simp [eChild, eAgain] at found

include kept in
/-- The slot of a reported zombie is free. -/
theorem Kept.reaps {child : Nat} (inside : child < maxThreads)
    (apart : before.table.current ≠ child)
    (zombie : (before.table.threads child).state = .zombie)
    (fresh : (before.ledger.entries child).woke = false) :
    Kept maxThreads
      { table :=
          before.table.modify child fun thread =>
            { thread with personality := .linux .new, state := .unused }
        ledger := before.ledger.report child } := by
  have used : (before.table.threads child).state ≠ .unused := by simp [zombie]
  have vacated : Kept maxThreads
      { before with
        table :=
          before.table.modify child fun thread =>
            { thread with personality := .linux .new, state := .unused } } := by
    refine kept.next child kept.current (fun other distinct => by simp [distinct]) rfl ?_ ?_ ?_ ?_
      (by simpa [Watched.self, apart] using kept.atWork)
    · refine kept.registered.replace le_rfl fun record found => ?_
      have present := (mem_records.mp found).1.2
      simp at present
    · intro record found _ woke
      obtain ⟨-, rfl⟩ := mem_records.mp found
      simp [Watched.record, fresh] at woke
    · simp
    · simp only [threads_modify, if_true]
      rintro _ ⟨⟩
      exact ⟨.inl rfl, fun _ => ⟨rfl, rfl⟩⟩
  -- Nobody else has the serial number of the child.
  refine vacated.report (kept.sound inside used).numbered fun slot record found same => ?_
  obtain ⟨⟨within, present⟩, rfl⟩ := mem_records.mp found
  rcases eq_or_ne slot child with rfl | distinct
  · simp at present
  · simp only [threads_modify, if_neg distinct] at present
    exact absurd ((kept.kin within present inside used).distinct same) distinct

include kept in
/-- The result of an immediate wait4, and what it leaves. -/
theorem Kept.reported {pid : Int} {statusPtr : Nat} (runs : before.self.runs)
    (orderly : Orderly maxThreads before (.wait4 pid statusPtr)) {found : Int × Int}
    (known : found = before.table.peekZombieChild maxThreads before.table.current pid)
    (some : 0 ≤ found.1) :
    Reports before before.table.current { pid, statusPtr } found.1
        (Thread.storeStatus statusPtr found.2) ∧
      Kept maxThreads
        { table := (before.table.reap maxThreads found.1).returns found.1
          ledger := before.ledger.report found.1.toNat } := by
  subst known
  obtain ⟨child, inside, zombie, parent, asked, same⟩ := peekZombieChild_found some
  have alive := Thread.alive_of_runs runs
  have used : (before.table.threads child).state ≠ .unused := by simp [zombie]
  have sound := kept.sound inside used
  have named : (before.table.threads child).tid = child := sound.named
  have self : before.self.tid = before.table.current := (kept.sound_of_runs runs).named
  have fresh : (before.ledger.entries child).woke = false :=
    orderly child inside zombie parent asked
  have apart : before.table.current ≠ child := by
    rintro rfl
    exact alive.2 zombie
  have reap :
      before.table.reap maxThreads child =
        before.table.modify child fun thread =>
          { thread with personality := .linux .new, state := .unused } := by
    simp [ThreadTable.reap, inside, zombie]
  rw [same, named]
  simp only [Int.toNat_natCast]
  refine ⟨⟨?_, named ▸ asked, ⟨_, ?_, rfl⟩, fun member => ?_⟩, ?_⟩
  · exact (kept.kin inside used kept.current alive.1).forked (parent.trans self)
  · exact sound.exited _ (by simp [Watched.record, zombie])
  · have woke := (sound.reported member).2
    simp [Watched.record, fresh] at woke
  · rw [reap]
    exact (kept.reaps inside apart zombie fresh).returns
      (by simpa [Watched.self, apart] using runs) child

/-- The table after a thread was swapped in. -/
def Watched.swapIn (watched : Watched) (next : Nat) : ThreadTable :=
  { watched.table.modify next fun thread => thread.onResume.2 with current := next }

theorem Thread.onResume_same (thread : Thread) :
    thread.onResume.2.tid = thread.tid ∧
      thread.onResume.2.parentTid = thread.parentTid ∧
      thread.onResume.2.state = thread.state ∧
      thread.onResume.2.exitCode = thread.exitCode := by
  cases known : thread.personality <;> simp [Thread.onResume, known]

theorem Thread.Idle.onResume (idle : thread.Idle) : thread.onResume.2.Idle := by
  cases known : thread.personality with
  | linux state =>
    have free := idle state known
    simp only [Thread.onResume, known]
    rintro _ ⟨⟩
    exact free
  | dos _ | os2 | windows => simpa [Thread.onResume, known] using idle

theorem records_swapIn (before : Watched) (next : Nat) (wait : Option Wait) :
    Watched.records maxThreads
        { table := before.swapIn next
          ledger := before.ledger.modify next fun entry => { entry with wait } } =
      before.records maxThreads := by
  have same := Thread.onResume_same (before.table.threads next)
  funext slot
  rcases eq_or_ne slot next with rfl | other
  · simp [Watched.records, Watched.record, Watched.swapIn, same]
  · simp [Watched.records, Watched.record, Watched.swapIn, other]

include kept in
/-- A thread is swapped in; its wait4, if it stays, goes on. -/
theorem Kept.swapped {next : Nat} {wait : Option Wait} (inside : next < maxThreads)
    (goes :
      ∀ known, wait = some known →
        (before.ledger.entries next).wait = some known ∧
          (before.table.threads next).state = .blocked ∧
          (before.table.threads next).waitStatusPtr = 0) :
    Kept maxThreads
      { table := before.swapIn next
        ledger := before.ledger.modify next fun entry => { entry with wait } } := by
  have same := Thread.onResume_same (before.table.threads next)
  refine kept.same next inside (fun slot other => by simp [Watched.swapIn, other]) rfl rfl
    (congrFun (records_swapIn before next wait) next) ?_
    (by simpa [Watched.swapIn] using (kept.idle next inside).onResume) ?_
  · simp only [Watched.swapIn, threads_modify, entries_modify, if_true]
    intro _ known waits
    obtain ⟨waits, blocked, zero⟩ := goes known waits
    obtain ⟨state, linux, pointer, noRead, noPoll, -⟩ :=
      kept.waiting next inside (by simp [blocked]) known waits
    refine ⟨{ state with waitStatusPtr := 0 }, ?_, ?_, noRead, noPoll, .inl ?_⟩
    · simp [Thread.onResume, linux]
    · rw [← pointer]
      simpa [Thread.waitStatusPtr, linux] using zero.symm
    · rw [same.2.2.1, blocked]
  · cases waits : wait with
    | none => simp [Watched.swapIn]
    | some known => simp [Watched.self, Watched.swapIn, same, goes known waits]

include kept in
/-- A thread that returns from its wait4 reports a child. -/
theorem Kept.ended {next : Nat} {wait : Wait} (inside : next < maxThreads)
    (runs : (before.table.threads next).runs)
    (waits : (before.ledger.entries next).wait = some wait) :
    Reports before next wait (before.table.threads next).rax
        (before.table.threads next).onResume.1 ∧
      Kept maxThreads
        { table := before.swapIn next
          ledger :=
            (before.ledger.report (before.table.threads next).rax.toNat).modify next
                fun entry => { entry with wait := none } } := by
  have used := (Thread.alive_of_runs runs).1
  obtain ⟨state, linux, pointer, -, -, ends⟩ := kept.waiting next inside used wait waits
  obtain ⟨-, child, _, found, result, zombie, parent, asked, woke, once⟩ :=
    ends.resolve_left (Thread.awake_of_runs runs)
  obtain ⟨⟨within, present⟩, rfl⟩ := mem_records.mp found
  have sound := kept.sound within present
  rw [result]
  simp only [Int.toNat_natCast]
  refine ⟨⟨(kept.kin within present inside used).forked parent, asked,
    ⟨_, sound.exited _ zombie, ?_⟩, once⟩, ?_⟩
  · simp [Thread.onResume, linux, pointer]
  · have swapped := @Kept.swapped _ _ kept next none inside nofun
    refine swapped.report sound.numbered fun slot record known again => ?_
    rw [records_swapIn] at known
    obtain rfl := (kept.registered.kin slot record known child _ found).distinct again
    obtain rfl := Option.some.inj (known.symm.trans found)
    refine ⟨⟨by simp [zombie], woke⟩, fun other names => ?_⟩
    obtain rfl : next = other := by exact_mod_cast parent.symm.trans names
    simp

/-! ## Moves -/

/-- A move that is neither a wait4 result nor an exit. -/
theorem waitMove_of_silent {move : Move Watched ThreadCall ThreadAnswer} (silent :
      match move.input, move.answer with
      | .exit _, _ | .wait4 _ _, .reported _ _ => False
      | .switch next, .switched (some _) _ => (move.before.ledger.entries next).wait = none
      | _, _ => True) :
    WaitMove move := by
  constructor <;> intros <;> simp_all

include kept in
/-- A thread that is swapped in, and the result of its wait4 if it has one. -/
theorem Kept.switched {next : Nat} (orderly : Orderly maxThreads before (.switch next)) :
    WaitMove ((waitMachine maxThreads).move before (.switch next)) ∧
      Kept maxThreads (waitMachine maxThreads before (.switch next)).2 := by
  simp only [Machine.move, waitMachine, threadMachine, ThreadTable.switchTo]
  split_ifs with guard runs
  · have inside := guard.2.1
    cases waits : (before.ledger.entries next).wait with
    | none =>
      have swapped := @Kept.swapped _ _ kept next none inside nofun
      rw [modify_wait waits] at swapped
      simp only [Watched.note, waits, Option.isSome_none, Bool.false_eq_true, if_false]
      exact ⟨waitMove_of_silent waits, swapped⟩
    | some wait =>
      obtain ⟨reports, after⟩ := kept.ended inside runs waits
      simp only [Watched.note, waits, Option.isSome_some, if_true]
      refine ⟨⟨nofun, ?_, nofun⟩, after⟩
      rintro _ found rax store ⟨⟩ ⟨⟩ known
      obtain rfl := Option.some.inj (waits.symm.trans known)
      exact reports
  · have blocked := guard.2.2.resolve_left runs
    have swapped := kept.swapped guard.2.1 fun known waits => ⟨waits, blocked, orderly blocked⟩
    rw [modify_wait rfl] at swapped
    exact ⟨waitMove_of_silent trivial, swapped⟩
  · exact ⟨waitMove_of_silent trivial, kept⟩

include kept in
theorem Kept.waited {pid : Int} {statusPtr : Nat}
    (orderly : Orderly maxThreads before (.wait4 pid statusPtr)) :
    WaitMove ((waitMachine maxThreads).move before (.wait4 pid statusPtr)) ∧
      Kept maxThreads (waitMachine maxThreads before (.wait4 pid statusPtr)).2 := by
  simp only [Machine.move, waitMachine, threadMachine, ThreadTable.handleWait]
  split_ifs with guard found none
  · obtain ⟨reports, after⟩ := kept.reported guard.1 orderly rfl found
    refine ⟨⟨?_, nofun, nofun⟩, after⟩
    rintro _ _ child store ⟨⟩ ⟨⟩
    exact reports
  · exact ⟨waitMove_of_silent trivial, kept.returns guard.1 _⟩
  · obtain ⟨state, linux⟩ := Thread.isLinux_iff.mp guard.2
    have free := (kept.idle _ kept.current state linux).2 guard.1
    refine ⟨waitMove_of_silent trivial, kept.block guard.1 linux (.inl free.1) ?_⟩
    rintro _ ⟨⟩ noRead noPoll
    exact ⟨rfl, noRead, noPoll⟩
  · exact ⟨waitMove_of_silent trivial, kept⟩

include kept in
theorem Kept.exits {code : Int} (orderly : Orderly maxThreads before (.exit code)) :
    WaitMove ((waitMachine maxThreads).move before (.exit code)) ∧
      Kept maxThreads (waitMachine maxThreads before (.exit code)).2 := by
  simp only [Machine.move, waitMachine, threadMachine]
  split_ifs with runs
  · refine ⟨⟨nofun, nofun, ?_⟩, kept.exit code runs orderly⟩
    rintro _ slot - blocked undisturbed
    simp only at blocked undisturbed ⊢
    have apart : slot ≠ before.table.current := by
      rintro rfl
      exact Thread.awake_of_runs runs blocked
    rw [exitThread_eq]
    cases found : before.table.parentOf maxThreads before.table.current with
    | none => simp [apart]
    | some parent =>
      have other : slot ≠ parent := by
        rintro rfl
        exact undisturbed (parent_waits orderly found blocked)
      simp [apart, other]
  · exact ⟨⟨nofun, nofun, fun _ _ _ _ _ => rfl⟩, kept⟩

include kept in
/-- A read or a poll blocks. -/
theorem Kept.blocks {change : LinuxState → LinuxState}
    (guard : before.self.runs ∧ before.self.isLinux)
    (one :
      ∀ state, state.pendingRead = none → state.pendingPoll = none →
        (change state).pendingRead = none ∨ (change state).pendingPoll = none) :
    Kept maxThreads { before with table := (before.table.block change).2 } := by
  obtain ⟨state, linux⟩ := Thread.isLinux_iff.mp guard.2
  have free := (kept.idle _ kept.current state linux).2 guard.1
  have after := @Kept.block _ _ kept guard.1 change state linux none (one state free.1 free.2) nofun
  rwa [modify_wait (kept.wait_of_runs guard.1)] at after

include kept in
/-- Every orderly call moves lawfully and keeps the ledger right. -/
theorem Kept.moves {call : ThreadCall} (orderly : Orderly maxThreads before call) :
    WaitMove ((waitMachine maxThreads).move before call) ∧
      Kept maxThreads (waitMachine maxThreads before call).2 := by
  cases call with
  | exit code => exact kept.exits orderly
  | wait4 pid statusPtr => exact kept.waited orderly
  | switch next => exact kept.switched orderly
  | fork =>
    refine ⟨waitMove_of_silent trivial, ?_⟩
    simp only [waitMachine, threadMachine]
    split_ifs with guard
    · cases free : before.table.freeSlot maxThreads with
      | none =>
        have after := kept.returns guard.1 (-eNoMem)
        simpa [ThreadTable.handleFork, free, Watched.note] using after
      | some child =>
        have after := kept.fork guard.1 free (orderly child free)
        simpa [ThreadTable.handleFork, free, Watched.note] using after
    · exact kept
  | blockRead pending =>
    refine ⟨waitMove_of_silent trivial, ?_⟩
    simp only [waitMachine, threadMachine]
    split_ifs with guard
    · exact kept.blocks guard fun _ _ noPoll => .inr noPoll
    · exact kept
  | blockPoll pending =>
    refine ⟨waitMove_of_silent trivial, ?_⟩
    simp only [waitMachine, threadMachine]
    split_ifs with guard
    · exact kept.blocks guard fun _ noRead _ => .inl noRead
    · exact kept
  | completeIo count =>
    refine ⟨waitMove_of_silent trivial, ?_⟩
    simp only [waitMachine, threadMachine]
    split_ifs with guard
    · exact kept.complete count guard
    · exact kept

end Steps

end Keeping

/--
On every orderly run from a table in which nobody waits, each wait4 result
names a child that its caller forked and that has exited, asked for by the
call, with its status and for the first time; and an exit leaves alone
everybody who is blocked in anything but a wait4 for it.
-/
theorem wait4_reports_each_child_once {maxThreads : Nat}
    {table : ThreadTable} {calls : List ThreadCall}
    (quiet : Quiet maxThreads table)
    (orderly : (waitMachine maxThreads).Meets (Orderly maxThreads) (watch maxThreads table) calls) :
    ∀ move ∈ (waitMachine maxThreads).run (watch maxThreads table) calls, WaitMove move :=
  Machine.forall_run (fun _ _ kept orderly => (Kept.moves kept orderly).2)
    (fun _ _ kept orderly => (Kept.moves kept orderly).1)
    (watch_kept quiet) orderly

namespace Sample

/-- A table of four slots: the idle thread, and a shell at the processor. -/
def shell : ThreadTable where
  threads slot :=
    { tid := slot
      parentTid := slot - 1
      state := if slot = 0 then .running else if slot = 1 then .ready else .unused
      rax := 0
      exitCode := 0
      personality := .linux .new }
  current := 1

/-- One child is waited for in a blocked wait4, one is found exited. -/
def twoChildren : List ThreadCall :=
  [.fork, .switch 2, .switch 1, .wait4 (-1) 64, .switch 2, .exit 7,
    .switch 1, .fork, .switch 3, .exit 0, .switch 1, .wait4 3 0]

/-- A child wakes the shell from a wait4, which returns. -/
def woken : List ThreadCall :=
  [.fork, .switch 2, .switch 1, .wait4 (-1) 0, .switch 2, .exit 7, .switch 1]

/-- The shell reads from a pipe while its child runs. -/
def reading : List ThreadCall :=
  [.fork, .switch 2, .switch 1, .blockRead { pipe := 0, bufPtr := 64, bufLen := 1 }, .switch 2]

/--
A process that forked is reaped, its slot is given to a new one, and then
its child exits.
-/
def reused : List ThreadCall :=
  [.fork, .switch 2, .fork, .exit 0, .switch 1, .wait4 (-1) 0, .fork, .switch 3, .exit 5, .switch 2]

/-- The run of a table of four slots from the shell. -/
def run (calls : List ThreadCall) : List (Move Watched ThreadCall ThreadAnswer) :=
  (waitMachine 4).run (watch 4 shell) calls

/-- The last move of a run. -/
def last (calls : List ThreadCall) (call : ThreadCall) : Move Watched ThreadCall ThreadAnswer :=
  (waitMachine 4).move ((waitMachine 4).final (watch 4 shell) calls) call

theorem last_mem (calls : List ThreadCall) (call : ThreadCall) :
    last calls call ∈ run (calls ++ [call]) :=
  (waitMachine 4).last_mem_run (watch 4 shell) calls call

theorem shell_quiet : Quiet 4 shell where
  current := by decide
  named slot _ _ := rfl
  awake := by decide
  idle := by
    rintro slot _ _ ⟨⟩
    exact ⟨rfl, rfl⟩

end Sample

theorem two_children_are_reported :
    Quiet 4 Sample.shell ∧
      (waitMachine 4).Meets (Orderly 4) (watch 4 Sample.shell) Sample.twoChildren ∧
      ∀ move ∈ (waitMachine 4).run (watch 4 Sample.shell) Sample.twoChildren, WaitMove move := by
  have orderly :
      (waitMachine 4).Meets (Orderly 4) (watch 4 Sample.shell)
        Sample.twoChildren := by
    decide +kernel
  exact ⟨Sample.shell_quiet, orderly, wait4_reports_each_child_once Sample.shell_quiet orderly⟩

/--
The child that ended a blocked wait4 is reported again by the next; a parent
that reads is made ready with the child's number as the result of its read;
and a process is told of a child that an earlier process in its slot forked.
-/
theorem wait4_reports_wrongly :
    ((Sample.run (Sample.woken ++ [.wait4 (-1) 0])).map Move.answer).drop 6 =
        [.switched (some 2) none, .reported 2 none] ∧
      ¬ (∀ move ∈ Sample.run (Sample.woken ++ [.wait4 (-1) 0]), WaitMove move) ∧
      ¬ (∀ move ∈ Sample.run (Sample.reading ++ [.exit 7]), WaitMove move) ∧
      ¬ (∀ move ∈ Sample.run (Sample.reused ++ [.wait4 (-1) 0]), WaitMove move) := by
  refine ⟨by decide +kernel, ?_, ?_, ?_⟩
  · intro law
    have reports := (law _ (Sample.last_mem _ _)).immediate (-1) 0 2 none
      (by decide +kernel) (by decide +kernel)
    exact reports.once (by decide +kernel)
  · intro law
    have same := (law _ (Sample.last_mem _ _)).undisturbed 7 1
      (by decide +kernel) (by decide +kernel)
    have noWait : ((Sample.last Sample.reading (.exit 7)).before.ledger.entries 1).wait = none := by
      decide +kernel
    refine absurd (same ?_) (by decide +kernel)
    rintro ⟨wait, waits, -⟩
    exact absurd (noWait.symm.trans waits) (by simp)
  · intro law
    have reports := (law _ (Sample.last_mem _ _)).immediate (-1) 0 3 none
      (by decide +kernel) (by decide +kernel)
    exact absurd reports.forked (by decide +kernel)

end RetroOS.Kernel
