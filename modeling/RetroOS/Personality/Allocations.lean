import RetroOS.Lib.Bytes
import RetroOS.Lib.Machine
import RetroOS.Lib.Memory
import RetroOS.Lib.Regions

/-!
# Memory of OS/2 and Windows programs

Both personalities hand out pages from a cursor that only moves up, and record
what they handed out.  The cursor is compared with the end of the user's
addresses and with nothing else: neither with the modules, the stack and the
process pages that the loader placed, nor with pages that a Windows program
asked for by address.  Such pages are cleared even when they belong to a live
allocation, and the sum that rounds a size up to pages can wrap.

`allocations_apart` says when this is enough: the heap has a window of
addresses to itself.
-/

namespace RetroOS.Personality

open Lib

def userLimit : Nat := 0xC0000000

def pageSize : Nat := 4096

def errorNotEnoughMemory : Nat := 8

def errorInvalidParameter : Nat := 87

inductive PersonalityName where
  | os2
  | windows

def heapBase : PersonalityName → Nat
  | .os2 => 0x40000000
  | .windows => 0x50000000

theorem heapBase_mod (personality : PersonalityName) : heapBase personality % pageSize = 0 := by
  cases personality <;> decide

/-- The pages for the process data, and on Windows for its TEB and PEB. -/
def processPages : PersonalityName → List Region
  | .os2 => [⟨0x08000000, pageSize⟩]
  | .windows => [⟨0x7FFDC000, pageSize⟩, ⟨0x7FFDE000, pageSize⟩, ⟨0x7FFDF000, pageSize⟩]

/-- What the loader placed for a program. -/
structure Image where
  modules : List Region
  stack : Region

def Image.occupied (image : Image) (personality : PersonalityName) : List Region :=
  image.stack :: (image.modules ++ processPages personality)

/-- The memory of a process and the record of its allocations. -/
structure Process where
  memory : Memory UInt8
  allocations : List Region
  heapNext : Nat
  lastError : Nat

/-- Where pages shall lie, if a caller says so, and for how many bytes. -/
structure Request where
  named : Option Nat
  size : UInt32

/-- A size, at least one byte, in whole pages. -/
def wholePages (size : UInt32) : Nat :=
  (max size.toNat 1 + (pageSize - 1)) / pageSize * pageSize % 2 ^ 32

def zero (memory : Memory UInt8) (region : Region) : Memory UInt8 :=
  fun address => if region.addr ≤ address ∧ address < region.stop then 0 else memory address

namespace Process

def new (personality : PersonalityName) (memory : Memory UInt8) : Process where
  memory
  allocations := []
  heapNext := heapBase personality
  lastError := 0

variable (process : Process)

/-- The pages that a request would get. -/
def pages (request : Request) : Region where
  addr := request.named.getD process.heapNext
  size := wholePages request.size

def allocate (request : Request) : Option Process :=
  let region := process.pages request
  -- An end that does not fit 32 bits is behind the limit too.
  if userLimit ≤ region.stop then none
  else
    some { process with
      memory := zero process.memory region
      allocations := process.allocations ++ [region]
      heapNext := if request.named = none then region.stop else process.heapNext }

/-- Take an entry out; the last one fills its place. -/
def swapRemove (regions : List Region) (index : Nat) : List Region :=
  match regions.getLast? with
  | none => []
  | some last => (regions.set index last).dropLast

def release (address : Nat) : Option Process :=
  (process.allocations.findIdx? (·.addr == address)).map fun index =>
    { process with allocations := swapRemove process.allocations index }

end Process

inductive MemoryCall : PersonalityName → Type
  | dosAllocMem (out size : UInt32) : MemoryCall .os2
  | dosFreeMem (address : UInt32) : MemoryCall .os2
  | virtualAlloc (requested size : UInt32) : MemoryCall .windows
  | virtualFree (base : UInt32) : MemoryCall .windows

/-- The page at a requested address, if there is one. -/
def pageOf (requested : UInt32) : Option Nat :=
  if requested = 0 then none else some (requested.toNat / pageSize * pageSize)

/-- What a call asks for. -/
def MemoryCall.request {personality : PersonalityName} : MemoryCall personality → Option Request
  | .dosAllocMem _ size => some ⟨none, size⟩
  | .virtualAlloc requested size => some ⟨pageOf requested, size⟩
  | .dosFreeMem _ | .virtualFree _ => none

/-- A Windows call leaves its error behind and returns null or false. -/
def Process.fail (process : Process) (error : Nat) : Nat × Process :=
  (0, { process with lastError := error })

def memoryMachine (personality : PersonalityName) : Machine Process (MemoryCall personality) Nat :=
  fun process call =>
    match call with
    | .dosAllocMem out size =>
      match process.allocate ⟨none, size⟩ with
      | none => (errorNotEnoughMemory, process)
      | some after =>
        (0, { after with
          memory := after.memory.store out.toNat (Bytes.leBytes 4 process.heapNext) })
    | .dosFreeMem address =>
      match process.release address.toNat with
      | none => (errorInvalidParameter, process)
      | some after => (0, after)
    | .virtualAlloc requested size =>
      let request := ⟨pageOf requested, size⟩
      match process.allocate request with
      | none => process.fail errorNotEnoughMemory
      | some after => ((process.pages request).addr, after)
    | .virtualFree base =>
      match process.release base.toNat with
      | none => process.fail errorInvalidParameter
      | some after => (1, after)

/-! ## The law of a call -/

/-- OS/2 calls return an error code, Windows calls null or false. -/
def reportsFailure : PersonalityName → Nat → Prop
  | .os2, answer => answer ≠ 0
  | .windows, answer => answer = 0

/-- The call recorded a region for what it was asked. -/
def Grants {personality : PersonalityName} (move : Move Process (MemoryCall personality) Nat)
    (request : Request) (region : Region) : Prop :=
  move.input.request = some request ∧
    move.after.allocations = move.before.allocations ++ [region]

structure AllocationLaw {personality : PersonalityName} (image : Image)
    (move : Move Process (MemoryCall personality) Nat) : Prop where
  fresh :
    ∀ request region, Grants move request region → request.named = none →
      region.addr % pageSize = 0 ∧
        ∀ other ∈ move.before.allocations ++ image.occupied personality,
          Disjoint region.extent other.extent
  whole :
    ∀ request region, Grants move request region →
      request.size.toNat ≤ region.size ∧ region.stop < userLimit
  contents :
    ∀ request ∈ move.input.request, request.named ≠ none →
      ∀ live ∈ move.before.allocations, ∀ address ∈ live.extent,
        move.after.memory address = move.before.memory address
  unchanged :
    reportsFailure personality move.answer → ∃ error,
      move.after = { move.before with lastError := error }

/--
The size fits into 32 bits when it is rounded up.  Pages at the cursor end in
the window; named pages lie outside it, behind the first page, and in no live
allocation.
-/
def Confined {personality : PersonalityName} (ceiling : Nat) (process : Process)
    (call : MemoryCall personality) : Prop :=
  ∀ request ∈ call.request, request.size.toNat ≤ 2 ^ 32 - pageSize ∧
    (request.named = none → (process.pages request).stop ≤ ceiling) ∧
    (request.named ≠ none → (process.pages request).addr ≠ 0 ∧
      ((process.pages request).stop ≤ process.heapNext ∨ ceiling ≤ (process.pages request).addr) ∧
      ∀ live ∈ process.allocations, live.Apart (process.pages request))

instance {personality : PersonalityName} (ceiling : Nat) (process : Process)
    (call : MemoryCall personality) : Decidable (Confined ceiling process call) :=
  inferInstanceAs (Decidable (∀ request ∈ call.request, _))

/-! ## One call -/

section Step

variable {personality : PersonalityName} {process : Process} {call : MemoryCall personality}
    {result : Nat × Process}

/-- All that a call can do. -/
inductive Outcome (process : Process) (call : MemoryCall personality) : Nat × Process → Prop
  | refused (answer error : Nat) :
    Outcome process call (answer, { process with lastError := error })
  | released (answer : Nat) {address : Nat} {after : Process}
      (found : process.release address = some after) (none : call.request = none)
      (reports : ¬ reportsFailure personality answer) : Outcome process call (answer, after)
  | granted (answer : Nat) (memory : Memory UInt8) {request : Request} {after : Process}
      (asked : call.request = some request) (found : process.allocate request = some after)
      (reports : reportsFailure personality answer → (process.pages request).addr = 0)
      (kept : request.named ≠ none → memory = after.memory) :
    Outcome process call (answer, { after with memory })

theorem memoryMachine_outcome (process : Process) (call : MemoryCall personality) :
    Outcome process call (memoryMachine personality process call) := by
  cases call with
  | dosAllocMem out size =>
    simp only [memoryMachine]
    split
    · exact .refused errorNotEnoughMemory process.lastError
    · next after found =>
      exact .granted 0 _ rfl found (fun failed => absurd rfl failed) fun named => absurd rfl named
  | virtualAlloc requested size =>
    simp only [memoryMachine]
    split
    · exact .refused 0 errorNotEnoughMemory
    · next after found => exact .granted _ after.memory rfl found id fun _ => rfl
  | dosFreeMem address =>
    simp only [memoryMachine]
    split
    · exact .refused errorInvalidParameter process.lastError
    · next after found => exact .released 0 found rfl fun failed => failed rfl
  | virtualFree base =>
    simp only [memoryMachine]
    split
    · exact .refused 0 errorInvalidParameter
    · next after found => exact .released 1 found rfl Nat.one_ne_zero

theorem release_eq_some {address : Nat} {after : Process}
    (found : process.release address = some after) :
    ∃ allocations, after = { process with allocations } ∧
      ∀ region ∈ allocations, region ∈ process.allocations := by
  obtain ⟨index, -, rfl⟩ := Option.map_eq_some_iff.mp found
  refine ⟨_, rfl, fun region member => ?_⟩
  unfold Process.swapRemove at member
  split at member
  · cases member
  · next last known =>
    rcases List.mem_or_eq_of_mem_set (List.mem_of_mem_dropLast member) with old | rfl
    · exact old
    · exact List.mem_of_getLast? known

theorem allocate_eq_some {request : Request} {after : Process}
    (found : process.allocate request = some after) :
    (process.pages request).stop < userLimit ∧
      (request.named = none → (process.pages request).addr = process.heapNext) ∧
      after = { process with
        memory := zero process.memory (process.pages request)
        allocations := process.allocations ++ [process.pages request]
        heapNext :=
          if request.named = none then (process.pages request).stop else process.heapNext } := by
  unfold Process.allocate at found
  dsimp only at found
  rw [Option.ite_none_left_eq_some] at found
  exact ⟨not_le.mp found.1, fun none => by rw [Process.pages, none, Option.getD_none],
    (Option.some.inj found.2).symm⟩

/-- The cursor stands on a page; the record lies around what is left of the window. -/
structure Process.Sound (personality : PersonalityName) (ceiling : Nat) (process : Process) :
    Prop where
  base : heapBase personality ≤ process.heapNext
  page : process.heapNext % pageSize = 0
  around : ∀ live ∈ process.allocations, live.stop ≤ process.heapNext ∨ ceiling ≤ live.addr

theorem wholePages_spec {size : UInt32} (small : size.toNat ≤ 2 ^ 32 - pageSize) :
    size.toNat ≤ wholePages size ∧ wholePages size % pageSize = 0 := by
  unfold wholePages pageSize at *
  omega

variable {ceiling : Nat} {image : Image} (sound : process.Sound personality ceiling)
    (confined : Confined ceiling process call) (outcome : Outcome process call result)

include sound confined outcome

theorem Outcome.keeps : result.2.Sound personality ceiling := by
  obtain ⟨base, page, around⟩ := sound
  cases outcome with
  | refused => exact ⟨base, page, around⟩
  | released answer found =>
    obtain ⟨allocations, rfl, old⟩ := release_eq_some found
    exact ⟨base, page, fun live member => around live (old live member)⟩
  | @granted answer memory request after asked found =>
    obtain ⟨small, free, named⟩ := confined request asked
    have pages := (wholePages_spec small).2
    obtain ⟨-, cursor, rfl⟩ := allocate_eq_some found
    by_cases unnamed : request.named = none
    · have grows : process.heapNext ≤ (process.pages request).stop :=
        cursor unnamed ▸ Nat.le_add_right _ _
      rw [if_pos unnamed]
      refine ⟨base.trans grows, ?_, fun live member => ?_⟩
      · change ((process.pages request).addr + wholePages request.size) % pageSize = 0
        rw [cursor unnamed, Nat.add_mod, page, pages]
        rfl
      · rcases List.mem_append.mp member with old | new
        · exact (around live old).imp_left fun below => below.trans grows
        · exact .inl (List.mem_singleton.mp new ▸ le_rfl)
    · rw [if_neg unnamed]
      refine ⟨base, page, fun live member => ?_⟩
      rcases List.mem_append.mp member with old | new
      · exact around live old
      · exact List.mem_singleton.mp new ▸ (named unnamed).2.1

theorem Outcome.law (clear :
      ∀ region ∈ image.occupied personality,
        region.stop ≤ heapBase personality ∨ ceiling ≤ region.addr) :
    AllocationLaw image ⟨process, call, result.1, result.2⟩ := by
  obtain ⟨base, page, around⟩ := sound
  cases outcome with
  | refused answer error =>
    refine ⟨fun _ _ grants => ?_, fun _ _ grants => ?_, fun _ _ _ _ _ _ _ => rfl,
      fun _ => ⟨error, rfl⟩⟩ <;> simpa using grants.2
  | released answer found none reports =>
    refine ⟨fun _ _ grants => ?_, fun _ _ grants => ?_, fun _ asked => ?_,
      fun failed => absurd failed reports⟩
    · cases none.symm.trans grants.1
    · cases none.symm.trans grants.1
    · cases none.symm.trans asked
  | @granted answer memory request after asked found reports kept =>
    obtain ⟨small, free, named⟩ := confined request asked
    obtain ⟨room, cursor, rfl⟩ := allocate_eq_some found
    constructor
    case fresh =>
      rintro _ region ⟨again, recorded⟩ unnamed
      cases asked.symm.trans again
      obtain rfl := List.singleton_inj.mp (List.append_cancel_left recorded)
      refine ⟨cursor unnamed ▸ page, fun other member => ?_⟩
      have beside : other.stop ≤ process.heapNext ∨ ceiling ≤ other.addr := by
        rcases List.mem_append.mp member with live | placed
        · exact around other live
        · exact (clear other placed).imp_left base.trans'
      rcases beside with below | above
      · exact (Region.disjoint_of_le (cursor unnamed ▸ below)).symm
      · exact Region.disjoint_of_le ((free unnamed).trans above)
    case whole =>
      rintro _ region ⟨again, recorded⟩
      cases asked.symm.trans again
      obtain rfl := List.singleton_inj.mp (List.append_cancel_left recorded)
      exact ⟨(wholePages_spec small).1, room⟩
    case contents =>
      intro _ again chosen live member address inside
      cases asked.symm.trans again
      have apart := Region.disjoint_extent_iff.mpr ((named chosen).2.2 live member)
      rw [kept chosen]
      exact if_neg fun own => Set.disjoint_left.mp apart inside (Region.mem_extent.mpr own)
    case unchanged =>
      intro failed
      have null := reports failed
      by_cases unnamed : request.named = none
      · rw [← cursor unnamed, null] at base
        cases personality <;> simp [heapBase] at base
      · exact absurd null (named unnamed).1

end Step

/--
While nothing else lies between the base of the heap and a ceiling, the pages
that a call gets are its own and hold what it asked for, named pages keep the
contents of the others, and a call that fails changes nothing.
-/
theorem allocations_apart {personality : PersonalityName} (image : Image) (memory : Memory UInt8)
    (ceiling : Nat) (calls : List (MemoryCall personality))
    (clear :
      ∀ region ∈ image.occupied personality,
        region.stop ≤ heapBase personality ∨ ceiling ≤ region.addr)
    (confined :
      (memoryMachine personality).Meets (Confined ceiling) (.new personality memory) calls) :
    ∀ move ∈ (memoryMachine personality).run (.new personality memory) calls,
      AllocationLaw image move := by
  refine Machine.forall_run
    (fun process call sound met => (memoryMachine_outcome process call).keeps sound met)
    (fun process call sound met => (memoryMachine_outcome process call).law sound met clear)
    ⟨le_rfl, heapBase_mod personality, fun _ member => by cases member⟩ confined

/-- A module and a stack where they usually lie. -/
def plainImage : Image where
  modules := [⟨0x400000, 0x10000⟩]
  stack := ⟨0xBFEF0000, 0x10000⟩

/-- Pages at the cursor, pages of the program's choice, and the first ones given back. -/
def plainCalls : List (MemoryCall .windows) :=
  [.virtualAlloc 0 5000, .virtualAlloc 0x30000000 1, .virtualFree 0x50000000]

theorem plain_allocations_apart :
    (memoryMachine .windows).Meets (Confined 0x7FFDC000) (.new .windows fun _ => 0) plainCalls ∧
      ∀ move ∈ (memoryMachine .windows).run (.new .windows fun _ => 0) plainCalls,
        AllocationLaw plainImage move := by
  have confined : (memoryMachine .windows).Meets (Confined 0x7FFDC000) (.new .windows fun _ => 0)
      plainCalls := by
    decide +kernel
  exact ⟨confined, allocations_apart plainImage _ _ _ (by decide) confined⟩

/-- Pages from the cursor on reach the process data. -/
theorem allocation_covers_process_data :
    ¬ ∀ move ∈ (memoryMachine .windows).run (.new .windows fun _ => 0)
        [.virtualAlloc 0 0x30000000],
      AllocationLaw plainImage move := by
  intro lawful
  have fresh := (lawful _ List.mem_cons_self).fresh _ ⟨0x50000000, 0x30000000⟩
    ⟨rfl, by decide +kernel⟩ rfl
  have apart := fresh.2 ⟨0x7FFDC000, pageSize⟩ (by decide)
  exact absurd (Region.disjoint_extent_iff.mp apart) (by decide)

end RetroOS.Personality
