import Mathlib.Tactic

/-!
# Machines and their runs

A machine takes one input at a time, answers it and moves to its next state.
A run lists every input with the state it met and the answer it got.

What a run keeps is shown one move at a time.  The rules take a condition on
the state and the input, so that a law which only holds while every input
meets a condition is a law about the runs in which all of them do.
-/

namespace RetroOS.Lib

/-- One input of a run, what it met and what it led to. -/
structure Move (σ ι ο : Type) where
  before : σ
  input : ι
  answer : ο
  after : σ

/-- A machine with states in `σ`, inputs in `ι` and answers in `ο`. -/
abbrev Machine (σ ι ο : Type) : Type := σ → ι → ο × σ

namespace Machine

variable {σ ι ο : Type} (machine : Machine σ ι ο)

/-- The move a machine makes on an input. -/
def move (state : σ) (input : ι) : Move σ ι ο where
  before := state
  input
  answer := (machine state input).1
  after := (machine state input).2

/-- The moves on a list of inputs. -/
def run : σ → List ι → List (Move σ ι ο)
  | _, [] => []
  | state, input :: rest => machine.move state input :: run (machine state input).2 rest

/-- The state a list of inputs leads to. -/
def final : σ → List ι → σ
  | state, [] => state
  | state, input :: rest => final (machine state input).2 rest

/-- Every input of a run meets a condition in the state it arrives in. -/
def Meets (condition : σ → ι → Prop) : σ → List ι → Prop
  | _, [] => True
  | state, input :: rest => condition state input ∧ Meets condition (machine state input).2 rest

instance Meets.decidable {condition : σ → ι → Prop}
    [∀ state input, Decidable (condition state input)] :
    (state : σ) → (inputs : List ι) → Decidable (machine.Meets condition state inputs)
  | _, [] => .isTrue trivial
  | state, input :: rest =>
    @instDecidableAnd _ _ inferInstance (Meets.decidable (machine state input).2 rest)

theorem final_append (state : σ) (first second : List ι) :
    machine.final state (first ++ second) = machine.final (machine.final state first) second := by
  induction first generalizing state with
  | nil => rfl
  | cons input rest induction => exact induction _

/-- The last move of a run starts where the inputs before it led. -/
theorem last_mem_run (state : σ) (inputs : List ι) (last : ι) :
    machine.move (machine.final state inputs) last ∈ machine.run state (inputs ++ [last]) := by
  induction inputs generalizing state with
  | nil => exact List.mem_cons_self
  | cons input rest induction => exact List.mem_cons_of_mem _ (induction _)

variable {inputs : List ι}

section Rules

variable {machine} {condition : σ → ι → Prop} {invariant : σ → Prop} (step :
      ∀ state input, invariant state → condition state input → invariant (machine state input).2)

theorem meets_of_forall (holds : ∀ state input, condition state input)
    (state : σ) (inputs : List ι) :
    machine.Meets condition state inputs := by
  induction inputs generalizing state with
  | nil => trivial
  | cons input rest induction => exact ⟨holds state input, induction _⟩

include step

/-- What every move keeps holds at the end of a run. -/
theorem invariant_final {state : σ} (holds : invariant state)
    (meets : machine.Meets condition state inputs) :
    invariant (machine.final state inputs) := by
  induction inputs generalizing state with
  | nil => exact holds
  | cons input rest induction => exact induction (step state input holds meets.1) meets.2

variable {law : Move σ ι ο → Prop}

/-- A law of single moves holds of all moves of a run. -/
theorem forall_run {state : σ} (lawful :
      ∀ state input, invariant state → condition state input → law (machine.move state input))
    (holds : invariant state) (meets : machine.Meets condition state inputs) :
    ∀ move ∈ machine.run state inputs, law move := by
  induction inputs generalizing state with
  | nil => simp [run]
  | cons input rest induction =>
    intro move member
    simp only [run, List.mem_cons] at member
    rcases member with rfl | later
    · exact lawful state input holds meets.1
    · exact induction (step state input holds meets.1) meets.2 move later

/-- Where a law of moves is met exactly under a condition, so it is in runs. -/
theorem forall_run_iff_meets {state : σ} (exact :
      ∀ state input, invariant state → (law (machine.move state input) ↔ condition state input))
    (holds : invariant state) :
    (∀ move ∈ machine.run state inputs, law move) ↔ machine.Meets condition state inputs := by
  induction inputs generalizing state with
  | nil => simp [run, Meets]
  | cons input rest induction =>
    simp only [run, Meets, List.forall_mem_cons]
    rw [exact state input holds]
    refine and_congr_right fun met => ?_
    exact induction (step state input holds met)

omit step in
/-- A law of single moves that asks nothing of the inputs. -/
theorem forall_run_always {state : σ} (step :
      ∀ state input, invariant state → invariant (machine state input).2)
    (lawful : ∀ state input, invariant state → law (machine.move state input))
    (holds : invariant state) (inputs : List ι) :
    ∀ move ∈ machine.run state inputs, law move := by
  refine forall_run (fun state input known (_ : True) => step state input known)
    (fun state input known _ => lawful state input known) holds ?_
  exact meets_of_forall (fun _ _ => trivial) state inputs

/--
When each move takes from the front of a view what it gives out and adds to
the back what it is given, so does a run.
-/
theorem run_conserves {α : Type} {view : σ → List α} {given taken : Move σ ι ο → List α} {state : σ}
    (conserves :
      ∀ state input, invariant state → condition state input →
        view state ++ given (machine.move state input) =
          taken (machine.move state input) ++ view (machine state input).2)
    (holds : invariant state) (meets : machine.Meets condition state inputs) :
    view state ++ (machine.run state inputs).flatMap given =
      (machine.run state inputs).flatMap taken ++ view (machine.final state inputs) := by
  induction inputs generalizing state with
  | nil => simp [run, final]
  | cons input rest induction =>
    have next := induction (step state input holds meets.1) meets.2
    simp only [run, final, List.flatMap_cons]
    rw [← List.append_assoc, conserves state input holds meets.1,
      List.append_assoc, next, List.append_assoc]

end Rules

/--
Two machines in related states, as long as the inputs meet a condition, give
the same answers.
-/
theorem run_simulates {τ : Type} {machine : Machine σ ι ο} {reference : Machine τ ι ο}
    {condition : σ → ι → Prop} {related : σ → τ → Prop} (step :
      ∀ state ghost input, related state ghost → condition state input →
        (machine state input).1 = (reference ghost input).1 ∧
          related (machine state input).2 (reference ghost input).2) {state : σ} {ghost : τ}
    (start : related state ghost) (meets : machine.Meets condition state inputs) :
    (machine.run state inputs).map Move.answer = (reference.run ghost inputs).map Move.answer ∧
      related (machine.final state inputs) (reference.final ghost inputs) := by
  induction inputs generalizing state ghost with
  | nil => exact ⟨rfl, start⟩
  | cons input rest induction =>
    obtain ⟨answer, next⟩ := step state ghost input start meets.1
    obtain ⟨answers, last⟩ := induction next meets.2
    refine ⟨?_, last⟩
    simp only [run, List.map_cons]
    rw [answers]
    exact congrArg (· :: _) answer

end Machine

end RetroOS.Lib
