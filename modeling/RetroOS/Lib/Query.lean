import RetroOS.Lib.Bytes

/-!
# Programs that only read a device

A `Query` is a program whose effects are reads of a byte-addressed device
and fallible memory reservations.  It is a finite tree: each read node
continues with the bytes the device returned, and a leaf either returns a
value or reports an error of the program's own.

A query has no way to write.  `eval` executes it against a device that answers
every read with bytes or with an error.  `All` is the postcondition that holds
for every answer a device could give.
-/

namespace RetroOS.Lib

open Bytes

/-- A read-only program with errors in `ε` and results in `α`. -/
inductive Query (ε : Type) (α : Type) where
  | done (value : α)
  | fail (error : ε)
  | read (offset length : Nat) (next : Bytes → Query ε α)
  | reserve (next : Query ε α)

namespace Query

variable {ε α β γ : Type}

/-- Sequencing. -/
def bind : Query ε α → (α → Query ε β) → Query ε β
  | .done value, next => next value
  | .fail error, _ => .fail error
  | .read offset length rest, next => .read offset length fun bytes => (rest bytes).bind next
  | .reserve rest, next => .reserve (rest.bind next)

instance : Monad (Query ε) where
  pure := .done
  bind := .bind

/-- Stop with `error` when `condition` holds. -/
def refuseIf (condition : Prop) [Decidable condition] (error : ε) : Query ε Unit :=
  if condition then .fail error else .done ()

/-- The value of an option, or stop with `error`. -/
def orFail (value : Option α) (error : ε) : Query ε α :=
  match value with
  | some value => .done value
  | none => .fail error

@[simp]
theorem pure_eq (value : α) : (pure value : Query ε α) = .done value := rfl

@[simp]
theorem bind_eq (program : Query ε α) (next : α → Query ε β) :
    (program >>= next) = program.bind next :=
  rfl

/-! ## Execution on an answering device -/

/-- A device that answers every read. -/
abbrev Answers (ε : Type) := Nat → Nat → Except ε Bytes

/-- Execute against a device whose answers depend on the request only. -/
def eval (answers : Answers ε) : Query ε α → Except ε α
  | .done value => .ok value
  | .fail error => .error error
  | .read offset length next =>
    match answers offset length with
    | .ok bytes => (next bytes).eval answers
    | .error error => .error error
  | .reserve next => next.eval answers

variable {program : Query ε α} {error : ε} {next : α → Query ε β} {option : Option α}
    {condition : Prop} [Decidable condition]

section Eval

variable (answers : Answers ε)

@[simp]
theorem eval_done (value : α) : (Query.done value : Query ε α).eval answers = .ok value := rfl

@[simp]
theorem eval_fail (error : ε) : (Query.fail error : Query ε α).eval answers = .error error := rfl

@[simp]
theorem eval_reserve (next : Query ε α) : (Query.reserve next).eval answers = next.eval answers :=
  rfl

@[simp]
theorem eval_bind (program : Query ε α) (next : α → Query ε β) :
    (program.bind next).eval answers =
      (program.eval answers).bind fun value => (next value).eval answers := by
  induction program with
  | done value => rfl
  | fail error => rfl
  | read offset length rest induction =>
    simp only [bind, eval]
    cases answers offset length with
    | error error => rfl
    | ok bytes => exact induction bytes
  | reserve rest induction => simpa only [bind, eval] using induction

theorem eval_refuseIf :
    (refuseIf condition error).eval answers = if condition then .error error else .ok () := by
  unfold refuseIf
  split <;> rfl

variable {answers}

theorem eval_bind_of_ok {value : α} (ok : program.eval answers = .ok value) :
    (program.bind next).eval answers = (next value).eval answers := by
  rw [eval_bind, ok]
  rfl

/-- A check that passes is skipped. -/
theorem eval_refuseIf_bind {next : Unit → Query ε α} (passed : ¬ condition) :
    ((refuseIf condition error).bind next).eval answers = (next ()).eval answers :=
  eval_bind_of_ok (by rw [eval_refuseIf, if_neg passed])

theorem eval_orFail_bind {value : α} (found : option = some value) :
    ((orFail option error).bind next).eval answers = (next value).eval answers :=
  eval_bind_of_ok (by rw [found]; rfl)

end Eval

/-! ## Inversion of successful executions -/

theorem except_bind_ok {result : Except ε α} {next : α → Except ε β} {value : β}
    (ok : result.bind next = .ok value) :
    ∃ middle, result = .ok middle ∧ next middle = .ok value := by
  cases result with
  | error error => cases ok
  | ok middle => exact ⟨middle, rfl, ok⟩

variable {answers : Answers ε}

theorem eval_bind_ok {value : β} (ok : (program.bind next).eval answers = .ok value) :
    ∃ middle, program.eval answers = .ok middle ∧ (next middle).eval answers = .ok value := by
  rw [eval_bind] at ok
  exact except_bind_ok ok

theorem eval_refuseIf_ok {value : Unit} (ok : (refuseIf condition error).eval answers = .ok value) :
    ¬ condition := by
  intro holds
  simp [refuseIf, holds] at ok

theorem eval_orFail_ok {value : α} (ok : (orFail option error).eval answers = .ok value) :
    option = some value := by
  cases option with
  | none => cases ok
  | some found =>
    simp only [orFail, eval, Except.ok.injEq] at ok
    rw [ok]

theorem eval_refuseIf_bind_ok {next : Unit → Query ε α} {value : α}
    (ok : ((refuseIf condition error).bind next).eval answers = .ok value) :
    ¬ condition ∧ (next ()).eval answers = .ok value := by
  obtain ⟨_, passed, rest⟩ := eval_bind_ok ok
  exact ⟨eval_refuseIf_ok passed, rest⟩

theorem eval_orFail_bind_ok {value : β}
    (ok : ((orFail option error).bind next).eval answers = .ok value) :
    ∃ found, option = some found ∧ (next found).eval answers = .ok value := by
  obtain ⟨found, passed, rest⟩ := eval_bind_ok ok
  exact ⟨found, eval_orFail_ok passed, rest⟩

/-! ## Postconditions -/

/--
Every leaf reachable with answers of the requested length satisfies `post`.
-/
def All (post : α → Prop) : Query ε α → Prop
  | .done value => post value
  | .fail _ => True
  | .read _ length next => ∀ bytes, bytes.length = length → (next bytes).All post
  | .reserve next => next.All post

section All

variable {post : α → Prop}

@[simp]
theorem all_done (value : α) : (Query.done value : Query ε α).All post ↔ post value := Iff.rfl

@[simp]
theorem all_fail (error : ε) : (Query.fail error : Query ε α).All post :=
  trivial

@[simp]
theorem all_reserve (next : Query ε α) : (Query.reserve next).All post ↔ next.All post := Iff.rfl

@[simp]
theorem all_read (offset length : Nat) (next : Bytes → Query ε α) :
    (Query.read offset length next).All post ↔
      ∀ bytes, bytes.length = length → (next bytes).All post :=
  Iff.rfl

theorem all_refuseIf {post : Unit → Prop} (holds : ¬ condition → post ()) :
    (refuseIf condition error).All post := by
  unfold refuseIf
  split
  · trivial
  · rename_i accepted
    exact holds accepted

theorem All.mono {weaker : α → Prop} (holds : program.All post)
    (implies : ∀ value, post value → weaker value) :
    program.All weaker := by
  induction program with
  | done value => exact implies value holds
  | fail error => trivial
  | read offset length next induction =>
    intro bytes lengthEq
    exact induction bytes (holds bytes lengthEq)
  | reserve next induction => exact induction holds

theorem All.bind {final : β → Prop} (holds : program.All post)
    (step : ∀ value, post value → (next value).All final) :
    (program.bind next).All final := by
  induction program with
  | done value => exact step value holds
  | fail error => trivial
  | read offset length rest induction =>
    intro bytes lengthEq
    exact induction bytes (holds bytes lengthEq)
  | reserve rest induction => exact induction holds

theorem All.and {other : α → Prop} (holds : program.All post) (also : program.All other) :
    program.All fun value => post value ∧ other value := by
  induction program with
  | done value => exact ⟨holds, also⟩
  | fail error => trivial
  | read offset length next induction =>
    intro bytes lengthEq
    exact induction bytes (holds bytes lengthEq) (also bytes lengthEq)
  | reserve next induction => exact induction holds also

theorem all_true (program : Query ε α) : program.All fun _ => True := by
  induction program with
  | done value => trivial
  | fail error => trivial
  | read offset length next induction =>
    intro bytes _
    exact induction bytes
  | reserve next induction => exact induction

/-- A step whose result is not described. -/
theorem all_bind_of_forall {final : β → Prop} (step : ∀ value, (next value).All final) :
    (program.bind next).All final :=
  (all_true program).bind fun value _ => step value

theorem all_refuseIf_bind {next : Unit → Query ε α} (step : ¬ condition → (next ()).All post) :
    ((refuseIf condition error).bind next).All post :=
  (all_refuseIf step).bind fun _ holds => holds

theorem all_orFail_bind {option : Option β} {next : β → Query ε α}
    (step : ∀ value, option = some value → (next value).All post) :
    ((orFail option error).bind next).All post := by
  cases option with
  | none => trivial
  | some value => exact step value rfl

theorem all_ite {yes no : Query ε α} (whenTrue : condition → yes.All post)
    (whenFalse : ¬ condition → no.All post) :
    (if condition then yes else no).All post := by
  split
  · rename_i holds
    exact whenTrue holds
  · rename_i fails
    exact whenFalse fails

end All

/-! ## Programs without an error of their own -/

/-- Whatever the device answers, the program returns a value. -/
def Succeeds (program : Query ε α) : Prop :=
  ∀ answers : Answers ε, ∃ value, program.eval answers = .ok value

section Succeeds

theorem succeeds_done (value : α) : (Query.done value : Query ε α).Succeeds := fun _ => ⟨value, rfl⟩

theorem succeeds_reserve {next : Query ε α} : (Query.reserve next).Succeeds ↔ next.Succeeds :=
  Iff.rfl

theorem Succeeds.bind (succeeds : program.Succeeds) (step : ∀ value, (next value).Succeeds) :
    (program.bind next).Succeeds := by
  intro answers
  obtain ⟨value, ok⟩ := succeeds answers
  rw [eval_bind_of_ok ok]
  exact step value answers

theorem succeeds_refuseIf_bind {next : Unit → Query ε α} (passed : ¬ condition) :
    ((refuseIf condition error).bind next).Succeeds ↔ (next ()).Succeeds := by
  simp only [Succeeds, eval_refuseIf_bind passed]

theorem succeeds_orFail_bind {value : α} (found : option = some value) :
    ((orFail option error).bind next).Succeeds ↔ (next value).Succeeds := by
  simp only [Succeeds, eval_orFail_bind found]

end Succeeds

/-! ## Postconditions of executions -/

/-- Answers fill the whole buffer. -/
def Answers.Full (answers : Answers ε) : Prop :=
  ∀ offset length bytes, answers offset length = .ok bytes → bytes.length = length

theorem All.eval {post : α → Prop} {value : α} (holds : program.All post) (full : answers.Full)
    (ok : program.eval answers = .ok value) :
    post value := by
  induction program with
  | done found =>
    cases ok
    exact holds
  | fail error => cases ok
  | read offset length next induction =>
    simp only [Query.eval] at ok
    split at ok
    · rename_i bytes answered
      exact induction bytes (holds bytes (full offset length bytes answered)) ok
    · cases ok
  | reserve next induction => exact induction holds ok

end Query

end RetroOS.Lib
