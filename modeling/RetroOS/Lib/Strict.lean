import RetroOS.Lib.Query

/-!
# Programs that may panic

The operations of a program are partial: an index may lie outside its array,
a difference may be negative.  A program over `Stop` says so at each of them
by a `demand`.  `Agree` compares it with the program in which every operation
has a value: they end alike, so the first one does not panic.
-/

namespace RetroOS.Lib

open Bytes

/-- How a program stops without a value. -/
inductive Stop (ε : Type) where
  | error (error : ε)
  | panic
  deriving DecidableEq

namespace Query

variable {ε α β : Type}

/-- Panic unless the condition holds. -/
def demand (condition : Prop) [Decidable condition] : Query (Stop ε) Unit :=
  refuseIf (¬ condition) .panic

variable {condition : Prop} [Decidable condition]

theorem eval_demand_bind_panic {answers : Answers (Stop ε)} {next : Unit → Query (Stop ε) α}
    (fails : ¬ condition) :
    ((demand condition).bind next).eval answers = .error .panic := by
  unfold demand refuseIf
  rw [if_pos fails]
  rfl

/-- A program without partial operations. -/
def report : Query ε α → Query (Stop ε) α
  | .done value => .done value
  | .fail error => .fail (.error error)
  | .read offset length next => .read offset length fun bytes => (next bytes).report
  | .reserve next => .reserve next.report

/-- The same device, for a program that may panic. -/
def Answers.report (answers : Answers ε) : Answers (Stop ε) := fun offset length =>
  (answers offset length).mapError .error

/-- Both programs end alike; in particular the first one does not panic. -/
def Agree (answers : Answers ε) (strict : Query (Stop ε) α) (plain : Query ε α) : Prop :=
  strict.eval answers.report = (plain.eval answers).mapError .error

variable {answers : Answers ε} {strict : Query (Stop ε) α} {plain : Query ε α} {error : ε}

theorem Agree.no_panic (agree : Agree answers strict plain) :
    strict.eval answers.report ≠ .error .panic := by
  rw [agree]
  cases plain.eval answers <;> simp [Except.mapError]

theorem Agree.eval_ok (agree : Agree answers strict plain) {value : α}
    (ok : strict.eval answers.report = .ok value) : plain.eval answers = .ok value := by
  rw [agree] at ok
  cases result : plain.eval answers with
  | error error => simp [result, Except.mapError] at ok
  | ok found => simpa [result, Except.mapError] using ok

theorem Agree.bind {next : α → Query (Stop ε) β} {rest : α → Query ε β}
    (first : Agree answers strict plain)
    (step : ∀ value, plain.eval answers = .ok value → Agree answers (next value) (rest value)) :
    Agree answers (strict.bind next) (plain.bind rest) := by
  unfold Agree
  rw [eval_bind, eval_bind, first]
  cases result : plain.eval answers with
  | error error => rfl
  | ok value => exact step value result

theorem agree_done (value : α) : Agree answers (.done value) (.done value) := rfl

theorem agree_fail (error : ε) :
    Agree answers (.fail (.error error) : Query (Stop ε) α) (.fail error) :=
  rfl

theorem agree_report (program : Query ε α) : Agree answers program.report program := by
  unfold Agree
  induction program with
  | done value => rfl
  | fail error => rfl
  | read offset length next induction =>
    simp only [report, eval, Answers.report]
    cases answers offset length with
    | error error => rfl
    | ok bytes => exact induction bytes
  | reserve next induction => exact induction

theorem agree_demand_bind {next : Unit → Query (Stop ε) α} (holds : condition)
    (agree : Agree answers (next ()) plain) : Agree answers ((demand condition).bind next) plain := by
  unfold Agree
  rw [demand, eval_refuseIf_bind (not_not.mpr holds)]
  exact agree

theorem agree_refuseIf_bind {next : Unit → Query (Stop ε) α} {rest : Unit → Query ε α}
    (agree : ¬ condition → Agree answers (next ()) (rest ())) :
    Agree answers ((refuseIf condition (.error error)).bind next)
      ((refuseIf condition error).bind rest) := by
  unfold refuseIf
  split
  · exact agree_fail error
  · rename_i passed
    exact agree passed

theorem agree_orFail_bind {option : Option β} {next : β → Query (Stop ε) α} {rest : β → Query ε α}
    (agree : ∀ value, option = some value → Agree answers (next value) (rest value)) :
    Agree answers ((orFail option (.error error)).bind next) ((orFail option error).bind rest) := by
  cases option with
  | none => exact agree_fail error
  | some value => exact agree value rfl

theorem agree_ite {other : Query (Stop ε) α}
    {rest : Query ε α} (yes : condition → Agree answers strict plain)
    (no : ¬ condition → Agree answers other rest) :
    Agree answers (if condition then strict else other) (if condition then plain else rest) := by
  split
  · rename_i holds
    exact yes holds
  · rename_i fails
    exact no fails

end Query

end RetroOS.Lib
