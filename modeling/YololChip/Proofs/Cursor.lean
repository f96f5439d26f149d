import YololChip.Proofs.Executions
import YololChip.Proofs.Rounding

/-!
# The cursor

Only a goto moves a chip while statements are executed, and none of them touches the recorded
error.
-/

namespace YololChip

namespace Chip

/-- Whether a chip is at the line that the other one is at, with the same recorded error. Its
variables may have changed. -/
structure Stays (before after : Chip) : Prop where
  nextLine : after.nextLine = before.nextLine
  error : after.error = before.error

theorem Stays.refl (chip : Chip) : chip.Stays chip := ⟨rfl, rfl⟩

theorem Stays.trans {first second third : Chip} (stays : first.Stays second)
    (staysOn : second.Stays third) : first.Stays third :=
  ⟨staysOn.nextLine.trans stays.nextLine, staysOn.error.trans stays.error⟩

theorem stays_write (chip : Chip) (v : Variable) (value : Value) :
    chip.Stays (chip.write v value) := by
  unfold write
  cases v.scope with
  | chip => exact ⟨rfl, rfl⟩
  | field => exact ⟨rfl, rfl⟩

end Chip

/-- What goes on with a result stays where it is if both parts do. -/
theorem Ended.stays_andThen {α β : Type} {chip : Chip} {ended : Ended α}
    {next : α → Chip → Ended β} (stays : chip.Stays ended.2)
    (staysOn : ∀ result (chip : Chip), chip.Stays (next result chip).2) :
    chip.Stays (Ended.andThen ended next).2 := by
  rcases ended with ⟨error | result, after⟩
  · exact stays
  · exact stays.trans (staysOn result after)

namespace Evaluate

theorem at_stays (loc : Option Location) (result : Except EvalCause Value) (chip : Chip) :
    chip.Stays (at? loc result chip).2 := by
  cases result with
  | ok value => exact .refl chip
  | error cause => exact .refl chip

theorem stepVariable_stays (loc : Option Location) (op : UnaryOperator) (target : Variable)
    (chip : Chip) : chip.Stays (stepVariable loc op target chip).2 := by
  unfold stepVariable
  cases Behaviour.step op (chip.read target) with
  | error cause => exact .refl chip
  | ok value => exact chip.stays_write target value

theorem expression_stays (ops : Operators) (depth : Nat) (e : Expr) (chip : Chip) :
    chip.Stays (expression ops depth e chip).2 := by
  induction depth generalizing e chip with
  | zero =>
    rw [expression]
    exact .refl chip
  | succ depth inductionHypothesis =>
    cases e with
    | number | text | var => exact .refl chip
    | group _ inner => exact inductionHypothesis inner chip
    | binary loc op left right =>
      rw [expression_binary]
      apply Ended.stays_andThen (inductionHypothesis left chip)
      intro first chip
      apply Ended.stays_andThen (inductionHypothesis right chip)
      intro second chip
      exact at_stays loc _ chip
    | unary loc op operand =>
      cases isStep : op.isStep with
      | false =>
        rw [expression_unary _ _ _ isStep]
        exact Ended.stays_andThen (inductionHypothesis operand chip) fun _ => at_stays loc _
      | true =>
        cases operand with
        | var place target =>
          rw [expression_step _ _ _ _ isStep]
          exact stepVariable_stays loc op target chip
        | _ =>
          rw [expression_step_other _ _ _ isStep (by simp)]
          exact .refl chip

end Evaluate

variable {ops : Operators} {chip left : Chip} {finish : Finish}

theorem stays_of_evaluate {e : Expr} {result : Except EvalError Value} {after : Chip}
    (evaluated : evaluate ops e chip = (result, after)) : chip.Stays after := by
  have stays := Evaluate.expression_stays ops Grammar.nestingLimit e chip
  rw [← evaluate, evaluated] at stays
  exact stays

/-- The line that a chip is at after statements that ended so: the one that a goto led to, and
otherwise the one that it was at. A failure does not move it. -/
def Finish.line (here : Int) : Finish → Int
  | jumped target => Chip.targetLine target
  | completed | failed _ => here

/-- A statement moves a chip by a goto only, and leaves the recorded error as it is. -/
theorem Stmt.Does.cursor {s : Stmt} (does : s.Does ops chip finish left) :
    left.nextLine = finish.line chip.nextLine ∧ left.error = chip.error := by
  cases does with
  | comment | assignElsewhere => exact ⟨rfl, rfl⟩
  | unevaluated _ refused => exact ⟨(stays_of_evaluate refused).1, (stays_of_evaluate refused).2⟩
  | expression _ evaluated | assignRefused _ _ evaluated | jumpToText _ evaluated =>
    exact ⟨(stays_of_evaluate evaluated).1, (stays_of_evaluate evaluated).2⟩
  | assign _ _ evaluated =>
    have stays := stays_of_evaluate evaluated
    exact ⟨(stays.trans (Chip.stays_write ..)).nextLine, (stays.trans (Chip.stays_write ..)).error⟩
  | jump _ evaluated => exact ⟨rfl, (stays_of_evaluate evaluated).error⟩

/-- Statements move a chip by a goto only, and leave the recorded error as it is. So what is
recorded of the fault of a line is recorded behind all of its statements. -/
theorem Executes.cursor {block : List Stmt} {told : List Notice}
    (executes : Executes ops block chip told finish left) :
    left.nextLine = finish.line chip.nextLine ∧ left.error = chip.error := by
  induction executes with
  | nothing chip => exact ⟨rfl, rfl⟩
  | next does _ inductionHypothesis =>
    obtain ⟨line, error⟩ := does.cursor
    rw [inductionHypothesis.1, inductionHypothesis.2, line, error]
    exact ⟨rfl, rfl⟩
  | cut _ does => exact does.cursor
  | branch _ evaluated _ _ takenHypothesis goesOnHypothesis =>
    have stays := stays_of_evaluate evaluated
    rw [goesOnHypothesis.1, goesOnHypothesis.2, takenHypothesis.1, takenHypothesis.2,
      stays.nextLine, stays.error]
    exact ⟨rfl, rfl⟩
  | branchCut _ _ evaluated _ _ inductionHypothesis =>
    have stays := stays_of_evaluate evaluated
    rw [inductionHypothesis.1, inductionHypothesis.2, stays.nextLine, stays.error]
    exact ⟨rfl, rfl⟩

end YololChip
