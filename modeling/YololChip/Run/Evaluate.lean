import YololChip.Chip.Behaviour
import YololChip.Chip.State
import YololChip.Source.Grammar

/-!
# Evaluation of expressions

An expression is evaluated from left to right, and every operand is evaluated. The steps
`++` and `--` change their variable on the way, and the changes stay when the
evaluation fails later. A fault carries the location of the node whose own operator was
refused.
-/

namespace YololChip

/-- The value of an expression, or the fault that it has none, with the chip after the steps
that were taken. A fault does not undo them. -/
abbrev Outcome : Type := Except EvalError Value × Chip

namespace Evaluate

/-- The outcome of an operator at a location. An operator does nothing to the chip, and a
refusal gets the location of the operator's own node. -/
def at? (loc : Option Location) (result : Except EvalCause Value) (chip : Chip) : Outcome :=
  match result with
  | .ok value => (.ok value, chip)
  | .error cause => (.error ⟨cause, loc, none⟩, chip)

/-- Steps a variable. The value is the new one or the old one, as the operator says; a variable
whose step is refused is left as it was. -/
def stepVariable (loc : Option Location) (op : UnaryOperator) (target : Variable)
    (chip : Chip) : Outcome :=
  match Behaviour.step op (chip.read target) with
  | .error cause => (.error ⟨cause, loc, none⟩, chip)
  | .ok value =>
    (.ok (if op.isBefore then value else chip.read target), chip.write target value)

/-- Evaluates an expression that nests at most `depth` levels. A step takes one level, because
its variable is read in place and not evaluated; one on anything but a variable is refused
before that is evaluated. With no level left the fault has no location. -/
def expression (ops : Operators) : (depth : Nat) → Expr → Chip → Outcome
  | 0, _, chip => (.error ⟨.tooDeep, none, none⟩, chip)
  | _ + 1, .number _ value, chip => (.ok (.num value), chip)
  | _ + 1, .text _ value, chip => (.ok (.str value), chip)
  | _ + 1, .var _ target, chip => (.ok (chip.read target), chip)
  | depth + 1, .group _ inner, chip => expression ops depth inner chip
  | depth + 1, .binary loc op left right, chip =>
    match expression ops depth left chip with
    | (.error error, chip) => (.error error, chip)
    | (.ok a, chip) =>
      match expression ops depth right chip with
      | (.error error, chip) => (.error error, chip)
      | (.ok b, chip) => at? loc (ops.applyBinary op a b) chip
  | depth + 1, .unary loc op operand, chip =>
    if op.isStep then
      match operand with
      | .var _ target => stepVariable loc op target chip
      | operand => (.error ⟨.stepOnExpression op operand, loc, none⟩, chip)
    else
      match expression ops depth operand chip with
      | (.error error, chip) => (.error error, chip)
      | (.ok a, chip) => at? loc (ops.applyUnary op a) chip

end Evaluate

/-- Evaluates an expression, with all levels that there are. -/
def evaluate (ops : Operators) (e : Expr) (chip : Chip) : Outcome :=
  Evaluate.expression ops Grammar.nestingLimit e chip

end YololChip
