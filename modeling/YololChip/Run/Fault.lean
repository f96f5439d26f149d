import YololChip.Chip.EvalError
import YololChip.Cylon.DocumentFault
import YololChip.Run.Event
import YololChip.Source.Program

/-!
# Faults

Everything that can go wrong with a chip: a source that cannot be read, an evaluation that
has no value, a document that is no program, and an observer that refuses or breaks.
Each fault is its cause; the sentence that reports it is `Fault.message`.
-/

namespace YololChip

/-- Anything that can go wrong and is reported. A plain fault is one that an observer reports in
its own words. That a run is broken off is none of these. -/
inductive Fault where
  | source (error : SourceError)
  | eval (error : EvalError)
  | document (fault : DocumentFault)
  | hook (fault : HookFault)
  | plain (message : String)

/-- The deepest nesting of an expression that a report can show. Showing an expression takes
three levels of the stack for each of its own, where evaluating it takes one. -/
def EvalCause.shownDepth : Nat := Grammar.nestingLimit / 3

/-- Whether a cause can be shown. Of all causes only a step of what is no variable shows an
expression, and one that nests too deeply cannot be shown. No source has such an operand, as
there a step stands beside its variable; a document may have one. -/
def EvalCause.isShowable : EvalCause → Bool
  | stepOnExpression _ operand => operand.depth ≤ shownDepth
  | _ => true

namespace Fault

/-- The sentence that reports a fault. It is given for every fault, also for one whose report
cannot be made up when it is asked for; that is told by `isShowable`. -/
def message : Fault → String
  | source error => error.message
  | eval error => error.message
  | document fault => fault.message
  | hook fault => fault.message
  | plain message => message

/-- The heading under which a fault is reported. Faults of operators have one of their own among
those of evaluations. -/
def title : Fault → String
  | source (.scan _) => "LexError"
  | source (.parse _) => "ParseError"
  | eval error => if error.cause.kind = .operator then "OperatorError" else "EvaluationError"
  | document _ => "CylonError"
  | hook _ => "HookError"
  | plain _ => "YololError"

/-- The name of a fault's kind, for those that have kinds. -/
def kindTag? : Fault → Option String
  | source (.parse error) => some error.fault.kind.tag
  | eval error => some error.cause.kind.tag
  | _ => none

/-- The place that a fault carries. Those of sources carry none, although their sentences name
one. -/
def loc? : Fault → Option Location
  | eval error => error.loc
  | _ => none

/-- Whether the report of a fault can be made up at all. -/
def isShowable : Fault → Bool
  | eval error => error.cause.isShowable
  | _ => true

/-- The rule under which a fault is reported; a fault without one is put down to the line. -/
def rule : Fault → String
  | eval error => if error.cause.rule.isEmpty then "line" else error.cause.rule
  | _ => "line"

/-- The step during which a fault arose, for those that arise in a step. -/
def stepIndex? : Fault → Option Nat
  | eval error => error.stepIndex
  | _ => none

end Fault

end YololChip
