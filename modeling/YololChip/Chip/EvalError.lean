import YololChip.Chip.Value
import YololChip.Fixed.Arithmetic
import YololChip.Source.Display

/-!
# Evaluation errors

Why an expression or a statement has no value, where, and at which step. A cause belongs to
one of three kinds: an operator that has no meaning for its operands, an operator
without a behaviour, and everything else.
-/

namespace YololChip

/-- Why an evaluation has no value. A cause holds the values that it is about, as they were
then. The last one is for what observers raise in their own words. -/
inductive EvalCause where
  | domain (fault : DomainFault)
  | expectsNumber (op : UnaryOperator) (operand : Value)
  | expectsNumbers (op : BinaryOperator) (left right : Value)
  | emptyDecrement (op : UnaryOperator) (operand : Value)
  | stepOnExpression (op : UnaryOperator) (operand : Expr)
  | noBinary (op : BinaryOperator)
  | noUnary (op : UnaryOperator)
  | targetNotVariable
  | jumpToText
  | tooDeep
  | raised (message : String) (rule : String)
deriving DecidableEq

/-- The kinds of evaluation faults, as reports tell them apart. -/
inductive EvalKind where
  | operator
  | nonExhaustive
  | misc
deriving DecidableEq

namespace EvalKind

/-- The words for a kind. -/
def text : EvalKind → String
  | operator => "operator error"
  | nonExhaustive => "non-exhaustive pattern"
  | misc => "misc"

/-- The name under which reports list a kind. -/
def tag : EvalKind → String
  | operator => "OPERATOR_ERROR"
  | nonExhaustive => "NON_EXHAUSTIVE_PATTERN"
  | misc => "MISC"

end EvalKind

/-- The symbol of the operator that has no value. -/
def DomainFault.symbol : DomainFault → String
  | negativeFactorial _ => UnaryOperator.factorial.symbol
  | negativeRoot _ => UnaryOperator.sqrt.symbol
  | arcsineOutside _ => UnaryOperator.arcsin.symbol
  | arccosineOutside _ => UnaryOperator.arccos.symbol
  | unrealPower .. => BinaryOperator.pow.symbol

namespace EvalCause

def kind : EvalCause → EvalKind
  | domain _ | expectsNumber .. | expectsNumbers .. | emptyDecrement .. | stepOnExpression .. =>
    .operator
  | noBinary _ | noUnary _ => .nonExhaustive
  | targetNotVariable | jumpToText | tooDeep | raised .. => .misc

/-- The rule under which a fault is reported: the operator's symbol, or the kind
of statement. -/
def rule : EvalCause → String
  | domain fault => fault.symbol
  | expectsNumber op _ | emptyDecrement op _ | stepOnExpression op _ | noUnary op => op.symbol
  | expectsNumbers op _ _ | noBinary op => op.symbol
  | targetNotVariable => "ASSIGN"
  | jumpToText => "GOTO"
  | tooDeep => "line"
  | raised _ rule => rule

/-- An operator, its one operand, and what is wrong. -/
def unaryDetail (symbol operand what : String) : String :=
  "'" ++ symbol ++ "' on " ++ operand ++ ": " ++ what

/-- An operator between its operands, and what is wrong. -/
def binaryDetail (symbol left right what : String) : String :=
  left ++ " '" ++ symbol ++ "' " ++ right ++ ": " ++ what

/-- What went wrong, without the kind. An operator is shown with its operands, and an operand
with its type. -/
def detail : EvalCause → String
  | domain fault =>
    let on (operand : Fixed) (what : String) :=
      unaryDetail fault.symbol (Value.displayNumber operand) what
    match fault with
    | .negativeFactorial a => on a "factorial of a negative number"
    | .negativeRoot a => on a "square root of a negative number"
    | .arcsineOutside a => on a "argument outside [-1, 1]"
    | .arccosineOutside a => on a "argument outside [-1, 1]"
    | .unrealPower a b =>
      binaryDetail fault.symbol (Value.displayNumber a) (Value.displayNumber b)
        "result is not a real number"
  | expectsNumber op operand => unaryDetail op.symbol operand.display "expects a number"
  | expectsNumbers op left right =>
    binaryDetail op.symbol left.display right.display "expects numbers"
  | emptyDecrement op operand =>
    unaryDetail op.symbol operand.display "cannot decrement an empty string"
  | stepOnExpression op operand =>
    unaryDetail op.symbol operand.display "operand must be a variable"
  | noBinary op => "No behaviour for binary operator '" ++ op.symbol ++ "'"
  | noUnary op => "No behaviour for unary operator '" ++ op.symbol ++ "'"
  | targetNotVariable => "Assignment target must be an identifier"
  | jumpToText => "Cannot goto a string"
  | tooDeep => "expression nested too deeply"
  | raised message _ => message

end EvalCause

/-- An evaluation fault with the place of the node that has no value, and the step of the log
during which it arose. Both are filled in on the way out, as far as they are known. -/
structure EvalError where
  cause : EvalCause
  loc : Option Location
  stepIndex : Option Nat
deriving DecidableEq

def EvalError.message (e : EvalError) : String := e.cause.kind.text ++ ": " ++ e.cause.detail

end YololChip
