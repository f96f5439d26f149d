import YololChip.Chip.EvalError
import YololChip.Fixed.Elementary

/-!
# The behaviour of operators

What each operator does to values. Sums, differences and comparisons are defined on
all values, through their texts if not both are numbers; the truth operators are defined
on all values too; all others are defined on numbers only.

A table of behaviours can lack an operator, which is then refused.
-/

namespace YololChip

namespace Behaviour

/-- What stands before and after the last occurrence of a row of characters. The rest is
searched first, so an occurrence counts only if no later one begins behind its first character,
also where the two overlap. -/
def aroundLast? (part : List Char) : List Char → Option (List Char × List Char)
  | [] => none
  | c :: cs =>
    match aroundLast? part cs with
    | some (before, after) => some (c :: before, after)
    | none => if part.isPrefixOf (c :: cs) then some ([], (c :: cs).drop part.length) else none

/-- The part and what stands around it make up the whole. -/
theorem append_of_aroundLast? {part cs before after : List Char}
    (found : aroundLast? part cs = some (before, after)) : before ++ part ++ after = cs := by
  induction cs generalizing before with
  | nil => simp [aroundLast?] at found
  | cons c cs inductionHypothesis =>
    rw [aroundLast?] at found
    split at found
    · next inner _ later =>
      obtain ⟨rfl, rfl⟩ := Prod.mk.inj (Option.some.inj found)
      simpa using inductionHypothesis later
    · split at found
      · next here =>
        obtain ⟨rest, whole⟩ := List.isPrefixOf_iff_prefix.mp here
        obtain ⟨rfl, rfl⟩ := Prod.mk.inj (Option.some.inj found)
        simp [← whole]
      · cases found

/-- A text without the last occurrence of another one in it. An empty text occurs nowhere, and a
text that does not occur leaves the first one as it is. -/
def withoutLast (text part : String) : String :=
  if part.isEmpty then text
  else match aroundLast? part.toList text.toList with
    | some (before, after) => String.ofList (before ++ after)
    | none => text

/-- The sum of two numbers, or the texts of two values joined. -/
def add : Value → Value → Value
  | .num a, .num b => .num (a + b)
  | a, b => .str (a.text ++ b.text)

/-- The difference of two numbers, or the first text without the last occurrence of the second. -/
def sub : Value → Value → Value
  | .num a, .num b => .num (a - b)
  | a, b => .str (withoutLast a.text b.text)

/-- Numbers compare by value, and everything else by the characters of the texts. -/
def less : Value → Value → Bool
  | .num a, .num b => decide (a < b)
  | a, b => decide (a.text < b.text)

/-- An operation on two numbers. A text on either side is refused, with both values as they are. -/
def onNumbers (op : BinaryOperator) (f : Fixed → Fixed → Except DomainFault Fixed) :
    Value → Value → Except EvalCause Value
  | .num a, .num b =>
    match f a b with
    | .ok c => .ok (.num c)
    | .error fault => .error (.domain fault)
  | a, b => .error (.expectsNumbers op a b)

/-- An operation on one number. A text is refused, and so is a number on which the operation has
no value. -/
def onNumber (op : UnaryOperator) (f : Fixed → Except DomainFault Fixed) :
    Value → Except EvalCause Value
  | .num a =>
    match f a with
    | .ok b => .ok (.num b)
    | .error fault => .error (.domain fault)
  | a => .error (.expectsNumber op a)

/-- What an operator between two operands does. Comparisons and truth operators give one or
zero; only numbers and texts that are the same are equal, and no number equals a text. -/
def binary : BinaryOperator → Value → Value → Except EvalCause Value
  | .add, a, b => .ok (add a b)
  | .sub, a, b => .ok (sub a b)
  | .mul, a, b => onNumbers .mul (fun a b => .ok (a * b)) a b
  | .div, a, b => onNumbers .div (fun a b => .ok (a / b)) a b
  | .mod, a, b => onNumbers .mod (fun a b => .ok (a % b)) a b
  | .pow, a, b => onNumbers .pow Fixed.pow a b
  | .less, a, b => .ok (.ofBool (less a b))
  | .greater, a, b => .ok (.ofBool (less b a))
  | .lessEqual, a, b => .ok (.ofBool (!less b a))
  | .greaterEqual, a, b => .ok (.ofBool (!less a b))
  | .equal, a, b => .ok (.ofBool (a = b))
  | .notEqual, a, b => .ok (.ofBool (a ≠ b))
  | .and, a, b => .ok (.ofBool (!a.isFalse && !b.isFalse))
  | .or, a, b => .ok (.ofBool (!a.isFalse || !b.isFalse))

/-- What an operator on one operand does. The step operators act on variables, so they
have no behaviour on a value. -/
def unary? : UnaryOperator → Option (Value → Except EvalCause Value)
  | .neg => some (onNumber .neg fun a => .ok (-a))
  | .factorial => some (onNumber .factorial Fixed.factorial)
  | .abs => some (onNumber .abs fun a => .ok a.magnitude)
  | .sqrt => some (onNumber .sqrt Fixed.sqrt)
  | .sin => some (onNumber .sin fun a => .ok a.sin)
  | .cos => some (onNumber .cos fun a => .ok a.cos)
  | .tan => some (onNumber .tan fun a => .ok a.tan)
  | .arcsin => some (onNumber .arcsin Fixed.arcsin)
  | .arccos => some (onNumber .arccos Fixed.arccos)
  | .arctan => some (onNumber .arctan fun a => .ok a.arctan)
  | .not => some fun a => .ok (.ofBool a.isFalse)
  | .preIncrement | .postIncrement | .preDecrement | .postDecrement => none

/-- The value of a variable after a step: a number goes up or down by one, a text gains a blank
or loses its last character. An empty text has none to lose, which is refused. -/
def step (op : UnaryOperator) : Value → Except EvalCause Value
  | .num a => .ok (.num (if op.isIncrement then a + .one else a - .one))
  | .str s =>
    if op.isIncrement then .ok (.str (s ++ " "))
    else if s.isEmpty then .error (.emptyDecrement op (.str s))
    else .ok (.str (String.ofList s.toList.dropLast))

end Behaviour

/-- A table of the behaviours of operators. It may say anything of an operator, or nothing;
statements about what operators do are about `default` or say what they ask of the table. -/
structure Operators where
  binary : BinaryOperator → Option (Value → Value → Except EvalCause Value)
  unary : UnaryOperator → Option (Value → Except EvalCause Value)

namespace Operators

/-- The table in which every operator behaves as it should. -/
def default : Operators := ⟨fun op => some (Behaviour.binary op), Behaviour.unary?⟩

def withoutBinary (ops : Operators) (gone : BinaryOperator) : Operators :=
  { ops with binary := fun op => if op = gone then none else ops.binary op }

def withoutUnary (ops : Operators) (gone : UnaryOperator) : Operators :=
  { ops with unary := fun op => if op = gone then none else ops.unary op }

/-- What the table makes of an operator between two operands. One that it lacks is refused
whatever they are. -/
def applyBinary (ops : Operators) (op : BinaryOperator) (left right : Value) :
    Except EvalCause Value :=
  match ops.binary op with
  | some behaviour => behaviour left right
  | none => .error (.noBinary op)

def applyUnary (ops : Operators) (op : UnaryOperator) (operand : Value) :
    Except EvalCause Value :=
  match ops.unary op with
  | some behaviour => behaviour operand
  | none => .error (.noUnary op)

end Operators

end YololChip
