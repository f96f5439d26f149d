/-!
# Operators

The operators of the language with their symbols. A symbol belongs to at most one
operator of each kind. The four step operators change a variable and are told
apart by where they stand.
-/

namespace YololChip

/-- The operators between two operands. Truth operators are among them: they evaluate both
operands as the others do. -/
inductive BinaryOperator where
  | add | sub | mul | div | mod | pow
  | less | greater | lessEqual | greaterEqual | equal | notEqual
  | and | or
deriving DecidableEq

namespace BinaryOperator

def symbol : BinaryOperator → String
  | add => "+"
  | sub => "-"
  | mul => "*"
  | div => "/"
  | mod => "%"
  | pow => "^"
  | less => "<"
  | greater => ">"
  | lessEqual => "<="
  | greaterEqual => ">="
  | equal => "=="
  | notEqual => "!="
  | and => "and"
  | or => "or"

/-- The name under which messages show an operator. -/
def tag : BinaryOperator → String
  | add => "ADD"
  | sub => "SUB"
  | mul => "MUL"
  | div => "DIV"
  | mod => "MOD"
  | pow => "POW"
  | less => "LT"
  | greater => "GT"
  | lessEqual => "LE"
  | greaterEqual => "GE"
  | equal => "EQ"
  | notEqual => "NE"
  | and => "AND"
  | or => "OR"

def all : List BinaryOperator :=
  [add, sub, mul, div, mod, pow, less, greater, lessEqual, greaterEqual, equal, notEqual, and, or]

def ofSymbol? (text : String) : Option BinaryOperator := all.find? (·.symbol = text)

/-- A symbol finds its operator again, so no two operators of a kind share one. -/
@[simp] theorem ofSymbol?_symbol (op : BinaryOperator) : ofSymbol? op.symbol = some op := by
  cases op <;> decide

end BinaryOperator

/-- The operators on one operand. The four steps change a variable, and they are not told apart
by their sign but by the side of the variable on which it stands. -/
inductive UnaryOperator where
  | neg | preIncrement | postIncrement | preDecrement | postDecrement | factorial
  | abs | sqrt | sin | cos | tan | arcsin | arccos | arctan | not
deriving DecidableEq

namespace UnaryOperator

/-- How an operator is written. The letter stands for the variable of a step operator. -/
def symbol : UnaryOperator → String
  | neg => "-"
  | preIncrement => "++a"
  | postIncrement => "a++"
  | preDecrement => "--a"
  | postDecrement => "a--"
  | factorial => "!"
  | abs => "abs"
  | sqrt => "sqrt"
  | sin => "sin"
  | cos => "cos"
  | tan => "tan"
  | arcsin => "arcsin"
  | arccos => "arccos"
  | arctan => "arctan"
  | not => "not"

/-- The name under which messages show an operator. -/
def tag : UnaryOperator → String
  | neg => "NEG"
  | preIncrement => "PRE_INC"
  | postIncrement => "POST_INC"
  | preDecrement => "PRE_DEC"
  | postDecrement => "POST_DEC"
  | factorial => "FACTORIAL"
  | abs => "ABS"
  | sqrt => "SQRT"
  | sin => "SIN"
  | cos => "COS"
  | tan => "TAN"
  | arcsin => "ARCSIN"
  | arccos => "ARCCOS"
  | arctan => "ARCTAN"
  | not => "NOT"

def all : List UnaryOperator :=
  [neg, preIncrement, postIncrement, preDecrement, postDecrement, factorial,
   abs, sqrt, sin, cos, tan, arcsin, arccos, arctan, not]

def ofSymbol? (text : String) : Option UnaryOperator := all.find? (·.symbol = text)

/-- A symbol finds its operator again, so no two operators of a kind share one. -/
@[simp] theorem ofSymbol?_symbol (op : UnaryOperator) : ofSymbol? op.symbol = some op := by
  cases op <;> decide

/-- Whether the operator changes the variable that it is applied to. Such an operator has no
behaviour on values. -/
def isStep : UnaryOperator → Bool
  | preIncrement | postIncrement | preDecrement | postDecrement => true
  | _ => false

def isIncrement : UnaryOperator → Bool
  | preIncrement | postIncrement => true
  | _ => false

/-- Whether a step operator's value is the variable's new one. That is so if it stands before
the variable; behind it, the value is the old one. -/
def isBefore : UnaryOperator → Bool
  | preIncrement | preDecrement => true
  | _ => false

end UnaryOperator

/-- The operators of assignments: the plain one, and the compound ones that stand for an
operator between two operands. -/
inductive AssignOperator where
  | assign | add | sub | mul | div | mod | pow
deriving DecidableEq

namespace AssignOperator

def symbol : AssignOperator → String
  | assign => "="
  | add => "+="
  | sub => "-="
  | mul => "*="
  | div => "/="
  | mod => "%="
  | pow => "^="

def all : List AssignOperator := [assign, add, sub, mul, div, mod, pow]

def ofSymbol? (text : String) : Option AssignOperator := all.find? (·.symbol = text)

/-- A symbol finds its operator again, so no two operators of a kind share one. -/
@[simp] theorem ofSymbol?_symbol (op : AssignOperator) : ofSymbol? op.symbol = some op := by
  cases op <;> decide

/-- The operator that a compound assignment applies to the old value and the new one; the plain
assignment applies none. -/
def binary? : AssignOperator → Option BinaryOperator
  | assign => none
  | add => some .add
  | sub => some .sub
  | mul => some .mul
  | div => some .div
  | mod => some .mod
  | pow => some .pow

end AssignOperator

end YololChip
