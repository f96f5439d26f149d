import YololChip.Proofs.Portable
import YololChip.Source.Token

/-!
# How trees are written

The marks of a tree are its tokens, read from left to right. Two symbols that make one
operator are joined; all other tokens may stand apart. Only an else part without statements
leaves no mark.

Levels say how tightly an expression holds together, and a leveled expression needs no
group that it does not have: no operand holds together more loosely than its place
allows.
-/

namespace YololChip

/-- A token as a tree writes it: what it is, and whether the next one stands right after it.
Marks are what trees and tokens have in common, so statements about reading compare these. -/
structure Mark where
  lexeme : Lexeme
  joined : Bool
deriving DecidableEq

namespace Mark

/-- A token that need not stand right before the next one. -/
def apart (lexeme : Lexeme) : Mark := ⟨lexeme, false⟩

/-- A symbol that is an operator by itself. -/
def single (symbol : Symbol) : List Mark := [apart (.symbol symbol)]

/-- Two symbols that are one operator. The first is joined to the second, or they would be two. -/
def pair (first second : Symbol) : List Mark := [⟨.symbol first, true⟩, apart (.symbol second)]

def word (keyword : Keyword) : List Mark := [apart (.keyword keyword)]

end Mark

def BinaryOperator.marks : BinaryOperator → List Mark
  | add => Mark.single .plus
  | sub => Mark.single .minus
  | mul => Mark.single .star
  | div => Mark.single .slash
  | mod => Mark.single .percent
  | pow => Mark.single .caret
  | less => Mark.single .less
  | greater => Mark.single .greater
  | lessEqual => Mark.pair .less .equals
  | greaterEqual => Mark.pair .greater .equals
  | equal => Mark.pair .equals .equals
  | notEqual => Mark.pair .bang .equals
  | and => Mark.word .and
  | or => Mark.word .or

/-- The level of an operator between two operands: the higher, the tighter. The two words are
the loosest, on levels of their own. -/
def BinaryOperator.level : BinaryOperator → Nat
  | or => 1
  | and => 2
  | equal | notEqual => 3
  | less | greater | lessEqual | greaterEqual => 4
  | add | sub => 5
  | mul | div | mod => 6
  | pow => 7

namespace UnaryOperator

def marks : UnaryOperator → List Mark
  | neg => Mark.single .minus
  | preIncrement | postIncrement => Mark.pair .plus .plus
  | preDecrement | postDecrement => Mark.pair .minus .minus
  | factorial => Mark.single .bang
  | abs => Mark.word .abs
  | sqrt => Mark.word .sqrt
  | sin => Mark.word .sin
  | cos => Mark.word .cos
  | tan => Mark.word .tan
  | arcsin => Mark.word .arcsin
  | arccos => Mark.word .arccos
  | arctan => Mark.word .arctan
  | not => Mark.word .not

/-- Whether an operator stands after its operand. -/
def isAfter : UnaryOperator → Bool
  | postIncrement | postDecrement | factorial => true
  | _ => false

/-- The level of an operator on one operand. A step after a variable is as tight as the
variable itself. -/
def level : UnaryOperator → Nat
  | postIncrement | postDecrement => 10
  | factorial => 8
  | _ => 9

end UnaryOperator

def AssignOperator.marks : AssignOperator → List Mark
  | assign => Mark.single .equals
  | add => Mark.pair .plus .equals
  | sub => Mark.pair .minus .equals
  | mul => Mark.pair .star .equals
  | div => Mark.pair .slash .equals
  | mod => Mark.pair .percent .equals
  | pow => Mark.pair .caret .equals

/-- What a variable is written as. The colon of a field is a part of its name. -/
def Variable.lexeme (v : Variable) : Lexeme :=
  match v.scope with
  | .chip => .name v.name
  | .field => .field v.name

namespace Expr

def marks : Expr → List Mark
  | number _ value => [.apart (.number value)]
  | text _ value => [.apart (.text value)]
  | var _ target => [.apart target.lexeme]
  | group _ inner => Mark.single .leftParen ++ inner.marks ++ Mark.single .rightParen
  | binary _ op left right => left.marks ++ op.marks ++ right.marks
  | unary _ op operand =>
    if op.isAfter then operand.marks ++ op.marks else op.marks ++ operand.marks

/-- The level of an expression: that of its outermost operator, or the tightest. -/
def level : Expr → Nat
  | number _ _ | text _ _ | var _ _ | group _ _ => 10
  | binary _ op _ _ => op.level
  | unary _ op _ => op.level

def isVariable : Expr → Bool
  | var _ _ => true
  | _ => false

/-- Whether an expression is a step of a variable with its sign after it. -/
def isStepAfter : Expr → Bool
  | unary _ .postIncrement operand | unary _ .postDecrement operand => operand.isVariable
  | _ => false

/-- Whether the operand of an operator holds together well enough. A step after its operand
takes a variable, and a step before it a variable that may be stepped already. Anything else has
to be in a group. -/
def fitsUnary (op : UnaryOperator) (operand : Expr) : Prop :=
  match op with
  | .postIncrement | .postDecrement => operand.isVariable = true
  | .preIncrement | .preDecrement => operand.isVariable = true ∨ operand.isStepAfter = true
  | .factorial => 8 ≤ operand.level
  | _ => 9 ≤ operand.level

/-- Whether the operands of an operator hold together well enough. Operators of one level lean
to the left, and only powers lean to the right. A sign before a power belongs to its left side. -/
def fitsBinary (op : BinaryOperator) (left right : Expr) : Prop :=
  if op = .pow then 8 ≤ left.level ∧ 7 ≤ right.level
  else op.level ≤ left.level ∧ op.level < right.level

/-- Whether every operand in an expression holds together well enough. -/
def Leveled : Expr → Prop
  | number _ _ | text _ _ | var _ _ => True
  | group _ inner => inner.Leveled
  | binary _ op left right => left.Leveled ∧ right.Leveled ∧ fitsBinary op left right
  | unary _ op operand => operand.Leveled ∧ fitsUnary op operand

end Expr

namespace Stmt

mutual

def marks : Stmt → List Mark
  | comment _ text => [.apart (.comment text)]
  | branch _ condition body otherwise =>
    Mark.word .ifWord ++ condition.marks ++ Mark.word .thenWord ++ marksAll body ++
      marksElse otherwise ++ Mark.word .endWord
  | jump _ target => Mark.word .goto ++ target.marks
  | assign _ target op value => target.marks ++ op.marks ++ value.marks
  | expression _ value => value.marks

/-- The marks of a block: those of its statements in turn, with nothing between them. -/
def marksAll : List Stmt → List Mark
  | [] => []
  | statement :: rest => statement.marks ++ marksAll rest

/-- The marks of an else part, with the word before it. -/
def marksElse : Option (List Stmt) → List Mark
  | none => []
  | some block => Mark.word .elseWord ++ marksAll block

end

mutual

/-- Whether every expression of a statement is leveled. -/
def Leveled : Stmt → Prop
  | comment _ _ => True
  | branch _ condition body otherwise =>
    condition.Leveled ∧ LeveledAll body ∧ LeveledElse otherwise
  | jump _ target => target.Leveled
  | assign _ target _ value => target.Leveled ∧ value.Leveled
  | expression _ value => value.Leveled

def LeveledAll : List Stmt → Prop
  | [] => True
  | statement :: rest => statement.Leveled ∧ LeveledAll rest

def LeveledElse : Option (List Stmt) → Prop
  | none => True
  | some block => LeveledAll block

end

end Stmt

/-! ### First marks -/

/-- The lexemes with which an expression can begin. A plus sign is among them because of steps,
although it is no operator by itself. -/
def Lexeme.beginsExpr : Lexeme → Bool
  | number _ | text _ | name _ | field _ => true
  | symbol s => s = .leftParen || s = .minus || s = .plus
  | keyword k => k.unary?.isSome
  | _ => false

theorem Variable.nameOf?_lexeme (v : Variable) : v.lexeme.nameOf? = some v.name := by
  unfold Variable.lexeme
  cases v.scope <;> rfl

theorem Variable.beginsExpr_lexeme (v : Variable) : v.lexeme.beginsExpr = true := by
  unfold Variable.lexeme
  cases v.scope <;> rfl

/-- An operator before its operand can begin an expression. -/
theorem UnaryOperator.exists_marks_cons {op : UnaryOperator} (before : op.isAfter = false) :
    ∃ m rest, op.marks = m :: rest ∧ m.lexeme.beginsExpr = true := by
  cases op with
  | postIncrement | postDecrement | factorial => contradiction
  | _ => exact ⟨_, _, rfl, rfl⟩

/-- An expression has a first mark, which is one that can begin an expression. No expression is
written with nothing. -/
theorem Expr.exists_marks_cons (e : Expr) :
    ∃ m rest, e.marks = m :: rest ∧ m.lexeme.beginsExpr = true := by
  induction e with
  | number | text => exact ⟨_, _, rfl, rfl⟩
  | var _ target => exact ⟨_, _, rfl, target.beginsExpr_lexeme⟩
  | group => exact ⟨_, _, rfl, rfl⟩
  | binary _ _ _ _ left _ =>
    obtain ⟨m, rest, shape, begins⟩ := left
    exact ⟨m, _, by rw [Expr.marks, shape, List.cons_append, List.cons_append], begins⟩
  | unary _ op _ inductionHypothesis =>
    rw [Expr.marks]
    by_cases after : op.isAfter = true
    · obtain ⟨m, rest, shape, begins⟩ := inductionHypothesis
      rw [if_pos after]
      exact ⟨m, _, by rw [shape, List.cons_append], begins⟩
    · obtain ⟨m, rest, shape, begins⟩ :=
        UnaryOperator.exists_marks_cons (Bool.not_eq_true _ ▸ after)
      rw [if_neg after]
      exact ⟨m, _, by rw [shape, List.cons_append], begins⟩

def Lexeme.beginsStmt : Lexeme → Bool
  | comment _ => true
  | keyword .ifWord | keyword .goto => true
  | lexeme => lexeme.beginsExpr

theorem Lexeme.beginsStmt_of_beginsExpr {lexeme : Lexeme} (begins : lexeme.beginsExpr = true) :
    lexeme.beginsStmt = true := by
  cases lexeme with
  | keyword k => cases k <;> first | rfl | exact begins
  | comment => rfl
  | _ => exact begins

/-- A statement has a first mark, which is one that can begin a statement. So a block with
statements has tokens. -/
theorem Stmt.exists_marks_cons (s : Stmt) :
    ∃ m rest, s.marks = m :: rest ∧ m.lexeme.beginsStmt = true := by
  have ofExpr (e : Expr) (more : List Mark) :
      ∃ m rest, e.marks ++ more = m :: rest ∧ m.lexeme.beginsStmt = true := by
    obtain ⟨m, rest, shape, begins⟩ := e.exists_marks_cons
    exact ⟨m, _, by rw [shape, List.cons_append], Lexeme.beginsStmt_of_beginsExpr begins⟩
  cases s with
  | comment => exact ⟨_, _, rfl, rfl⟩
  | branch => exact ⟨_, _, rfl, rfl⟩
  | jump => exact ⟨_, _, rfl, rfl⟩
  | assign _ target op value =>
    rw [Stmt.marks, List.append_assoc]
    exact ofExpr target _
  | expression _ value =>
    have begun := ofExpr value []
    rwa [List.append_nil] at begun

theorem Lexeme.not_endsBlock_of_beginsStmt {lexeme : Lexeme} (begins : lexeme.beginsStmt = true) :
    lexeme ≠ .newline ∧ lexeme ≠ .finish ∧ lexeme ≠ .keyword .elseWord ∧
      lexeme ≠ .keyword .endWord := by
  refine ⟨?_, ?_, ?_, ?_⟩ <;> rintro rfl <;> contradiction

end YololChip
