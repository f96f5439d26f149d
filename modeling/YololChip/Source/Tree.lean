import YololChip.Fixed.Basic
import YololChip.Source.Operator
import YololChip.Text.LowerCase

/-!
# Syntax trees

Expressions, statements and lines. Every node can carry the location that it was
read from; `bare` forgets the locations, and two trees that differ in nothing
else are equal after it.
-/

namespace YololChip

/-- A place in a source file, with the text of its line. The text is without the blanks around
it, but the column counts them. -/
structure Location where
  file : String
  line : Int
  column : Nat
  statement : String
deriving DecidableEq

/-- Where a variable lives: in the chip, or in the devices around it. The two are stored apart,
so one name may be bound in both. -/
inductive Scope where
  | chip
  | field
deriving DecidableEq

/-- A variable as the source names it. The two parts are independent here; `Variable.named` is
how all variables are made that are read. -/
structure Variable where
  name : String
  scope : Scope
deriving DecidableEq

def isFieldName (name : String) : Bool := name.toList.head? = some ':'

/-- The variable of a name: letter case does not count, and a name that starts with a
colon is a data field. -/
def Variable.named (name : String) : Variable :=
  let name := Text.lower name
  ⟨name, if isFieldName name then .field else .chip⟩

/-- An expression. A group is a node of its own, so that a tree can be written as it was read.
Operators are held for any operand, also a step on what is no variable, which only evaluation
refuses. -/
inductive Expr where
  | number (loc : Option Location) (value : Fixed)
  | text (loc : Option Location) (value : String)
  | var (loc : Option Location) (target : Variable)
  | group (loc : Option Location) (inner : Expr)
  | binary (loc : Option Location) (op : BinaryOperator) (left right : Expr)
  | unary (loc : Option Location) (op : UnaryOperator) (operand : Expr)
deriving DecidableEq

/-- A statement. Without an else part `otherwise` is nothing. The target of an
assignment is an expression because a tree may hold any; only a variable can be
assigned to. -/
inductive Stmt where
  | comment (loc : Option Location) (text : String)
  | branch (loc : Option Location) (condition : Expr) (body : List Stmt)
      (otherwise : Option (List Stmt))
  | jump (loc : Option Location) (target : Expr)
  | assign (loc : Option Location) (target : Expr) (op : AssignOperator) (value : Expr)
  | expression (loc : Option Location) (value : Expr)

/-- A line of a program. Its number is that under which it runs, whatever its location says. -/
structure Line where
  loc : Option Location
  statements : List Stmt
  number : Int

/-- The line without statements that stands at a cursor position outside the program. It runs
like any line, and nothing comes of it. -/
def Line.blank (number : Int) : Line := ⟨none, [], number⟩

namespace Expr

def loc : Expr → Option Location
  | number loc _ | text loc _ | var loc _ | group loc _ | binary loc _ _ _ | unary loc _ _ => loc

def bare : Expr → Expr
  | number _ value => number none value
  | text _ value => text none value
  | var _ target => var none target
  | group _ inner => group none inner.bare
  | binary _ op left right => binary none op left.bare right.bare
  | unary _ op operand => unary none op operand.bare

/-- How deep an expression nests. One that holds no other has depth one. -/
def depth : Expr → Nat
  | number _ _ | text _ _ | var _ _ => 1
  | group _ inner => inner.depth + 1
  | binary _ _ left right => max left.depth right.depth + 1
  | unary _ _ operand => operand.depth + 1

end Expr

namespace Stmt

def loc : Stmt → Option Location
  | comment loc _ | branch loc _ _ _ | jump loc _ | assign loc _ _ _ | expression loc _ => loc

mutual

def bare : Stmt → Stmt
  | comment _ text => comment none text
  | branch _ condition body otherwise =>
    branch none condition.bare (bareAll body) (bareElse otherwise)
  | jump _ target => jump none target.bare
  | assign _ target op value => assign none target.bare op value.bare
  | expression _ value => expression none value.bare

def bareAll : List Stmt → List Stmt
  | [] => []
  | statement :: rest => statement.bare :: bareAll rest

def bareElse : Option (List Stmt) → Option (List Stmt)
  | none => none
  | some block => some (bareAll block)

end

mutual

/-- How deep a statement nests: one level more than what it holds. -/
def depth : Stmt → Nat
  | comment _ _ => 1
  | branch _ condition body otherwise =>
    max condition.depth (max (depthAll body) (depthElse otherwise)) + 1
  | jump _ target => target.depth + 1
  | assign _ target _ value => max target.depth value.depth + 1
  | expression _ value => value.depth + 1

def depthAll : List Stmt → Nat
  | [] => 0
  | statement :: rest => max statement.depth (depthAll rest)

def depthElse : Option (List Stmt) → Nat
  | none => 0
  | some block => depthAll block

end

mutual

/-- Whether two statements are equal, as a decision. -/
def decideEq : (a b : Stmt) → Decidable (a = b)
  | comment l s, comment l' s' =>
    decidable_of_iff (l = l' ∧ s = s') (by simp)
  | branch l c b e, branch l' c' b' e' =>
    match decideAllEq b b', decideElseEq e e' with
    | isTrue same, isTrue sameElse =>
      decidable_of_iff (l = l' ∧ c = c') (by simp [same, sameElse])
    | isFalse differ, _ => isFalse (by simp [differ])
    | _, isFalse differ => isFalse (by simp [differ])
  | jump l t, jump l' t' => decidable_of_iff (l = l' ∧ t = t') (by simp)
  | assign l t o v, assign l' t' o' v' =>
    decidable_of_iff (l = l' ∧ t = t' ∧ o = o' ∧ v = v') (by simp)
  | expression l v, expression l' v' => decidable_of_iff (l = l' ∧ v = v') (by simp)
  | comment .., branch .. | comment .., jump .. | comment .., assign ..
  | comment .., expression .. | branch .., comment .. | branch .., jump ..
  | branch .., assign .. | branch .., expression .. | jump .., comment ..
  | jump .., branch .. | jump .., assign .. | jump .., expression ..
  | assign .., comment .. | assign .., branch .. | assign .., jump ..
  | assign .., expression .. | expression .., comment .. | expression .., branch ..
  | expression .., jump .. | expression .., assign .. => isFalse (by simp)

def decideAllEq : (a b : List Stmt) → Decidable (a = b)
  | [], [] => isTrue rfl
  | [], _ :: _ => isFalse (by simp)
  | _ :: _, [] => isFalse (by simp)
  | a :: as, b :: bs =>
    match decideEq a b, decideAllEq as bs with
    | isTrue same, isTrue sameRest => isTrue (by rw [same, sameRest])
    | isFalse differ, _ => isFalse (by simp [differ])
    | _, isFalse differ => isFalse (by simp [differ])

def decideElseEq : (a b : Option (List Stmt)) → Decidable (a = b)
  | none, none => isTrue rfl
  | none, some _ => isFalse (by simp)
  | some _, none => isFalse (by simp)
  | some a, some b =>
    match decideAllEq a b with
    | isTrue same => isTrue (by rw [same])
    | isFalse differ => isFalse (by simp [differ])

end

instance : DecidableEq Stmt := decideEq

/-- The name of a statement's kind, as logs and events show it. -/
def kind : Stmt → String
  | comment .. => "Comment"
  | branch .. => "IfStatement"
  | jump .. => "GotoStatement"
  | assign .. => "Assignment"
  | expression .. => "ExpressionStatement"

end Stmt

instance : DecidableEq Line := fun a b =>
  decidable_of_iff (a.loc = b.loc ∧ a.statements = b.statements ∧ a.number = b.number) (by
    cases a; cases b; simp)

/-- The line without its locations. Two lines that are equal after it are run alike, but for
what the log and reports show of places. -/
def Line.bare (line : Line) : Line := ⟨none, Stmt.bareAll line.statements, line.number⟩

end YololChip
