import YololChip.Cylon.Export
import YololChip.Proofs.Names

/-!
# Trees that a document can carry

A document has no place for a comment inside an if statement, for an assignment to
anything but a variable, or for an else part without statements. It holds names and not
variables, so only a variable that its own name names again comes back. Trees within
these bounds are portable. A document carries a portable program without its
locations, its errors and the comments of its lines that are empty.
-/

namespace YololChip

namespace Expr

/-- Whether every variable of an expression is settled. Nothing else in an expression can be
such that a document has no form for it. -/
def Settled : Expr → Prop
  | number _ _ | text _ _ => True
  | var _ target => target.Settled
  | group _ inner => inner.Settled
  | binary _ _ left right => left.Settled ∧ right.Settled
  | unary _ _ operand => operand.Settled

@[simp] theorem bare_bare (e : Expr) : e.bare.bare = e.bare := by
  induction e with
  | number | text | var => rfl
  | group _ _ inductionHypothesis => rw [bare, bare, inductionHypothesis]
  | binary _ _ _ _ left right => rw [bare, bare, left, right]
  | unary _ _ _ inductionHypothesis => rw [bare, bare, inductionHypothesis]

@[simp] theorem depth_bare (e : Expr) : e.bare.depth = e.depth := by
  induction e with
  | number | text | var => rfl
  | group _ _ inductionHypothesis => rw [bare, depth, depth, inductionHypothesis]
  | binary _ _ _ _ left right => rw [bare, depth, depth, left, right]
  | unary _ _ _ inductionHypothesis => rw [bare, depth, depth, inductionHypothesis]

@[simp] theorem settled_bare (e : Expr) : e.bare.Settled ↔ e.Settled := by
  induction e with
  | number | text | var => rfl
  | group _ _ inductionHypothesis => exact inductionHypothesis
  | binary _ _ _ _ left right => exact and_congr left right
  | unary _ _ _ inductionHypothesis => exact inductionHypothesis

end Expr

namespace Stmt

mutual

/-- Whether a document has a form for a statement. -/
def Portable : Stmt → Prop
  | comment _ _ => False
  | branch _ condition body otherwise =>
    condition.Settled ∧ PortableAll body ∧ PortableElse otherwise
  | jump _ target => target.Settled
  | assign _ (.var _ target) _ value => target.Settled ∧ value.Settled
  | assign _ _ _ _ => False
  | expression _ value => value.Settled

def PortableAll : List Stmt → Prop
  | [] => True
  | statement :: rest => statement.Portable ∧ PortableAll rest

/-- Whether a document has a form for an else part, which must not be empty. -/
def PortableElse : Option (List Stmt) → Prop
  | none => True
  | some block => block ≠ [] ∧ PortableAll block

end

mutual

/-- Locations of statements forgotten once are forgotten for good. -/
@[simp] theorem bare_bare : (s : Stmt) → s.bare.bare = s.bare
  | comment _ _ => rfl
  | branch _ condition body otherwise => by
    rw [bare, bare, Expr.bare_bare, bareAll_bareAll body, bareElse_bareElse otherwise]
  | jump _ target => by rw [bare, bare, Expr.bare_bare]
  | assign _ target _ value => by rw [bare, bare, Expr.bare_bare, Expr.bare_bare]
  | expression _ value => by rw [bare, bare, Expr.bare_bare]

/-- Locations of a block forgotten once are forgotten for good. -/
@[simp] theorem bareAll_bareAll : (block : List Stmt) → bareAll (bareAll block) = bareAll block
  | [] => rfl
  | statement :: rest => by rw [bareAll, bareAll, bare_bare statement, bareAll_bareAll rest]

/-- Locations of an else part forgotten once are forgotten for good. -/
@[simp] theorem bareElse_bareElse :
    (otherwise : Option (List Stmt)) → bareElse (bareElse otherwise) = bareElse otherwise
  | none => rfl
  | some block => by rw [bareElse, bareElse, bareAll_bareAll block]

end

mutual

@[simp] theorem depth_bare : (s : Stmt) → s.bare.depth = s.depth
  | comment _ _ => rfl
  | branch _ condition body otherwise => by
    rw [bare, depth, depth, Expr.depth_bare, depthAll_bareAll body, depthElse_bareElse otherwise]
  | jump _ target => by rw [bare, depth, depth, Expr.depth_bare]
  | assign _ target _ value => by rw [bare, depth, depth, Expr.depth_bare, Expr.depth_bare]
  | expression _ value => by rw [bare, depth, depth, Expr.depth_bare]

@[simp] theorem depthAll_bareAll : (block : List Stmt) → depthAll (bareAll block) = depthAll block
  | [] => rfl
  | statement :: rest => by
    rw [bareAll, depthAll, depthAll, depth_bare statement, depthAll_bareAll rest]

@[simp] theorem depthElse_bareElse :
    (otherwise : Option (List Stmt)) → depthElse (bareElse otherwise) = depthElse otherwise
  | none => rfl
  | some block => by rw [bareElse, depthElse, depthElse, depthAll_bareAll block]

end

mutual

/-- A portable statement stays portable without its locations. Nothing about it depends on where
it was read. -/
theorem Portable.bare : {s : Stmt} → s.Portable → s.bare.Portable
  | .comment _ _, portable => portable
  | .branch _ condition _ _, portable =>
    ⟨condition.settled_bare.mpr portable.1, PortableAll.bare portable.2.1,
      PortableElse.bare portable.2.2⟩
  | .jump _ target, portable => target.settled_bare.mpr portable
  | .assign _ target _ value, portable => by
    cases target with
    | var => exact ⟨portable.1, value.settled_bare.mpr portable.2⟩
    | _ => exact False.elim portable
  | .expression _ value, portable => value.settled_bare.mpr portable

theorem PortableAll.bare : {block : List Stmt} → PortableAll block → PortableAll (bareAll block)
  | [], portable => portable
  | _ :: _, portable => ⟨Portable.bare portable.1, PortableAll.bare portable.2⟩

/-- A portable else part stays portable without its locations. -/
theorem PortableElse.bare : {otherwise : Option (List Stmt)} → PortableElse otherwise →
    PortableElse (bareElse otherwise)
  | none, portable => portable
  | some [], portable => absurd rfl portable.1
  | some (_ :: _), portable => ⟨List.cons_ne_nil _ _, PortableAll.bare portable.2⟩

end

/-- The statements of a block lose their locations one by one. -/
theorem bareAll_eq_map (block : List Stmt) : bareAll block = block.map bare := by
  induction block with
  | nil => rfl
  | cons statement rest inductionHypothesis => rw [bareAll, inductionHypothesis, List.map_cons]

/-- The statements of two blocks in a row lose their locations block by block. -/
@[simp] theorem bareAll_append (first second : List Stmt) :
    bareAll (first ++ second) = bareAll first ++ bareAll second := by
  simp [bareAll_eq_map]

theorem portableAll_iff (block : List Stmt) :
    PortableAll block ↔ ∀ statement ∈ block, statement.Portable := by
  induction block with
  | nil => simp [PortableAll]
  | cons statement rest inductionHypothesis => simp [PortableAll, inductionHypothesis]

/-- What stands behind the code of a line, with the text of the comment there: nothing, which
counts as a comment without text, or a comment. A document keeps the text only, so the two are
one to it where the text is empty. -/
inductive Closing : List Stmt → String → Prop where
  | absent : Closing [] ""
  | comment (loc : Option Location) (text : String) : Closing [.comment loc text] text

def isEmptyComment : Stmt → Bool
  | comment _ text => text.isEmpty
  | _ => false

theorem not_isComment_of_portable {s : Stmt} (portable : s.Portable) :
    Cylon.isComment s = false := by
  cases s with
  | comment => exact False.elim portable
  | _ => rfl

theorem not_isEmptyComment {s : Stmt} (other : Cylon.isComment s = false) :
    s.isEmptyComment = false := by
  cases s with
  | comment => exact absurd other (by simp [Cylon.isComment])
  | _ => rfl

end Stmt

namespace Line

/-- Whether a line is code that a document can carry, with at most one comment, which
stands at its end. -/
def Portable (line : Line) : Prop :=
  ∃ code closing text, Stmt.PortableAll code ∧ Stmt.Closing closing text ∧
    line.statements = code ++ closing

/-- The line without its empty comments. Comments stand between statements, and none stands
inside one. Such a comment does nothing when it runs, except that it is a step. -/
def withoutEmptyComments (line : Line) : Line :=
  { line with statements := line.statements.filter (!·.isEmptyComment) }

def carried (line : Line) : Line := line.withoutEmptyComments.bare

/-- Whether lines are numbered one after the other, from the given number on. -/
def NumberedFrom : (number : Nat) → List Line → Prop
  | _, [] => True
  | number, line :: rest => line.number = number ∧ NumberedFrom (number + 1) rest

end Line

/-- A program that a document can carry: its lines are portable, numbered from one, and no more
than a chip holds. Its text and the errors of its lines are not asked for, since a document has
no place for them. -/
structure Program.Portable (p : Program) : Prop where
  lines : ∀ line ∈ p.lines, line.Portable
  numbered : Line.NumberedFrom 1 p.lines
  most : p.lines.length ≤ mostLines

/-- What a document carries of a program: its lines without their locations and empty comments,
and neither its text nor the errors of lines that could not be read. -/
def Program.carried (p : Program) : Program := ⟨none, p.lines.map Line.carried, []⟩

end YololChip
