import YololChip.Proofs.Marks
import YololChip.Source.Program

/-!
# The nodes of trees

All that is in a tree, as lists: the expressions in an expression, the statements in a
statement, and the expressions that these hold. What is said of every variable, every number
or every statement of a program, however deep it stands, is said of the members of these lists.
-/

namespace YololChip

namespace Expr

/-- The expressions in an expression, itself first. The others follow from left to right, as the
tree has them. -/
def nodes : Expr → List Expr
  | number loc value => [number loc value]
  | text loc value => [text loc value]
  | var loc target => [var loc target]
  | group loc inner => group loc inner :: inner.nodes
  | binary loc op left right => binary loc op left right :: (left.nodes ++ right.nodes)
  | unary loc op operand => unary loc op operand :: operand.nodes

def var? : Expr → Option Variable
  | var _ target => some target
  | _ => none

/-- The variable that an expression steps. A step of anything but a variable steps none; it is
refused when it is evaluated. -/
def stepped? : Expr → Option Variable
  | unary _ op (var _ target) => if op.isStep then some target else none
  | _ => none

/-- The variables of an expression are settled if all are that are in it. It is the recursion
over the tree written as a statement of all nodes. -/
theorem settled_iff_nodes (e : Expr) :
    e.Settled ↔ ∀ loc target, var loc target ∈ e.nodes → target.Settled := by
  induction e with
  | number | text => simp [Settled, nodes]
  | var loc target => simp [Settled, nodes]
  | group _ _ inductionHypothesis => simp [Settled, nodes, inductionHypothesis]
  | binary _ _ _ _ left right =>
    simp only [Settled, nodes, left, right, List.mem_cons, List.mem_append, reduceCtorEq, false_or]
    constructor
    · rintro ⟨settledLeft, settledRight⟩ loc target (inLeft | inRight)
      · exact settledLeft loc target inLeft
      · exact settledRight loc target inRight
    · intro settled
      exact ⟨fun loc target member => settled loc target (.inl member),
        fun loc target member => settled loc target (.inr member)⟩
  | unary _ _ _ inductionHypothesis => simp [Settled, nodes, inductionHypothesis]

theorem mem_marks_of_number {e : Expr} {loc : Option Location} {value : Fixed}
    (member : number loc value ∈ e.nodes) : Mark.apart (.number value) ∈ e.marks := by
  induction e with
  | number => simp_all [nodes, marks]
  | text | var => simp [nodes] at member
  | group _ _ inductionHypothesis => simp_all [nodes, marks]
  | binary _ _ _ _ left right =>
    simp only [nodes, List.mem_cons, List.mem_append, reduceCtorEq, false_or] at member
    simp only [marks, List.mem_append]
    rcases member with inLeft | inRight
    · exact .inl (.inl (left inLeft))
    · exact .inr (right inRight)
  | unary _ op _ inductionHypothesis =>
    simp only [nodes, List.mem_cons, reduceCtorEq, false_or] at member
    have inOperand := inductionHypothesis member
    rw [marks]
    split
    · exact List.mem_append_left _ inOperand
    · exact List.mem_append_right _ inOperand

end Expr

namespace Stmt

mutual

/-- The statements in a statement, itself first. -/
def within : Stmt → List Stmt
  | comment loc text => [comment loc text]
  | branch loc condition body otherwise =>
    branch loc condition body otherwise :: (withinAll body ++ withinElse otherwise)
  | jump loc target => [jump loc target]
  | assign loc target op value => [assign loc target op value]
  | expression loc value => [expression loc value]

def withinAll : List Stmt → List Stmt
  | [] => []
  | statement :: rest => statement.within ++ withinAll rest

def withinElse : Option (List Stmt) → List Stmt
  | none => []
  | some block => withinAll block

end

/-- The expressions that a statement holds by itself, and not in a block. The target of an
assignment is one of them. -/
def own : Stmt → List Expr
  | comment _ _ => []
  | branch _ condition _ _ => [condition]
  | jump _ target => [target]
  | assign _ target _ value => [target, value]
  | expression _ value => [value]

def assigned? : Stmt → Option Variable
  | assign _ target _ _ => target.var?
  | _ => none

def nodesAll (block : List Stmt) : List Expr :=
  (withinAll block).flatMap fun s => s.own.flatMap Expr.nodes

def mentionsAll (block : List Stmt) : List Variable := (nodesAll block).filterMap Expr.var?

/-- The variables that a block may set: those that it assigns to or steps. Whether it comes to
that depends on the run. -/
def settableAll (block : List Stmt) : List Variable :=
  (withinAll block).filterMap assigned? ++ (nodesAll block).filterMap Expr.stepped?

theorem mem_within_self (s : Stmt) : s ∈ s.within := by
  cases s <;> simp [within]

/-- The statements in two blocks in a row are those in one of them. -/
@[simp] theorem withinAll_append (first second : List Stmt) :
    withinAll (first ++ second) = withinAll first ++ withinAll second := by
  induction first with
  | nil => rfl
  | cons s rest inductionHypothesis => simp [withinAll, inductionHypothesis]

theorem mem_withinAll_of_mem {s : Stmt} {block : List Stmt} (member : s ∈ block) :
    s ∈ withinAll block := by
  induction block with
  | nil => exact absurd member List.not_mem_nil
  | cons first rest inductionHypothesis =>
    rcases List.mem_cons.mp member with rfl | later
    · exact List.mem_append_left _ s.mem_within_self
    · exact List.mem_append_right _ (inductionHypothesis later)

/-- Whether something holds of all statements in a block, also of those inside others. It is
asked of each statement by itself. -/
def Throughout (holds : Stmt → Prop) (block : List Stmt) : Prop := ∀ s ∈ withinAll block, holds s

/-- What holds throughout a block holds of its first statement. -/
theorem Throughout.head {holds : Stmt → Prop} {s : Stmt} {rest : List Stmt}
    (throughout : Throughout holds (s :: rest)) : holds s :=
  throughout s (List.mem_append_left _ s.mem_within_self)

/-- What holds throughout a block holds throughout the statements behind the first one. -/
theorem Throughout.tail {holds : Stmt → Prop} {s : Stmt} {rest : List Stmt}
    (throughout : Throughout holds (s :: rest)) : Throughout holds rest :=
  fun t member => throughout t (List.mem_append_right _ member)

/-- The expressions in a block are those in the expressions that its statements hold. -/
theorem mem_nodesAll {e : Expr} {block : List Stmt} :
    e ∈ nodesAll block ↔ ∃ s ∈ withinAll block, ∃ held ∈ s.own, e ∈ held.nodes := by
  simp [nodesAll]

/-! ### Portable statements -/

mutual

theorem Portable.within {s t : Stmt} (portable : s.Portable) (member : t ∈ s.within) :
    t.Portable := by
  match s with
  | .comment _ _ => exact False.elim portable
  | .branch loc condition body otherwise =>
    simp only [Stmt.within, List.mem_cons, List.mem_append] at member
    rcases member with rfl | inBody | inElse
    · exact portable
    · exact PortableAll.within portable.2.1 inBody
    · exact PortableElse.within portable.2.2 inElse
  | .jump _ _ | .assign _ _ _ _ | .expression _ _ =>
    rw [List.mem_singleton.mp member]
    exact portable

theorem PortableAll.within {block : List Stmt} {t : Stmt} (portable : PortableAll block)
    (member : t ∈ withinAll block) : t.Portable := by
  match block with
  | [] => exact absurd member List.not_mem_nil
  | s :: rest =>
    rcases List.mem_append.mp member with inFirst | inRest
    · exact Portable.within portable.1 inFirst
    · exact PortableAll.within portable.2 inRest

theorem PortableElse.within {otherwise : Option (List Stmt)} {t : Stmt}
    (portable : PortableElse otherwise) (member : t ∈ withinElse otherwise) : t.Portable := by
  match otherwise with
  | none => exact absurd member List.not_mem_nil
  | some block => exact PortableAll.within portable.2 member

end

/-- The variables that a portable statement holds by itself are settled. So are the variables
that it assigns to. -/
theorem Portable.own {s : Stmt} {e : Expr} (portable : s.Portable) (member : e ∈ s.own) :
    e.Settled := by
  cases s with
  | comment => exact False.elim portable
  | branch =>
    rw [List.mem_singleton.mp member]
    exact portable.1
  | jump | expression =>
    rw [List.mem_singleton.mp member]
    exact portable
  | assign _ target =>
    cases target with
    | var =>
      simp only [Stmt.own, List.mem_cons, List.not_mem_nil, or_false] at member
      rcases member with rfl | rfl
      · exact portable.1
      · exact portable.2
    | _ => exact False.elim portable

/-! ### Marks of statements -/

mutual

/-- The marks of an expression that stands in a statement are marks of the statement. -/
theorem mem_marks_of_within {s t : Stmt} {e : Expr} {m : Mark} (member : t ∈ s.within)
    (holds : e ∈ t.own) (inExpr : m ∈ e.marks) : m ∈ s.marks := by
  match s with
  | .comment _ _ =>
    rw [List.mem_singleton.mp member] at holds
    exact absurd holds List.not_mem_nil
  | .branch loc condition body otherwise =>
    simp only [within, List.mem_cons, List.mem_append] at member
    simp only [marks, List.mem_append]
    rcases member with rfl | inBody | inElse
    · rw [List.mem_singleton.mp holds] at inExpr
      simp [inExpr]
    · simp [mem_marksAll_of_within inBody holds inExpr]
    · simp [mem_marksElse_of_within inElse holds inExpr]
  | .jump _ _ | .expression _ _ =>
    rw [List.mem_singleton.mp member] at holds
    rw [List.mem_singleton.mp holds] at inExpr
    simp [marks, inExpr]
  | .assign _ _ _ _ =>
    rw [List.mem_singleton.mp member] at holds
    simp only [own, List.mem_cons, List.not_mem_nil, or_false] at holds
    rcases holds with rfl | rfl
    · simp [marks, inExpr]
    · simp [marks, inExpr]

/-- The marks of an expression that stands in a block are marks of the block. -/
theorem mem_marksAll_of_within {block : List Stmt} {t : Stmt} {e : Expr} {m : Mark}
    (member : t ∈ withinAll block) (holds : e ∈ t.own) (inExpr : m ∈ e.marks) :
    m ∈ marksAll block := by
  match block with
  | [] => exact absurd member List.not_mem_nil
  | s :: rest =>
    rcases List.mem_append.mp member with inFirst | inRest
    · exact List.mem_append_left _ (mem_marks_of_within inFirst holds inExpr)
    · exact List.mem_append_right _ (mem_marksAll_of_within inRest holds inExpr)

/-- The marks of an expression that stands in an else part are marks of the else part. -/
theorem mem_marksElse_of_within {otherwise : Option (List Stmt)} {t : Stmt} {e : Expr} {m : Mark}
    (member : t ∈ withinElse otherwise) (holds : e ∈ t.own) (inExpr : m ∈ e.marks) :
    m ∈ marksElse otherwise := by
  match otherwise with
  | none => exact absurd member List.not_mem_nil
  | some block => exact List.mem_append_right _ (mem_marksAll_of_within member holds inExpr)

end

end Stmt

/-! ### Lines and programs -/

/-- The statements in a line, also those inside others. -/
def Line.within (line : Line) : List Stmt := Stmt.withinAll line.statements

def Line.nodes (line : Line) : List Expr := Stmt.nodesAll line.statements

def Line.mentions (line : Line) : List Variable := Stmt.mentionsAll line.statements

/-- The variables that a line may set: those that it assigns to or steps. -/
def Line.settable (line : Line) : List Variable := Stmt.settableAll line.statements

def Program.within (p : Program) : List Stmt := p.lines.flatMap Line.within

def Program.nodes (p : Program) : List Expr := p.lines.flatMap Line.nodes

end YololChip
