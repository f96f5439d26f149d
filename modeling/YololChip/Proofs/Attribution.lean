import YololChip.Proofs.Causes
import YololChip.Proofs.SourcePlaces
import YololChip.Proofs.StepRecords

/-!
# Where faults arise

An expression that has no value fails at one of its nodes, whose own operator is refused, and a
statement that fails does so at one site: at such a node, or by what it does with a value. The
fault that ends a line is told of that site, and of the step of the statement that it is in. What is
around the site, be it groups, operators or if statements, has no part in it.
-/

namespace YololChip

/-! ### Expressions -/

namespace Evaluate

variable {ops : Operators}

/-- A value that an expression has stays when it may nest deeper.

Proof: induction over the depth. -/
theorem expression_succ_of_ok {depth : Nat} {e : Expr} {chip after : Chip} {value : Value}
    (has : expression ops depth e chip = (.ok value, after)) :
    expression ops (depth + 1) e chip = (.ok value, after) := by
  induction depth generalizing e chip value after with
  | zero =>
    rw [expression] at has
    exact absurd (congrArg Prod.fst has) (by simp)
  | succ depth inductionHypothesis =>
    cases e with
    | number | text | var => exact has
    | group _ inner => exact inductionHypothesis has
    | binary loc op left right =>
      rw [expression_binary] at has ⊢
      obtain ⟨a, mid, hasLeft, has⟩ := Ended.andThen_eq_ok has
      obtain ⟨b, last, hasRight, has⟩ := Ended.andThen_eq_ok has
      rw [inductionHypothesis hasLeft]
      dsimp only [Ended.andThen]
      rw [inductionHypothesis hasRight]
      exact has
    | unary loc op operand =>
      cases isStep : op.isStep with
      | false =>
        rw [expression_unary _ _ _ isStep] at has ⊢
        obtain ⟨a, mid, hasOperand, has⟩ := Ended.andThen_eq_ok has
        rw [inductionHypothesis hasOperand]
        exact has
      | true =>
        cases operand with
        | var place target =>
          rw [expression_step _ _ _ _ isStep] at has ⊢
          exact has
        | _ =>
          rw [expression_step_other _ _ _ isStep (by simp)] at has ⊢
          exact has

/-- A value that an expression has stays at every greater depth. Only running out of levels
depends on how many there are. -/
theorem expression_of_le {depth deeper : Nat} (le : depth ≤ deeper) {e : Expr} {chip after : Chip}
    {value : Value} (has : expression ops depth e chip = (.ok value, after)) :
    expression ops deeper e chip = (.ok value, after) := by
  induction le with
  | refl => exact has
  | step _ inductionHypothesis => exact expression_succ_of_ok inductionHypothesis

/-- A value that an expression has within the greatest depth is what it is evaluated to. -/
theorem evaluate_of_ok {depth : Nat} (within : depth ≤ Grammar.nestingLimit) {e : Expr}
    {chip after : Chip} {value : Value}
    (has : expression ops depth e chip = (.ok value, after)) :
    evaluate ops e chip = (.ok value, after) :=
  expression_of_le within has

/-- An outcome that is a value is the value of the operator, and leaves the chip as it was. -/
theorem at_eq_ok {loc : Option Location} {result : Except EvalCause Value} {chip after : Chip}
    {value : Value} (has : at? loc result chip = (.ok value, after)) :
    result = .ok value ∧ chip = after := by
  cases result with
  | error cause => exact absurd (congrArg Prod.fst has) (by simp [at?])
  | ok other =>
    obtain ⟨same, rfl⟩ := Prod.mk.inj has
    exact ⟨congrArg Except.ok (Except.ok.inj same), rfl⟩

/-- An outcome that is refused at a location is refused by the cause, at that location. -/
theorem at_eq_error {loc : Option Location} {result : Except EvalCause Value}
    {chip after : Chip} {error : EvalError} (failed : at? loc result chip = (.error error, after)) :
    result = .error error.cause ∧ error = ⟨error.cause, loc, none⟩ := by
  cases result with
  | ok value => exact absurd (congrArg Prod.fst failed) (by simp [at?])
  | error cause =>
    obtain ⟨same, -⟩ := Prod.mk.inj failed
    obtain rfl := Except.error.inj same
    exact ⟨rfl, rfl⟩

/-- If an operator between two operands has a value, both operands have one. They are evaluated
with one level less, which makes no difference to a value. -/
theorem of_evaluate_binary {loc : Option Location} {op : BinaryOperator} {left right : Expr}
    {chip after : Chip} {value : Value}
    (has : evaluate ops (.binary loc op left right) chip = (.ok value, after)) :
    ∃ a mid b, evaluate ops left chip = (.ok a, mid) ∧ evaluate ops right mid = (.ok b, after) ∧
      ops.applyBinary op a b = .ok value := by
  have below : Grammar.nestingLimit - 1 ≤ Grammar.nestingLimit := Nat.sub_le _ _
  have inside : Grammar.nestingLimit = Grammar.nestingLimit - 1 + 1 := rfl
  rw [evaluate, inside, expression_binary] at has
  obtain ⟨a, mid, hasLeft, has⟩ := Ended.andThen_eq_ok has
  obtain ⟨b, last, hasRight, has⟩ := Ended.andThen_eq_ok has
  obtain ⟨applied, rfl⟩ := at_eq_ok has
  exact ⟨a, mid, b, evaluate_of_ok below hasLeft, evaluate_of_ok below hasRight, applied⟩

/-- If an operator that is no step has a value, so has its operand. -/
theorem of_evaluate_unary {loc : Option Location} {op : UnaryOperator} (noStep : op.isStep = false)
    {operand : Expr} {chip after : Chip} {value : Value}
    (has : evaluate ops (.unary loc op operand) chip = (.ok value, after)) :
    ∃ a, evaluate ops operand chip = (.ok a, after) ∧ ops.applyUnary op a = .ok value := by
  have below : Grammar.nestingLimit - 1 ≤ Grammar.nestingLimit := Nat.sub_le _ _
  have inside : Grammar.nestingLimit = Grammar.nestingLimit - 1 + 1 := rfl
  rw [evaluate, inside, expression_unary _ _ _ noStep] at has
  obtain ⟨a, mid, hasOperand, has⟩ := Ended.andThen_eq_ok has
  obtain ⟨applied, rfl⟩ := at_eq_ok has
  exact ⟨a, evaluate_of_ok below hasOperand, applied⟩

end Evaluate

/-- How an expression that has no value fails at one of its nodes: what is evaluated before the
node has a value, and the node's own operator is refused. Steps are refused by themselves, and
all other operators after their operands were evaluated. That an expression nests too deep is no
failure of any of its nodes. -/
inductive Expr.FailsAt (ops : Operators) : Expr → Chip → Expr → EvalCause → Prop where
  | group (loc : Option Location) {inner node : Expr} {chip : Chip} {cause : EvalCause}
      (fails : FailsAt ops inner chip node cause) : FailsAt ops (.group loc inner) chip node cause
  | left (loc : Option Location) (op : BinaryOperator) {left node : Expr} (right : Expr)
      {chip : Chip} {cause : EvalCause} (fails : FailsAt ops left chip node cause) :
    FailsAt ops (.binary loc op left right) chip node cause
  | right (loc : Option Location) (op : BinaryOperator) {left right node : Expr}
      {chip mid : Chip} {a : Value} {cause : EvalCause}
      (evaluated : evaluate ops left chip = (.ok a, mid))
      (fails : FailsAt ops right mid node cause) :
    FailsAt ops (.binary loc op left right) chip node cause
  | binary (loc : Option Location) {op : BinaryOperator} {left right : Expr}
      {chip mid after : Chip} {a b : Value} {cause : EvalCause}
      (evaluated : evaluate ops left chip = (.ok a, mid))
      (evaluatedToo : evaluate ops right mid = (.ok b, after))
      (refused : ops.applyBinary op a b = .error cause) :
    FailsAt ops (.binary loc op left right) chip (.binary loc op left right) cause
  | operand (loc : Option Location) {op : UnaryOperator} (noStep : op.isStep = false)
      {operand node : Expr} {chip : Chip} {cause : EvalCause}
      (fails : FailsAt ops operand chip node cause) :
    FailsAt ops (.unary loc op operand) chip node cause
  | unary (loc : Option Location) {op : UnaryOperator} (noStep : op.isStep = false)
      {operand : Expr} {chip after : Chip} {a : Value} {cause : EvalCause}
      (evaluated : evaluate ops operand chip = (.ok a, after))
      (refused : ops.applyUnary op a = .error cause) :
    FailsAt ops (.unary loc op operand) chip (.unary loc op operand) cause
  | step (loc place : Option Location) {op : UnaryOperator} (isStep : op.isStep = true)
      {target : Variable} {chip : Chip} {cause : EvalCause}
      (refused : Behaviour.step op (chip.read target) = .error cause) :
    FailsAt ops (.unary loc op (.var place target)) chip (.unary loc op (.var place target)) cause
  | stepOther (loc : Option Location) {op : UnaryOperator} (isStep : op.isStep = true)
      {operand : Expr} (other : ∀ place target, operand ≠ .var place target) (chip : Chip) :
    FailsAt ops (.unary loc op operand) chip (.unary loc op operand) (.stepOnExpression op operand)

/-- The node at which an expression fails is one of its nodes. Its location is therefore one of
those in the expression. -/
theorem Expr.FailsAt.mem_nodes {ops : Operators} {e node : Expr} {chip : Chip} {cause : EvalCause}
    (fails : e.FailsAt ops chip node cause) : node ∈ e.nodes := by
  induction fails with
  | group _ _ inductionHypothesis => exact List.mem_cons_of_mem _ inductionHypothesis
  | left _ _ _ _ inductionHypothesis =>
    exact List.mem_cons_of_mem _ (List.mem_append_left _ inductionHypothesis)
  | right _ _ _ _ inductionHypothesis =>
    exact List.mem_cons_of_mem _ (List.mem_append_right _ inductionHypothesis)
  | operand _ _ _ inductionHypothesis => exact List.mem_cons_of_mem _ inductionHypothesis
  | binary | unary | step | stepOther => exact List.mem_cons_self

/-- An expression that fails at a node has no value.

Proof: induction over how it fails. If it had one, then so had each operand, in the order in which
they are evaluated. -/
theorem Expr.FailsAt.evaluate_ne {ops : Operators} {e node : Expr} {chip : Chip}
    {cause : EvalCause} (fails : e.FailsAt ops chip node cause) (value : Value) (after : Chip) :
    evaluate ops e chip ≠ (.ok value, after) := by
  intro has
  induction fails generalizing value after with
  | group _ _ inductionHypothesis =>
    exact inductionHypothesis _ _ (Evaluate.evaluate_of_ok (Nat.sub_le _ 1) has)
  | left _ _ _ _ inductionHypothesis =>
    obtain ⟨_, _, _, hasLeft, _⟩ := Evaluate.of_evaluate_binary has
    exact inductionHypothesis _ _ hasLeft
  | right _ _ evaluated _ inductionHypothesis =>
    obtain ⟨_, _, _, hasLeft, hasRight, _⟩ := Evaluate.of_evaluate_binary has
    obtain ⟨_, rfl⟩ := Prod.mk.inj (evaluated.symm.trans hasLeft)
    exact inductionHypothesis _ _ hasRight
  | binary _ evaluated evaluatedToo refused =>
    obtain ⟨_, _, _, hasLeft, hasRight, applied⟩ := Evaluate.of_evaluate_binary has
    obtain ⟨first, rfl⟩ := Prod.mk.inj (evaluated.symm.trans hasLeft)
    obtain ⟨second, rfl⟩ := Prod.mk.inj (evaluatedToo.symm.trans hasRight)
    rw [← Except.ok.inj first, ← Except.ok.inj second, refused] at applied
    contradiction
  | operand _ noStep _ inductionHypothesis =>
    obtain ⟨_, hasOperand, _⟩ := Evaluate.of_evaluate_unary noStep has
    exact inductionHypothesis _ _ hasOperand
  | unary _ noStep evaluated refused =>
    obtain ⟨_, hasOperand, applied⟩ := Evaluate.of_evaluate_unary noStep has
    obtain ⟨same, rfl⟩ := Prod.mk.inj (evaluated.symm.trans hasOperand)
    rw [← Except.ok.inj same, refused] at applied
    contradiction
  | step loc place isStep refused =>
    rw [evaluate, show Grammar.nestingLimit = Grammar.nestingLimit - 1 + 1 from rfl,
      Evaluate.expression_step _ _ _ _ isStep, Evaluate.stepVariable, refused] at has
    exact absurd (congrArg Prod.fst has) (by simp)
  | stepOther loc isStep other =>
    rw [evaluate, show Grammar.nestingLimit = Grammar.nestingLimit - 1 + 1 from rfl,
      Evaluate.expression_step_other _ _ _ isStep other] at has
    exact absurd (congrArg Prod.fst has) (by simp)

/-- An expression fails at one node only.

Proof: induction over how it fails. What has a value does not fail. -/
theorem Expr.FailsAt.unique {ops : Operators} {e node other : Expr} {chip : Chip}
    {cause causeToo : EvalCause} (fails : e.FailsAt ops chip node cause)
    (failsToo : e.FailsAt ops chip other causeToo) : node = other := by
  induction fails with
  | group _ _ inductionHypothesis =>
    cases failsToo with
    | group _ inside => exact inductionHypothesis inside
  | left _ _ _ fails inductionHypothesis =>
    cases failsToo with
    | left _ _ _ inside => exact inductionHypothesis inside
    | right _ _ evaluated => exact absurd evaluated (fails.evaluate_ne _ _)
    | binary _ evaluated => exact absurd evaluated (fails.evaluate_ne _ _)
  | right _ _ evaluated fails inductionHypothesis =>
    cases failsToo with
    | left _ _ _ inside => exact absurd evaluated (inside.evaluate_ne _ _)
    | right _ _ evaluatedToo inside =>
      obtain ⟨_, rfl⟩ := Prod.mk.inj (evaluated.symm.trans evaluatedToo)
      exact inductionHypothesis inside
    | binary _ evaluatedToo hasRight =>
      obtain ⟨_, rfl⟩ := Prod.mk.inj (evaluated.symm.trans evaluatedToo)
      exact absurd hasRight (fails.evaluate_ne _ _)
  | binary _ evaluated hasRight =>
    cases failsToo with
    | left _ _ _ inside => exact absurd evaluated (inside.evaluate_ne _ _)
    | right _ _ evaluatedToo inside =>
      obtain ⟨_, rfl⟩ := Prod.mk.inj (evaluated.symm.trans evaluatedToo)
      exact absurd hasRight (inside.evaluate_ne _ _)
    | binary => rfl
  | operand _ noStep fails inductionHypothesis =>
    cases failsToo with
    | operand _ _ inside => exact inductionHypothesis inside
    | unary _ _ evaluated => exact absurd evaluated (fails.evaluate_ne _ _)
    | step _ _ isStep | stepOther _ isStep => simp [noStep] at isStep
  | unary _ noStep evaluated =>
    cases failsToo with
    | operand _ _ inside => exact absurd evaluated (inside.evaluate_ne _ _)
    | unary => rfl
    | step _ _ isStep | stepOther _ isStep => simp [noStep] at isStep
  | step _ _ isStep =>
    cases failsToo with
    | operand _ noStep | unary _ noStep => simp [noStep] at isStep
    | step | stepOther => rfl
  | stepOther _ isStep =>
    cases failsToo with
    | operand _ noStep | unary _ noStep => simp [noStep] at isStep
    | step | stepOther => rfl

/-- An expression that fails, and not because it nests too deep, fails at a node, and the fault
carries the location of that node.

Proof: induction over the depth. What is evaluated on the way has its value at every greater
depth. -/
theorem Evaluate.failsAt_of_error {ops : Operators} {depth : Nat} {e : Expr} {chip after : Chip}
    {error : EvalError} (within : depth ≤ Grammar.nestingLimit)
    (failed : expression ops depth e chip = (.error error, after))
    (shallow : error.cause ≠ .tooDeep) :
    ∃ node, e.FailsAt ops chip node error.cause ∧ error = ⟨error.cause, node.loc, none⟩ := by
  induction depth generalizing e chip after with
  | zero =>
    rw [expression] at failed
    obtain ⟨same, -⟩ := Prod.mk.inj failed
    rw [← Except.error.inj same] at shallow
    exact absurd rfl shallow
  | succ depth inductionHypothesis =>
    have below : depth ≤ Grammar.nestingLimit := Nat.le_of_succ_le within
    cases e with
    | number | text | var => exact absurd (congrArg Prod.fst failed) (by simp [expression])
    | group loc inner =>
      obtain ⟨node, fails, here⟩ := inductionHypothesis below failed
      exact ⟨node, .group loc fails, here⟩
    | binary loc op left right =>
      rw [expression_binary] at failed
      rcases Ended.andThen_eq_error failed with failed | ⟨a, mid, hasLeft, failed⟩
      · obtain ⟨node, fails, here⟩ := inductionHypothesis below failed
        exact ⟨node, .left loc op right fails, here⟩
      rcases Ended.andThen_eq_error failed with failed | ⟨b, last, hasRight, failed⟩
      · obtain ⟨node, fails, here⟩ := inductionHypothesis below failed
        exact ⟨node, .right loc op (evaluate_of_ok below hasLeft) fails, here⟩
      · obtain ⟨refused, here⟩ := at_eq_error failed
        have evaluated := evaluate_of_ok below hasLeft
        have evaluatedToo := evaluate_of_ok below hasRight
        exact ⟨_, .binary loc evaluated evaluatedToo refused, here⟩
    | unary loc op operand =>
      cases isStep : op.isStep with
      | false =>
        rw [expression_unary _ _ _ isStep] at failed
        rcases Ended.andThen_eq_error failed with failed | ⟨a, mid, hasOperand, failed⟩
        · obtain ⟨node, fails, here⟩ := inductionHypothesis below failed
          exact ⟨node, .operand loc isStep fails, here⟩
        · obtain ⟨refused, here⟩ := at_eq_error failed
          exact ⟨_, .unary loc isStep (evaluate_of_ok below hasOperand) refused, here⟩
      | true =>
        by_cases isVariable : ∃ place target, operand = .var place target
        · obtain ⟨place, target, rfl⟩ := isVariable
          rw [expression_step _ _ _ _ isStep, stepVariable] at failed
          split at failed
          · next refused =>
            obtain ⟨same, -⟩ := Prod.mk.inj failed
            obtain rfl := Except.error.inj same
            exact ⟨_, .step loc place isStep refused, rfl⟩
          · exact absurd (congrArg Prod.fst failed) (by simp)
        · have other : ∀ place target, operand ≠ .var place target := by
            rintro place target rfl
            exact isVariable ⟨place, target, rfl⟩
          rw [expression_step_other _ _ _ isStep other] at failed
          obtain ⟨same, -⟩ := Prod.mk.inj failed
          obtain rfl := Except.error.inj same
          exact ⟨_, .stepOther loc isStep other chip, rfl⟩

/-! ### Statements -/

/-- What can fail in a line: an expression by its own operator, or a statement by what it does
with a value. A fault carries the location of its site, whatever is around that. -/
inductive Site where
  | expression (node : Expr)
  | statement (s : Stmt)

/-- Where a site was read, if it was read from source. -/
def Site.loc : Site → Option Location
  | expression node => node.loc
  | statement s => s.loc

/-- How a statement fails at a site: at a node of the expression that it evaluates, or itself,
as a compound assignment whose operator is refused or as a goto to a text. A simple assignment
of a value cannot fail, and statements inside of an if statement fail on their own. -/
inductive Stmt.FailsAt (ops : Operators) : Stmt → Chip → Site → EvalCause → Prop where
  | evaluated {s : Stmt} {e node : Expr} {chip : Chip} {cause : EvalCause}
      (first : s.evaluated? = some e) (fails : e.FailsAt ops chip node cause) :
    FailsAt ops s chip (.expression node) cause
  | assign (loc place : Option Location) {target : Variable} {op : AssignOperator}
      {binary : BinaryOperator} (compound : op.binary? = some binary) {e : Expr}
      {chip after : Chip} {value : Value} {cause : EvalCause}
      (evaluated : evaluate ops e chip = (.ok value, after))
      (refused : ops.applyBinary binary (after.read target) value = .error cause) :
    FailsAt ops (.assign loc (.var place target) op e) chip
      (.statement (.assign loc (.var place target) op e)) cause
  | jump (loc : Option Location) {e : Expr} {chip after : Chip} {text : String}
      (evaluated : evaluate ops e chip = (.ok (.str text), after)) :
    FailsAt ops (.jump loc e) chip (.statement (.jump loc e)) .jumpToText

section

variable {ops : Operators} {chip left : Chip} {error : EvalError}

/-- A statement that fails, and not because it nests too deep, fails at a site, and the fault
carries the location of the site. -/
theorem Stmt.Does.failsAt {s : Stmt} (does : s.Does ops chip (.failed error) left)
    (targeted : s.Targeted) (shallow : error.cause ≠ .tooDeep) :
    ∃ site, s.FailsAt ops chip site error.cause ∧ error = ⟨error.cause, site.loc, none⟩ := by
  cases does with
  | unevaluated first refused =>
    obtain ⟨node, fails, here⟩ := Evaluate.failsAt_of_error (Nat.le_refl _) refused shallow
    exact ⟨.expression node, .evaluated first fails, here⟩
  | @assignRefused loc place target op e _ _ value cause evaluated refused =>
    unfold AssignOperator.stored at refused
    split at refused
    · contradiction
    · next compound => exact ⟨.statement _, .assign loc place compound evaluated refused, rfl⟩
  | assignElsewhere _ _ _ _ elsewhere =>
    obtain ⟨place, v, isVariable⟩ := targeted _ _ _ _ rfl
    exact absurd isVariable (elsewhere place v)
  | jumpToText loc evaluated => exact ⟨.statement _, .jump loc evaluated, rfl⟩

theorem Stmt.FailsAt.unique {s : Stmt} {site other : Site} {cause causeToo : EvalCause}
    (fails : s.FailsAt ops chip site cause) (failsToo : s.FailsAt ops chip other causeToo) :
    site = other := by
  cases fails with
  | evaluated first fails =>
    cases failsToo with
    | evaluated firstToo inside =>
      obtain rfl := Option.some.inj (first.symm.trans firstToo)
      rw [fails.unique inside]
    | assign _ _ _ evaluated | jump _ evaluated =>
      obtain rfl := Option.some.inj first
      exact absurd evaluated (fails.evaluate_ne _ _)
  | assign _ _ _ evaluated =>
    cases failsToo with
    | evaluated first inside =>
      obtain rfl := Option.some.inj first
      exact absurd evaluated (inside.evaluate_ne _ _)
    | assign => rfl
  | jump _ evaluated =>
    cases failsToo with
    | evaluated first inside =>
      obtain rfl := Option.some.inj first
      exact absurd evaluated (inside.evaluate_ne _ _)
    | jump => rfl

theorem Stmt.FailsAt.placed {place : Option Location → Prop} {s : Stmt} {site : Site}
    {cause : EvalCause} (fails : s.FailsAt ops chip site cause) (sits : s.Sits place) :
    place site.loc := by
  cases fails with
  | evaluated first fails => exact sits.2 _ (mem_own_of_evaluated first) _ fails.mem_nodes
  | assign | jump => exact sits.1

/-- What holds throughout a block holds of all statements in it that are started.

Proof: induction over the rules. -/
theorem Executes.holds_of_started {holds : Stmt → Prop} {block : List Stmt} {told : List Notice}
    {finish : Finish} (executes : Executes ops block chip told finish left)
    (throughout : Stmt.Throughout holds block) : ∀ s ∈ Notice.started told, holds s := by
  induction executes with
  | nothing => exact fun _ member => absurd member List.not_mem_nil
  | next _ _ inductionHypothesis =>
    intro s member
    rcases List.mem_cons.mp member with rfl | later
    · exact throughout.head
    · exact inductionHypothesis throughout.tail s later
  | cut =>
    intro s member
    rw [List.mem_singleton.mp member]
    exact throughout.head
  | branch _ _ _ _ takenHypothesis goesOnHypothesis =>
    intro s member
    rcases List.mem_cons.mp member with rfl | later
    · exact throughout.head
    · rw [← Notice.started, Notice.started_append, List.mem_append] at later
      rcases later with inside | behind
      · exact takenHypothesis (throughout.chosen _) s inside
      · exact goesOnHypothesis throughout.tail s behind
  | branchCut _ _ _ _ _ inductionHypothesis =>
    intro s member
    rcases List.mem_cons.mp member with rfl | inside
    · exact throughout.head
    · exact inductionHypothesis (throughout.chosen _) s inside

/-- When statements fail, the last of those that they start is the one that failed: its start is
the last thing that is told, and it failed by a rule of its own.

Proof: induction over the rules. What is behind the statement that failed does not start. -/
theorem Executes.failing {block : List Stmt} {told : List Notice} {finish : Finish}
    (executes : Executes ops block chip told finish left) (failed : finish = .failed error) :
    ∃ s start, (Effect.startsAll ops block chip).getLast? = some (s, start) ∧
      told.getLast? = some (.statementStarted s) ∧ s.Does ops start (.failed error) left := by
  induction executes with
  | nothing => contradiction
  | next does _ inductionHypothesis =>
    obtain ⟨s, start, last, announced, fails⟩ := inductionHypothesis failed
    refine ⟨s, start, ?_, ?_, fails⟩
    · rw [(Effect.ofBlock_of_done _ does.ofStatement.1).2, List.getLast?_append, last]
      rfl
    · rw [List.getLast?_cons_cons, List.getLast?_cons, announced]
      rfl
  | @cut s rest chip left finish does early =>
    subst failed
    obtain ⟨ends, alone⟩ := does.ofStatement
    refine ⟨s, chip, ?_, rfl, does⟩
    rw [(Effect.ofBlock_of_cut rest early ends).2, alone]
    rfl
  | branch loc evaluated taken _ _ inductionHypothesis =>
    obtain ⟨s, start, last, announced, fails⟩ := inductionHypothesis failed
    obtain ⟨chooses, -⟩ := Effect.ofStatement_branch evaluated
    refine ⟨s, start, ?_, ?_, fails⟩
    · rw [(Effect.ofBlock_of_done _ (chooses.trans taken.ofBlock.1)).2, List.getLast?_append, last]
      rfl
    · rw [List.getLast?_cons, List.getLast?_append, List.getLast?_cons, announced]
      rfl
  | branchCut loc rest evaluated taken early inductionHypothesis =>
    obtain ⟨s, start, last, announced, fails⟩ := inductionHypothesis failed
    obtain ⟨chooses, starts⟩ := Effect.ofStatement_branch evaluated
    refine ⟨s, start, ?_, ?_, fails⟩
    · rw [(Effect.ofBlock_of_cut rest early (chooses.trans taken.ofBlock.1)).2, starts,
        List.getLast?_cons, last]
      rfl
    · rw [List.getLast?_cons, announced]
      rfl

/-- The statement whose start is told of last is the innermost unfinished one. -/
theorem Executes.innermost {block : List Stmt} {told : List Notice} {finish : Finish} {s : Stmt}
    (executes : Executes ops block chip told finish left)
    (announced : told.getLast? = some (.statementStarted s)) :
    ∃ around, Notice.unfinished [] told = some (s :: around) := by
  obtain ⟨first, rfl⟩ := List.getLast?_eq_some_iff.mp announced
  obtain ⟨cut, remain, -⟩ := executes.unfinished []
  rw [List.append_nil] at remain
  obtain ⟨around, rfl⟩ := List.head?_eq_some_iff.mp (Notice.head_unfinished remain)
  exact ⟨around, remain⟩

end

/-! ### The log -/

namespace StepLog

/-- The limit of a log stays over any number of recordings. -/
theorem limit_recordAll (log : StepLog) (rs : List Recording) :
    (log.recordAll rs).window.limit = log.window.limit := by
  induction rs generalizing log with
  | nil => rfl
  | cons r rest inductionHypothesis =>
    rw [recordAll, List.foldl_cons, ← recordAll, inductionHypothesis, limit_record]

/-- The newest entry of a log with room is that of the last recording. Without room it would be
dropped at once, and no entry could be named. -/
theorem newest?_recordAll {log : StepLog} (room : 0 < log.window.limit) {rs : List Recording}
    {r : Recording} (last : rs.getLast? = some r) :
    ∃ entry, (log.recordAll rs).newest? = some entry ∧
      entry.stepIndex + 1 = log.nextIndex + rs.length ∧ entry.line = r.line ∧
      entry.loc = r.loc := by
  obtain ⟨earlier, rfl⟩ := List.getLast?_eq_some_iff.mp last
  have records := (log.recordAll earlier).entryOf_records r
  refine ⟨_, ?_, ?_, records.line, records.loc⟩
  · have newest : (((log.recordAll earlier).record r).window.newestFirst).head? =
        some ((log.recordAll earlier).entryOf r) := by
      rw [record, push, Window.newestFirst_push, List.head?_take, limit_recordAll,
        if_neg (Nat.ne_of_gt room)]
      rfl
    rw [recordAll_append]
    exact newest
  · rw [records.index, nextIndex_recordAll, List.length_append]
    rfl

end StepLog

/-! ### Lines -/

/-- The statements of a line that is read assign to variables only. -/
theorem Line.targeted_of_parse {text file : String} {number : Int} {line : Line}
    (read : Line.parse text file number = .ok line) : ∀ s ∈ line.within, s.Targeted := by
  rintro s member loc target op value rfl
  rcases (Line.portable_of_parse read).1.within member with portable | ⟨_, _, isComment⟩
  · cases target with
    | var place v => exact ⟨place, v, rfl⟩
    | _ => exact False.elim portable
  · contradiction

theorem Line.mem_within_of_starts {ops : Operators} {line : Line} {chip start : Chip} {s : Stmt}
    (member : (s, start) ∈ line.starts ops chip) : s ∈ line.within := by
  obtain ⟨told, finish, left, executes⟩ := exists_executes ops line.statements chip
  have throughout : Stmt.Throughout (· ∈ line.within) line.statements := fun _ member => member
  apply executes.holds_of_started throughout
  rw [← executes.ofBlock.2]
  exact List.mem_map_of_mem member

/-- Whether a fault that ends a line is told of the place where it arose. The statement is the
last one that was started, from the chip that it started from; it is the innermost of those that
are unfinished, and the entry of its start is the newest in the log. The site is what fails in
the statement, and nothing else in it does; the fault carries its location, and no location that
stands around it. -/
structure EvalError.ArosesAt (ops : Operators) (line : Line) (chip : Chip) (log : StepLog)
    (error : EvalError) (s : Stmt) (start : Chip) (site : Site) (entry : LogEntry) : Prop where
  started : (line.starts ops chip).getLast? = some (s, start)
  innermost : ∃ told left around,
    Executes ops line.statements chip told (.failed ⟨error.cause, site.loc, none⟩) left ∧
      Notice.unfinished [] told = some (s :: around)
  newest : log.newest? = some entry
  entryLine : entry.line = line.number
  entryLoc : entry.loc = s.loc
  step : error.stepIndex = some entry.stepIndex
  fails : s.FailsAt ops start site error.cause
  only : ∀ other cause, s.FailsAt ops start other cause → other = site
  located : error.loc = site.loc

/-- A fault under the heading of refused operators is one of an evaluation. A hook's fault and
an error of a source go under other headings. -/
theorem Fault.eval_of_title {fault : Fault} (titled : fault.title = "OperatorError") :
    ∃ error, fault = .eval error ∧ error.cause.kind = .operator := by
  cases fault with
  | eval error =>
    refine ⟨error, rfl, ?_⟩
    by_cases refused : error.cause.kind = .operator
    · exact refused
    · simp [title, refused] at titled
  | source error => cases error <;> simp [title] at titled
  | document | hook | plain => simp [title] at titled

namespace Interpreter

variable {verbose : Bool} {name : String} {ops : Operators} {line : Line} {m : Machine Unit}

/-- Without observers, a line that ends by a fault is executed to a fault of its own, which is then
told of what the log and the line know of it. -/
theorem executes_of_runLine {fault : Fault}
    (raised : ((unobserved verbose name ops).runLine line m).1 = some fault) :
    ∃ told failure left, Executes ops line.statements m.chip told (.failed failure) left ∧
      fault = .eval (placed line ((unobserved verbose name ops).runLine line m).2.log failure) := by
  obtain ⟨told, finish, left, executes⟩ := exists_executes ops line.statements m.chip
  have ends := runBlock_of_executes (i := unobserved verbose name ops) executes
    Hooks.watching_none line.number
  rw [runLine, dispatch_unobserved] at raised ⊢
  dsimp only at raised ⊢
  generalize (unobserved verbose name ops).runBlock line.number line.statements m = run
    at ends raised ⊢
  obtain ⟨ending, after⟩ := run
  obtain rfl : ending = finish.ending := ends
  cases finish with
  | completed | jumped => contradiction
  | failed failure => exact ⟨told, failure, left, executes, (Option.some.inj raised).symm⟩

/-- A fault is at the line's own place if it nests too deep, and keeps any other place that it has,
whatever the newest step is. -/
theorem loc_placed (log : StepLog) {failure : EvalError} {loc : Location}
    (located : (if failure.cause = .tooDeep then line.loc else failure.loc) = some loc) :
    (placed line log failure).loc = some loc := by
  unfold placed
  by_cases deep : failure.cause = .tooDeep
  · rw [if_pos deep] at located ⊢
    cases log.newest? with
    | none => exact located
    | some entry => simp only [located, Option.some_or]
  · rw [if_neg deep] at located ⊢
    cases log.newest? with
    | none => exact located
    | some entry => simp only [located, Option.some_or]

/-- The fault by which a line ends is at a place in the line. -/
theorem within_of_runLine {file : String} {number : Int}
    (targeted : ∀ s ∈ line.within, s.Targeted) (sits : line.Sits (Location.Within file number))
    {fault : Fault} (raised : ((unobserved verbose name ops).runLine line m).1 = some fault) :
    ∃ error, fault = .eval error ∧ Location.Within file number error.loc := by
  obtain ⟨told, failure, left, executes, rfl⟩ := executes_of_runLine raised
  refine ⟨_, rfl, ?_⟩
  obtain ⟨s, start, started, -, does⟩ := executes.failing rfl
  have inside : s ∈ line.within := Line.mem_within_of_starts (List.mem_of_getLast? started)
  obtain ⟨loc, located, within⟩ : Location.Within file number
      (if failure.cause = .tooDeep then line.loc else failure.loc) := by
    by_cases deep : failure.cause = .tooDeep
    · rw [if_pos deep]
      exact sits.1
    · obtain ⟨site, fails, here⟩ := does.failsAt (targeted s inside) deep
      rw [if_neg deep, here]
      exact fails.placed (sits.2 s inside)
  exact ⟨loc, loc_placed _ located, within⟩

/-- A fault that has a location keeps it when it is told of the newest step. The step only fills
in what is missing. -/
theorem placed_of_newest {log : StepLog} {entry : LogEntry} (newest : log.newest? = some entry)
    {cause : EvalCause} (shallow : cause ≠ .tooDeep) (loc : Location) :
    placed line log ⟨cause, some loc, none⟩ = ⟨cause, some loc, some entry.stepIndex⟩ := by
  unfold placed
  rw [newest, if_neg shallow]
  rfl

/-- The newest entry that a line leaves is that of the last statement that it starts. -/
theorem newest?_runLine (verbose : Bool) (name : String) (room : 0 < m.log.window.limit)
    {s : Stmt} {start : Chip}
    (started : (line.starts ops m.chip).getLast? = some (s, start)) :
    ∃ entry, ((unobserved verbose name ops).runLine line m).2.log.newest? = some entry ∧
      entry.stepIndex + 1 = m.log.nextIndex + (line.starts ops m.chip).length ∧
      entry.line = line.number ∧ entry.loc = s.loc := by
  let i := unobserved verbose name ops
  have recorded : (i.recordings line m.chip).getLast? =
      some (i.recording line.number (s, start)) :=
    List.getLast?_map.trans (congrArg (Option.map (i.recording line.number)) started)
  have count : (i.recordings line m.chip).length = (line.starts ops m.chip).length :=
    List.length_map _
  rw [log_runLine, ← count]
  exact StepLog.newest?_recordAll room recorded

/-- A fault of an evaluation that ends a line is told of the place where it arose. Let a line that
was read run without observers on any chip, with any earlier steps in a log that has room. If it
ends by such a fault, and not because it nests too deep, then the step of the fault is the newest in
the log: that of the innermost unfinished statement of the line, which was the last one to start.
The fault carries the location of what failed in that statement, be it the operator of an
expression, a compound assignment or a goto to a text; so its location is in the line.

Proof: the rules tell which statement is cut short, and its own rule where it fails. All that is
started is recorded, and the statement that is cut short was started last. -/
theorem arosesAt_of_runLine (verbose : Bool) (name : String) (ops : Operators)
    {text file : String} {number : Int} {line : Line}
    (read : Line.parse text file number = .ok line) {m : Machine Unit}
    (room : 0 < m.log.window.limit) {error : EvalError}
    (raised : ((unobserved verbose name ops).runLine line m).1 = some (.eval error))
    (shallow : error.cause ≠ .tooDeep) :
    ∃ s ∈ line.within, ∃ start site entry,
      error.ArosesAt ops line m.chip ((unobserved verbose name ops).runLine line m).2.log
        s start site entry ∧
      entry.stepIndex + 1 = m.log.nextIndex + (line.starts ops m.chip).length ∧
      Location.Within file number error.loc := by
  obtain ⟨told, ⟨cause, place, step⟩, left, executes, raises⟩ := executes_of_runLine raised
  replace raises := Fault.eval.inj raises
  obtain ⟨-, sits⟩ := Line.sits_of_parse read
  rw [raises, cause_placed] at shallow
  obtain ⟨s, start, started, announced, does⟩ := executes.failing rfl
  have inside : s ∈ line.within := Line.mem_within_of_starts (List.mem_of_getLast? started)
  obtain ⟨site, fails, here⟩ := does.failsAt (Line.targeted_of_parse read s inside) shallow
  obtain ⟨-, rfl, rfl⟩ := EvalError.mk.inj here
  -- The site is in the line, so the fault has its location before it is told of the newest step.
  obtain ⟨loc, located, sameFile, sameLine⟩ : Location.Within file number site.loc :=
    fails.placed (sits.2 s inside)
  obtain ⟨entry, newest, index, entryLine, entryLoc⟩ :=
    newest?_runLine verbose name room started
  rw [located, placed_of_newest newest shallow] at raises
  obtain ⟨around, innermost⟩ := executes.innermost announced
  refine ⟨s, inside, start, site, entry, ?_, index, ?_⟩
  · subst raises
    exact {
      started
      innermost := ⟨told, left, around, executes, innermost⟩
      newest
      entryLine
      entryLoc
      step := rfl
      fails
      only := fun _ _ failsToo => failsToo.unique fails
      located := located.symm }
  · rw [raises]
    exact ⟨loc, rfl, sameFile, sameLine⟩

/-- A line that fails in an operand inside of a group, behind a statement that is done. The
statement behind the failure is never started. -/
def nestedFailure : String := "if 1 then b=2 a=1+(2*\"x\") end c=3"

/-- Its fault is told of the place where it arose. -/
theorem arosesAt_of_runLine_nested :
    ∃ line error, Line.parse nestedFailure "<line>" 3 = .ok line ∧
      (plain.runLine line (.start (.fresh "chip") ())).1 = some (.eval error) ∧
      error.cause ≠ .tooDeep ∧
      ∃ s ∈ line.within, ∃ start site entry,
        error.ArosesAt .default line (.fresh "chip")
          (plain.runLine line (.start (.fresh "chip") ())).2.log s start site entry ∧
        Location.Within "<line>" 3 error.loc := by
  obtain ⟨line, read, checked⟩ := exists_ok_of_any (x := Line.parse nestedFailure "<line>" 3)
    (f := fun line => (plain.runLine line (.start (.fresh "chip") ())).1.any fun fault =>
      decide (fault.title = "OperatorError")) (by decide +kernel)
  obtain ⟨fault, raised, isRefusal⟩ := (Option.any_eq_true _ _).mp checked
  obtain ⟨error, rfl, refused⟩ := Fault.eval_of_title (of_decide_eq_true isRefusal)
  have shallow : error.cause ≠ .tooDeep := by
    intro deep
    rw [deep] at refused
    contradiction
  obtain ⟨s, inside, start, site, entry, aroses, -, within⟩ :=
    arosesAt_of_runLine false "<line>" .default read (m := .start (.fresh "chip") ())
      (by decide) raised shallow
  exact ⟨line, error, read, raised, shallow, s, inside, start, site, entry, aroses, within⟩

end Interpreter

end YololChip
