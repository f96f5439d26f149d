import YololChip.Proofs.Nodes
import YololChip.Proofs.Soundness
import YololChip.Proofs.Told

/-!
# The locality of lines

A line depends on the values of its own variables and on nothing else of a chip, and an unset
variable cannot be told from one that is zero. It sets the variables that it assigns to or steps,
and no others. Both come from one law: a relation between chips goes on through a line if it goes
on through reading the variables that the line reads, setting those that it sets, and gotos.
-/

namespace YololChip

/-! ### Reading what was set -/

namespace Chip

theorem read?_write_self (chip : Chip) (v : Variable) (value : Value) :
    (chip.write v value).read? v = some value := by
  obtain ⟨name, scope⟩ := v
  cases scope with
  | chip => exact Bindings.find?_put_self name value chip.locals
  | field => exact Bindings.find?_put_self name value chip.fields

theorem read?_write_of_ne (chip : Chip) {v other : Variable} (distinct : v ≠ other)
    (value : Value) : (chip.write v value).read? other = chip.read? other := by
  obtain ⟨name, scope⟩ := v
  obtain ⟨otherName, otherScope⟩ := other
  have names (same : scope = otherScope) : name ≠ otherName := by
    rintro rfl
    exact distinct (by rw [same])
  cases scope with
  | chip =>
    cases otherScope with
    | chip => exact Bindings.find?_put_of_ne (names rfl) value chip.locals
    | field => rfl
  | field =>
    cases otherScope with
    | chip => rfl
    | field => exact Bindings.find?_put_of_ne (names rfl) value chip.fields

theorem read?_goTo (chip : Chip) (target : Fixed) (v : Variable) :
    (chip.goTo target).read? v = chip.read? v := by
  cases v with
  | mk name scope => cases scope <;> rfl

/-- Whether two chips have the same variables, in the same order. The line and the error may
differ. -/
structure SameVariables (a b : Chip) : Prop where
  locals : a.locals = b.locals
  fields : a.fields = b.fields

namespace SameVariables

variable {a b : Chip}

theorem refl (chip : Chip) : SameVariables chip chip := ⟨rfl, rfl⟩

/-- What has the variables of one chip has those of every chip with the same ones. -/
theorem trans {c : Chip} (same : SameVariables a b) (others : SameVariables b c) :
    SameVariables a c :=
  ⟨same.locals.trans others.locals, same.fields.trans others.fields⟩

theorem bindings (same : SameVariables a b) (scope : Scope) :
    a.bindings scope = b.bindings scope := by
  cases scope with
  | chip => exact same.locals
  | field => exact same.fields

theorem read? (same : SameVariables a b) (v : Variable) : a.read? v = b.read? v :=
  congrArg (Bindings.find? v.name) (same.bindings v.scope)

theorem write (same : SameVariables a b) (v : Variable) (value : Value) :
    SameVariables (a.write v value) (b.write v value) := by
  obtain ⟨name, scope⟩ := v
  cases scope with
  | chip => exact ⟨congrArg (Bindings.put name value) same.locals, same.fields⟩
  | field => exact ⟨same.locals, congrArg (Bindings.put name value) same.fields⟩

end SameVariables

/-! ### Relations between chips -/

/-- Whether chips that are related cannot be told apart by reading some variables, and stay
related when the same is done to both: one of the variables is set that may be set, or a goto is
taken. Nothing else is done to a chip while a line runs, so this is all that a run needs. -/
structure Respects (related : Chip → Chip → Prop) (reads sets : List Variable) : Prop where
  read : ∀ {a b}, related a b → ∀ v ∈ reads, a.read v = b.read v
  write : ∀ {a b}, related a b → ∀ v ∈ sets, ∀ value,
    related (a.write v value) (b.write v value)
  goTo : ∀ {a b}, related a b → ∀ target, related (a.goTo target) (b.goTo target)

/-- Whether some variables read the same on two chips. One that is not set reads as zero, so it
agrees with one that was set to zero. -/
def Agree (vs : List Variable) (a b : Chip) : Prop := ∀ v ∈ vs, a.read v = b.read v

instance (vs : List Variable) (a b : Chip) : Decidable (Agree vs a b) :=
  inferInstanceAs (Decidable (∀ v ∈ vs, a.read v = b.read v))

/-- Whether all variables but some are kept as they were, set or unset. Here one that is not set
and one that is zero are different. -/
def Keeps (vs : List Variable) (before after : Chip) : Prop :=
  ∀ v, v ∉ vs → after.read? v = before.read? v

/-- Chips that agree on variables go on agreeing, whatever is set. A variable that is set reads
the same afterwards, because it is set to the same value. -/
theorem respects_agree (reads sets : List Variable) : Respects (Agree reads) reads sets where
  read agree := agree
  write agree v _ value := by
    intro other inReads
    by_cases same : v = other
    · rw [← same, Chip.read, Chip.read, read?_write_self, read?_write_self]
    · rw [Chip.read, Chip.read, read?_write_of_ne _ same, read?_write_of_ne _ same]
      exact agree other inReads
  goTo agree target := by
    intro v inReads
    rw [Chip.read, Chip.read, read?_goTo, read?_goTo]
    exact agree v inReads

/-- A chip goes on keeping the variables of an earlier one that are not set. -/
theorem respects_keeps (before : Chip) (reads sets : List Variable) :
    Respects (fun a b => a = b ∧ before.Keeps sets a) reads sets where
  read := by
    rintro a _ ⟨rfl, _⟩ v _
    rfl
  write := by
    rintro a _ ⟨rfl, keeps⟩ v member value
    refine ⟨rfl, ?_⟩
    intro other outside
    have distinct : v ≠ other := fun same => outside (same ▸ member)
    rw [read?_write_of_ne _ distinct]
    exact keeps other outside
  goTo := by
    rintro a _ ⟨rfl, keeps⟩ target
    refine ⟨rfl, ?_⟩
    intro v outside
    rw [read?_goTo]
    exact keeps v outside

end Chip

/-- Whether work ends in the same way on two chips and leaves them related. A fault has to be
the same one, with its location. -/
def Ended.Related (related : Chip → Chip → Prop) {α : Type} (first second : Ended α) : Prop :=
  first.1 = second.1 ∧ related first.2 second.2

/-- What goes on in the same way from related chips ends in the same way. With the same result
on both sides the same is done next. -/
theorem Ended.Related.andThen {related : Chip → Chip → Prop} {α β : Type}
    {first second : Ended α} (ends : Ended.Related related first second)
    {next : α → Chip → Ended β}
    (goesOn : ∀ result {a b}, related a b → Ended.Related related (next result a) (next result b)) :
    Ended.Related related (Ended.andThen first next) (Ended.andThen second next) := by
  obtain ⟨result, a⟩ := first
  obtain ⟨other, b⟩ := second
  obtain ⟨rfl, left⟩ := ends
  cases result with
  | error error => exact ⟨rfl, left⟩
  | ok result => exact goesOn result left

/-! ### Expressions -/

namespace Expr

/-- The variables that an expression mentions, in the order in which they stand in it, and as
often. -/
def mentions (e : Expr) : List Variable := e.nodes.filterMap var?

/-- The variables that an expression steps. They are among those that it mentions. -/
def stepped (e : Expr) : List Variable := e.nodes.filterMap stepped?

variable (loc : Option Location)

/-- The variables that an expression between two operands mentions are those of the operands. -/
@[simp] theorem mentions_binary (op : BinaryOperator) (left right : Expr) :
    (binary loc op left right).mentions = left.mentions ++ right.mentions :=
  List.filterMap_append

/-- The variables that an expression between two operands steps are those of the operands. -/
@[simp] theorem stepped_binary (op : BinaryOperator) (left right : Expr) :
    (binary loc op left right).stepped = left.stepped ++ right.stepped :=
  List.filterMap_append

/-- An operator that is no step steps what its operand steps. -/
theorem stepped_unary {op : UnaryOperator} (noStep : op.isStep = false) (operand : Expr) :
    (unary loc op operand).stepped = operand.stepped := by
  have none : (unary loc op operand).stepped? = none := by
    cases operand with
    | var => simp [stepped?, noStep]
    | _ => rfl
  rw [stepped, nodes, List.filterMap_cons_none none, stepped]

theorem mem_stepped {op : UnaryOperator} (isStep : op.isStep = true) (place : Option Location)
    (target : Variable) : target ∈ (unary loc op (var place target)).stepped := by
  simp [stepped, nodes, stepped?, isStep]

end Expr

section

variable {related : Chip → Chip → Prop} {reads sets : List Variable}
  (respects : Chip.Respects related reads sets) {ops : Operators}

namespace Evaluate

/-- The result of an operator is the same on related chips. -/
theorem at_related (loc : Option Location) (result : Except EvalCause Value) {a b : Chip}
    (alike : related a b) : Ended.Related related (at? loc result a) (at? loc result b) := by
  cases result with
  | ok value => exact ⟨rfl, alike⟩
  | error cause => exact ⟨rfl, alike⟩

include respects

/-- A variable is stepped in the same way on related chips. -/
theorem stepVariable_related (loc : Option Location) (op : UnaryOperator) {target : Variable}
    (inReads : target ∈ reads) (inSets : target ∈ sets) {a b : Chip} (alike : related a b) :
    Ended.Related related (stepVariable loc op target a) (stepVariable loc op target b) := by
  unfold stepVariable
  rw [respects.read alike target inReads]
  cases Behaviour.step op (b.read target) with
  | error cause => exact ⟨rfl, alike⟩
  | ok value => exact ⟨rfl, respects.write alike target inSets value⟩

/-- An expression is evaluated in the same way on related chips.

Proof: induction over the depth. Each operand leaves related chips, from which the next one
starts. -/
theorem expression_related {e : Expr} (depth : Nat) (readable : e.mentions ⊆ reads)
    (settable : e.stepped ⊆ sets) {a b : Chip} (alike : related a b) :
    Ended.Related related (expression ops depth e a) (expression ops depth e b) := by
  induction depth generalizing e a b with
  | zero =>
    rw [expression, expression]
    exact ⟨rfl, alike⟩
  | succ depth inductionHypothesis =>
    cases e with
    | number | text => exact ⟨rfl, alike⟩
    | var _ target =>
      rw [expression, expression, respects.read alike target (readable List.mem_cons_self)]
      exact ⟨rfl, alike⟩
    | group _ inner => exact inductionHypothesis (e := inner) readable settable alike
    | binary loc op left right =>
      rw [Expr.mentions_binary, List.append_subset] at readable
      rw [Expr.stepped_binary, List.append_subset] at settable
      rw [expression_binary, expression_binary]
      apply (inductionHypothesis readable.1 settable.1 alike).andThen
      intro first a b alike
      apply (inductionHypothesis readable.2 settable.2 alike).andThen
      intro second a b alike
      exact at_related loc _ alike
    | unary loc op operand =>
      cases isStep : op.isStep with
      | false =>
        rw [Expr.stepped_unary loc isStep] at settable
        rw [expression_unary _ _ _ isStep, expression_unary _ _ _ isStep]
        apply (inductionHypothesis (e := operand) readable settable alike).andThen
        intro value a b alike
        exact at_related loc _ alike
      | true =>
        cases operand with
        | var place target =>
          rw [expression_step _ _ _ _ isStep, expression_step _ _ _ _ isStep]
          exact stepVariable_related respects loc op (readable List.mem_cons_self)
            (settable (Expr.mem_stepped loc isStep place target)) alike
        | _ =>
          rw [expression_step_other _ _ _ isStep (by simp),
            expression_step_other _ _ _ isStep (by simp)]
          exact ⟨rfl, alike⟩

end Evaluate

/-! ### Statements -/

/-- Whether a statement by itself reads and sets no other variables than these. Statements
inside of it do so on their own account. The target of an assignment counts as read, also where
it is only set. -/
structure Stmt.Touches (reads sets : List Variable) (s : Stmt) : Prop where
  reads : ∀ e ∈ s.own, e.mentions ⊆ reads
  steps : ∀ e ∈ s.own, e.stepped ⊆ sets
  assigned : ∀ v, s.assigned? = some v → v ∈ sets

/-- The statements in a block touch variables of the block. That is so of the statements inside
of others as well. -/
theorem Stmt.touches_throughout (block : List Stmt) :
    Throughout (Touches (mentionsAll block) (settableAll block)) block := by
  intro s member
  have inBlock {e node : Expr} (holds : e ∈ s.own) (inExpr : node ∈ e.nodes) :
      node ∈ nodesAll block := mem_nodesAll.mpr ⟨s, member, e, holds, inExpr⟩
  constructor
  · intro e holds v occurs
    obtain ⟨node, inExpr, isVariable⟩ := List.mem_filterMap.mp occurs
    exact List.mem_filterMap.mpr ⟨node, inBlock holds inExpr, isVariable⟩
  · intro e holds v occurs
    obtain ⟨node, inExpr, isStepped⟩ := List.mem_filterMap.mp occurs
    exact List.mem_append_right _ (List.mem_filterMap.mpr ⟨node, inBlock holds inExpr, isStepped⟩)
  · intro v isAssigned
    exact List.mem_append_left _ (List.mem_filterMap.mpr ⟨s, member, isAssigned⟩)

/-- The expression that a statement evaluates first is one that it holds. -/
theorem Stmt.mem_own_of_evaluated {s : Stmt} {e : Expr} (first : s.evaluated? = some e) :
    e ∈ s.own := by
  cases s with
  | comment => contradiction
  | branch | jump | expression =>
    obtain rfl := Option.some.inj first
    exact List.mem_cons_self
  | assign _ target =>
    cases target with
    | var =>
      obtain rfl := Option.some.inj first
      exact List.mem_cons_of_mem _ List.mem_cons_self
    | _ => contradiction

/-- What holds throughout an if statement holds throughout the block that it goes on with. -/
theorem Stmt.Throughout.chosen {holds : Stmt → Prop} {loc : Option Location} {condition : Expr}
    {body rest : List Stmt} {otherwise : Option (List Stmt)}
    (throughout : Throughout holds (.branch loc condition body otherwise :: rest))
    (value : Value) : Throughout holds (chosen value body otherwise) := by
  intro s member
  apply throughout
  rw [withinAll, within, List.mem_append, List.mem_cons, List.mem_append]
  unfold Stmt.chosen at member
  split at member
  · cases otherwise with
    | none => exact absurd member List.not_mem_nil
    | some block => exact .inl (.inr (.inr member))
  · exact .inl (.inr (.inl member))

include respects

/-- An expression that a statement holds is evaluated in the same way on related chips. -/
theorem Stmt.Touches.evaluate {s : Stmt} (touches : s.Touches reads sets) {e : Expr}
    (holds : e ∈ s.own) {a b left : Chip} {result : Except EvalError Value} (alike : related a b)
    (evaluated : evaluate ops e a = (result, left)) :
    ∃ other, YololChip.evaluate ops e b = (result, other) ∧ related left other := by
  have ends : Ended.Related related (YololChip.evaluate ops e a) (YololChip.evaluate ops e b) :=
    Evaluate.expression_related respects Grammar.nestingLimit (touches.reads e holds)
      (touches.steps e holds) alike
  obtain ⟨same, leftAlike⟩ := ends
  rw [evaluated] at same leftAlike
  exact ⟨(YololChip.evaluate ops e b).2, Prod.ext same.symm rfl, leftAlike⟩

/-- A statement is executed in the same way on related chips, and leaves them related. -/
theorem Stmt.Does.of_related {s : Stmt} {a b left : Chip} {finish : Finish}
    (does : s.Does ops a finish left) (touches : s.Touches reads sets) (alike : related a b) :
    ∃ other, s.Does ops b finish other ∧ related left other := by
  cases does with
  | comment loc text => exact ⟨b, .comment loc text b, alike⟩
  | unevaluated first refused =>
    obtain ⟨other, refusedToo, leftAlike⟩ :=
      touches.evaluate respects (mem_own_of_evaluated first) alike refused
    exact ⟨other, .unevaluated first refusedToo, leftAlike⟩
  | expression loc evaluated =>
    obtain ⟨other, evaluatedToo, leftAlike⟩ :=
      touches.evaluate respects List.mem_cons_self alike evaluated
    exact ⟨other, .expression loc evaluatedToo, leftAlike⟩
  | @assign loc place target op e _ _ value result evaluated stored =>
    obtain ⟨other, evaluatedToo, leftAlike⟩ := touches.evaluate respects
      (List.mem_cons_of_mem _ List.mem_cons_self) alike evaluated
    have inReads : target ∈ reads := touches.reads _ List.mem_cons_self List.mem_cons_self
    rw [respects.read leftAlike target inReads] at stored
    exact ⟨other.write target result, .assign loc place evaluatedToo stored,
      respects.write leftAlike target (touches.assigned target rfl) result⟩
  | @assignRefused loc place target op e _ _ value cause evaluated refused =>
    obtain ⟨other, evaluatedToo, leftAlike⟩ := touches.evaluate respects
      (List.mem_cons_of_mem _ List.mem_cons_self) alike evaluated
    have inReads : target ∈ reads := touches.reads _ List.mem_cons_self List.mem_cons_self
    rw [respects.read leftAlike target inReads] at refused
    exact ⟨other, .assignRefused loc place evaluatedToo refused, leftAlike⟩
  | assignElsewhere loc op e _ elsewhere => exact ⟨b, .assignElsewhere loc op e b elsewhere, alike⟩
  | @jump loc e _ _ target evaluated =>
    obtain ⟨other, evaluatedToo, leftAlike⟩ :=
      touches.evaluate respects List.mem_cons_self alike evaluated
    exact ⟨other.goTo target, .jump loc evaluatedToo, respects.goTo leftAlike target⟩
  | jumpToText loc evaluated =>
    obtain ⟨other, evaluatedToo, leftAlike⟩ :=
      touches.evaluate respects List.mem_cons_self alike evaluated
    exact ⟨other, .jumpToText loc evaluatedToo, leftAlike⟩

/-- A block is executed in the same way on related chips, and leaves them related.

Proof: induction over the rules. What a statement leaves related, the next one starts from. -/
theorem Executes.of_related {block : List Stmt} {a b left : Chip} {told : List Notice}
    {finish : Finish} (executes : Executes ops block a told finish left)
    (touches : Stmt.Throughout (Stmt.Touches reads sets) block) (alike : related a b) :
    ∃ other, Executes ops block b told finish other ∧ related left other := by
  induction executes generalizing b with
  | nothing => exact ⟨b, .nothing b, alike⟩
  | next does _ inductionHypothesis =>
    obtain ⟨mid, doesToo, midAlike⟩ := does.of_related respects touches.head alike
    obtain ⟨other, goesOnToo, leftAlike⟩ := inductionHypothesis touches.tail midAlike
    exact ⟨other, .next doesToo goesOnToo, leftAlike⟩
  | cut rest does early =>
    obtain ⟨other, doesToo, leftAlike⟩ := does.of_related respects touches.head alike
    exact ⟨other, .cut rest doesToo early, leftAlike⟩
  | branch loc evaluated _ _ takenHypothesis goesOnHypothesis =>
    obtain ⟨decided, evaluatedToo, decidedAlike⟩ :=
      touches.head.evaluate respects List.mem_cons_self alike evaluated
    obtain ⟨mid, takenToo, midAlike⟩ := takenHypothesis (touches.chosen _) decidedAlike
    obtain ⟨other, goesOnToo, leftAlike⟩ := goesOnHypothesis touches.tail midAlike
    exact ⟨other, .branch loc evaluatedToo takenToo goesOnToo, leftAlike⟩
  | branchCut loc rest evaluated _ early inductionHypothesis =>
    obtain ⟨decided, evaluatedToo, decidedAlike⟩ :=
      touches.head.evaluate respects List.mem_cons_self alike evaluated
    obtain ⟨other, takenToo, leftAlike⟩ := inductionHypothesis (touches.chosen _) decidedAlike
    exact ⟨other, .branchCut loc rest evaluatedToo takenToo early, leftAlike⟩

end

/-! ### Lines -/

/-- A block that is executed keeps all variables that it does not set. Whether they were set
before makes no difference. -/
theorem Executes.keeps {ops : Operators} {block : List Stmt} {chip left : Chip}
    {told : List Notice} {finish : Finish} (executes : Executes ops block chip told finish left) :
    chip.Keeps (Stmt.settableAll block) left := by
  -- The execution beside itself: both chips stay one chip, which keeps the variables.
  have start : chip = chip ∧ chip.Keeps (Stmt.settableAll block) chip := ⟨rfl, fun _ _ => rfl⟩
  obtain ⟨other, _, rfl, keeps⟩ := executes.of_related
    (Chip.respects_keeps chip (Stmt.mentionsAll block) (Stmt.settableAll block))
    (Stmt.touches_throughout block) start
  exact keeps

/-- What is shown of a fault: its heading and its sentence. The place is left out. -/
def Fault.shown (fault : Fault) : String × String := (fault.title, fault.message)

/-- Endings of a line that end its statements in one way show one fault, or none. -/
theorem Finish.Closes.shown_eq {line : Line} {finish : Finish} {first second : Option Fault}
    {told toldToo : List Notice} (closes : finish.Closes line first told)
    (closesToo : finish.Closes line second toldToo) :
    first.map Fault.shown = second.map Fault.shown := by
  have shown (log : StepLog) (error : EvalError) :
      (Fault.eval (Interpreter.placed line log error)).shown = (Fault.eval error).shown := by
    rw [Fault.shown, Fault.shown, Fault.message, Fault.message, Interpreter.message_placed,
      Fault.title, Fault.title, Interpreter.cause_placed]
  cases closes with
  | completed | jumped =>
    cases closesToo
    rfl
  | failed error log =>
    cases closesToo
    rw [Option.map_some, Option.map_some, shown, shown]

/-- The line that a machine is at after statements that ended so: the one that a goto went to,
and otherwise the one that it was at. The goto has moved it already. -/
def Ending.line (here : Int) : Ending → Int
  | .jumped target => target
  | .done | .failed _ => here

/-- A machine says of statements where they left the cursor. -/
theorem Finish.line_ending (finish : Finish) (here : Int) :
    finish.ending.line here = finish.line here := by
  cases finish <;> rfl

namespace Interpreter

variable {ω : Type} {i : Interpreter ω}

/-- A block runs by the rules of blocks, if observers watch. Observers that watch are told, and
leave the chip alone. -/
theorem runBlock_of_executes {block : List Stmt} {m : Machine ω} {told : List Notice}
    {finish : Finish} {left : Chip}
    (executes : Executes i.operators block m.chip told finish left)
    (watching : i.hooks.Watching) (line : Int) :
    (i.runBlock line block m).1 = finish.ending := by
  obtain ⟨after, runs, _⟩ := executes.comes watching line (m.hearing []) rfl
  rw [← Machine.plain_hearing m [], ← runBlock_withoutRecorder, runs]
  rfl

/-- A chip without variables, and one on which a variable is zero. The two read alike and are
not the same. -/
def unsetAndZero : Chip × Chip :=
  (.fresh "chip", { Chip.fresh "chip" with locals := [("a", .num .zero)] })

end Interpreter

end YololChip
