import YololChip.Proofs.Locality

/-!
# The steps of expressions

All that an expression does to a chip is to step variables. It takes each `++` and `--` in it
once, from left to right, whatever operators stand around them and whatever values these come to:
no operator skips an operand. An expression that fails has taken the first of its steps, and none
of those behind the place where it failed.

Which steps an expression takes can so be read off its nodes, without evaluating it.
-/

namespace YololChip

/-- A step operator with the variable that it is applied to. Whether it stands before or behind
the variable makes no difference to the chip. -/
structure VariableStep where
  op : UnaryOperator
  target : Variable
deriving DecidableEq

namespace Expr

def step? : Expr → Option VariableStep
  | unary _ op (var _ target) => if op.isStep then some ⟨op, target⟩ else none
  | _ => none

/-- The steps of variables in an expression, from left to right. That is the order in which they
are taken, because both operands of every operator are evaluated. -/
def steps (e : Expr) : List VariableStep := e.nodes.filterMap step?

/-- Whether all step operators in an expression are applied to variables. A step of anything
else is refused, so no value comes of it. -/
def StepsVariables (e : Expr) : Prop :=
  ∀ loc op operand, unary loc op operand ∈ e.nodes → op.isStep = true →
    ∃ place target, operand = var place target

variable (loc : Option Location)

/-- The steps of an expression between two operands are those of the left one and then those of
the right one. -/
@[simp] theorem steps_binary (op : BinaryOperator) (left right : Expr) :
    (binary loc op left right).steps = left.steps ++ right.steps :=
  List.filterMap_append

/-- An operator that is no step has the steps of its operand. -/
theorem steps_unary {op : UnaryOperator} (noStep : op.isStep = false) (operand : Expr) :
    (unary loc op operand).steps = operand.steps := by
  have none : (unary loc op operand).step? = none := by
    cases operand with
    | var => simp [step?, noStep]
    | _ => rfl
  rw [steps, nodes, List.filterMap_cons_none none, steps]

theorem steps_step {op : UnaryOperator} (isStep : op.isStep = true) (place : Option Location)
    (target : Variable) : (unary loc op (var place target)).steps = [⟨op, target⟩] := by
  simp [steps, nodes, step?, isStep]

/-- The variables of the steps are those that an expression steps. A variable is listed as often
as it is stepped. -/
theorem map_target_steps (e : Expr) : e.steps.map VariableStep.target = e.stepped := by
  have same : ∀ node : Expr, node.step?.map VariableStep.target = node.stepped? := by
    intro node
    cases node with
    | unary loc op operand =>
      cases operand with
      | var place target => cases isStep : op.isStep <;> simp [step?, stepped?, isStep]
      | _ => rfl
    | _ => rfl
  rw [steps, List.map_filterMap, stepped]
  exact congrArg e.nodes.filterMap (funext same)

/-- Step operators are applied to variables between two operands if they are in both. -/
theorem StepsVariables.binary {op : BinaryOperator} {left right : Expr}
    (inLeft : left.StepsVariables) (inRight : right.StepsVariables) :
    (binary loc op left right).StepsVariables := by
  intro place step operand member isStep
  simp only [nodes, List.mem_cons, List.mem_append, reduceCtorEq, false_or] at member
  rcases member with early | late
  · exact inLeft place step operand early isStep
  · exact inRight place step operand late isStep

/-- An operator that is no step keeps step operators to variables. -/
theorem StepsVariables.unary {op : UnaryOperator} (noStep : op.isStep = false) {operand : Expr}
    (inside : operand.StepsVariables) : (unary loc op operand).StepsVariables := by
  intro place step other member isStep
  rcases List.mem_cons.mp member with same | later
  · obtain ⟨-, rfl, -⟩ := Expr.unary.inj same
    rw [noStep] at isStep
    contradiction
  · exact inside place step other later isStep

end Expr

/-! ### Taking steps -/

namespace Chip

/-- The chip after a step, or the cause by which it is refused. A step that is refused leaves no
chip, because it changes nothing. -/
def takeStep (chip : Chip) (s : VariableStep) : Except EvalCause Chip :=
  match Behaviour.step s.op (chip.read s.target) with
  | .error cause => .error cause
  | .ok value => .ok (chip.write s.target value)

/-- The chip after steps, one after the other, or the cause by which one of them is refused.
Each is applied to what the steps before it left. -/
def takeSteps (chip : Chip) : List VariableStep → Except EvalCause Chip
  | [] => .ok chip
  | s :: rest =>
    match chip.takeStep s with
    | .error cause => .error cause
    | .ok mid => mid.takeSteps rest

theorem takeSteps_append {chip mid : Chip} {first : List VariableStep}
    (taken : chip.takeSteps first = .ok mid) (second : List VariableStep) :
    chip.takeSteps (first ++ second) = mid.takeSteps second := by
  induction first generalizing chip with
  | nil =>
    obtain rfl := Except.ok.inj taken
    rfl
  | cons s rest inductionHypothesis =>
    rw [takeSteps] at taken
    rw [List.cons_append, takeSteps]
    cases stepped : chip.takeStep s with
    | error cause =>
      rw [stepped] at taken
      contradiction
    | ok next =>
      rw [stepped] at taken
      exact inductionHypothesis taken

/-- Whether two chips differ in some variables at most: all others are as they were, set or unset,
and so are the name, the cursor and the recorded error. -/
structure DiffersAt (vs : List Variable) (before after : Chip) : Prop where
  keeps : before.Keeps vs after
  stays : before.Stays after
  name : after.name = before.name

theorem DiffersAt.refl (vs : List Variable) (chip : Chip) : chip.DiffersAt vs chip :=
  ⟨fun _ _ => rfl, .refl chip, rfl⟩

/-- Setting one of some variables makes a difference in these at most. It is also the only thing
that is not as it was. -/
theorem DiffersAt.write {vs : List Variable} {before after : Chip}
    (differs : before.DiffersAt vs after) {v : Variable} (member : v ∈ vs) (value : Value) :
    before.DiffersAt vs (after.write v value) where
  keeps := by
    intro other outside
    have distinct : v ≠ other := fun same => outside (same ▸ member)
    rw [read?_write_of_ne _ distinct, differs.keeps other outside]
  stays := differs.stays.trans (after.stays_write v value)
  name := by
    rw [← differs.name]
    cases v with
    | mk name scope => cases scope <;> rfl

theorem differsAt_takeSteps {vs : List Variable} {before chip after : Chip}
    {taken : List VariableStep} (inside : ∀ s ∈ taken, s.target ∈ vs)
    (left : chip.takeSteps taken = .ok after) (differs : before.DiffersAt vs chip) :
    before.DiffersAt vs after := by
  induction taken generalizing chip with
  | nil =>
    obtain rfl := Except.ok.inj left
    exact differs
  | cons s rest inductionHypothesis =>
    rw [takeSteps, takeStep] at left
    cases stepped : Behaviour.step s.op (chip.read s.target) with
    | error cause =>
      simp only [stepped] at left
      contradiction
    | ok value =>
      simp only [stepped] at left
      exact inductionHypothesis (fun other member => inside other (List.mem_cons_of_mem _ member))
        left (differs.write (inside s List.mem_cons_self) value)

end Chip

/-! ### What is taken -/

namespace Ended

variable {α β : Type} {chip : Chip}

/-- Whether work leaves what steps leave, in their order: all of them if it has a result, and
the first of them if it fails. How many the first are is left open; they are those before the
failure. -/
inductive Takes (steps : List VariableStep) (chip : Chip) : Ended α → Prop where
  | all (result : α) {after : Chip} (left : chip.takeSteps steps = .ok after) :
    Takes steps chip (.ok result, after)
  | first (error : EvalError) {taken : List VariableStep} {after : Chip} (early : taken <+: steps)
      (left : chip.takeSteps taken = .ok after) : Takes steps chip (.error error, after)

theorem Takes.nothing (result : Except EvalError α) (chip : Chip) :
    Takes [] chip (result, chip) := by
  cases result with
  | ok result => exact .all result rfl
  | error error => exact .first error List.prefix_rfl rfl

/-- What goes on with a result takes the steps of both parts. The second part takes its own
behind those of the first, which all were taken. -/
theorem Takes.andThen {steps more : List VariableStep} {ended : Ended α}
    (takes : ended.Takes steps chip) {next : α → Chip → Ended β}
    (goesOn : ∀ result mid, (next result mid).Takes more mid) :
    (Ended.andThen ended next).Takes (steps ++ more) chip := by
  cases takes with
  | first error early left => exact .first error (early.trans (List.prefix_append _ _)) left
  | @all result mid left =>
    have behind := goesOn result mid
    rw [Ended.andThen]
    generalize next result mid = ended at behind ⊢
    cases behind with
    | all value leftToo => exact .all value ((Chip.takeSteps_append left more).trans leftToo)
    | first error early leftToo =>
      refine .first error ((List.prefix_append_right_inj steps).mpr early) ?_
      exact (Chip.takeSteps_append left _).trans leftToo

/-- What goes on with a result and leaves the chip as it is takes no more steps. -/
theorem Takes.andThen_nothing {steps : List VariableStep} {ended : Ended α}
    (takes : ended.Takes steps chip) {next : α → Chip → Ended β}
    (goesOn : ∀ result mid, (next result mid).Takes [] mid) :
    (Ended.andThen ended next).Takes steps chip := by
  have both := takes.andThen goesOn
  rwa [List.append_nil] at both

/-- Work that takes steps makes a difference in their variables at most. -/
theorem Takes.differsAt {steps : List VariableStep} {ended : Ended α}
    (takes : ended.Takes steps chip) :
    chip.DiffersAt (steps.map VariableStep.target) ended.2 := by
  have inside {s : VariableStep} (member : s ∈ steps) : s.target ∈ steps.map VariableStep.target :=
    List.mem_map_of_mem member
  cases takes with
  | all _ left => exact Chip.differsAt_takeSteps (fun _ => inside) left (.refl _ chip)
  | first _ early left =>
    exact Chip.differsAt_takeSteps (fun _ member => inside (early.subset member)) left
      (.refl _ chip)

end Ended

namespace Evaluate

variable {ops : Operators}

theorem at_takes (loc : Option Location) (result : Except EvalCause Value) (chip : Chip) :
    Ended.Takes [] chip (at? loc result chip) := by
  cases result <;> exact .nothing _ chip

/-- A step of a variable takes itself, unless it is refused. A step that is refused leaves the
chip as it is. -/
theorem stepVariable_takes (loc : Option Location) (op : UnaryOperator) (target : Variable)
    (chip : Chip) : Ended.Takes [⟨op, target⟩] chip (stepVariable loc op target chip) := by
  unfold stepVariable
  cases stepped : Behaviour.step op (chip.read target) with
  | error cause => exact .first _ (List.nil_prefix) rfl
  | ok value => exact .all _ (by simp only [Chip.takeSteps, Chip.takeStep, stepped])

/-- An expression takes its steps.

Proof: induction over the depth. The right operand starts from what the steps of the left one
leave, and its own steps stand behind those. -/
theorem expression_takes (e : Expr) (depth : Nat) (chip : Chip) :
    Ended.Takes e.steps chip (expression ops depth e chip) := by
  induction depth generalizing e chip with
  | zero =>
    rw [expression]
    exact .first _ List.nil_prefix rfl
  | succ depth inductionHypothesis =>
    cases e with
    | number | text | var => exact .nothing _ chip
    | group _ inner => exact inductionHypothesis inner chip
    | binary loc op left right =>
      rw [expression_binary, Expr.steps_binary]
      apply (inductionHypothesis left chip).andThen
      intro first mid
      exact (inductionHypothesis right mid).andThen_nothing fun _ => at_takes loc _
    | unary loc op operand =>
      cases isStep : op.isStep with
      | false =>
        rw [expression_unary _ _ _ isStep, Expr.steps_unary loc isStep]
        exact (inductionHypothesis operand chip).andThen_nothing fun _ => at_takes loc _
      | true =>
        cases operand with
        | var place target =>
          rw [expression_step _ _ _ _ isStep, Expr.steps_step loc isStep]
          exact stepVariable_takes loc op target chip
        | _ =>
          rw [expression_step_other _ _ _ isStep (by simp)]
          exact .first _ List.nil_prefix rfl

/-- An expression that has a value applies step operators to variables only.

Proof: induction over the depth. A step of anything else is refused, and so would be all around
it. -/
theorem stepsVariables_of_ok {e : Expr} {depth : Nat} {chip after : Chip} {value : Value}
    (has : expression ops depth e chip = (.ok value, after)) : e.StepsVariables := by
  induction depth generalizing e chip after value with
  | zero =>
    rw [expression] at has
    exact absurd (congrArg Prod.fst has) (by simp)
  | succ depth inductionHypothesis =>
    cases e with
    | number | text | var =>
      intro loc op operand member
      exact absurd (List.mem_singleton.mp member) (by simp)
    | group _ inner =>
      have inside := inductionHypothesis (e := inner) has
      intro loc op operand member
      simp only [Expr.nodes, List.mem_cons, reduceCtorEq, false_or] at member
      exact inside loc op operand member
    | binary loc op left right =>
      rw [expression_binary] at has
      obtain ⟨a, mid, hasLeft, has⟩ := Ended.andThen_eq_ok has
      obtain ⟨b, last, hasRight, -⟩ := Ended.andThen_eq_ok has
      exact .binary loc (inductionHypothesis hasLeft) (inductionHypothesis hasRight)
    | unary loc op operand =>
      cases isStep : op.isStep with
      | false =>
        rw [expression_unary _ _ _ isStep] at has
        obtain ⟨a, mid, hasOperand, -⟩ := Ended.andThen_eq_ok has
        exact .unary loc isStep (inductionHypothesis hasOperand)
      | true =>
        cases operand with
        | var place target =>
          intro other step inner member _
          simp only [Expr.nodes, List.mem_cons, List.not_mem_nil, reduceCtorEq, or_false] at member
          obtain ⟨-, -, rfl⟩ := Expr.unary.inj member
          exact ⟨place, target, rfl⟩
        | _ =>
          rw [expression_step_other _ _ _ isStep (by simp)] at has
          exact absurd (congrArg Prod.fst has) (by simp)

end Evaluate

/-- An expression does nothing to a chip but to take its steps. If it has a value, it has taken
each of them once, from left to right, and all of its step operators are applied to variables; if it
fails, it has taken the first of them and no others. Whatever operators it has and whatever they
come to, all else of the chip is as it was. -/
theorem evaluate_steps (ops : Operators) (e : Expr) (chip : Chip) :
    Ended.Takes e.steps chip (evaluate ops e chip) ∧
      ((evaluate ops e chip).1.isOk = true → e.StepsVariables) ∧
      chip.DiffersAt e.stepped (evaluate ops e chip).2 := by
  have takes : Ended.Takes e.steps chip (evaluate ops e chip) :=
    Evaluate.expression_takes e Grammar.nestingLimit chip
  refine ⟨takes, ?_, e.map_target_steps ▸ takes.differsAt⟩
  intro isOk
  rcases ended : evaluate ops e chip with ⟨error | value, after⟩
  · rw [ended] at isOk
    contradiction
  · exact Evaluate.stepsVariables_of_ok ended

/-- Both operands of a conjunction are evaluated, also where the first is false: it steps the first
variable up and the second one down. -/
def bothStepped : Expr :=
  .binary none .and (.unary none .postIncrement (.var none (.named "a")))
    (.unary none .preDecrement (.var none (.named "b")))

/-- Its two steps are taken, from left to right. -/
theorem evaluate_steps_bothStepped :
    ∃ value after, evaluate .default bothStepped (.fresh "chip") = (.ok value, after) ∧
      (Chip.fresh "chip").takeSteps
        [⟨.postIncrement, .named "a"⟩, ⟨.preDecrement, .named "b"⟩] = .ok after ∧
      after.read (.named "a") = .num .one ∧ after.read (.named "b") = .num (-.one) := by
  obtain ⟨takes, -, -⟩ := evaluate_steps .default bothStepped (.fresh "chip")
  have isOk : (evaluate .default bothStepped (.fresh "chip")).1.isOk = true := by decide +kernel
  have reads : (evaluate .default bothStepped (.fresh "chip")).2.read (.named "a") = .num .one ∧
      (evaluate .default bothStepped (.fresh "chip")).2.read (.named "b") = .num (-.one) := by
    decide +kernel
  generalize evaluate .default bothStepped (.fresh "chip") = ended at takes isOk reads ⊢
  cases takes with
  | all value left => exact ⟨value, _, rfl, left, reads⟩
  | first => contradiction

end YololChip
