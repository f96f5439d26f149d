import YololChip.Proofs.Effects

/-!
# How statements are executed

The rules by which the statements of a block are executed, one after the other, and what
observers are told of on the way. A block ends when all of its statements are done, or earlier:
by a goto to the line that a number names, or by a fault. Either one leaves the statement that it
arose in and all if statements around it unfinished.

The rules say nothing of logs, of observers or of how a machine works. Every block is executed
from every chip, and in one way only.
-/

namespace YololChip

/-- How statements end: all are done, a goto was taken to the line that a number names, or one
of them failed. It keeps the number of the goto, and not only the line that it led to. -/
inductive Finish where
  | completed
  | jumped (target : Fixed)
  | failed (error : EvalError)

/-- The number whose line a goto went to, if one was taken. -/
def Finish.target? : Finish → Option Fixed
  | jumped target => some target
  | completed | failed _ => none

/-- What an assignment stores: the value, or what its operator makes of the variable's value and
that one. The variable's value is the one behind the evaluation of the expression. -/
def AssignOperator.stored (ops : Operators) (op : AssignOperator) (current value : Value) :
    Except EvalCause Value :=
  match op.binary? with
  | none => .ok value
  | some binary => ops.applyBinary binary current value

/-- An assignment stores what there is to store, and otherwise fails by the cause that there is
nothing. -/
theorem Effect.store_eq (ops : Operators) (loc : Option Location) (target : Variable)
    (op : AssignOperator) (value : Value) (chip : Chip) :
    store ops loc target op value chip =
      match op.stored ops (chip.read target) value with
      | .ok result => (.ok none, chip.write target result)
      | .error cause => (.error ⟨cause, loc, none⟩, chip) := by
  unfold store AssignOperator.stored
  cases op.binary? with
  | none => rfl
  | some binary =>
    simp only
    cases ops.applyBinary binary (chip.read target) value <;> rfl

namespace Stmt

/-- The expression that a statement evaluates before all else. An assignment to something that
is no variable evaluates none: it is refused first. -/
def evaluated? : Stmt → Option Expr
  | expression _ value | assign _ (.var _ _) _ value => some value
  | jump _ target => some target
  | branch _ condition _ _ => some condition
  | comment _ _ | assign _ _ _ _ => none

/-- The rules of statements without statements inside of them. An if statement whose condition
has no value comes to none of its own, so it is one of them. For every statement and chip one
rule fits at most, and for one that is no if statement one does. -/
inductive Does (ops : Operators) : Stmt → Chip → Finish → Chip → Prop where
  | comment (loc : Option Location) (text : String) (chip : Chip) :
    Does ops (.comment loc text) chip .completed chip
  | unevaluated {s : Stmt} {e : Expr} {chip after : Chip} {error : EvalError}
      (first : s.evaluated? = some e) (refused : evaluate ops e chip = (.error error, after)) :
    Does ops s chip (.failed error) after
  | expression (loc : Option Location) {e : Expr} {chip after : Chip} {value : Value}
      (evaluated : evaluate ops e chip = (.ok value, after)) :
    Does ops (.expression loc e) chip .completed after
  | assign (loc place : Option Location) {target : Variable} {op : AssignOperator} {e : Expr}
      {chip after : Chip} {value result : Value}
      (evaluated : evaluate ops e chip = (.ok value, after))
      (stored : op.stored ops (after.read target) value = .ok result) :
    Does ops (.assign loc (.var place target) op e) chip .completed (after.write target result)
  | assignRefused (loc place : Option Location) {target : Variable} {op : AssignOperator}
      {e : Expr} {chip after : Chip} {value : Value} {cause : EvalCause}
      (evaluated : evaluate ops e chip = (.ok value, after))
      (refused : op.stored ops (after.read target) value = .error cause) :
    Does ops (.assign loc (.var place target) op e) chip (.failed ⟨cause, loc, none⟩) after
  | assignElsewhere (loc : Option Location) {target : Expr} (op : AssignOperator) (e : Expr)
      (chip : Chip) (elsewhere : ∀ place name, target ≠ .var place name) :
    Does ops (.assign loc target op e) chip (.failed ⟨.targetNotVariable, loc, none⟩) chip
  | jump (loc : Option Location) {e : Expr} {chip after : Chip} {target : Fixed}
      (evaluated : evaluate ops e chip = (.ok (.num target), after)) :
    Does ops (.jump loc e) chip (.jumped target) (after.goTo target)
  | jumpToText (loc : Option Location) {e : Expr} {chip after : Chip} {text : String}
      (evaluated : evaluate ops e chip = (.ok (.str text), after)) :
    Does ops (.jump loc e) chip (.failed ⟨.jumpToText, loc, none⟩) after

/-- The block that an if statement goes on with. Without an else part that is a block of no
statements. -/
def chosen (value : Value) (body : List Stmt) (otherwise : Option (List Stmt)) : List Stmt :=
  if value.isFalse then otherwise.getD [] else body

end Stmt

open Stmt in
/-- The rules of blocks. The notices are what observers are told of the statements: each is
announced when it starts, and again when it is done. A statement that is cut short is never
announced as done, nor are those around it. -/
inductive Executes (ops : Operators) : List Stmt → Chip → List Notice → Finish → Chip → Prop where
  | nothing (chip : Chip) : Executes ops [] chip [] .completed chip
  | next {s : Stmt} {rest : List Stmt} {chip mid left : Chip} {told : List Notice}
      {finish : Finish} (does : s.Does ops chip .completed mid)
      (goesOn : Executes ops rest mid told finish left) :
    Executes ops (s :: rest) chip (.statementStarted s :: .statementFinished s :: told) finish left
  | cut {s : Stmt} (rest : List Stmt) {chip left : Chip} {finish : Finish}
      (does : s.Does ops chip finish left) (early : finish ≠ .completed) :
    Executes ops (s :: rest) chip [.statementStarted s] finish left
  | branch (loc : Option Location) {condition : Expr} {body rest : List Stmt}
      {otherwise : Option (List Stmt)} {chip decided mid left : Chip} {value : Value}
      {inside told : List Notice} {finish : Finish}
      (evaluated : evaluate ops condition chip = (.ok value, decided))
      (taken : Executes ops (chosen value body otherwise) decided inside .completed mid)
      (goesOn : Executes ops rest mid told finish left) :
    Executes ops (.branch loc condition body otherwise :: rest) chip
      (.statementStarted (.branch loc condition body otherwise) ::
        (inside ++ .statementFinished (.branch loc condition body otherwise) :: told)) finish left
  | branchCut (loc : Option Location) {condition : Expr} {body : List Stmt} (rest : List Stmt)
      {otherwise : Option (List Stmt)} {chip decided left : Chip} {value : Value}
      {inside : List Notice} {finish : Finish}
      (evaluated : evaluate ops condition chip = (.ok value, decided))
      (taken : Executes ops (chosen value body otherwise) decided inside finish left)
      (early : finish ≠ .completed) :
    Executes ops (.branch loc condition body otherwise :: rest) chip
      (.statementStarted (.branch loc condition body otherwise) :: inside) finish left

variable {ops : Operators}

/-! ### Every block is executed -/

namespace Stmt

/-- A statement is executed by a rule of its own, unless it is an if statement whose condition
has a value. -/
theorem exists_does (ops : Operators) (s : Stmt) (chip : Chip) :
    (∃ finish left, s.Does ops chip finish left) ∨
      ∃ loc condition body otherwise value decided, s = .branch loc condition body otherwise ∧
        evaluate ops condition chip = (.ok value, decided) := by
  by_cases refused : ∃ e error left, s.evaluated? = some e ∧
      evaluate ops e chip = (.error error, left)
  · obtain ⟨e, error, left, first, refused⟩ := refused
    exact .inl ⟨.failed error, left, .unevaluated first refused⟩
  · have exists_value {e : Expr} (first : s.evaluated? = some e) :
        ∃ value after, evaluate ops e chip = (.ok value, after) := by
      rcases ended : evaluate ops e chip with ⟨error | value, after⟩
      · exact absurd ⟨e, error, after, first, ended⟩ refused
      · exact ⟨value, after, rfl⟩
    cases s with
    | comment loc text => exact .inl ⟨_, _, .comment loc text chip⟩
    | expression loc e =>
      obtain ⟨value, after, evaluated⟩ := exists_value rfl
      exact .inl ⟨_, _, .expression loc evaluated⟩
    | jump loc e =>
      obtain ⟨target | text, after, evaluated⟩ := exists_value rfl
      · exact .inl ⟨_, _, .jump loc evaluated⟩
      · exact .inl ⟨_, _, .jumpToText loc evaluated⟩
    | branch loc condition body otherwise =>
      obtain ⟨value, decided, evaluated⟩ := exists_value rfl
      exact .inr ⟨loc, condition, body, otherwise, value, decided, rfl, evaluated⟩
    | assign loc target op e =>
      cases target with
      | var place target =>
        obtain ⟨value, after, evaluated⟩ := exists_value rfl
        cases stored : op.stored ops (after.read target) value with
        | ok result => exact .inl ⟨_, _, .assign loc place evaluated stored⟩
        | error cause => exact .inl ⟨_, _, .assignRefused loc place evaluated stored⟩
      | _ => exact .inl ⟨_, _, .assignElsewhere loc op e chip (by simp)⟩

/-- The block that an if statement goes on with is a part of it. So a run of it can go by
recursion on statements. -/
theorem sizeOf_chosen_lt (loc : Option Location) (condition : Expr) (body : List Stmt)
    (otherwise : Option (List Stmt)) (value : Value) :
    sizeOf (chosen value body otherwise) < sizeOf (branch loc condition body otherwise) := by
  unfold chosen
  split
  · cases otherwise with
    | none =>
      simp only [Option.getD_none, branch.sizeOf_spec, List.nil.sizeOf_spec,
        Option.none.sizeOf_spec]
      omega
    | some block =>
      simp only [Option.getD_some, branch.sizeOf_spec, Option.some.sizeOf_spec]
      omega
  · simp only [branch.sizeOf_spec]
    omega

end Stmt

/-- Every block is executed from every chip.

Proof: recursion over the block. The block that an if statement goes on with is smaller, and so
is what stands behind a statement. -/
theorem exists_executes (ops : Operators) (block : List Stmt) (chip : Chip) :
    ∃ told finish left, Executes ops block chip told finish left := by
  cases block with
  | nil => exact ⟨_, _, _, .nothing chip⟩
  | cons s rest =>
    rcases s.exists_does ops chip with
      ⟨finish, mid, does⟩ | ⟨loc, condition, body, otherwise, value, decided, same, evaluated⟩
    · by_cases early : finish = .completed
      · subst early
        obtain ⟨told, finish, left, goesOn⟩ := exists_executes ops rest mid
        exact ⟨_, _, _, .next does goesOn⟩
      · exact ⟨_, _, _, .cut rest does early⟩
    · obtain ⟨inside, finish, mid, taken⟩ :=
        exists_executes ops (Stmt.chosen value body otherwise) decided
      by_cases early : finish = .completed
      · subst early
        obtain ⟨told, finish, left, goesOn⟩ := exists_executes ops rest mid
        rw [same]
        exact ⟨_, _, _, .branch loc evaluated taken goesOn⟩
      · rw [same]
        exact ⟨_, _, _, .branchCut loc rest evaluated taken early⟩
termination_by sizeOf block
decreasing_by
  · simp only [List.cons.sizeOf_spec]
    omega
  · have smaller := Stmt.sizeOf_chosen_lt loc condition body otherwise value
    rw [← same] at smaller
    simp only [List.cons.sizeOf_spec]
    omega
  · simp only [List.cons.sizeOf_spec]
    omega

/-! ### In one way only -/

/-- No rule of its own executes an if statement whose condition has a value. -/
theorem Stmt.Does.not_evaluated {loc : Option Location} {condition : Expr} {body : List Stmt}
    {otherwise : Option (List Stmt)} {chip decided left : Chip} {value : Value} {finish : Finish}
    (does : (Stmt.branch loc condition body otherwise).Does ops chip finish left) :
    evaluate ops condition chip ≠ (.ok value, decided) := by
  intro evaluated
  cases does with
  | unevaluated first refused =>
    obtain rfl := Option.some.inj first
    simp [evaluated] at refused

/-- A statement with a rule of its own is executed in one way. The rules leave nothing to
choose. -/
theorem Stmt.Does.unique {s : Stmt} {chip left other : Chip} {finish ending : Finish}
    (does : s.Does ops chip finish left) (doesToo : s.Does ops chip ending other) :
    finish = ending ∧ left = other := by
  -- Two rules of one statement need its expression, or what it stores, to come to two things.
  cases does <;> cases doesToo <;> simp_all [evaluated?]

/-- A block is executed in one way.

Proof: induction over the rules of the first execution. The second one follows the same rule,
because what comes first comes to the same. -/
theorem Executes.unique {block : List Stmt} {chip left other : Chip} {told toldToo : List Notice}
    {finish ending : Finish} (executes : Executes ops block chip told finish left)
    (executesToo : Executes ops block chip toldToo ending other) :
    told = toldToo ∧ finish = ending ∧ left = other := by
  induction executes generalizing toldToo ending other with
  | nothing chip =>
    cases executesToo with
    | nothing => exact ⟨rfl, rfl, rfl⟩
  | next does goesOn inductionHypothesis =>
    cases executesToo with
    | next doesToo goesOnToo =>
      obtain ⟨_, rfl⟩ := does.unique doesToo
      obtain ⟨rfl, rfl, rfl⟩ := inductionHypothesis goesOnToo
      exact ⟨rfl, rfl, rfl⟩
    | cut _ doesToo early => exact absurd (does.unique doesToo).1.symm early
    | branch _ evaluated => exact absurd evaluated does.not_evaluated
    | branchCut _ _ evaluated => exact absurd evaluated does.not_evaluated
  | cut _ does early =>
    cases executesToo with
    | next doesToo => exact absurd (does.unique doesToo).1 early
    | cut _ doesToo =>
      obtain ⟨rfl, rfl⟩ := does.unique doesToo
      exact ⟨rfl, rfl, rfl⟩
    | branch _ evaluated => exact absurd evaluated does.not_evaluated
    | branchCut _ _ evaluated => exact absurd evaluated does.not_evaluated
  | branch _ evaluated taken goesOn takenHypothesis goesOnHypothesis =>
    cases executesToo with
    | next doesToo => exact absurd evaluated doesToo.not_evaluated
    | cut _ doesToo => exact absurd evaluated doesToo.not_evaluated
    | branch _ evaluatedToo takenToo goesOnToo =>
      obtain ⟨rfl, rfl⟩ : _ = _ ∧ _ = _ := by simpa [evaluated] using evaluatedToo
      obtain ⟨rfl, _, rfl⟩ := takenHypothesis takenToo
      obtain ⟨rfl, rfl, rfl⟩ := goesOnHypothesis goesOnToo
      exact ⟨rfl, rfl, rfl⟩
    | branchCut _ _ evaluatedToo takenToo early =>
      obtain ⟨rfl, rfl⟩ : _ = _ ∧ _ = _ := by simpa [evaluated] using evaluatedToo
      exact absurd (takenHypothesis takenToo).2.1.symm early
  | branchCut _ _ evaluated taken early inductionHypothesis =>
    cases executesToo with
    | next doesToo => exact absurd evaluated doesToo.not_evaluated
    | cut _ doesToo => exact absurd evaluated doesToo.not_evaluated
    | branch _ evaluatedToo takenToo =>
      obtain ⟨rfl, rfl⟩ : _ = _ ∧ _ = _ := by simpa [evaluated] using evaluatedToo
      exact absurd (inductionHypothesis takenToo).2.1 early
    | branchCut _ _ evaluatedToo takenToo =>
      obtain ⟨rfl, rfl⟩ : _ = _ ∧ _ = _ := by simpa [evaluated] using evaluatedToo
      obtain ⟨rfl, rfl, rfl⟩ := inductionHypothesis takenToo
      exact ⟨rfl, rfl, rfl⟩

end YololChip
