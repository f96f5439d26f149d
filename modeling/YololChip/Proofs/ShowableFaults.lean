import YololChip.Proofs.Effects
import YololChip.Proofs.KeptLines
import YololChip.Proofs.Soundness

/-!
# Faults that can be shown

Only a step of what is no variable shows an expression, and only one that nests deep cannot be
shown. In source a step operator stands beside a variable or beside a step of one, so the fault of
a line of source can always be shown, and a line answers. A document may hold a step of
anything: of its lines only this is known, that they answer or cannot show their fault.

The table of operators has a part in this too, since a behaviour may refuse its operands by any
cause. The default one refuses by causes that can be shown.
-/

namespace YololChip

/-- Whether no behaviour of a table refuses its operands by a cause that cannot be shown. Steps
are no part of a table; they are shown with their operand. -/
structure Operators.Showable (ops : Operators) : Prop where
  binary : ∀ {op left right cause}, ops.applyBinary op left right = .error cause →
    cause.isShowable = true
  unary : ∀ {op operand cause}, ops.applyUnary op operand = .error cause →
    cause.isShowable = true

/-- Whether work that fails does so by a fault that can be shown. Work that has a result meets
this. -/
def Ended.Showable {α : Type} (ended : Ended α) : Prop :=
  ∀ error, ended.1 = .error error → error.cause.isShowable = true

namespace Ended.Showable

variable {α β : Type}

theorem ok (result : α) (chip : Chip) : Showable (.ok result, chip) := by
  intro error failed
  contradiction

theorem error {error : EvalError} (showable : error.cause.isShowable = true) (chip : Chip) :
    Showable ((.error error, chip) : Ended α) := by
  intro other failed
  rwa [← Except.error.inj failed]

/-- What goes on with a result can show its fault if both parts can. -/
theorem andThen {ended : Ended α} (showable : ended.Showable) {next : α → Chip → Ended β}
    (goesOn : ∀ result chip, (next result chip).Showable) :
    (Ended.andThen ended next).Showable := by
  obtain ⟨result, chip⟩ := ended
  cases result with
  | error error => exact .error (showable error rfl) chip
  | ok result => exact goesOn result chip

end Ended.Showable

/-! ### Operators -/

/-- Whether a cause is that an operator refuses values: they are of the wrong type, or outside
of its domain. It shows the values, and no expression, so it can be shown whatever these are. -/
inductive EvalCause.OfValues : EvalCause → Prop where
  | domain (fault : DomainFault) : OfValues (.domain fault)
  | expectsNumber (op : UnaryOperator) (operand : Value) : OfValues (.expectsNumber op operand)
  | expectsNumbers (op : BinaryOperator) (left right : Value) :
    OfValues (.expectsNumbers op left right)
  | emptyDecrement (op : UnaryOperator) (operand : Value) : OfValues (.emptyDecrement op operand)

theorem EvalCause.OfValues.kind {cause : EvalCause} (ofValues : cause.OfValues) :
    cause.kind = .operator := by
  cases ofValues <;> rfl

theorem EvalCause.OfValues.isShowable {cause : EvalCause} (ofValues : cause.OfValues) :
    cause.isShowable = true := by
  cases ofValues <;> rfl

namespace Behaviour

variable {cause : EvalCause}

/-- An operation on two numbers refuses its operands, or the numbers are outside of its domain. -/
theorem ofValues_of_onNumbers {op : BinaryOperator}
    {f : Fixed → Fixed → Except DomainFault Fixed} {left right : Value}
    (refused : onNumbers op f left right = .error cause) : cause.OfValues := by
  unfold onNumbers at refused
  split at refused
  · split at refused
    · contradiction
    · rw [← Except.error.inj refused]
      exact .domain _
  · rw [← Except.error.inj refused]
    exact .expectsNumbers op _ _

/-- An operation on one number refuses its operand, or the number is outside of its domain. -/
theorem ofValues_of_onNumber {op : UnaryOperator} {f : Fixed → Except DomainFault Fixed}
    {operand : Value} (refused : onNumber op f operand = .error cause) : cause.OfValues := by
  unfold onNumber at refused
  split at refused
  · split at refused
    · contradiction
    · rw [← Except.error.inj refused]
      exact .domain _
  · rw [← Except.error.inj refused]
    exact .expectsNumber op _

theorem ofValues_of_binary {op : BinaryOperator} {left right : Value}
    (refused : binary op left right = .error cause) : cause.OfValues := by
  cases op with
  | mul | div | mod | pow =>
    rw [binary] at refused
    exact ofValues_of_onNumbers refused
  | add | sub | less | greater | lessEqual | greaterEqual | equal | notEqual | and | or =>
    contradiction

/-- An operator on one operand that is no step can only refuse it: it has a behaviour. -/
theorem ofValues_of_unary {op : UnaryOperator} (noStep : op.isStep = false) {operand : Value}
    (refused : Operators.default.applyUnary op operand = .error cause) : cause.OfValues := by
  cases op with
  | preIncrement | postIncrement | preDecrement | postDecrement | not => contradiction
  | neg | abs | sqrt | sin | cos | tan | arcsin | arccos | arctan | factorial =>
    simp only [Operators.applyUnary, Operators.default, unary?] at refused
    exact ofValues_of_onNumber refused

/-- A step of a variable can only refuse the variable's value. An expression is shown only where
the operand is no variable. -/
theorem ofValues_of_step {op : UnaryOperator} {current : Value}
    (refused : step op current = .error cause) : cause.OfValues := by
  unfold step at refused
  split at refused
  · contradiction
  · split at refused
    · contradiction
    · split at refused
      · rw [← Except.error.inj refused]
        exact .emptyDecrement op _
      · contradiction

end Behaviour

theorem Operators.showable_default : Operators.default.Showable where
  binary refused := (Behaviour.ofValues_of_binary refused).isShowable
  unary := by
    intro op operand cause refused
    cases isStep : op.isStep with
    | false => exact (Behaviour.ofValues_of_unary isStep refused).isShowable
    | true =>
      cases op with
      | preIncrement | postIncrement | preDecrement | postDecrement =>
        rw [← Except.error.inj refused]
        rfl
      | _ => contradiction

/-! ### Lines of source -/

/-- What a step is applied to in a leveled expression nests at most two levels deep: it is a
variable, or a step of one. -/
theorem Expr.depth_of_fitsUnary {op : UnaryOperator} (isStep : op.isStep = true) {operand : Expr}
    (fits : fitsUnary op operand) : operand.depth ≤ 2 := by
  have ofVariable {e : Expr} (isVariable : e.isVariable = true) : e.depth = 1 := by
    cases e with
    | var => rfl
    | _ => contradiction
  have ofStep {e : Expr} (isStepAfter : e.isStepAfter = true) : e.depth = 2 := by
    cases e with
    | unary loc op operand =>
      cases op with
      | postIncrement | postDecrement => exact congrArg (· + 1) (ofVariable isStepAfter)
      | _ => contradiction
    | _ => contradiction
  cases op with
  | postIncrement | postDecrement =>
    rw [ofVariable fits]
    decide
  | preIncrement | preDecrement =>
    rcases fits with isVariable | isStepAfter
    · rw [ofVariable isVariable]
      decide
    · exact Nat.le_of_eq (ofStep isStepAfter)
  | _ => contradiction

variable {ops : Operators}

/-- A leveled expression can show its fault.

Proof: induction over the depth. A step that is refused shows what it is applied to. -/
theorem Evaluate.showable_expression (shows : ops.Showable) (depth : Nat) {e : Expr}
    (leveled : e.Leveled) (chip : Chip) : Ended.Showable (expression ops depth e chip) := by
  have operator (loc : Option Location) {result : Except EvalCause Value}
      (showable : ∀ cause, result = .error cause → cause.isShowable = true) (chip : Chip) :
      Ended.Showable (at? loc result chip) := by
    cases result with
    | ok value => exact .ok value chip
    | error cause => exact .error (showable cause rfl) chip
  induction depth generalizing e chip with
  | zero =>
    rw [expression]
    exact .error rfl chip
  | succ depth inductionHypothesis =>
    cases e with
    | number | text | var => exact .ok _ chip
    | group _ inner => exact inductionHypothesis (e := inner) leveled chip
    | binary loc op left right =>
      rw [expression_binary]
      apply (inductionHypothesis leveled.1 chip).andThen
      intro first chip
      apply (inductionHypothesis leveled.2.1 chip).andThen
      intro second chip
      exact operator loc (fun _ => shows.binary) chip
    | unary loc op operand =>
      cases isStep : op.isStep with
      | false =>
        rw [expression_unary _ _ _ isStep]
        apply (inductionHypothesis leveled.1 chip).andThen
        intro value chip
        exact operator loc (fun _ => shows.unary) chip
      | true =>
        have shallow : (EvalCause.stepOnExpression op operand).isShowable = true :=
          decide_eq_true (Nat.le_trans (Expr.depth_of_fitsUnary isStep leveled.2) (by decide))
        cases operand with
        | var place target =>
          rw [expression_step _ _ _ _ isStep, stepVariable]
          cases stepped : Behaviour.step op (chip.read target) with
          | error cause => exact .error (Behaviour.ofValues_of_step stepped).isShowable chip
          | ok value => exact .ok _ _
        | _ =>
          rw [expression_step_other _ _ _ isStep (by simp)]
          exact .error shallow chip

namespace Effect

theorem showable_store (shows : ops.Showable) (loc : Option Location) (target : Variable)
    (op : AssignOperator) (value : Value) (chip : Chip) :
    (store ops loc target op value chip).Showable := by
  unfold store
  cases op.binary? with
  | none => exact .ok none _
  | some binary =>
    simp only
    cases refused : ops.applyBinary binary (chip.read target) value with
    | error cause => exact .error (shows.binary refused) chip
    | ok value => exact .ok none _

mutual

theorem showable_statement (shows : ops.Showable) {s : Stmt} (leveled : s.Leveled) (chip : Chip) :
    (ofStatement ops s chip).Showable := by
  match s with
  | .comment _ _ => exact .ok none chip
  | .expression _ value =>
    exact (Evaluate.showable_expression shows _ leveled chip).andThen fun _ => .ok none
  | .assign loc target op value =>
    cases target with
    | var place target =>
      exact (Evaluate.showable_expression shows _ leveled.2 chip).andThen
        (showable_store shows loc target op)
    | _ => exact .error rfl chip
  | .jump loc target =>
    apply (Evaluate.showable_expression shows _ leveled chip).andThen
    intro value chip
    cases value with
    | num a => exact .ok _ _
    | str s => exact .error rfl chip
  | .branch _ condition body otherwise =>
    obtain ⟨leveledCondition, leveledBody, leveledElse⟩ := leveled
    rw [ofStatement]
    apply (Evaluate.showable_expression shows _ leveledCondition chip).andThen
    intro value chip
    by_cases isFalse : value.isFalse = true
    · rw [if_pos isFalse]
      match otherwise with
      | none => exact .ok none chip
      | some block => exact showable_block shows leveledElse chip
    · rw [if_neg isFalse]
      exact showable_block shows leveledBody chip

theorem showable_block (shows : ops.Showable) {block : List Stmt}
    (leveled : Stmt.LeveledAll block) (chip : Chip) : (ofBlock ops block chip).Showable := by
  match block with
  | [] => exact .ok none chip
  | s :: rest =>
    rw [ofBlock_cons]
    apply (showable_statement shows leveled.1 chip).andThen
    intro jumped chip
    cases jumped with
    | none => exact showable_block shows leveled.2 chip
    | some line => exact .ok _ chip

end

end Effect

/-- Whether a line steps variables only, and steps of variables, so that its fault can be shown.
All lines that are read from source are so; those from a document need not be. -/
def Line.Leveled (line : Line) : Prop := Stmt.LeveledAll line.statements

theorem Line.leveled_of_parse {text file : String} {number : Int} {line : Line}
    (read : parse text file number = .ok line) : line.Leveled := by
  obtain ⟨_, _, _, reads, _⟩ := Line.reads_of_parse read
  exact reads.leveled

theorem Line.Leveled.exists_answer {line : Line} (leveled : line.Leveled)
    (shows : ops.Showable) (chip : Chip) : ∃ ran, line.answer ops chip = .ok ran := by
  have showable := Effect.showable_block shows leveled chip
  rw [answer]
  generalize Effect.ofBlock ops line.statements chip = ended at showable ⊢
  obtain ⟨result, left⟩ := ended
  cases result with
  | ok jumped => exact ⟨true, rfl⟩
  | error error => exact ⟨false, if_pos (showable error rfl)⟩

/-- The fault by which a leveled line ends can be shown, if observers watch. Those who refuse in
their own words may make a fault that cannot be shown, but who watches does not refuse. -/
theorem Interpreter.isShowable_of_runLine {ω : Type} {i : Interpreter ω}
    (watching : i.hooks.Watching) (shows : i.operators.Showable) {line : Line}
    (leveled : line.Leveled) {m : Machine ω} {fault : Fault}
    (ended : (i.runLine line m).1 = some fault) : fault.isShowable = true := by
  have ends := Interpreter.runLine_ends watching line m
  have showable := Effect.showable_block shows leveled m.chip
  generalize i.runLine line m = run at ends ended
  generalize Effect.ofBlock i.operators line.statements m.chip = effect at ends showable
  cases ends with
  | whole => contradiction
  | failed error log after =>
    obtain rfl := Option.some.inj ended
    rw [Fault.isShowable, cause_placed]
    exact showable error rfl

namespace Program

/-- A kept line is leveled, also if it is blank in the place of a line that is refused. -/
theorem Kept.leveled {file text : String} {number : Nat} {line : Line}
    {errors : List (Int × SourceError)} (kept : Kept file number text line errors) :
    line.Leveled := by
  cases kept with
  | read parsed => exact Line.leveled_of_parse parsed
  | refused => exact trivial

/-- The lines of a program from source are leveled, and so are the blank ones past its ends. -/
theorem leveled_line {text file : String} {p : Program} (parsed : parse text file = .ok p)
    (number : Int) : (p.line number).Leveled := by
  unfold line
  split
  · cases found : p.lines[number.toNat - 1]? with
    | none => exact trivial
    | some line =>
      obtain ⟨_, _, _, kept⟩ := (keptFrom_of_parse parsed).2.kept_of_getElem? found
      exact kept.leveled
  · exact trivial

/-- A tick of a program from source answers the number of its line. If the line fails, the fault
is recorded. -/
theorem answer_of_parse {text file : String} {p : Program} (parsed : parse text file = .ok p)
    (shows : ops.Showable) (chip : Chip) :
    p.answer ops chip = .ok chip.nextLine := by
  unfold answer
  cases p.error? chip.nextLine with
  | some error => rfl
  | none =>
    obtain ⟨ran, answers⟩ := (leveled_line parsed chip.nextLine).exists_answer shows chip.advance
    simp only [answers]
    rfl

end Program

end YololChip
