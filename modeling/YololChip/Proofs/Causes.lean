import YololChip.Proofs.Numeric

/-!
# The causes of faults

A loaded program has few causes to fail by, whatever it computes. Every operator between two
operands has a behaviour; of those on one operand only the steps have none, and a step is taken
before its operator is looked up. Only variables are assigned to. So what can go wrong is that an
operator refuses its operands, that a goto leads to a text, or that an expression nests too deep.
-/

namespace YololChip

/-- Whether work that fails does so by one of some causes. Work that has a result meets this
whatever the causes are. -/
def Ended.FailsBy (causes : EvalCause → Prop) {α : Type} (ended : Ended α) : Prop :=
  ∀ error, ended.1 = .error error → causes error.cause

namespace Ended.FailsBy

variable {causes : EvalCause → Prop} {α β : Type}

theorem ok (result : α) (chip : Chip) : FailsBy causes (.ok result, chip) := by
  intro error failed
  contradiction

/-- What fails by a cause fails by one of those that it is among. -/
theorem error {error : EvalError} (among : causes error.cause) (chip : Chip) :
    FailsBy causes ((.error error, chip) : Ended α) := by
  intro other failed
  rwa [← Except.error.inj failed]

/-- What goes on with a result fails by the causes of both parts. -/
theorem andThen {ended : Ended α} (fails : ended.FailsBy causes) {next : α → Chip → Ended β}
    (failsOn : ∀ result chip, (next result chip).FailsBy causes) :
    (Ended.andThen ended next).FailsBy causes := by
  obtain ⟨result, chip⟩ := ended
  cases result with
  | error error => exact .error (fails error rfl) chip
  | ok result => exact failsOn result chip

/-- An operator at a location fails by the cause of its result. -/
theorem at? (loc : Option Location) {result : Except EvalCause Value}
    (among : ∀ cause, result = .error cause → causes cause) (chip : Chip) :
    FailsBy causes (Evaluate.at? loc result chip) := by
  cases result with
  | ok value => exact .ok value chip
  | error cause => exact .error (among cause rfl) chip

end Ended.FailsBy

/-! ### Expressions -/

/-- Whether a cause is one by which an expression has no value: an operator refuses its
operands, or the expression nests too deep. A variable that was never set has a value, so
reading one is no cause. -/
def EvalCause.OfExpression (cause : EvalCause) : Prop := cause.kind = .operator ∨ cause = .tooDeep

/-- An expression, whatever it holds, fails only by the causes of expressions.

Proof: induction over the depth. A step never reaches the table, which has no entry for it. -/
theorem Evaluate.expression_failsBy (depth : Nat) (e : Expr) (chip : Chip) :
    Ended.FailsBy EvalCause.OfExpression (expression .default depth e chip) := by
  induction depth generalizing e chip with
  | zero =>
    rw [expression]
    exact .error (.inr rfl) chip
  | succ depth inductionHypothesis =>
    cases e with
    | number | text | var => exact .ok _ chip
    | group _ inner => exact inductionHypothesis inner chip
    | binary loc op left right =>
      rw [expression_binary]
      apply (inductionHypothesis left chip).andThen
      intro first chip
      apply (inductionHypothesis right chip).andThen
      intro second chip
      exact .at? loc (fun cause refused => .inl ((Behaviour.ofValues_of_binary refused).kind)) chip
    | unary loc op operand =>
      cases isStep : op.isStep with
      | false =>
        rw [expression_unary _ _ _ isStep]
        apply (inductionHypothesis operand chip).andThen
        intro value chip
        exact .at? loc
          (fun cause refused => .inl ((Behaviour.ofValues_of_unary isStep refused).kind)) chip
      | true =>
        cases operand with
        | var place target =>
          rw [expression_step _ _ _ _ isStep, stepVariable]
          cases stepped : Behaviour.step op (chip.read target) with
          | error cause => exact .error (.inl ((Behaviour.ofValues_of_step stepped).kind)) chip
          | ok value => exact .ok _ _
        | _ =>
          rw [expression_step_other _ _ _ isStep (by simp)]
          exact .error (.inl rfl) chip

/-! ### Statements -/

/-- Whether a cause is one by which a loaded program fails: an operator refuses its operands, a
goto leads to a text, or an expression nests too deep. What is missing here cannot arise in a
program that was read, only in one that was put together by hand. -/
def EvalCause.OfProgram (cause : EvalCause) : Prop :=
  cause.kind = .operator ∨ cause = .jumpToText ∨ cause = .tooDeep

theorem EvalCause.OfExpression.ofProgram {cause : EvalCause} (ofExpression : cause.OfExpression) :
    cause.OfProgram :=
  ofExpression.imp_right .inr

/-- Whether a statement assigns to a variable, if it assigns. The tree leaves room for other
targets, which no reader makes. -/
def Stmt.Targeted (s : Stmt) : Prop :=
  ∀ loc target op value, s = .assign loc target op value → ∃ place v, target = .var place v

section

variable {chip left : Chip} {finish : Finish} {error : EvalError}

/-- An expression that is evaluated fails only by the causes of expressions. -/
theorem ofProgram_of_evaluate {e : Expr}
    (refused : evaluate .default e chip = (.error error, left)) : error.cause.OfProgram := by
  have fails := Evaluate.expression_failsBy Grammar.nestingLimit e chip
  rw [← evaluate, refused] at fails
  exact (fails error rfl).ofProgram

/-- What an assignment stores is refused by its operator only. A simple assignment has none, and
cannot be refused. -/
theorem AssignOperator.kind_of_stored {op : AssignOperator} {current value : Value}
    {cause : EvalCause} (refused : op.stored .default current value = .error cause) :
    cause.kind = .operator := by
  unfold stored at refused
  split at refused
  · contradiction
  · exact (Behaviour.ofValues_of_binary refused).kind

/-- A statement that fails does so by a cause of programs, unless it assigns to no variable. -/
theorem Stmt.Does.ofProgram {s : Stmt} (does : s.Does .default chip (.failed error) left)
    (targeted : s.Targeted) : error.cause.OfProgram := by
  cases does with
  | unevaluated _ refused => exact ofProgram_of_evaluate refused
  | assignRefused _ _ _ refused => exact .inl (AssignOperator.kind_of_stored refused)
  | assignElsewhere _ _ _ _ elsewhere =>
    obtain ⟨place, v, isVariable⟩ := targeted _ _ _ _ rfl
    exact absurd isVariable (elsewhere place v)
  | jumpToText => exact .inr (.inl rfl)

/-- Statements that fail do so by a cause of programs, if they assign to variables only.

Proof: induction over the rules. The fault is that of the statement that is cut short last. -/
theorem Executes.ofProgram {block : List Stmt} {told : List Notice}
    (executes : Executes .default block chip told finish left)
    (targeted : Stmt.Throughout Stmt.Targeted block) (failed : finish = .failed error) :
    error.cause.OfProgram := by
  induction executes with
  | nothing => contradiction
  | next _ _ inductionHypothesis => exact inductionHypothesis targeted.tail failed
  | cut _ does =>
    subst failed
    exact does.ofProgram targeted.head
  | branch _ _ _ _ _ goesOnHypothesis => exact goesOnHypothesis targeted.tail failed
  | branchCut _ _ _ _ _ inductionHypothesis => exact inductionHypothesis (targeted.chosen _) failed

end

/-! ### Programs -/

theorem Program.Loaded.targeted {p : Program} (loaded : p.Loaded) (number : Int) :
    Stmt.Throughout Stmt.Targeted (p.line number).statements := by
  rintro s member loc target op value rfl
  rcases p.line_mem_or_blank number with inProgram | blank
  · exact loaded.portable.wellFormed.targets loc target op value
      (mem_within.mpr ⟨_, inProgram, member⟩)
  · rw [blank] at member
    exact absurd member List.not_mem_nil

/-- Whether a fault is one by which a line of a loaded program ends: an operator refuses its
operands, or it is one of two faults of their own, a goto to a text and a nesting that is too
deep, whose sentences are fixed. It is a fault of the evaluation and of no observer. -/
def Fault.Regular (fault : Fault) : Prop :=
  ∃ error, fault = .eval error ∧ error.cause ≠ .targetNotVariable ∧
    error.cause.kind ≠ .nonExhaustive ∧
    (error.cause.kind = .operator ∨
      error.cause = .jumpToText ∧ fault.message = "misc: Cannot goto a string" ∨
      error.cause = .tooDeep ∧ fault.message = "misc: expression nested too deeply")

theorem Fault.regular_of_ofProgram {error : EvalError} (ofProgram : error.cause.OfProgram) :
    (Fault.eval error).Regular := by
  obtain ⟨cause, loc, stepIndex⟩ := error
  simp only at ofProgram
  refine ⟨_, rfl, ?_, ?_, ?_⟩
  · rintro rfl
    rcases ofProgram with isOperator | isJump | isDeep <;> contradiction
  · intro nonExhaustive
    simp only at nonExhaustive
    rcases ofProgram with isOperator | rfl | rfl
    · rw [nonExhaustive] at isOperator
      contradiction
    · contradiction
    · contradiction
  · rcases ofProgram with isOperator | rfl | rfl
    · exact .inl isOperator
    · exact .inr (.inl ⟨rfl, rfl⟩)
    · exact .inr (.inr ⟨rfl, rfl⟩)

namespace Interpreter

variable {p : Program}

/-- The fault that ends a line of a loaded program is regular. It does not matter what the line
is run on, nor who watches. -/
theorem regular_of_runLine (loaded : p.Loaded) (verbose : Bool) (file : String) (number : Int)
    (m : Machine Unit) {fault : Fault}
    (ended : ((unobserved verbose file .default).runLine (p.line number) m).1 = some fault) :
    fault.Regular := by
  obtain ⟨told, finish, left, executes⟩ :=
    exists_executes .default (p.line number).statements m.chip
  obtain ⟨fault?, after, _, runs, _, closes⟩ :=
    executes.runLine_plain (i := unobserved verbose file .default) Hooks.watching_none
  rw [runs] at ended
  cases closes with
  | completed | jumped => contradiction
  | failed error log =>
    obtain rfl := Option.some.inj ended
    apply Fault.regular_of_ofProgram
    rw [cause_placed]
    exact executes.ofProgram (loaded.targeted number) rfl

/-- A loaded program never misses a behaviour and never assigns to what is no variable. The fault
that ends a line is regular, whatever the line is run on. So over every number of ticks, a tick
that fails does so by a regular fault, or by one that tells that its line could not be read.
It records the fault if it can be shown, and otherwise nothing. -/
theorem ticks_regular (loaded : p.Loaded) (verbose : Bool) (file : String) (m : Machine Unit) :
    let i := unobserved verbose file .default
    (∀ number fault, (i.runLine (p.line number) m).1 = some fault → fault.Regular) ∧
      ∀ count fault, i.TickFails p (i.ticks p count m).2 fault →
        ((i.ticks p (count + 1) m).2.chip.error =
            if fault.isShowable then fault.message else (i.ticks p count m).2.chip.error) ∧
          (fault.Regular ∨ ∃ error, fault = .source error ∧
            p.error? (i.ticks p count m).2.chip.nextLine = some error) := by
  intro i
  constructor
  · intro number fault ended
    exact regular_of_runLine loaded verbose file number m ended
  · intro count fault fails
    rw [ticks_succ_snd]
    generalize (i.ticks p count m).2 = before at fails ⊢
    refine ⟨error_step verbose file .default fails, ?_⟩
    cases fails with
    | unread unread => exact .inr ⟨_, rfl, unread⟩
    | ran readable ended => exact .inl (regular_of_runLine loaded verbose file _ _ ended)

/-- A source whose first line steps a text that it cannot shorten, after a step that it can. Its
second line is not reached in the tick that fails. -/
def steppingSource : String := "a=\"x\" a-- a--\ngoto \"a\""

/-- Its first tick fails by a fault that is regular. -/
theorem ticks_regular_stepping :
    ∃ p : Program, Program.parse steppingSource "" = .ok p ∧
      ∃ fault, plain.TickFails p (.start (.fresh "chip") ()) fault ∧
        (plain.ticks p 1 (.start (.fresh "chip") ())).2.chip.error = fault.message ∧
        fault.Regular := by
  obtain ⟨p, parsed, checked⟩ := exists_ok_of_any (x := Program.parse steppingSource "")
    (f := fun p => (p.error? 1).isNone &&
      (plain.runLine (p.line 1) (.start (Chip.fresh "chip").advance ())).1.isSome)
    (by decide +kernel)
  obtain ⟨readable, failed⟩ := Bool.and_eq_true_iff.mp checked
  replace readable := Option.isNone_iff_eq_none.mp readable
  obtain ⟨fault, ended⟩ := Option.isSome_iff_exists.mp failed
  have fails : plain.TickFails p (.start (.fresh "chip") ()) fault := .ran readable ended
  have showable := isShowable_of_tickFails (i := plain) Hooks.watching_none
    Operators.showable_default parsed fails
  have regular := ticks_regular (.inl ⟨_, _, parsed⟩) false "<line>" (.start (.fresh "chip") ())
  obtain ⟨recorded, isRegular | ⟨error, _, unread⟩⟩ := regular.2 0 fault fails
  · exact ⟨p, parsed, fault, fails, recorded.trans (if_pos showable), isRegular⟩
  · exact absurd (unread.symm.trans readable) (by simp)

end Interpreter

end YololChip
