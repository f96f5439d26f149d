import YololChip.Proofs.Locality
import YololChip.Proofs.WellFormed

/-!
# Programs without texts

A program that holds no text makes none: operators on numbers give numbers or refuse a number
that is outside of their domain, and steps of numbers give numbers. So a chip that holds numbers
only goes on doing so, and few faults can be recorded on it.
-/

namespace YololChip

/-! ### Numbers -/

def Value.IsNumber (v : Value) : Prop := ∃ a, v = num a

/-- Whether an operation has no value on the numbers that a fault names. A fault that names
numbers on which there is a value would be a wrong one. -/
def DomainFault.Holds : DomainFault → Prop
  | negativeFactorial a | negativeRoot a => a.units < 0
  | arcsineOutside a | arccosineOutside a => a.units < -Fixed.scale ∨ Fixed.scale < a.units
  | unrealPower base exponent => ∀ a, Fixed.pow base exponent ≠ .ok a

def Expr.isText : Expr → Bool
  | text _ _ => true
  | _ => false

namespace EvalCause

/-- The causes that there are where all values are numbers: a number outside of a domain, a step
of what is no variable, and a nesting that is too deep. What is missing is every cause that is
about a text, and an operator that the table lacks. -/
def OfNumbers : EvalCause → Prop
  | domain fault => fault.Holds
  | stepOnExpression op operand => op.isStep = true ∧ ∀ place v, operand ≠ .var place v
  | tooDeep => True
  | _ => False

end EvalCause

/-- Whether a result is a number, or has a cause that there is where all values are numbers. An
operator for which this holds turns numbers into nothing else. -/
def Behaviour.Numeric : Except EvalCause Value → Prop
  | .ok v => v.IsNumber
  | .error cause => cause.OfNumbers

namespace Fixed

theorem holds_of_factorial {a : Fixed} {fault : DomainFault}
    (refused : a.factorial = .error fault) : fault.Holds := by
  unfold factorial at refused
  split at refused
  · next negative => exact Except.error.inj refused ▸ negative
  · split at refused <;> contradiction

theorem holds_of_sqrt {a : Fixed} {fault : DomainFault} (refused : a.sqrt = .error fault) :
    fault.Holds := by
  unfold sqrt at refused
  split at refused
  · next negative => exact Except.error.inj refused ▸ negative
  · contradiction

/-- A number whose distance from zero is more than one is outside of the interval. -/
theorem outside_of_isOutsideUnit {a : Fixed} (outside : a.isOutsideUnit = true) :
    a.units < -scale ∨ scale < a.units := by
  simp only [isOutsideUnit, decide_eq_true_eq] at outside
  omega

theorem holds_of_arcsin {a : Fixed} {fault : DomainFault} (refused : a.arcsin = .error fault) :
    fault.Holds := by
  unfold arcsin at refused
  split at refused
  · next outside => exact Except.error.inj refused ▸ outside_of_isOutsideUnit outside
  · contradiction

theorem holds_of_arccos {a : Fixed} {fault : DomainFault} (refused : a.arccos = .error fault) :
    fault.Holds := by
  unfold arccos at refused
  split at refused
  · next outside => exact Except.error.inj refused ▸ outside_of_isOutsideUnit outside
  · contradiction

theorem holds_of_pow {a b : Fixed} {fault : DomainFault} (refused : a.pow b = .error fault) :
    fault.Holds := by
  have unreal : fault = .unrealPower a b := by
    unfold pow at refused
    split at refused
    · contradiction
    · exact (Except.error.inj refused).symm
  subst unreal
  intro c real
  rw [refused] at real
  contradiction

end Fixed

namespace Behaviour

/-- What an operation on two numbers gives, if its faults hold. -/
theorem numeric_onNumbers (op : BinaryOperator) {f : Fixed → Fixed → Except DomainFault Fixed}
    (faults : ∀ a b fault, f a b = .error fault → fault.Holds) (a b : Fixed) :
    Numeric (onNumbers op f (.num a) (.num b)) := by
  rw [onNumbers]
  cases result : f a b with
  | ok c => exact ⟨c, rfl⟩
  | error fault => exact faults a b fault result

/-- What an operation on one number gives, if its faults hold. -/
theorem numeric_onNumber (op : UnaryOperator) {f : Fixed → Except DomainFault Fixed}
    (faults : ∀ a fault, f a = .error fault → fault.Holds) (a : Fixed) :
    Numeric (onNumber op f (.num a)) := by
  rw [onNumber]
  cases result : f a with
  | ok c => exact ⟨c, rfl⟩
  | error fault => exact faults a fault result

/-- An operator between two numbers gives a number, or the power is not real. Comparisons and
truth operators give one or zero, so they are numbers too. -/
theorem numeric_binary (op : BinaryOperator) {left right : Value} (isLeft : left.IsNumber)
    (isRight : right.IsNumber) : Numeric (binary op left right) := by
  obtain ⟨a, rfl⟩ := isLeft
  obtain ⟨b, rfl⟩ := isRight
  cases op with
  | add | sub | mul | div | mod | less | greater | lessEqual | greaterEqual | equal | notEqual
    | and | or => exact ⟨_, rfl⟩
  | pow => exact numeric_onNumbers .pow (fun _ _ _ => Fixed.holds_of_pow) a b

/-- An operator on a number gives a number, or the number is outside of its domain. -/
theorem numeric_unary {op : UnaryOperator} (noStep : op.isStep = false) {operand : Value}
    (isNumber : operand.IsNumber) : Numeric (Operators.default.applyUnary op operand) := by
  obtain ⟨a, rfl⟩ := isNumber
  cases op with
  | preIncrement | postIncrement | preDecrement | postDecrement => contradiction
  | neg | abs | sin | cos | tan | arctan | not => exact ⟨_, rfl⟩
  | factorial => exact numeric_onNumber .factorial (fun _ _ => Fixed.holds_of_factorial) a
  | sqrt => exact numeric_onNumber .sqrt (fun _ _ => Fixed.holds_of_sqrt) a
  | arcsin => exact numeric_onNumber .arcsin (fun _ _ => Fixed.holds_of_arcsin) a
  | arccos => exact numeric_onNumber .arccos (fun _ _ => Fixed.holds_of_arccos) a

end Behaviour

/-! ### Chips -/

namespace Chip

/-- Whether a chip holds numbers only. A variable that is not set reads as a number as well. -/
structure Numeric (chip : Chip) : Prop where
  locals : ∀ entry ∈ chip.locals, entry.2.IsNumber
  fields : ∀ entry ∈ chip.fields, entry.2.IsNumber

/-- A variable of a chip that holds numbers only reads as a number. One that is not set reads as
zero. -/
theorem Numeric.read {chip : Chip} (numeric : chip.Numeric) (v : Variable) :
    (chip.read v).IsNumber := by
  unfold Chip.read
  cases found : chip.read? v with
  | none => exact ⟨.zero, rfl⟩
  | some value =>
    have bound := Bindings.mem_of_find? found
    obtain ⟨name, scope⟩ := v
    cases scope with
    | chip => exact numeric.locals _ bound
    | field => exact numeric.fields _ bound

/-- A chip that holds numbers only does so after a variable is set to a number. -/
theorem Numeric.write {chip : Chip} (numeric : chip.Numeric) (v : Variable) {value : Value}
    (isNumber : value.IsNumber) : (chip.write v value).Numeric := by
  have bound {bindings : List (String × Value)} (all : ∀ entry ∈ bindings, entry.2.IsNumber) :
      ∀ entry ∈ Bindings.put v.name value bindings, entry.2.IsNumber := by
    intro entry member
    rcases Bindings.eq_or_mem_of_mem_put member with same | before
    · exact same ▸ isNumber
    · exact all entry before
  unfold Chip.write
  cases v.scope with
  | chip => exact ⟨bound numeric.locals, numeric.fields⟩
  | field => exact ⟨numeric.locals, bound numeric.fields⟩

/-- Where a chip is and what is recorded on it does not count. -/
theorem Numeric.congr {a b : Chip} (numeric : a.Numeric) (locals : b.locals = a.locals)
    (fields : b.fields = a.fields) : b.Numeric :=
  ⟨locals ▸ numeric.locals, fields ▸ numeric.fields⟩

end Chip

/-! ### Expressions -/

/-- Whether an outcome is a number, or has a cause that there is where all values are numbers,
and leaves a chip that holds numbers only. The chip is asked for in both cases, since a fault
keeps what was done before it. -/
structure Outcome.Numeric (outcome : Outcome) : Prop where
  chip : outcome.2.Numeric
  value : ∀ v, outcome.1 = .ok v → v.IsNumber
  cause : ∀ error, outcome.1 = .error error → error.cause.OfNumbers

namespace Outcome.Numeric

theorem ok {v : Value} {chip : Chip} (numeric : chip.Numeric) (isNumber : v.IsNumber) :
    Outcome.Numeric (.ok v, chip) where
  chip := numeric
  value other same := Except.ok.inj same ▸ isNumber
  cause error same := by contradiction

/-- A cause that there is where all values are numbers is one. -/
theorem error {error : EvalError} {chip : Chip} (numeric : chip.Numeric)
    (ofNumbers : error.cause.OfNumbers) : Outcome.Numeric (.error error, chip) where
  chip := numeric
  value v same := by contradiction
  cause other same := Except.error.inj same ▸ ofNumbers

theorem andThen {outcome : Outcome} (numeric : outcome.Numeric) {next : Value → Chip → Outcome}
    (goesOn : ∀ v chip, v.IsNumber → chip.Numeric → (next v chip).Numeric) :
    Outcome.Numeric (Ended.andThen outcome next) := by
  obtain ⟨result, after⟩ := outcome
  cases result with
  | error error => exact .error numeric.chip (numeric.cause error rfl)
  | ok v => exact goesOn v after (numeric.value v rfl) numeric.chip

/-- The outcome of an operator is such an outcome if its result is one. -/
theorem at? (loc : Option Location) {result : Except EvalCause Value} {chip : Chip}
    (numeric : chip.Numeric) (isNumeric : Behaviour.Numeric result) :
    Outcome.Numeric (Evaluate.at? loc result chip) := by
  cases result with
  | ok value => exact .ok numeric isNumeric
  | error cause => exact .error numeric isNumeric

end Outcome.Numeric

namespace Evaluate

/-- The step of a variable on a chip that holds numbers only. -/
theorem stepVariable_numeric (loc : Option Location) (op : UnaryOperator) (target : Variable)
    {chip : Chip} (numeric : chip.Numeric) :
    Outcome.Numeric (stepVariable loc op target chip) := by
  obtain ⟨a, reads⟩ := numeric.read target
  unfold stepVariable
  rw [reads, Behaviour.step]
  apply Outcome.Numeric.ok
  · exact numeric.write target ⟨_, rfl⟩
  · split
    · exact ⟨_, rfl⟩
    · exact ⟨a, rfl⟩

/-- An expression without texts is evaluated to a number on a chip that holds numbers only, and
leaves one.

Proof: induction over the depth. The chip that an operand leaves is where the next one starts. -/
theorem expression_numeric {e : Expr} (textFree : ∀ node ∈ e.nodes, node.isText = false)
    (depth : Nat) {chip : Chip} (numeric : chip.Numeric) :
    Outcome.Numeric (expression .default depth e chip) := by
  induction depth generalizing e chip with
  | zero =>
    rw [expression]
    exact .error numeric trivial
  | succ depth inductionHypothesis =>
    cases e with
    | number _ a => exact .ok numeric ⟨a, rfl⟩
    | text loc value =>
      have noText := textFree (.text loc value) List.mem_cons_self
      contradiction
    | var _ target => exact .ok numeric (numeric.read target)
    | group _ inner =>
      exact inductionHypothesis (e := inner)
        (fun node member => textFree node (List.mem_cons_of_mem _ member)) numeric
    | binary loc op left right =>
      have inLeft : ∀ node ∈ left.nodes, node.isText = false := fun node member =>
        textFree node (List.mem_cons_of_mem _ (List.mem_append_left _ member))
      have inRight : ∀ node ∈ right.nodes, node.isText = false := fun node member =>
        textFree node (List.mem_cons_of_mem _ (List.mem_append_right _ member))
      rw [expression_binary]
      apply (inductionHypothesis inLeft numeric).andThen
      intro first chip isFirst numeric
      apply (inductionHypothesis inRight numeric).andThen
      intro second chip isSecond numeric
      exact .at? loc numeric (Behaviour.numeric_binary op isFirst isSecond)
    | unary loc op operand =>
      cases isStep : op.isStep with
      | false =>
        have inOperand : ∀ node ∈ operand.nodes, node.isText = false := fun node member =>
          textFree node (List.mem_cons_of_mem _ member)
        rw [expression_unary _ _ _ isStep]
        apply (inductionHypothesis inOperand numeric).andThen
        intro value chip isNumber numeric
        exact .at? loc numeric (Behaviour.numeric_unary isStep isNumber)
      | true =>
        by_cases isVariable : ∃ place target, operand = .var place target
        · obtain ⟨place, target, rfl⟩ := isVariable
          rw [expression_step _ _ _ _ isStep]
          exact stepVariable_numeric loc op target numeric
        · have other : ∀ place target, operand ≠ .var place target :=
            fun place target shape => isVariable ⟨place, target, shape⟩
          rw [expression_step_other _ _ _ isStep other]
          exact .error numeric ⟨isStep, other⟩

end Evaluate

/-! ### Statements -/

/-- Whether a statement by itself holds no text, and assigns to a variable if it assigns. Where
all statements are so, no value of a program is a text. -/
structure Stmt.Textless (s : Stmt) : Prop where
  texts : ∀ e ∈ s.own, ∀ node ∈ e.nodes, node.isText = false
  target : ∀ loc target op value, s = .assign loc target op value →
    ∃ place v, target = .var place v

/-- Whether statements ended in one of the ways that there are where all values are numbers. -/
def Finish.OfNumbers (finish : Finish) : Prop :=
  ∀ error, finish = .failed error → error.cause.OfNumbers

section

variable {chip left : Chip} {finish : Finish}

/-- An expression that a statement without texts holds is evaluated to a number. -/
theorem Stmt.Textless.evaluate {s : Stmt} (textless : s.Textless) {e : Expr} (holds : e ∈ s.own)
    (numeric : chip.Numeric) {result : Except EvalError Value}
    (evaluated : evaluate .default e chip = (result, left)) :
    Outcome.Numeric (result, left) := by
  have outcome := Evaluate.expression_numeric (textless.texts e holds) Grammar.nestingLimit numeric
  rwa [← YololChip.evaluate, evaluated] at outcome

theorem AssignOperator.numeric_stored (op : AssignOperator) {current value : Value}
    (isCurrent : current.IsNumber) (isNumber : value.IsNumber) :
    Behaviour.Numeric (op.stored .default current value) := by
  unfold stored
  cases op.binary? with
  | none => exact isNumber
  | some binary => exact Behaviour.numeric_binary binary isCurrent isNumber

/-- A statement without texts leaves a chip that holds numbers only as one. That holds also if
it fails. -/
theorem Stmt.Does.numeric {s : Stmt} (does : s.Does .default chip finish left)
    (textless : s.Textless) (numeric : chip.Numeric) : left.Numeric ∧ finish.OfNumbers := by
  have noFault {ended : Finish} (fine : ∀ error, ended ≠ .failed error) : ended.OfNumbers :=
    fun error failed => absurd failed (fine error)
  have failed {error : EvalError} (ofNumbers : error.cause.OfNumbers) :
      (Finish.failed error).OfNumbers := by
    intro other same
    exact Finish.failed.inj same ▸ ofNumbers
  cases does with
  | comment => exact ⟨numeric, noFault (by simp)⟩
  | unevaluated first refused =>
    have outcome := textless.evaluate (mem_own_of_evaluated first) numeric refused
    exact ⟨outcome.chip, failed (outcome.cause _ rfl)⟩
  | expression _ evaluated =>
    have outcome := textless.evaluate List.mem_cons_self numeric evaluated
    exact ⟨outcome.chip, noFault (by simp)⟩
  | @assign _ _ target op _ _ _ _ _ evaluated stored =>
    have outcome := textless.evaluate (List.mem_cons_of_mem _ List.mem_cons_self) numeric evaluated
    have result := op.numeric_stored (outcome.chip.read target) (outcome.value _ rfl)
    rw [stored] at result
    exact ⟨outcome.chip.write target result, noFault (by simp)⟩
  | @assignRefused _ _ target op _ _ _ _ _ evaluated refused =>
    have outcome := textless.evaluate (List.mem_cons_of_mem _ List.mem_cons_self) numeric evaluated
    have result := op.numeric_stored (outcome.chip.read target) (outcome.value _ rfl)
    rw [refused] at result
    exact ⟨outcome.chip, failed result⟩
  | assignElsewhere _ _ _ _ elsewhere =>
    obtain ⟨place, v, isVariable⟩ := textless.target _ _ _ _ rfl
    exact absurd isVariable (elsewhere place v)
  | jump _ evaluated =>
    have outcome := textless.evaluate List.mem_cons_self numeric evaluated
    exact ⟨outcome.chip.congr rfl rfl, noFault (by simp)⟩
  | jumpToText _ evaluated =>
    have outcome := textless.evaluate List.mem_cons_self numeric evaluated
    obtain ⟨a, isText⟩ := outcome.value _ rfl
    contradiction

/-- Statements without texts leave a chip that holds numbers only as one.

Proof: induction over the rules. What a statement leaves, the next one starts from. -/
theorem Executes.numeric {block : List Stmt} {told : List Notice}
    (executes : Executes .default block chip told finish left)
    (textless : Stmt.Throughout Stmt.Textless block) (numeric : chip.Numeric) :
    left.Numeric ∧ finish.OfNumbers := by
  induction executes with
  | nothing chip => exact ⟨numeric, fun error failed => by contradiction⟩
  | next does _ inductionHypothesis =>
    have mid := does.numeric textless.head numeric
    exact inductionHypothesis textless.tail mid.1
  | cut _ does => exact does.numeric textless.head numeric
  | branch _ evaluated _ _ takenHypothesis goesOnHypothesis =>
    have decided := textless.head.evaluate List.mem_cons_self numeric evaluated
    have mid := takenHypothesis (textless.chosen _) decided.chip
    exact goesOnHypothesis textless.tail mid.1
  | branchCut _ _ evaluated _ _ inductionHypothesis =>
    have decided := textless.head.evaluate List.mem_cons_self numeric evaluated
    exact inductionHypothesis (textless.chosen _) decided.chip

end

/-! ### Programs -/

namespace Program

/-- The faults that can be recorded where all values are numbers: that a line could not be read,
and evaluations with one of the causes that there are. A fault of an observer is none of them. -/
def MayRecord (p : Program) : Fault → Prop
  | .source error => ∃ number, p.error? number = some error
  | .eval error => error.cause.OfNumbers
  | _ => False

variable {p : Program}

/-- In a well-formed program without texts, the statements of each line hold no text. -/
theorem WellFormed.textless (formed : p.WellFormed)
    (textFree : ∀ e ∈ p.nodes, e.isText = false) (number : Int) :
    Stmt.Throughout Stmt.Textless (p.line number).statements := by
  intro s member
  rcases p.line_mem_or_blank number with inProgram | blank
  · constructor
    · intro e holds node inExpr
      exact textFree node (mem_nodes.mpr ⟨_, inProgram, s, member, e, holds, inExpr⟩)
    · rintro loc target op value rfl
      exact formed.targets loc target op value (mem_within.mpr ⟨_, inProgram, member⟩)
  · rw [blank] at member
    exact absurd member List.not_mem_nil

end Program

namespace Interpreter

variable {p : Program}

/-- A line leaves the recorded error to whoever records its fault, if observers watch. -/
theorem error_runLine {ω : Type} {i : Interpreter ω} (watching : i.hooks.Watching) (line : Line)
    (m : Machine ω) : (i.runLine line m).2.chip.error = m.chip.error := by
  obtain ⟨told, finish, left, executes⟩ := exists_executes i.operators line.statements m.chip
  obtain ⟨fault?, after, _, runs, rfl, _⟩ := executes.runLine_plain watching
  rw [runs]
  exact executes.cursor.2

/-- A tick that fails records its fault if it can be shown, and otherwise leaves the recorded error
as it was. -/
theorem error_step (verbose : Bool) (file : String) (ops : Operators) {m : Machine Unit}
    {fault : Fault} (fails : (unobserved verbose file ops).TickFails p m fault) :
    ((unobserved verbose file ops).step p m).2.chip.error =
      if fault.isShowable then fault.message else m.chip.error := by
  cases fails with
  | unread unread =>
    rw [step_of_some unread]
    rfl
  | ran readable ended =>
    rw [step_of_none readable, runRecorded_of_some ended, error_recordShowable,
      error_runLine Hooks.watching_none]
    rfl

/-- What ticks of a program without texts keep and record on a chip that holds numbers only. Only a
fault that can be shown is recorded. -/
structure TicksNumeric (i : Interpreter Unit) (p : Program) (before after : Machine Unit) :
    Prop where
  chip : after.chip.Numeric
  fails : ∀ fault, i.TickFails p before fault → p.MayRecord fault ∧
    after.chip.error = if fault.isShowable then fault.message else before.chip.error
  error : (∀ fault, ¬ i.TickFails p before fault) → after.chip.error = before.chip.error

/-- A tick that passes over a line that could not be read records why, and does no more. -/
theorem step_numeric_of_some (verbose : Bool) (file : String) {m : Machine Unit}
    {error : SourceError} (unread : p.error? m.chip.nextLine = some error)
    (numeric : m.chip.Numeric) :
    let i := unobserved verbose file .default
    TicksNumeric i p m (i.step p m).2 := by
  intro i
  constructor
  · rw [step_of_some unread]
    exact numeric.congr rfl rfl
  · intro fault fails
    refine ⟨?_, error_step verbose file .default fails⟩
    obtain rfl := (tickFails_of_some unread).mp fails
    exact ⟨_, unread⟩
  · intro never
    exact absurd ((tickFails_of_some unread).mpr rfl) (never _)

/-- A chip that holds numbers only does so whether or not a fault of a run is recorded on it. -/
theorem numeric_recordShowable {ω : Type} {m : Machine ω} (numeric : m.chip.Numeric)
    (fault : Fault) : (recordShowable fault m).chip.Numeric := by
  unfold recordShowable
  split
  · exact numeric.congr rfl rfl
  · exact numeric

/-- A tick that runs a line without texts leaves a chip that holds numbers only as one. -/
theorem step_numeric_of_none (verbose : Bool) (file : String) {m : Machine Unit}
    (readable : p.error? m.chip.nextLine = none)
    (textless : Stmt.Throughout Stmt.Textless (p.line m.chip.nextLine).statements)
    (numeric : m.chip.Numeric) :
    let i := unobserved verbose file .default
    TicksNumeric i p m (i.step p m).2 := by
  intro i
  obtain ⟨told, finish, left, executes⟩ :=
    exists_executes .default (p.line m.chip.nextLine).statements m.chip.advance
  obtain ⟨leftNumeric, ofNumbers⟩ := executes.numeric textless (numeric.congr rfl rfl)
  obtain ⟨fault?, after, _, runs, rfl, closes⟩ :=
    executes.runLine_plain (i := i) (m := { m with chip := m.chip.advance }) Hooks.watching_none
  have fails_iff (fault : Fault) : i.TickFails p m fault ↔ fault? = some fault := by
    rw [tickFails_of_none readable, runs]
  have steps : (i.step p m).2 = (i.runRecorded (p.line m.chip.nextLine)
      { m with chip := m.chip.advance }).2 := by
    rw [step_of_none readable]
  have recorded (fault : Fault) (fails : i.TickFails p m fault) :=
    error_step verbose file .default fails
  rw [steps] at recorded ⊢
  rw [runRecorded_eq, runs] at recorded ⊢
  cases closes with
  | completed | jumped =>
    constructor
    · exact leftNumeric
    · intro fault fails
      have ended := (fails_iff fault).mp fails
      contradiction
    · intro _
      exact executes.cursor.2
  | failed error log =>
    constructor
    · exact numeric_recordShowable leftNumeric _
    · intro fault fails
      refine ⟨?_, recorded fault fails⟩
      obtain rfl := Option.some.inj ((fails_iff fault).mp fails)
      rw [Program.MayRecord, cause_placed]
      exact ofNumbers error rfl
    · intro never
      exact absurd ((fails_iff _).mpr rfl) (never _)

/-- A tick of a program without texts leaves a chip that holds numbers only as one. -/
theorem step_numeric (formed : p.WellFormed) (textFree : ∀ e ∈ p.nodes, e.isText = false)
    (verbose : Bool) (file : String) {m : Machine Unit} (numeric : m.chip.Numeric) :
    let i := unobserved verbose file .default
    TicksNumeric i p m (i.step p m).2 := by
  cases readable : p.error? m.chip.nextLine with
  | some error => exact step_numeric_of_some verbose file readable numeric
  | none =>
    have textless := formed.textless textFree m.chip.nextLine
    exact step_numeric_of_none verbose file readable textless numeric

/-- A program that was loaded and holds no text leaves a chip that holds numbers only as one,
over every number of ticks. A tick that fails records its fault if it can be shown, and the only
faults are that the line could not be read, a number outside of a domain, a step of what is
no variable, and a nesting that is too deep. All other ticks leave the recorded error as it
is.

Proof: induction over the number of ticks. -/
theorem ticks_numeric (loaded : p.Loaded) (textFree : ∀ e ∈ p.nodes, e.isText = false)
    (verbose : Bool) (file : String) {m : Machine Unit} (numeric : m.chip.Numeric)
    (count : Nat) :
    let i := unobserved verbose file .default
    (i.ticks p count m).2.chip.Numeric ∧
      TicksNumeric i p (i.ticks p count m).2 (i.ticks p (count + 1) m).2 := by
  intro i
  have formed := loaded.portable.wellFormed
  have steps (count : Nat) (sofar : (i.ticks p count m).2.chip.Numeric) :
      TicksNumeric i p (i.ticks p count m).2 (i.ticks p (count + 1) m).2 := by
    rw [ticks_succ_snd]
    exact step_numeric formed textFree verbose file sofar
  induction count with
  | zero => exact ⟨numeric, steps 0 numeric⟩
  | succ count inductionHypothesis =>
    have sofar := inductionHypothesis.2.chip
    exact ⟨sofar, steps (count + 1) sofar⟩

/-- A source without texts. Its first line fails after it stepped a variable, its second one
cannot be read, and its third one has a goto inside of an if statement. -/
def textlessSource : String := "b=a++ c=sqrt(:b-a)\n)\nif b<9 then :b-=b goto b-1 end"

/-- Its program leaves a chip that holds numbers only as one. -/
theorem ticks_numeric_sample :
    ∃ p : Program, Program.parse textlessSource "" = .ok p ∧
      (∀ e ∈ p.nodes, e.isText = false) ∧
      ∀ count, (plain.ticks p count (.start (.fresh "chip") ())).2.chip.Numeric ∧
        TicksNumeric plain p (plain.ticks p count (.start (.fresh "chip") ())).2
          (plain.ticks p (count + 1) (.start (.fresh "chip") ())).2 := by
  obtain ⟨p, parsed, checked⟩ := exists_ok_of_any
    (x := Program.parse textlessSource "") (f := fun p => decide (∀ e ∈ p.nodes, e.isText = false))
    (by decide +kernel)
  have textFree := of_decide_eq_true checked
  have numeric : (Chip.fresh "chip").Numeric := by
    constructor
    · intro entry member
      exact absurd member List.not_mem_nil
    · intro entry member
      exact absurd member List.not_mem_nil
  exact ⟨p, parsed, textFree, fun count =>
    ticks_numeric (.inl ⟨_, _, parsed⟩) textFree false "<line>"
      (m := .start (.fresh "chip") ()) numeric count⟩

end Interpreter

end YololChip
