import YololChip.Proofs.Effects
import YololChip.Proofs.RoundTrip
import YololChip.Proofs.ShowableFaults

/-!
# What a carried program does

A program that comes back from a document differs from the one that was written in its
locations, in comments without text, and in the lines that could not be read, which come
back blank. No chip can tell: locations are no part of the text of a fault, a comment does
nothing, and a line that could not be read does no more than record its error.
-/

namespace YololChip

/-! ### Chips -/

/-- Whether two chips have the same variables and are at the same line; and, if it is asked for,
whether they have the same error. It is not asked for where one of the two passes over a line as
blank that the other one could not read. -/
structure Chip.Alike (exact : Prop) (a b : Chip) : Prop where
  locals : a.locals = b.locals
  fields : a.fields = b.fields
  nextLine : a.nextLine = b.nextLine
  error : exact → a.error = b.error

namespace Chip.Alike

variable {exact : Prop} {a b : Chip}

theorem refl (exact : Prop) (chip : Chip) : chip.Alike exact chip :=
  ⟨rfl, rfl, rfl, fun _ => rfl⟩

theorem symm (alike : a.Alike exact b) : b.Alike exact a :=
  ⟨alike.locals.symm, alike.fields.symm, alike.nextLine.symm,
    fun counts => (alike.error counts).symm⟩

theorem trans {c : Chip} (alike : a.Alike exact b) (goesOn : b.Alike exact c) : a.Alike exact c :=
  ⟨alike.locals.trans goesOn.locals, alike.fields.trans goesOn.fields,
    alike.nextLine.trans goesOn.nextLine,
    fun counts => (alike.error counts).trans (goesOn.error counts)⟩

theorem read (alike : a.Alike exact b) (v : Variable) : a.read v = b.read v := by
  unfold Chip.read Chip.read?
  cases v.scope with
  | chip => rw [bindings, bindings, alike.locals]
  | field => rw [bindings, bindings, alike.fields]

theorem write (alike : a.Alike exact b) (v : Variable) (value : Value) :
    (a.write v value).Alike exact (b.write v value) := by
  unfold Chip.write
  cases v.scope with
  | chip => exact ⟨by simp only [alike.locals], alike.fields, alike.nextLine, alike.error⟩
  | field => exact ⟨alike.locals, by simp only [alike.fields], alike.nextLine, alike.error⟩

theorem goTo (alike : a.Alike exact b) (target : Fixed) :
    (a.goTo target).Alike exact (b.goTo target) :=
  ⟨alike.locals, alike.fields, rfl, alike.error⟩

theorem advance (alike : a.Alike exact b) : a.advance.Alike exact b.advance :=
  ⟨alike.locals, alike.fields, by simp only [Chip.advance, alike.nextLine], alike.error⟩

/-- Chips stay alike when the same error is recorded, or any errors if these do not count. -/
theorem recorded (alike : a.Alike exact b) {first second : String}
    (same : exact → first = second) :
    Chip.Alike exact { a with error := first } { b with error := second } :=
  ⟨alike.locals, alike.fields, alike.nextLine, same⟩

end Chip.Alike

/-- Whether two faults show the same: they have one text, and either both can be shown or
neither can. Their places may differ, and so may the locations inside of the expressions that
they are about, for neither shows. -/
structure EvalError.ShowAlike (first second : EvalError) : Prop where
  text : first.message = second.message
  isShowable : first.cause.isShowable = second.cause.isShowable

/-- Chips stay alike when faults that show the same are noted. If they cannot be shown, neither
chip changes. -/
theorem Chip.Alike.noting {exact : Prop} {a b : Chip} (alike : a.Alike exact b)
    {first second : EvalError} (same : first.ShowAlike second) :
    (a.noting first).Alike exact (b.noting second) := by
  unfold Chip.noting
  rw [same.isShowable]
  split
  · exact alike.recorded fun _ => same.text
  · exact alike

/-- Whether work ends in the same way on two chips and leaves them alike: with the same result,
or with faults that show the same. Results are not compared loosely: a value is the same value
on both sides. -/
inductive Ended.Alike (exact : Prop) {α : Type} : Ended α → Ended α → Prop where
  | done {a b : Chip} (result : α) (alike : a.Alike exact b) :
    Alike exact (.ok result, a) (.ok result, b)
  | failed {a b : Chip} {first second : EvalError} (same : first.ShowAlike second)
      (alike : a.Alike exact b) : Alike exact (.error first, a) (.error second, b)

/-- What goes on in the same way on chips that are alike ends in the same way. -/
theorem Ended.Alike.andThen {exact : Prop} {α β : Type} {first second : Ended α}
    (ends : Ended.Alike exact first second) {next other : α → Chip → Ended β}
    (goesOn : ∀ result {a b : Chip}, a.Alike exact b →
      Ended.Alike exact (next result a) (other result b)) :
    Ended.Alike exact (Ended.andThen first next) (Ended.andThen second other) := by
  cases ends with
  | done result alike => exact goesOn result alike
  | failed same alike => exact .failed same alike

/-! ### Expressions -/

@[simp] theorem Expr.display_bare (e : Expr) : e.bare.display = e.display := by
  induction e with
  | number | text | var => rfl
  | group _ inner inductionHypothesis =>
    change "Group(expression=" ++ inner.bare.display ++ ")" = _
    rw [inductionHypothesis]
    rfl
  | binary _ op left right leftHypothesis rightHypothesis =>
    change "BinaryOp(operator=" ++ op.display ++ ", left=" ++ left.bare.display ++ ", right=" ++
      right.bare.display ++ ")" = _
    rw [leftHypothesis, rightHypothesis]
    rfl
  | unary _ op operand inductionHypothesis =>
    change "UnaryOp(operator=" ++ op.display ++ ", operand=" ++ operand.bare.display ++ ")" = _
    rw [inductionHypothesis]
    rfl

/-- What the fault of a step shows is neither its own location nor any of those in the operand. -/
theorem EvalError.showAlike_stepOnExpression_bare (op : UnaryOperator) (operand : Expr)
    (first second : Option Location) :
    EvalError.ShowAlike ⟨.stepOnExpression op operand, first, none⟩
      ⟨.stepOnExpression op operand.bare, second, none⟩ := by
  constructor
  · change EvalKind.operator.text ++ ": " ++
      EvalCause.unaryDetail op.symbol operand.display "operand must be a variable" =
        EvalKind.operator.text ++ ": " ++
          EvalCause.unaryDetail op.symbol operand.bare.display "operand must be a variable"
    rw [Expr.display_bare]
  · change decide _ = decide _
    rw [Expr.depth_bare]

variable {exact : Prop}

/-- The result of an operator is the same at every location. -/
theorem Evaluate.at_alike (first second : Option Location) (result : Except EvalCause Value)
    {a b : Chip} (alike : a.Alike exact b) :
    Ended.Alike exact (Evaluate.at? first result a) (Evaluate.at? second result b) := by
  cases result with
  | ok value => exact .done value alike
  | error cause => exact .failed ⟨rfl, rfl⟩ alike

/-- A variable is stepped in the same way at every location. -/
theorem Evaluate.stepVariable_alike (first second : Option Location) (op : UnaryOperator)
    (target : Variable) {a b : Chip} (alike : a.Alike exact b) :
    Ended.Alike exact (Evaluate.stepVariable first op target a)
      (Evaluate.stepVariable second op target b) := by
  unfold Evaluate.stepVariable
  rw [alike.read target]
  cases Behaviour.step op (b.read target) with
  | error cause => exact .failed ⟨rfl, rfl⟩ alike
  | ok value => exact .done _ (alike.write target value)

/-- A step without its locations is evaluated as with them: a variable is stepped, and anything
else is refused in the same words. -/
theorem Evaluate.expression_step_alike (ops : Operators) (depth : Nat) (loc : Option Location)
    {op : UnaryOperator} (isStep : op.isStep = true) (operand : Expr) {a b : Chip}
    (alike : a.Alike exact b) :
    Ended.Alike exact (Evaluate.expression ops (depth + 1) (.unary loc op operand) a)
      (Evaluate.expression ops (depth + 1) (.unary none op operand.bare) b) := by
  by_cases isVariable : ∃ place target, operand = .var place target
  · obtain ⟨place, target, rfl⟩ := isVariable
    rw [Expr.bare, expression_step _ _ _ _ isStep, expression_step _ _ _ _ isStep]
    exact stepVariable_alike loc none op target alike
  · have other : ∀ place target, operand ≠ .var place target :=
      fun place target shape => isVariable ⟨place, target, shape⟩
    have otherBare : ∀ place target, operand.bare ≠ .var place target := by
      intro place target shape
      cases operand with
      | var place target => exact other place target rfl
      | _ => contradiction
    rw [expression_step_other _ _ _ isStep other, expression_step_other _ _ _ isStep otherBare]
    exact .failed (EvalError.showAlike_stepOnExpression_bare op operand loc none) alike

/-- An expression without its locations is evaluated as with them.

Proof: induction over the depth. Each operand leaves chips that are alike, so the next one
starts from such chips. -/
theorem Evaluate.expression_alike (ops : Operators) (e : Expr) (depth : Nat) {a b : Chip}
    (alike : a.Alike exact b) :
    Ended.Alike exact (Evaluate.expression ops depth e a)
      (Evaluate.expression ops depth e.bare b) := by
  induction depth generalizing e a b with
  | zero =>
    rw [expression, expression]
    exact .failed ⟨rfl, rfl⟩ alike
  | succ depth inductionHypothesis =>
    cases e with
    | number _ value => exact .done _ alike
    | text _ value => exact .done _ alike
    | var _ target =>
      rw [Expr.bare, expression, expression, alike.read target]
      exact .done _ alike
    | group _ inner => exact inductionHypothesis inner alike
    | binary loc op left right =>
      rw [Expr.bare, expression_binary, expression_binary]
      apply (inductionHypothesis left alike).andThen
      intro first a b alike
      apply (inductionHypothesis right alike).andThen
      intro second a b alike
      exact at_alike loc none _ alike
    | unary loc op operand =>
      cases isStep : op.isStep with
      | true => exact expression_step_alike ops depth loc isStep operand alike
      | false =>
        rw [Expr.bare, expression_unary _ _ _ isStep, expression_unary _ _ _ isStep]
        apply (inductionHypothesis operand alike).andThen
        intro value a b alike
        exact at_alike loc none _ alike

/-- An expression is evaluated without its locations as with them. The two faults may name
different places, and show the same. -/
theorem evaluate_alike (ops : Operators) (e : Expr) {a b : Chip} (alike : a.Alike exact b) :
    Ended.Alike exact (evaluate ops e a) (evaluate ops e.bare b) :=
  Evaluate.expression_alike ops e Grammar.nestingLimit alike

/-! ### Statements -/

namespace Effect

theorem store_alike (ops : Operators) (first second : Option Location) (target : Variable)
    (op : AssignOperator) (value : Value) {a b : Chip} (alike : a.Alike exact b) :
    Ended.Alike exact (store ops first target op value a) (store ops second target op value b) := by
  unfold store
  cases op.binary? with
  | none => exact .done none (alike.write target value)
  | some binary =>
    simp only [alike.read target]
    cases ops.applyBinary binary (b.read target) value with
    | error cause => exact .failed ⟨rfl, rfl⟩ alike
    | ok value => exact .done none (alike.write target value)

theorem jump_alike (first second : Option Location) (value : Value) {a b : Chip}
    (alike : a.Alike exact b) :
    Ended.Alike exact (jump first value a) (jump second value b) := by
  cases value with
  | num target => exact .done _ (alike.goTo target)
  | str s => exact .failed ⟨rfl, rfl⟩ alike

mutual

/-- A statement does without its locations what it does with them. -/
theorem ofStatement_alike (ops : Operators) (s : Stmt) {a b : Chip} (alike : a.Alike exact b) :
    Ended.Alike exact (ofStatement ops s a) (ofStatement ops s.bare b) := by
  match s with
  | .comment _ _ => exact .done none alike
  | .expression _ value =>
    exact (evaluate_alike ops value alike).andThen fun _ _ _ alike => .done none alike
  | .assign loc target op value =>
    cases target with
    | var _ target =>
      exact (evaluate_alike ops value alike).andThen (store_alike ops loc none target op)
    | _ => exact .failed ⟨rfl, rfl⟩ alike
  | .jump loc target => exact (evaluate_alike ops target alike).andThen (jump_alike loc none)
  | .branch _ condition body otherwise =>
    rw [Stmt.bare, ofStatement, ofStatement]
    apply (evaluate_alike ops condition alike).andThen
    intro value a b alike
    by_cases isFalse : value.isFalse = true
    · rw [if_pos isFalse, if_pos isFalse]
      match otherwise with
      | none => exact .done none alike
      | some block => exact ofBlock_alike ops block alike
    · rw [if_neg isFalse, if_neg isFalse]
      exact ofBlock_alike ops body alike

/-- A block does without its locations what it does with them. -/
theorem ofBlock_alike (ops : Operators) (block : List Stmt) {a b : Chip} (alike : a.Alike exact b) :
    Ended.Alike exact (ofBlock ops block a) (ofBlock ops (Stmt.bareAll block) b) := by
  match block with
  | [] => exact .done none alike
  | s :: rest =>
    have ends := ofStatement_alike ops s alike
    rw [Stmt.bareAll, ofBlock, ofBlock]
    generalize ofStatement ops s a = first at ends ⊢
    generalize ofStatement ops s.bare b = second at ends ⊢
    obtain ⟨_ | target, alike⟩ | ⟨same, alike⟩ := ends
    · exact ofBlock_alike ops rest alike
    · exact .done (some target) alike
    · exact .failed same alike

end

theorem ofBlock_filter (ops : Operators) (block : List Stmt) (chip : Chip) :
    ofBlock ops (block.filter (!·.isEmptyComment)) chip = ofBlock ops block chip := by
  induction block generalizing chip with
  | nil => rfl
  | cons s rest inductionHypothesis =>
    cases empty : s.isEmptyComment with
    | true =>
      rw [List.filter_cons_of_neg (by simp [empty]), inductionHypothesis]
      cases s with
      | comment => rfl
      | _ => contradiction
    | false =>
      rw [List.filter_cons_of_pos (by simp [empty]), ofBlock, ofBlock]
      rcases ofStatement ops s chip with ⟨_ | _ | target, left⟩
      · rfl
      · exact inductionHypothesis left
      · rfl

end Effect

/-! ### Programs -/

theorem Ended.Alike.answer {exact : Prop} {first second : Effect}
    (ends : Ended.Alike exact first second) : Effect.answer first.1 = Effect.answer second.1 := by
  cases ends with
  | done => rfl
  | failed same => simp only [Effect.answer, same.isShowable]

namespace Line

/-- A line does to a chip without its locations what it does with them. The recorded error names
no location, so it is the same too. -/
theorem effect_bare (ops : Operators) (line : Line) {a b : Chip} (alike : a.Alike exact b) :
    (line.effect ops a).Alike exact (line.bare.effect ops b) := by
  have ends := Effect.ofBlock_alike ops line.statements alike
  unfold effect bare
  generalize Effect.ofBlock ops line.statements a = first at ends ⊢
  generalize Effect.ofBlock ops (Stmt.bareAll _) b = second at ends ⊢
  cases ends with
  | done _ alike => exact alike
  | failed same alike => exact alike.noting same

/-- A line answers without its locations what it answers with them. -/
theorem answer_bare (ops : Operators) (line : Line) {a b : Chip} (alike : a.Alike exact b) :
    line.answer ops a = line.bare.answer ops b :=
  (Effect.ofBlock_alike ops line.statements alike).answer

theorem effect_alike (ops : Operators) (line : Line) {a b : Chip} (alike : a.Alike exact b) :
    (line.effect ops a).Alike exact (line.carried.effect ops b) := by
  have same : line.withoutEmptyComments.effect ops a = line.effect ops a := by
    rw [effect, effect, withoutEmptyComments, Effect.ofBlock_filter]
  rw [← same]
  exact effect_bare ops line.withoutEmptyComments alike

theorem answer_alike (ops : Operators) (line : Line) {a b : Chip} (alike : a.Alike exact b) :
    line.answer ops a = line.carried.answer ops b := by
  have same : line.withoutEmptyComments.answer ops a = line.answer ops a := by
    rw [answer, answer, withoutEmptyComments, Effect.ofBlock_filter]
  rw [← same]
  exact answer_bare ops line.withoutEmptyComments alike

end Line

namespace Program

/-- The lines of a carried program are what is carried of the lines. -/
theorem line_carried (p : Program) (number : Int) :
    p.carried.line number = (p.line number).carried := by
  unfold line carried
  simp only [List.getElem?_map]
  split
  · cases p.lines[number.toNat - 1]? with
    | none => rfl
    | some line => rfl
  · rfl

theorem blank_of_error {text file : String} {p : Program} (read : parse text file = .ok p)
    {number : Int} {error : SourceError} (found : p.error? number = some error) :
    (p.line number).statements = [] := by
  obtain ⟨entry, first, rfl⟩ := Option.map_eq_some_iff.mp found
  obtain ⟨index, _, line, _, atIndex, place, blank, _⟩ :=
    (keptFrom_of_parse read).2.refused_of_mem (List.mem_of_find?_eq_some first)
  have same : entry.1 = number := by simpa using List.find?_some first
  have inside : 1 ≤ number := by omega
  have toIndex : number.toNat - 1 = index := by omega
  rw [Program.line, if_pos inside, toIndex, atIndex, Option.getD_some, blank]

/-- A tick of a program does to a chip what a tick of the carried program does.

Proof: the line of the carried program is what is carried of the line, and a line that could
not be read is blank, so nothing but the error is recorded. -/
theorem tick_alike (ops : Operators) {p : Program}
    (blank : ∀ {number error}, p.error? number = some error → (p.line number).statements = [])
    (exactly : exact → p.errors = []) {a b : Chip} (alike : a.Alike exact b) :
    (p.tick ops a).Alike exact (p.carried.tick ops b) := by
  have noError (number : Int) : p.carried.error? number = none := rfl
  rw [tick, tick, noError, line_carried, alike.nextLine]
  cases found : p.error? b.nextLine with
  | none => exact Line.effect_alike ops _ alike.advance
  | some error =>
    have nothing : (p.line b.nextLine).carried.effect ops b.advance = b.advance := by
      unfold Line.effect Line.carried Line.withoutEmptyComments Line.bare
      rw [blank found]
      rfl
    rw [nothing]
    obtain ⟨locals, fields, nextLine, _⟩ := alike.advance
    constructor
    · exact locals
    · exact fields
    · exact nextLine
    · intro isExact
      rw [error?, exactly isExact] at found
      contradiction

/-- A tick of a program answers what a tick of the carried program answers. A line that could not be
read is blank, and a blank line answers as well. -/
theorem answer_alike (ops : Operators) {p : Program}
    (blank : ∀ {number error}, p.error? number = some error → (p.line number).statements = [])
    {a b : Chip} (alike : a.Alike exact b) : p.answer ops a = p.carried.answer ops b := by
  have noError (number : Int) : p.carried.error? number = none := rfl
  rw [answer, answer, noError, line_carried, alike.nextLine]
  cases found : p.error? b.nextLine with
  | none =>
    simp only
    rw [Line.answer_alike ops _ alike.advance]
  | some error =>
    have answers : (p.line b.nextLine).carried.answer ops b.advance = .ok true := by
      unfold Line.answer Line.carried Line.withoutEmptyComments Line.bare
      rw [blank found]
      rfl
    simp only [answers]
    rfl

end Program

/-- Ticks of a program and of the carried program return the same, and leave chips alike.

Proof: induction over the number of ticks. Each one starts from chips that are alike. -/
theorem Interpreter.ticks_alike {i j : Interpreter Unit} (watching : i.hooks.Watching)
    (watchingToo : j.hooks.Watching) (sameOperators : j.operators = i.operators) {p : Program}
    (blank : ∀ {number error}, p.error? number = some error → (p.line number).statements = [])
    (exactly : exact → p.errors = []) (count : Nat) {m n : Machine Unit}
    (alike : m.chip.Alike exact n.chip) :
    (i.ticks p count m).1 = (j.ticks p.carried count n).1 ∧
      (i.ticks p count m).2.chip.Alike exact (j.ticks p.carried count n).2.chip := by
  induction count generalizing m n with
  | zero => exact ⟨rfl, alike⟩
  | succ count inductionHypothesis =>
    obtain ⟨after, here, chip⟩ := step_of_watching watching p m
    obtain ⟨afterToo, there, chipToo⟩ := step_of_watching watchingToo p.carried n
    have answers : p.answer i.operators m.chip = p.carried.answer j.operators n.chip := by
      rw [sameOperators]
      exact Program.answer_alike _ blank alike
    have alikeAfter : after.chip.Alike exact afterToo.chip := by
      rw [chip, chipToo, sameOperators]
      exact Program.tick_alike _ blank exactly alike
    obtain ⟨results, alikeLast⟩ := inductionHypothesis alikeAfter
    simp only [ticks, here, there]
    exact ⟨by rw [answers, results], alikeLast⟩

/-- Ticks of a program from source return numbers of lines.

Proof: induction over the number of ticks. -/
theorem Interpreter.exists_numbers {i : Interpreter Unit} (watching : i.hooks.Watching)
    (shows : i.operators.Showable) {text file : String} {p : Program}
    (parsed : Program.parse text file = .ok p) (count : Nat) (m : Machine Unit) :
    ∃ numbers : List Int, (i.ticks p count m).1 = numbers.map .ok := by
  induction count generalizing m with
  | zero => exact ⟨[], rfl⟩
  | succ count inductionHypothesis =>
    obtain ⟨after, here, -⟩ := step_of_watching watching p m
    obtain ⟨numbers, results⟩ := inductionHypothesis after
    refine ⟨m.chip.nextLine :: numbers, ?_⟩
    simp only [ticks, here, Program.answer_of_parse parsed shows, results, List.map_cons]

/-- A program from source runs as the program that its document is read as: from every chip
and for every number of ticks, both return the same, and leave chips with the same variables
that are at the same line; and with the same error, if every line of the source could be
read. What they return are numbers of lines, unless a table of operators is used that is not
the default one and refuses by a cause that cannot be shown. -/
theorem Cylon.ticks_of_read_write {text file : String} {p : Program}
    (parsed : Program.parse text file = .ok p) (fits : Fits p) (indent : Option Int) :
    ∃ document back, write p indent = .ok document ∧ read document = .ok back ∧
      ∀ (ops : Operators) (verbose verboseToo : Bool) (name nameToo : String) (chip : Chip)
          (count : Nat),
        let run := (Interpreter.unobserved verbose name ops).ticks p count (.start chip ())
        let runToo :=
          (Interpreter.unobserved verboseToo nameToo ops).ticks back count (.start chip ())
        run.1 = runToo.1 ∧
          (ops.Showable →
            ∃ numbers : List Int, run.1 = numbers.map .ok ∧ runToo.1 = numbers.map .ok) ∧
          run.2.chip.Alike (p.errors = []) runToo.2.chip := by
  obtain ⟨document, written, readBack, _⟩ :=
    exists_write (Program.portable_of_parse parsed) fits indent
  refine ⟨document, p.carried, written, readBack, ?_⟩
  intro ops verbose verboseToo name nameToo chip count run runToo
  have start : (Machine.start chip ()).chip.Alike (p.errors = []) (Machine.start chip ()).chip :=
    Chip.Alike.refl _ chip
  obtain ⟨same, alike⟩ : run.1 = runToo.1 ∧ run.2.chip.Alike (p.errors = []) runToo.2.chip :=
    Interpreter.ticks_alike (i := .unobserved verbose name ops)
      (j := .unobserved verboseToo nameToo ops) Hooks.watching_none Hooks.watching_none rfl
      (Program.blank_of_error parsed) id count start
  refine ⟨same, ?_, alike⟩
  intro shows
  obtain ⟨numbers, results⟩ := Interpreter.exists_numbers
    (i := .unobserved verbose name ops) Hooks.watching_none shows parsed count (.start chip ())
  exact ⟨numbers, results, same ▸ results⟩

/-- The sample runs as the program that its document is read as, and both return numbers of
lines. -/
theorem Cylon.ticks_of_read_write_sample :
    ∃ p, Program.parse sampleSource "" = .ok p ∧ Fits p ∧
      ∃ document back, write p none = .ok document ∧ read document = .ok back ∧
        ∀ (verbose verboseToo : Bool) (name nameToo : String) (chip : Chip) (count : Nat),
          let run := (Interpreter.unobserved verbose name .default).ticks p count (.start chip ())
          let runToo :=
            (Interpreter.unobserved verboseToo nameToo .default).ticks back count (.start chip ())
          (∃ numbers : List Int, run.1 = numbers.map .ok ∧ runToo.1 = numbers.map .ok) ∧
            run.2.chip.Alike (p.errors = []) runToo.2.chip := by
  obtain ⟨p, parsed, fits⟩ := exists_parse_sample
  obtain ⟨document, back, written, readBack, runs⟩ := ticks_of_read_write parsed fits none
  refine ⟨p, parsed, fits, document, back, written, readBack, ?_⟩
  intro verbose verboseToo name nameToo chip count
  obtain ⟨-, numbers, alike⟩ := runs .default verbose verboseToo name nameToo chip count
  exact ⟨numbers Operators.showable_default, alike⟩

end YololChip
