import YololChip.Run.Interpreter

/-!
# What lines do to a chip

Observers that only watch change nothing that a run does: they report no fault, and leave
the chip as it is. What a line does then is a function of the chip alone, and neither the log
nor the observers have a part in it. A statement ends normally, with the line that
a goto went to, or with a fault, and the chip is left as it was by then.
-/

namespace YololChip

/-- How work on a chip ends and the chip that it leaves: with a result, or with a fault. The
chip is there in both cases, because what was done before a fault stays done. -/
abbrev Ended (α : Type) : Type := Except EvalError α × Chip

/-- What goes on with a result, if there is one. A fault is handed on with the chip that it
left. -/
def Ended.andThen {α β : Type} (ended : Ended α) (next : α → Chip → Ended β) : Ended β :=
  match ended with
  | (.error error, chip) => (.error error, chip)
  | (.ok result, chip) => next result chip

/-- Work whose second part has a result has one in its first part, with which the second goes on. -/
theorem Ended.andThen_eq_ok {α β : Type} {ended : Ended α} {next : α → Chip → Ended β} {b : β}
    {after : Chip} (done : Ended.andThen ended next = (.ok b, after)) :
    ∃ a mid, ended = (.ok a, mid) ∧ next a mid = (.ok b, after) := by
  rcases ended with ⟨error | a, mid⟩
  · exact absurd (congrArg Prod.fst done) (by simp [Ended.andThen])
  · exact ⟨a, mid, rfl, done⟩

/-- Work that fails does so in its first part, or in the second part that goes on with the result
of the first. -/
theorem Ended.andThen_eq_error {α β : Type} {ended : Ended α} {next : α → Chip → Ended β}
    {error : EvalError} {after : Chip} (failed : Ended.andThen ended next = (.error error, after)) :
    ended = (.error error, after) ∨
      ∃ a mid, ended = (.ok a, mid) ∧ next a mid = (.error error, after) := by
  rcases ended with ⟨first | a, mid⟩
  · obtain ⟨same, rfl⟩ := Prod.mk.inj failed
    rw [Except.error.inj same]
    exact .inl rfl
  · exact .inr ⟨a, mid, rfl, failed⟩

/-- What is listed of what goes on with a result, if there is one. Behind a fault nothing is
listed. -/
def Ended.listThen {α β : Type} (ended : Ended α) (next : α → Chip → List β) : List β :=
  match ended with
  | (.error _, _) => []
  | (.ok result, chip) => next result chip

/-- How statements end: with the line that a goto went to, if one was taken, or with a fault. It
is what is left of a run without its log, its observers and its notices. -/
abbrev Effect : Type := Ended (Option Int)

namespace Effect

/-- What storing a value in a variable does. A compound assignment reads the variable now, and
gives a refusal the location of the assignment. -/
def store (ops : Operators) (loc : Option Location) (target : Variable) (op : AssignOperator)
    (value : Value) (chip : Chip) : Effect :=
  match op.binary? with
  | none => (.ok none, chip.write target value)
  | some binary =>
    match ops.applyBinary binary (chip.read target) value with
    | .error cause => (.error ⟨cause, loc, none⟩, chip)
    | .ok value => (.ok none, chip.write target value)

/-- What going to the line that a value names does. A number leads to a line whatever it is, and
a text to none. -/
def jump (loc : Option Location) (value : Value) (chip : Chip) : Effect :=
  match value with
  | .num a => (.ok (some (chip.goTo a).nextLine), chip.goTo a)
  | .str _ => (.error ⟨.jumpToText, loc, none⟩, chip)

mutual

/-- What a statement does. Nothing in it is about observers, so it says what a run comes to that
nobody disturbs. -/
def ofStatement (ops : Operators) (s : Stmt) (chip : Chip) : Effect :=
  match s with
  | .comment _ _ => (.ok none, chip)
  | .expression _ value => Ended.andThen (evaluate ops value chip) fun _ chip => (.ok none, chip)
  | .assign loc (.var _ target) op value =>
    Ended.andThen (evaluate ops value chip) (store ops loc target op)
  | .assign loc _ _ _ => (.error ⟨.targetNotVariable, loc, none⟩, chip)
  | .jump loc target => Ended.andThen (evaluate ops target chip) (jump loc)
  | .branch _ condition body otherwise =>
    Ended.andThen (evaluate ops condition chip) fun value chip =>
      if value.isFalse then
        match otherwise with
        | none => (.ok none, chip)
        | some block => ofBlock ops block chip
      else ofBlock ops body chip

/-- What the statements of a block do in turn, up to the first that does not end normally. A
goto inside of an if statement ends the blocks around it too. -/
def ofBlock (ops : Operators) (block : List Stmt) (chip : Chip) : Effect :=
  match block with
  | [] => (.ok none, chip)
  | s :: rest =>
    match ofStatement ops s chip with
    | (.ok none, chip) => ofBlock ops rest chip
    | ended => ended

end

/-- Behind a statement the others follow, unless it took a goto. A fault ends the block in the
same way as a goto. -/
theorem ofBlock_cons (ops : Operators) (s : Stmt) (rest : List Stmt) (chip : Chip) :
    ofBlock ops (s :: rest) chip = Ended.andThen (ofStatement ops s chip) fun jumped mid =>
      match jumped with
      | none => ofBlock ops rest mid
      | some line => (.ok (some line), mid) := by
  rw [ofBlock]
  rcases ofStatement ops s chip with ⟨error | _ | line, mid⟩ <;> rfl

end Effect

/-- The chip with the fault of an evaluation recorded. It keeps the error that it had if the fault
cannot be shown. -/
def Chip.noting (error : EvalError) (chip : Chip) : Chip :=
  if error.cause.isShowable then { chip with error := error.message } else chip

/-- The chip after a line, with the fault recorded that ended it, if one did. The line that it
is at has been moved on before, so a line without a goto leaves it. -/
def Line.effect (ops : Operators) (line : Line) (chip : Chip) : Chip :=
  match Effect.ofBlock ops line.statements chip with
  | (.ok _, chip) => chip
  | (.error error, chip) => chip.noting error

/-- What a line that ends so answers: whether it ran to its end, unless its fault cannot be
shown. -/
def Effect.answer : Except EvalError (Option Int) → Except Raised Bool
  | .ok _ => .ok true
  | .error error => if error.cause.isShowable then .ok false else .error .unshowable

/-- What a line answers: whether it ran to its end, or that its fault cannot be shown. -/
def Line.answer (ops : Operators) (line : Line) (chip : Chip) : Except Raised Bool :=
  Effect.answer (Effect.ofBlock ops line.statements chip).1

/-- The chip after a tick of a program. It is moved on first, so that a goto has the last word;
a line that could not be read leaves its error and nothing else. -/
def Program.tick (ops : Operators) (p : Program) (chip : Chip) : Chip :=
  match p.error? chip.nextLine with
  | some error => { chip.advance with error := error.message }
  | none => (p.line chip.nextLine).effect ops chip.advance

/-- What a tick of a program answers: the number of the line that the chip is at, unless the fault
of that line cannot be shown. -/
def Program.answer (ops : Operators) (p : Program) (chip : Chip) : Except Raised Int :=
  match p.error? chip.nextLine with
  | some _ => .ok chip.nextLine
  | none => ((p.line chip.nextLine).answer ops chip.advance).map fun _ => chip.nextLine

namespace Evaluate

/-- An operator between two operands works on their values, the left one first. No operator
leaves its right operand out, not even one between truth values. -/
theorem expression_binary (ops : Operators) (depth : Nat) (loc : Option Location)
    (op : BinaryOperator) (left right : Expr) (chip : Chip) :
    expression ops (depth + 1) (.binary loc op left right) chip =
      Ended.andThen (expression ops depth left chip) fun a chip =>
        Ended.andThen (expression ops depth right chip) fun b chip =>
          at? loc (ops.applyBinary op a b) chip := by
  rw [expression]
  rcases expression ops depth left chip with ⟨error | a, chip⟩
  · rfl
  · simp only [Ended.andThen]
    rcases expression ops depth right chip with ⟨error | b, chip⟩
    · rfl
    · rfl

/-- An operator on one operand that is no step works on its value. -/
theorem expression_unary (ops : Operators) (depth : Nat) (loc : Option Location)
    {op : UnaryOperator} (noStep : op.isStep = false) (operand : Expr) (chip : Chip) :
    expression ops (depth + 1) (.unary loc op operand) chip =
      Ended.andThen (expression ops depth operand chip) fun a chip =>
        at? loc (ops.applyUnary op a) chip := by
  rw [expression.eq_def]
  simp only [noStep, Bool.false_eq_true, if_false]
  rcases expression ops depth operand chip with ⟨error | a, chip⟩
  · rfl
  · rfl

theorem expression_step (ops : Operators) (depth : Nat) (loc place : Option Location)
    {op : UnaryOperator} (isStep : op.isStep = true) (target : Variable) (chip : Chip) :
    expression ops (depth + 1) (.unary loc op (.var place target)) chip =
      stepVariable loc op target chip := by
  rw [expression, if_pos isStep]

theorem expression_step_other (ops : Operators) (depth : Nat) (loc : Option Location)
    {op : UnaryOperator} (isStep : op.isStep = true) {operand : Expr}
    (other : ∀ place target, operand ≠ .var place target) (chip : Chip) :
    expression ops (depth + 1) (.unary loc op operand) chip =
      (.error ⟨.stepOnExpression op operand, loc, none⟩, chip) := by
  rw [expression.eq_def]
  simp only [isStep, if_true]

end Evaluate

/-! ### Watching -/

namespace Hooks

variable {ω : Type}

/-- Whether observers only watch: they report nothing and leave the chip as it is,
whatever they are told. -/
structure Watching (hooks : Hooks ω) : Prop where
  handlers : ∀ event, ∀ handler ∈ hooks.handlers event, ∀ notice m,
    (handler.run notice m).1 = .passed ∧ (handler.run notice m).2.chip = m.chip
  rules : ∀ rule ∈ hooks.rules, ∀ notice m,
    (rule.run notice m).1 = .passed ∧ (rule.run notice m).2.chip = m.chip

theorem watching_none : (none : Hooks ω).Watching := by
  constructor
  · intro event handler member
    exact absurd member List.not_mem_nil
  · intro rule member
    exact absurd member List.not_mem_nil

/-- Handlers that watch are told of a notice, and nothing comes of it. -/
theorem tell_of_watching {handlers : List (Handler ω)}
    (watching : ∀ handler ∈ handlers, ∀ notice m,
      (handler.run notice m).1 = .passed ∧ (handler.run notice m).2.chip = m.chip)
    (notice : Notice) (m : Machine ω) :
    ∃ after, tell notice handlers m = (.none, after) ∧ after.chip = m.chip := by
  induction handlers generalizing m with
  | nil => exact ⟨m, rfl, rfl⟩
  | cons handler rest inductionHypothesis =>
    obtain ⟨passed, same⟩ := watching handler List.mem_cons_self notice m
    obtain ⟨after, told, sameAfter⟩ := inductionHypothesis
      (fun other member => watching other (List.mem_cons_of_mem _ member)) (handler.run notice m).2
    refine ⟨after, ?_, sameAfter.trans same⟩
    rw [tell]
    simp only [passed, faultOf, told]

/-- Rules that watch are told of a step, and nothing comes of it. -/
theorem tellRules_of_watching {rules : List (StepRule ω)}
    (watching : ∀ rule ∈ rules, ∀ notice m,
      (rule.run notice m).1 = .passed ∧ (rule.run notice m).2.chip = m.chip)
    (notice : StepNotice) (m : Machine ω) :
    ∃ after, tellRules notice rules m = (.none, after) ∧ after.chip = m.chip := by
  induction rules generalizing m with
  | nil => exact ⟨m, rfl, rfl⟩
  | cons rule rest inductionHypothesis =>
    have others : ∀ other ∈ rest, ∀ notice m,
        (other.run notice m).1 = .passed ∧ (other.run notice m).2.chip = m.chip :=
      fun other member => watching other (List.mem_cons_of_mem _ member)
    rw [tellRules]
    by_cases due : notice.stepIndex % rule.interval = 0
    · obtain ⟨passed, same⟩ := watching rule List.mem_cons_self notice m
      obtain ⟨after, told, sameAfter⟩ := inductionHypothesis others (rule.run notice m).2
      refine ⟨after, ?_, sameAfter.trans same⟩
      rw [if_pos due]
      simp only [passed, faultOf, told]
    · rw [if_neg due]
      exact inductionHypothesis others m

/-- Observers that watch are told of a notice, and nothing comes of it. The chip is the same,
while the observers may change their own state. -/
theorem Watching.dispatch {hooks : Hooks ω} (watching : hooks.Watching) (notice : Notice)
    (m : Machine ω) :
    ∃ after, hooks.dispatch notice m = (.none, after) ∧ after.chip = m.chip :=
  tell_of_watching (watching.handlers notice.event) notice m

end Hooks

/-! ### Running -/

def Effect.ending : Except EvalError (Option Int) → Ending
  | .ok none => .done
  | .ok (some line) => .jumped line
  | .error error => .failed (.eval error)

/-- Whether a run of statements ends as an effect does, and leaves the chip that it leaves. The
log and the observer of the machine may be any. -/
inductive Effect.Shows {ω : Type} : Effect → Ending × Machine ω → Prop where
  | same (result : Except EvalError (Option Int)) (m : Machine ω) :
    Shows (result, m.chip) (ending result, m)

/-- Whether a run of a line ends as an effect does, and leaves the chip that it leaves. The
fault of the effect is given its place and its step, which the effect by itself knows nothing
of; a goto ends the run of a line without a trace. -/
inductive Effect.Ends {ω : Type} (line : Line) : Effect → Option Fault × Machine ω → Prop where
  | whole (jumped : Option Int) (m : Machine ω) : Ends line (.ok jumped, m.chip) (none, m)
  | failed (error : EvalError) (log : StepLog) (m : Machine ω) :
    Ends line (.error error, m.chip) (some (.eval (Interpreter.placed line log error)), m)

namespace Interpreter

variable {ω : Type} {i : Interpreter ω}

/-- The start of a statement is logged, and nothing comes of it. The log is the only thing that
changes. -/
theorem logStep_of_watching (watching : i.hooks.Watching) (line : Int) (s : Stmt)
    (m : Machine ω) : ∃ after, i.logStep line s m = (none, after) ∧ after.chip = m.chip :=
  Hooks.tellRules_of_watching watching.rules _ _

theorem withValue_shows (e : Expr) (m : Machine ω) {next : Value → Machine ω → Ending × Machine ω}
    {effect : Value → Chip → Effect}
    (shows : ∀ value m, (effect value m.chip).Shows (next value m)) :
    Effect.Shows (Ended.andThen (evaluate i.operators e m.chip) effect) (i.withValue e m next) := by
  unfold withValue Ended.andThen
  rcases evaluate i.operators e m.chip with ⟨error | value, chip⟩
  · exact .same (.error error) { m with chip }
  · exact shows value { m with chip }

theorem store_shows (loc : Option Location) (target : Variable) (op : AssignOperator)
    (value : Value) (m : Machine ω) :
    (Effect.store i.operators loc target op value m.chip).Shows
      (i.store loc target op value m) := by
  unfold store Effect.store
  cases op.binary? with
  | none => exact .same (.ok none) { m with chip := m.chip.write target value }
  | some binary =>
    simp only
    cases i.operators.applyBinary binary (m.chip.read target) value with
    | error cause => exact .same (.error _) m
    | ok value => exact .same (.ok none) { m with chip := m.chip.write target value }

theorem jump_shows (loc : Option Location) (value : Value) (m : Machine ω) :
    (Effect.jump loc value m.chip).Shows (jump loc value m) := by
  cases value with
  | num a => exact .same (.ok (some (m.chip.goTo a).nextLine)) { m with chip := m.chip.goTo a }
  | str s => exact .same (.error _) m

mutual

/-- A statement does what its effect is, if observers watch. -/
theorem runStatement_shows (watching : i.hooks.Watching) (line : Int) (s : Stmt)
    (m : Machine ω) :
    (Effect.ofStatement i.operators s m.chip).Shows (i.runStatement line s m) := by
  obtain ⟨after, logged, same⟩ := logStep_of_watching watching line s m
  rw [← same, runStatement, logged]
  match s with
  | .comment _ _ => exact .same (.ok none) after
  | .expression _ value => exact withValue_shows value after fun _ m => .same (.ok none) m
  | .assign loc target op value =>
    cases target with
    | var _ target => exact withValue_shows value after (store_shows loc target op)
    | _ => exact .same (.error _) after
  | .jump loc target => exact withValue_shows target after (jump_shows loc)
  | .branch _ condition body otherwise =>
    rw [Effect.ofStatement]
    apply withValue_shows condition after
    intro value m
    by_cases isFalse : value.isFalse = true
    · rw [if_pos isFalse, if_pos isFalse]
      match otherwise with
      | none => exact .same (.ok none) m
      | some block => exact runBlock_shows watching line block m
    · rw [if_neg isFalse, if_neg isFalse]
      exact runBlock_shows watching line body m

theorem runBlock_shows (watching : i.hooks.Watching) (line : Int) (block : List Stmt)
    (m : Machine ω) :
    (Effect.ofBlock i.operators block m.chip).Shows (i.runBlock line block m) := by
  match block with
  | [] => exact .same (.ok none) m
  | s :: rest =>
    obtain ⟨started, told, same⟩ := watching.dispatch (.statementStarted s) m
    have shows := runStatement_shows watching line s started
    rw [← same, runBlock, told, Effect.ofBlock]
    simp only
    generalize i.runStatement line s started = run at shows ⊢
    generalize Effect.ofStatement i.operators s started.chip = effect at shows ⊢
    obtain ⟨error | _ | target, left⟩ := shows
    · exact .same (.error error) left
    · obtain ⟨finished, toldAgain, sameAgain⟩ := watching.dispatch (.statementFinished s) left
      simp only [Effect.ending, toldAgain, ← sameAgain]
      exact runBlock_shows watching line rest finished
    · exact .same (.ok (some target)) left

end

/-- The place and the step that a fault is given are no part of its text. So it does not matter
for the recorded error where a fault arose. -/
@[simp] theorem message_placed (line : Line) (log : StepLog) (e : EvalError) :
    (placed line log e).message = e.message := by
  unfold placed
  split
  · split <;> rfl
  · split <;> rfl

@[simp] theorem cause_placed (line : Line) (log : StepLog) (e : EvalError) :
    (placed line log e).cause = e.cause := by
  unfold placed
  split <;> split <;> rfl

theorem runLine_ends (watching : i.hooks.Watching) (line : Line) (m : Machine ω) :
    (Effect.ofBlock i.operators line.statements m.chip).Ends line (i.runLine line m) := by
  obtain ⟨started, told, same⟩ := watching.dispatch (.lineStarted line) m
  have shows := runBlock_shows watching line.number line.statements started
  rw [runLine, told, ← same]
  simp only
  generalize i.runBlock line.number line.statements started = run at shows ⊢
  generalize Effect.ofBlock i.operators line.statements started.chip = effect at shows ⊢
  obtain ⟨error | _ | target, left⟩ := shows
  · obtain ⟨after, toldAgain, sameAgain⟩ :=
      watching.dispatch (.failed (.eval (placed line left.log error))) left
    simp only [Effect.ending, report, toldAgain, ← sameAgain]
    exact .failed error left.log after
  · obtain ⟨after, toldAgain, sameAgain⟩ := watching.dispatch (.lineFinished line) left
    simp only [Effect.ending, toldAgain, ← sameAgain]
    exact .whole none after
  · obtain ⟨jumped, toldJump, sameJump⟩ := watching.dispatch (.jumped target) left
    obtain ⟨after, toldAgain, sameAgain⟩ := watching.dispatch (.lineFinished line) jumped
    simp only [Effect.ending, toldJump, toldAgain, ← sameJump, ← sameAgain]
    exact .whole (some target) after

/-- A line answers what its effect answers and does to the chip what its effect is, if observers
watch. -/
theorem runRecorded_of_watching (watching : i.hooks.Watching) (line : Line) (m : Machine ω) :
    ∃ after, i.runRecorded line m = (line.answer i.operators m.chip, after) ∧
      after.chip = line.effect i.operators m.chip := by
  have ends := runLine_ends watching line m
  rw [runRecorded, Line.effect, Line.answer]
  generalize i.runLine line m = run at ends ⊢
  generalize Effect.ofBlock i.operators line.statements m.chip = effect at ends ⊢
  cases ends with
  | whole jumped after => exact ⟨after, rfl, rfl⟩
  | failed error log after =>
    simp only [Fault.isShowable, cause_placed, Effect.answer, Chip.noting]
    split
    · exact ⟨_, rfl, by simp only [recordError, Fault.message, message_placed]⟩
    · exact ⟨after, rfl, rfl⟩

/-- A line does to the chip what its effect is, if observers watch. -/
theorem runRecorded_chip (watching : i.hooks.Watching) (line : Line) (m : Machine ω) :
    (i.runRecorded line m).2.chip = line.effect i.operators m.chip := by
  obtain ⟨after, runs, left⟩ := runRecorded_of_watching watching line m
  rw [runs, left]

/-- A tick answers what a tick of the program answers, and does to the chip what it does, if
observers watch. -/
theorem step_of_watching (watching : i.hooks.Watching) (p : Program) (m : Machine ω) :
    ∃ after, i.step p m = (p.answer i.operators m.chip, after) ∧
      after.chip = p.tick i.operators m.chip := by
  rw [step, Program.tick, Program.answer]
  simp only
  cases p.error? m.chip.nextLine with
  | some error =>
    obtain ⟨after, told, same⟩ := watching.dispatch (.failed (.source error))
      (recordError (.source error) { m with chip := m.chip.advance })
    simp only [told]
    exact ⟨after, rfl, same⟩
  | none =>
    obtain ⟨after, runs, left⟩ := runRecorded_of_watching watching (p.line m.chip.nextLine)
      { m with chip := m.chip.advance }
    simp only [runs]
    exact ⟨after, rfl, left⟩

/-- Runs ticks of a program. The results are what the ticks return, the first one first. A tick that
raises is followed by the others all the same: who calls for them may go on. -/
def ticks (i : Interpreter ω) (p : Program) :
    (count : Nat) → Machine ω → List (Except Raised Int) × Machine ω
  | 0, m => ([], m)
  | count + 1, m =>
    let (result, m) := i.step p m
    let (results, m) := i.ticks p count m
    (result :: results, m)

theorem length_ticks (i : Interpreter ω) (p : Program) (count : Nat) (m : Machine ω) :
    (i.ticks p count m).1.length = count := by
  induction count generalizing m with
  | zero => rfl
  | succ count inductionHypothesis => exact congrArg (· + 1) (inductionHypothesis _)

/-- The last of several ticks starts from what the others leave. -/
theorem ticks_succ_snd (i : Interpreter ω) (p : Program) (count : Nat)
    (m : Machine ω) : (i.ticks p (count + 1) m).2 = (i.step p (i.ticks p count m).2).2 := by
  induction count generalizing m with
  | zero => rfl
  | succ count inductionHypothesis =>
    rw [ticks]
    simp only
    rw [inductionHypothesis, ticks]

end Interpreter

/-- An interpreter without observers. Nothing can disturb what it runs. -/
def Interpreter.unobserved (verbose : Bool) (file : String) (ops : Operators) : Interpreter Unit :=
  ⟨verbose, file, Hooks.none, ops⟩

end YololChip
