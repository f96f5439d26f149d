import YololChip.Proofs.Attribution
import YololChip.Proofs.VariableSteps

/-!
# Blocks in a row

A block that stands behind another starts from what that one leaves, and only if all of that one is
done: behind a goto or a fault nothing is started. An if statement whose condition has a value goes
on as if the block that it goes on with stood in its place.

Nothing is ever taken back. Statements follow one another from chip to chip, through all if
statements; the one that fails leaves the first of the steps of its own expression, and nothing
more. An assignment that fails stores nothing.
-/

namespace YololChip

/-! ### Going on -/

namespace Effect

/-- The statements that blocks in a row start are those of the first, and then those of the second
if all of the first is done. -/
theorem startsAll_append (ops : Operators) (first second : List Stmt) (chip : Chip) :
    startsAll ops (first ++ second) chip =
      startsAll ops first chip ++ Ended.listThen (ofBlock ops first chip) fun jumped mid =>
        match jumped with
        | none => startsAll ops second mid
        | some _ => [] := by
  induction first generalizing chip with
  | nil => rfl
  | cons s rest inductionHypothesis =>
    rw [List.cons_append, startsAll, startsAll, ofBlock]
    rcases ofStatement ops s chip with ⟨error | _ | target, mid⟩
    · simp only [Ended.listThen, List.append_nil]
    · simp only [Ended.listThen, inductionHypothesis, List.append_assoc]
    · simp only [Ended.listThen, List.append_nil]

end Effect

namespace Interpreter

variable {ω : Type}

/-- Goes on behind a part of a run if all of that part is done. A goto and a fault both end the
run here. -/
def thenRun (part : Ending × Machine ω) (next : Machine ω → Ending × Machine ω) :
    Ending × Machine ω :=
  match part with
  | (.done, m) => next m
  | ended => ended

theorem thenRun_of_ne_done {part : Ending × Machine ω} (cut : part.1 ≠ .done)
    (next : Machine ω → Ending × Machine ω) : thenRun part next = part := by
  obtain ⟨_ | target | fault, m⟩ := part
  · exact absurd rfl cut
  · rfl
  · rfl

/-- What goes on behind the use of a value goes on behind what is done with it. Both end if
there is no value. -/
theorem thenRun_withValue (i : Interpreter ω) (e : Expr) (m : Machine ω)
    (next : Value → Machine ω → Ending × Machine ω) (behind : Machine ω → Ending × Machine ω) :
    thenRun (i.withValue e m next) behind =
      i.withValue e m fun value mid => thenRun (next value mid) behind := by
  unfold withValue
  rcases evaluate i.operators e m.chip with ⟨error | value, chip⟩ <;> rfl

/-- Blocks in a row run one after the other, whoever observes them.

Proof: induction over the first block. -/
theorem runBlock_append (i : Interpreter ω) (line : Int) (first second : List Stmt)
    (m : Machine ω) :
    i.runBlock line (first ++ second) m =
      thenRun (i.runBlock line first m) (i.runBlock line second) := by
  induction first generalizing m with
  | nil => rw [List.nil_append, runBlock.eq_def _ _ []]; rfl
  | cons s rest inductionHypothesis =>
    rw [List.cons_append, runBlock, runBlock]
    rcases i.hooks.dispatch (.statementStarted s) m with ⟨_ | fault, started⟩
    · dsimp only
      rcases i.runStatement line s started with ⟨_ | target | fault, left⟩
      · dsimp only
        rcases i.hooks.dispatch (.statementFinished s) left with ⟨_ | fault, finished⟩
        · exact inductionHypothesis finished
        · rfl
      · rfl
      · rfl
    · rfl

/-- The entries that a line adds to the log. They are there also if the log has room for fewer
and drops the oldest. -/
def added (i : Interpreter ω) (line : Line) (m : Machine ω) : List LogEntry :=
  m.log.made (i.recordings line m.chip)

/-- How a line ends whose statements have ended so, if nobody observes it. A goto is no fault,
and only a fault of evaluation is given its place. -/
def concluded (line : Line) : Ending × Machine Unit → Option Fault × Machine Unit
  | (.done, m) | (.jumped _, m) => (none, m)
  | (.failed (.eval error), m) => (some (.eval (placed line m.log error)), m)
  | (.failed fault, m) => (some fault, m)

/-- How a line ends depends on its place and on how its statements have ended. The log only
gives a fault its step. -/
theorem concluded_eq (loc : Option Location) (statements others : List Stmt) (number : Int)
    (ended : Ending × Machine Unit) :
    concluded ⟨loc, statements, number⟩ ended = concluded ⟨loc, others, number⟩ ended := by
  rcases ended with ⟨_ | target | fault, left⟩
  · rfl
  · rfl
  · cases fault <;> rfl

section

variable (verbose : Bool) (file : String) (ops : Operators)

/-- A line that nobody observes ends as its statements have ended. A goto counts as the end of a
line like any other. -/
theorem runLine_unobserved (line : Line) (m : Machine Unit) :
    (unobserved verbose file ops).runLine line m =
      concluded line ((unobserved verbose file ops).runBlock line.number line.statements m) := by
  rw [runLine, dispatch_unobserved]
  dsimp only
  rcases (unobserved verbose file ops).runBlock line.number line.statements m with
    ⟨_ | target | fault, left⟩
  · rfl
  · rfl
  · cases fault <;> rfl

/-- What a line adds to the log is what it then holds in front of what it held before. -/
theorem newestFirst_runLine (line : Line) (m : Machine Unit) :
    ((unobserved verbose file ops).runLine line m).2.log.window.newestFirst =
      (((unobserved verbose file ops).added line m).reverse ++ m.log.window.newestFirst).take
        m.log.window.limit := by
  rw [log_runLine, StepLog.newestFirst_recordAll]
  rfl

end

/-! ### In a row -/

/-- How a line runs whose statements are those of two blocks. If all of the first block is done, the
line is that of the second, run from what the first one left; and otherwise it is that of the first
alone. It adds the entries to the log that both add, or those of the first. -/
structure RunsInTurn (i : Interpreter Unit) (loc : Option Location) (number : Int)
    (first second : List Stmt) (m : Machine Unit) : Prop where
  done : ∀ mid, i.runBlock number first m = (.done, mid) →
    i.runLine ⟨loc, first, number⟩ m = (none, mid) ∧
    i.runLine ⟨loc, first ++ second, number⟩ m = i.runLine ⟨loc, second, number⟩ mid ∧
    i.added ⟨loc, first ++ second, number⟩ m =
      i.added ⟨loc, first, number⟩ m ++ i.added ⟨loc, second, number⟩ mid
  cut : (i.runBlock number first m).1 ≠ .done →
    i.runLine ⟨loc, first ++ second, number⟩ m = i.runLine ⟨loc, first, number⟩ m ∧
    i.added ⟨loc, first ++ second, number⟩ m = i.added ⟨loc, first, number⟩ m

section

variable (verbose : Bool) (file : String) (ops : Operators)

/-- The entries that a line adds are those of the statements that it starts. -/
theorem added_unobserved (line : Line) (m : Machine Unit) :
    (unobserved verbose file ops).added line m =
      m.log.made ((Effect.startsAll ops line.statements m.chip).map
        ((unobserved verbose file ops).recording line.number)) :=
  rfl

variable {number : Int} {first : List Stmt} {m mid : Machine Unit}

/-- Behind a block that is done the statements of the other start from what it leaves. -/
theorem startsAll_append_of_done
    (done : (unobserved verbose file ops).runBlock number first m = (.done, mid))
    (second : List Stmt) :
    Effect.startsAll ops (first ++ second) m.chip =
      Effect.startsAll ops first m.chip ++ Effect.startsAll ops second mid.chip := by
  have shows : (Effect.ofBlock ops first m.chip).Shows
      ((unobserved verbose file ops).runBlock number first m) :=
    runBlock_shows (i := unobserved verbose file ops) Hooks.watching_none number first m
  rw [done] at shows
  rw [Effect.startsAll_append]
  generalize Effect.ofBlock ops first m.chip = effect at shows ⊢
  generalize ended : (Ending.done, mid) = run at shows
  cases shows with
  | same result after =>
    obtain ⟨isDone, rfl⟩ := Prod.mk.inj ended
    rcases result with error | _ | target
    · contradiction
    · rfl
    · contradiction

theorem startsAll_append_of_cut
    (cut : ((unobserved verbose file ops).runBlock number first m).1 ≠ .done)
    (second : List Stmt) :
    Effect.startsAll ops (first ++ second) m.chip = Effect.startsAll ops first m.chip := by
  have shows : (Effect.ofBlock ops first m.chip).Shows
      ((unobserved verbose file ops).runBlock number first m) :=
    runBlock_shows (i := unobserved verbose file ops) Hooks.watching_none number first m
  rw [Effect.startsAll_append]
  generalize Effect.ofBlock ops first m.chip = effect at shows ⊢
  generalize (unobserved verbose file ops).runBlock number first m = run at shows cut
  rcases shows with ⟨error | _ | target, after⟩
  · exact List.append_nil _
  · exact absurd rfl cut
  · exact List.append_nil _

theorem runsInTurn (loc : Option Location) (number : Int) (first second : List Stmt)
    (m : Machine Unit) :
    (unobserved verbose file ops).RunsInTurn loc number first second m := by
  constructor
  · intro mid done
    have logged := log_runBlock verbose file ops number first m
    rw [done] at logged
    refine ⟨?_, ?_, ?_⟩
    · rw [runLine_unobserved, done]
      rfl
    · rw [runLine_unobserved, runLine_unobserved, runBlock_append, done]
      exact concluded_eq loc _ _ number _
    · rw [added_unobserved, added_unobserved, added_unobserved,
        startsAll_append_of_done verbose file ops done, List.map_append, StepLog.made_append,
        ← logged]
  · intro cut
    constructor
    · rw [runLine_unobserved, runLine_unobserved, runBlock_append, thenRun_of_ne_done cut]
      exact concluded_eq loc _ _ number _
    · rw [added_unobserved, added_unobserved, startsAll_append_of_cut verbose file ops cut]

end

/-! ### If statements -/

/-- The machine after the start of a statement was logged. The chip is as it was. -/
def begun (i : Interpreter ω) (line : Int) (s : Stmt) (m : Machine ω) : Machine ω :=
  { m with log := m.log.record (i.recording line (s, m.chip)) }

/-- How a line runs that begins with an if statement. Once its condition has a value, it is the
line on which the block that it goes on with stands in its place; and if the condition has none, it
fails as the condition does, with what was stepped in it. -/
structure Splices (i : Interpreter Unit) (loc : Option Location) (number : Int)
    (place : Option Location) (condition : Expr) (body : List Stmt)
    (otherwise : Option (List Stmt)) (rest : List Stmt) (m : Machine Unit) : Prop where
  decided : ∀ value chip, evaluate i.operators condition m.chip = (.ok value, chip) →
    i.runLine ⟨loc, .branch place condition body otherwise :: rest, number⟩ m =
      i.runLine ⟨loc, Stmt.chosen value body otherwise ++ rest, number⟩
        { i.begun number (.branch place condition body otherwise) m with chip }
  undecided : ∀ error chip, evaluate i.operators condition m.chip = (.error error, chip) →
    i.runLine ⟨loc, .branch place condition body otherwise :: rest, number⟩ m =
      (some (.eval (placed ⟨loc, .branch place condition body otherwise :: rest, number⟩
          (i.begun number (.branch place condition body otherwise) m).log error)),
        { i.begun number (.branch place condition body otherwise) m with chip })

/-- Choosing a block and running it is running the block that is chosen. -/
theorem runBlock_chosen (i : Interpreter ω) (line : Int) (value : Value) (body : List Stmt)
    (otherwise : Option (List Stmt)) (m : Machine ω) :
    i.runBlock line (Stmt.chosen value body otherwise) m =
      if value.isFalse then
        match otherwise with
        | none => (.done, m)
        | some block => i.runBlock line block m
      else i.runBlock line body m := by
  unfold Stmt.chosen
  by_cases isFalse : value.isFalse = true
  · rw [if_pos isFalse, if_pos isFalse]
    cases otherwise with
    | none => rw [Option.getD_none, runBlock.eq_def _ _ []]
    | some block => rfl
  · rw [if_neg isFalse, if_neg isFalse]

section

variable (verbose : Bool) (file : String) (ops : Operators)

theorem runBlock_cons (line : Int) (s : Stmt) (rest : List Stmt) (m : Machine Unit) :
    (unobserved verbose file ops).runBlock line (s :: rest) m =
      thenRun ((unobserved verbose file ops).runStatement line s m)
        ((unobserved verbose file ops).runBlock line rest) := by
  rw [runBlock, dispatch_unobserved]
  rfl

theorem runStatement_branch (line : Int) (place : Option Location) (condition : Expr)
    (body : List Stmt) (otherwise : Option (List Stmt)) (m : Machine Unit) :
    (unobserved verbose file ops).runStatement line (.branch place condition body otherwise) m =
      (unobserved verbose file ops).withValue condition
        ((unobserved verbose file ops).begun line (.branch place condition body otherwise) m)
        fun value mid =>
          (unobserved verbose file ops).runBlock line (Stmt.chosen value body otherwise) mid := by
  simp only [runBlock_chosen]
  rw [runStatement, logStep_unobserved]
  rfl

/-- An if statement runs as the block that it goes on with, once its condition has a value. -/
theorem runBlock_branch (line : Int) (place : Option Location) (condition : Expr)
    (body : List Stmt) (otherwise : Option (List Stmt)) (rest : List Stmt) (m : Machine Unit) :
    (unobserved verbose file ops).runBlock line (.branch place condition body otherwise :: rest) m =
      (unobserved verbose file ops).withValue condition
        ((unobserved verbose file ops).begun line (.branch place condition body otherwise) m)
        fun value mid =>
          (unobserved verbose file ops).runBlock line (Stmt.chosen value body otherwise ++ rest)
            mid := by
  simp only [runBlock_append]
  rw [runBlock_cons, runStatement_branch, thenRun_withValue]

/-- The block that an if statement goes on with runs in its place, if nobody observes it. -/
theorem splices (loc : Option Location) (number : Int) (place : Option Location)
    (condition : Expr) (body : List Stmt) (otherwise : Option (List Stmt)) (rest : List Stmt)
    (m : Machine Unit) :
    (unobserved verbose file ops).Splices loc number place condition body otherwise rest m := by
  let i := unobserved verbose file ops
  constructor
  · intro value chip evaluated
    rw [runLine_unobserved, runLine_unobserved, runBlock_branch,
      withValue_of_ok (i := i) (m := i.begun number (.branch place condition body otherwise) m)
        evaluated]
    exact concluded_eq loc _ _ number _
  · intro error chip refused
    rw [runLine_unobserved, runBlock_branch,
      withValue_of_error (i := i) (m := i.begun number (.branch place condition body otherwise) m)
        refused]
    rfl

end

end Interpreter

/-! ### From chip to chip -/

section

variable {ops : Operators} {chip mid left : Chip}

namespace Stmt

/-- The steps of the expression that a statement evaluates. A statement that evaluates none has
no steps. -/
def steps (s : Stmt) : List VariableStep := s.evaluated?.elim [] Expr.steps

/-- The chip that a statement leaves by itself. An if statement leaves what its condition does;
the statements of its blocks are others and follow it. -/
def alone (ops : Operators) : Stmt → Chip → Chip
  | .branch _ condition _ _, chip => (evaluate ops condition chip).2
  | s, chip => (Effect.ofStatement ops s chip).2

/-- A statement with a rule of its own leaves what the rule says. Without blocks there is
nothing else that it leaves. -/
theorem Does.alone {s : Stmt} {finish : Finish} (does : s.Does ops chip finish left) :
    s.alone ops chip = left := by
  have ends := does.ofStatement.1
  cases s with
  | branch =>
    cases does with
    | unevaluated first refused =>
      obtain rfl := Option.some.inj first
      rw [Stmt.alone, refused]
  | _ => exact congrArg Prod.snd ends

/-- A statement that fails has taken the first of the steps of its expression, and has done nothing
else.

Proof: by its rule. An expression that has a value has taken all of its steps, and nothing is stored
of a value that is refused. -/
theorem Does.takes {s : Stmt} {error : EvalError} (does : s.Does ops chip (.failed error) left) :
    ∃ taken, taken <+: s.steps ∧ chip.takeSteps taken = .ok left := by
  have takes {e : Expr} {result : Except EvalError Value} {after : Chip}
      (first : s.evaluated? = some e) (ended : evaluate ops e chip = (result, after)) :
      ∃ taken, taken <+: s.steps ∧ chip.takeSteps taken = .ok after := by
    have within : Ended.Takes e.steps chip (evaluate ops e chip) :=
      Evaluate.expression_takes e Grammar.nestingLimit chip
    rw [ended] at within
    rw [steps, first, Option.elim_some]
    cases within with
    | all _ left => exact ⟨_, List.prefix_rfl, left⟩
    | first _ early left => exact ⟨_, early, left⟩
  cases does with
  | unevaluated first refused => exact takes first refused
  | assignRefused _ _ evaluated | jumpToText _ evaluated => exact takes rfl evaluated
  | assignElsewhere => exact ⟨[], List.nil_prefix, rfl⟩

end Stmt

/-- Whether statements follow one another from chip to chip: each starts from what the one before it
leaves by itself, the first from one chip, and the last leaves the other. -/
inductive Follow (ops : Operators) : Chip → List (Stmt × Chip) → Chip → Prop where
  | nothing (chip : Chip) : Follow ops chip [] chip
  | next {s : Stmt} {chip last : Chip} {rest : List (Stmt × Chip)}
      (goesOn : Follow ops (s.alone ops chip) rest last) : Follow ops chip ((s, chip) :: rest) last

/-- Statements that follow one another are followed by others that start from what they leave. -/
theorem Follow.append {first second : List (Stmt × Chip)} (follow : Follow ops chip first mid)
    (behind : Follow ops mid second left) : Follow ops chip (first ++ second) left := by
  induction follow with
  | nothing => exact behind
  | next _ inductionHypothesis => exact .next (inductionHypothesis behind)

/-- The last of statements that follow one another starts from what the others leave. -/
theorem Follow.before {before : List (Stmt × Chip)} {s : Stmt} {start : Chip}
    (follow : Follow ops chip (before ++ [(s, start)]) left) : Follow ops chip before start := by
  induction before generalizing chip with
  | nil =>
    cases follow
    exact .nothing _
  | cons first rest inductionHypothesis =>
    cases follow with
    | next goesOn => exact .next (inductionHypothesis goesOn)

/-- The statements that a block starts follow one another, up to the chip that it leaves.

Proof: induction over the rules. Behind an if statement stand those of the block that it goes on
with. -/
theorem Executes.follow {block : List Stmt} {told : List Notice} {finish : Finish}
    (executes : Executes ops block chip told finish left) :
    Follow ops chip (Effect.startsAll ops block chip) left := by
  induction executes with
  | nothing chip => exact .nothing chip
  | next does _ inductionHypothesis =>
    obtain ⟨ends, alone⟩ := does.ofStatement
    rw [(Effect.ofBlock_of_done _ ends).2, alone]
    exact .next (does.alone ▸ inductionHypothesis)
  | cut rest does early =>
    obtain ⟨ends, alone⟩ := does.ofStatement
    rw [(Effect.ofBlock_of_cut rest early ends).2, alone]
    exact .next (does.alone ▸ .nothing _)
  | branch loc evaluated taken _ takenHypothesis goesOnHypothesis =>
    obtain ⟨chooses, inside⟩ := Effect.ofStatement_branch evaluated
    rw [(Effect.ofBlock_of_done _ (chooses.trans taken.ofBlock.1)).2, inside]
    refine .next (.append ?_ goesOnHypothesis)
    rw [Stmt.alone, evaluated]
    exact takenHypothesis
  | branchCut loc rest evaluated taken early inductionHypothesis =>
    obtain ⟨chooses, inside⟩ := Effect.ofStatement_branch evaluated
    rw [(Effect.ofBlock_of_cut rest early (chooses.trans taken.ofBlock.1)).2, inside]
    refine .next ?_
    rw [Stmt.alone, evaluated]
    exact inductionHypothesis

end

/-! ### Faults -/

/-- What a line has done that ends by a fault. The statement that failed is the last of those that
were started; the others are done, each from what the one before it left, and stay done. Of the
statement itself nothing is done but the first of the steps of its own expression, and if it is an
assignment, its variable is not set but by those. -/
structure Line.BreaksAt (ops : Operators) (line : Line) (chip : Chip)
    (before : List (Stmt × Chip)) (s : Stmt) (start : Chip) (error : EvalError) (left : Chip) :
    Prop where
  started : line.starts ops chip = before ++ [(s, start)]
  preceding : Follow ops chip before start
  fails : s.Does ops start (.failed error) left
  stepped : ∃ taken, taken <+: s.steps ∧ start.takeSteps taken = .ok left
  others : start.DiffersAt (s.steps.map VariableStep.target) left
  unstored : ∀ loc place target op value, s = .assign loc (.var place target) op value →
    target ∉ value.stepped → left.read? target = start.read? target

namespace Interpreter

/-- A line that ends by a fault, if nobody observes it, has undone nothing. -/
theorem breaksAt_of_runLine (verbose : Bool) (file : String) (ops : Operators) {line : Line}
    {m : Machine Unit} {fault : Fault}
    (raised : ((unobserved verbose file ops).runLine line m).1 = some fault) :
    ∃ before s start error,
      line.BreaksAt ops m.chip before s start error
        ((unobserved verbose file ops).runLine line m).2.chip ∧
      fault = .eval (placed line ((unobserved verbose file ops).runLine line m).2.log error) := by
  obtain ⟨told, error, left, executes, isPlaced⟩ := executes_of_runLine raised
  obtain ⟨_, after, _, runs, rfl, _⟩ :=
    executes.runLine_plain (i := unobserved verbose file ops) Hooks.watching_none
  obtain ⟨s, start, last, -, does⟩ := executes.failing rfl
  obtain ⟨before, started⟩ := List.getLast?_eq_some_iff.mp last
  have preceding : Follow ops m.chip before start := by
    have follow := executes.follow
    rw [started] at follow
    exact follow.before
  obtain ⟨taken, early, stepped⟩ := does.takes
  have others : start.DiffersAt (s.steps.map VariableStep.target) after.chip :=
    Chip.differsAt_takeSteps
      (fun _ member => List.mem_map_of_mem (early.subset member)) stepped (.refl _ start)
  refine ⟨before, s, start, error, ?_, isPlaced⟩
  rw [runs]
  refine ⟨started, preceding, does, ⟨taken, early, stepped⟩, others, ?_⟩
  rintro loc place target op value rfl unstepped
  apply others.keeps
  rw [Stmt.steps, Stmt.evaluated?, Option.elim_some, Expr.map_target_steps]
  exact unstepped

/-- A line that fails in an assignment inside of an if statement, behind a step in its own
expression. The step stays done, and the variable of the assignment is not set. -/
def brokenAssignment : String := "a++ b=1 if 1 then c=d++*\"x\" end e=2"

end Interpreter

end YololChip
