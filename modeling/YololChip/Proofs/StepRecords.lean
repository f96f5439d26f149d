import YololChip.Proofs.Observation
import YololChip.Proofs.StepChain

/-!
# What a run leaves in the log

Without observers, a run leaves one entry in the log for each statement that it starts, and no
others. An if statement is started before the statements of the block that it goes on with; those of
the other block are not started, and nothing is behind a goto or a fault.

What statements do and the rules of their execution are two accounts of one thing, and agree on
which statements are started.
-/

namespace YololChip

/-! ### Statements that are started -/

namespace Effect

mutual

/-- The statements that a statement starts, itself first, each with the chip that it starts
from. An if statement whose condition has no value starts none but itself. -/
def starts (ops : Operators) (s : Stmt) (chip : Chip) : List (Stmt × Chip) :=
  match s with
  | .branch loc condition body otherwise =>
    (.branch loc condition body otherwise, chip) ::
      Ended.listThen (evaluate ops condition chip) fun value mid =>
        if value.isFalse then
          match otherwise with
          | none => []
          | some block => startsAll ops block mid
        else startsAll ops body mid
  | s => [(s, chip)]

/-- The statements that a block starts in turn, up to the first that does not end normally. That
one is among them. -/
def startsAll (ops : Operators) (block : List Stmt) (chip : Chip) : List (Stmt × Chip) :=
  match block with
  | [] => []
  | s :: rest =>
    starts ops s chip ++
      Ended.listThen (ofStatement ops s chip) fun jumped mid =>
        match jumped with
        | none => startsAll ops rest mid
        | some _ => []

end

end Effect

theorem Ended.map_listThen {α β γ : Type} (ended : Ended α) (next : α → Chip → List β)
    (f : β → γ) :
    (ended.listThen next).map f = ended.listThen fun a chip => (next a chip).map f := by
  obtain ⟨error | a, chip⟩ := ended <;> rfl

/-- The statements that a line starts, each with the chip that it starts from. -/
def Line.starts (ops : Operators) (line : Line) (chip : Chip) : List (Stmt × Chip) :=
  Effect.startsAll ops line.statements chip

/-! ### Agreement with the rules -/

/-- How statements that ended so end by their effect. Of the number of a goto the line is left. -/
def Finish.result : Finish → Except EvalError (Option Int)
  | completed => .ok none
  | jumped target => .ok (some (Chip.targetLine target))
  | failed error => .error error

section

variable {ops : Operators} {chip decided left : Chip}

/-- A statement with a rule of its own does what the rule says, and starts no other. -/
theorem Stmt.Does.ofStatement {s : Stmt} {finish : Finish} (does : s.Does ops chip finish left) :
    Effect.ofStatement ops s chip = (finish.result, left) ∧
      Effect.starts ops s chip = [(s, chip)] := by
  cases does with
  | comment => exact ⟨rfl, rfl⟩
  | expression _ evaluated =>
    refine ⟨?_, rfl⟩
    rw [Effect.ofStatement, evaluated]
    rfl
  | jump _ evaluated | jumpToText _ evaluated =>
    refine ⟨?_, rfl⟩
    rw [Effect.ofStatement, evaluated]
    rfl
  | @assignElsewhere loc target op e _ elsewhere =>
    cases target with
    | var place name => exact absurd rfl (elsewhere place name)
    | _ => exact ⟨rfl, rfl⟩
  | assign _ _ evaluated stored =>
    refine ⟨?_, rfl⟩
    rw [Effect.ofStatement, evaluated, Ended.andThen, Effect.store_eq, stored]
    rfl
  | assignRefused _ _ evaluated refused =>
    refine ⟨?_, rfl⟩
    rw [Effect.ofStatement, evaluated, Ended.andThen, Effect.store_eq, refused]
    rfl
  | unevaluated first refused =>
    cases s with
    | comment => contradiction
    | expression | jump =>
      obtain rfl := Option.some.inj first
      rw [Effect.ofStatement, refused]
      exact ⟨rfl, rfl⟩
    | branch =>
      obtain rfl := Option.some.inj first
      rw [Effect.ofStatement, Effect.starts, refused]
      exact ⟨rfl, rfl⟩
    | assign _ target =>
      cases target with
      | var =>
        obtain rfl := Option.some.inj first
        rw [Effect.ofStatement, refused]
        exact ⟨rfl, rfl⟩
      | _ => contradiction

/-- An if statement does what the block does that it goes on with, and starts its statements. -/
theorem Effect.ofStatement_branch {loc : Option Location} {condition : Expr} {body : List Stmt}
    {otherwise : Option (List Stmt)} {value : Value}
    (evaluated : evaluate ops condition chip = (.ok value, decided)) :
    ofStatement ops (.branch loc condition body otherwise) chip =
        ofBlock ops (Stmt.chosen value body otherwise) decided ∧
      starts ops (.branch loc condition body otherwise) chip =
        (.branch loc condition body otherwise, chip) ::
          startsAll ops (Stmt.chosen value body otherwise) decided := by
  rw [ofStatement, starts, evaluated]
  simp only [Ended.andThen, Ended.listThen]
  unfold Stmt.chosen
  by_cases isFalse : value.isFalse = true
  · rw [if_pos isFalse, if_pos isFalse, if_pos isFalse]
    cases otherwise with
    | none => exact ⟨rfl, rfl⟩
    | some block => exact ⟨rfl, rfl⟩
  · rw [if_neg isFalse, if_neg isFalse, if_neg isFalse]
    exact ⟨rfl, rfl⟩

namespace Effect

variable {s : Stmt} (rest : List Stmt)

theorem ofBlock_of_done (done : ofStatement ops s chip = (.ok none, left)) :
    ofBlock ops (s :: rest) chip = ofBlock ops rest left ∧
      startsAll ops (s :: rest) chip = starts ops s chip ++ startsAll ops rest left := by
  rw [ofBlock_cons, startsAll, done]
  exact ⟨rfl, rfl⟩

/-- Behind a statement that is cut short nothing is done, and nothing starts. -/
theorem ofBlock_of_cut {finish : Finish} (early : finish ≠ .completed)
    (ended : ofStatement ops s chip = (finish.result, left)) :
    ofBlock ops (s :: rest) chip = (finish.result, left) ∧
      startsAll ops (s :: rest) chip = starts ops s chip := by
  rw [ofBlock_cons, startsAll, ended]
  cases finish with
  | completed => contradiction
  | jumped | failed => exact ⟨rfl, List.append_nil _⟩

end Effect

/-- A block that is executed does what the rules say, and the statements that it starts are those
that observers are told to be started.

Proof: induction over the rules. -/
theorem Executes.ofBlock {block : List Stmt} {told : List Notice} {finish : Finish}
    (executes : Executes ops block chip told finish left) :
    Effect.ofBlock ops block chip = (finish.result, left) ∧
      (Effect.startsAll ops block chip).map Prod.fst = Notice.started told := by
  induction executes with
  | nothing => exact ⟨rfl, rfl⟩
  | next does _ inductionHypothesis =>
    obtain ⟨ends, alone⟩ := does.ofStatement
    obtain ⟨goesOn, starts⟩ := Effect.ofBlock_of_done _ ends
    rw [goesOn, starts, alone, List.map_append, inductionHypothesis.2]
    exact ⟨inductionHypothesis.1, rfl⟩
  | cut rest does early =>
    obtain ⟨ends, alone⟩ := does.ofStatement
    obtain ⟨stops, starts⟩ := Effect.ofBlock_of_cut rest early ends
    rw [stops, starts, alone]
    exact ⟨rfl, rfl⟩
  | branch _ evaluated _ _ takenHypothesis goesOnHypothesis =>
    obtain ⟨chooses, inside⟩ := Effect.ofStatement_branch evaluated
    obtain ⟨goesOn, starts⟩ := Effect.ofBlock_of_done _ (chooses.trans takenHypothesis.1)
    rw [goesOn, starts, inside, List.map_append, List.map_cons, takenHypothesis.2,
      goesOnHypothesis.2]
    refine ⟨goesOnHypothesis.1, ?_⟩
    simp only [Notice.started, Notice.started?, List.filterMap_append, List.filterMap_cons,
      List.cons_append]
  | branchCut _ rest evaluated _ early inductionHypothesis =>
    obtain ⟨chooses, inside⟩ := Effect.ofStatement_branch evaluated
    obtain ⟨stops, starts⟩ :=
      Effect.ofBlock_of_cut rest early (chooses.trans inductionHypothesis.1)
    rw [stops, starts, inside, List.map_cons, inductionHypothesis.2]
    exact ⟨rfl, rfl⟩

end

/-! ### What is recorded -/

namespace Interpreter

variable {ω : Type}

/-- What is recorded of a statement that is started in a line. The variables are those from
before the statement, and are recorded only if more is asked for. -/
def recording (i : Interpreter ω) (line : Int) (start : Stmt × Chip) : Recording where
  line
  loc := start.1.loc
  statement := start.1.loc.map (·.statement)
  environment := if i.verbose then some start.2.snapshot else none
  record := some [("rule", .text start.1.kind)]

/-- What is recorded of a line: one recording for each statement that it starts. -/
def recordings (i : Interpreter ω) (line : Line) (chip : Chip) : List Recording :=
  (line.starts i.operators chip).map (i.recording line.number)

section

variable (verbose : Bool) (file : String) (ops : Operators)

theorem logStep_unobserved (line : Int) (s : Stmt) (m : Machine Unit) :
    (unobserved verbose file ops).logStep line s m =
      (none, { m with
        log := m.log.record ((unobserved verbose file ops).recording line (s, m.chip)) }) :=
  rfl

theorem dispatch_unobserved (notice : Notice) (m : Machine Unit) :
    (unobserved verbose file ops).hooks.dispatch notice m = (none, m) :=
  rfl

end

variable {i : Interpreter ω} {m : Machine ω}

/-- What is recorded of a value that is used is recorded if there is one. Evaluating it records
nothing. -/
theorem log_withValue (e : Expr) {next : Value → Machine ω → Ending × Machine ω}
    {of : Value → Chip → List Recording}
    (logs : ∀ value m, (next value m).2.log = m.log.recordAll (of value m.chip)) :
    (i.withValue e m next).2.log =
      m.log.recordAll (Ended.listThen (evaluate i.operators e m.chip) of) := by
  unfold withValue
  rcases evaluate i.operators e m.chip with ⟨error | value, chip⟩
  · rfl
  · exact logs value { m with chip }

theorem log_withValue_same (e : Expr) {next : Value → Machine ω → Ending × Machine ω}
    (same : ∀ value m, (next value m).2.log = m.log) : (i.withValue e m next).2.log = m.log := by
  unfold withValue
  rcases evaluate i.operators e m.chip with ⟨error | value, chip⟩
  · rfl
  · exact same value { m with chip }

theorem log_store (loc : Option Location) (target : Variable) (op : AssignOperator)
    (value : Value) (m : Machine ω) : (i.store loc target op value m).2.log = m.log := by
  unfold store
  cases op.binary? with
  | none => rfl
  | some binary =>
    simp only
    cases i.operators.applyBinary binary (m.chip.read target) value <;> rfl

theorem log_jump (loc : Option Location) (value : Value) (m : Machine ω) :
    (jump loc value m).2.log = m.log := by
  cases value <;> rfl

section

variable (verbose : Bool) (file : String) (ops : Operators)

mutual

theorem log_runStatement (line : Int) (s : Stmt) (m : Machine Unit) :
    ((unobserved verbose file ops).runStatement line s m).2.log =
      m.log.recordAll ((Effect.starts ops s m.chip).map
        ((unobserved verbose file ops).recording line)) := by
  rw [runStatement, logStep_unobserved]
  match s with
  | .comment _ _ => rfl
  | .expression _ value => exact log_withValue_same value fun _ _ => rfl
  | .assign loc target op value =>
    cases target with
    | var _ target => exact log_withValue_same value (log_store loc target op)
    | _ => rfl
  | .jump loc target => exact log_withValue_same target (log_jump loc)
  | .branch loc condition body otherwise =>
    rw [Effect.starts, List.map_cons, Ended.map_listThen]
    refine log_withValue condition ?_
    intro value mid
    by_cases isFalse : value.isFalse = true
    · rw [if_pos isFalse, if_pos isFalse]
      match otherwise with
      | none => rfl
      | some block => exact log_runBlock line block mid
    · rw [if_neg isFalse, if_neg isFalse]
      exact log_runBlock line body mid

/-- A block leaves recordings of the statements that it starts. -/
theorem log_runBlock (line : Int) (block : List Stmt) (m : Machine Unit) :
    ((unobserved verbose file ops).runBlock line block m).2.log =
      m.log.recordAll ((Effect.startsAll ops block m.chip).map
        ((unobserved verbose file ops).recording line)) := by
  match block with
  | [] => rfl
  | s :: rest =>
    have first := log_runStatement line s m
    have shows : (Effect.ofStatement ops s m.chip).Shows
        ((unobserved verbose file ops).runStatement line s m) :=
      runStatement_shows (i := unobserved verbose file ops) Hooks.watching_none line s m
    rw [runBlock, dispatch_unobserved, Effect.startsAll, List.map_append,
      StepLog.recordAll_append, ← first]
    simp only
    generalize (unobserved verbose file ops).runStatement line s m = run at shows ⊢
    generalize Effect.ofStatement ops s m.chip = effect at shows ⊢
    obtain ⟨error | _ | target, left⟩ := shows
    · rfl
    · exact log_runBlock line rest left
    · rfl

end

/-- A line leaves recordings of the statements that it starts. -/
theorem log_runLine (line : Line) (m : Machine Unit) :
    ((unobserved verbose file ops).runLine line m).2.log =
      m.log.recordAll ((unobserved verbose file ops).recordings line m.chip) := by
  have logged := log_runBlock verbose file ops line.number line.statements m
  rw [recordings, Line.starts]
  refine Eq.trans ?_ logged
  rw [runLine, dispatch_unobserved]
  simp only
  rcases (unobserved verbose file ops).runBlock line.number line.statements m with
    ⟨_ | target | fault, left⟩
  · rfl
  · rfl
  · cases fault <;> rfl

/-- A line whose fault is recorded in the chip leaves the same recordings. The error is of the
chip and not of the log. -/
theorem log_runRecorded (line : Line) (m : Machine Unit) :
    ((unobserved verbose file ops).runRecorded line m).2.log =
      m.log.recordAll ((unobserved verbose file ops).recordings line m.chip) := by
  rw [runRecorded_eq, ← log_runLine]
  cases ((unobserved verbose file ops).runLine line m).1 with
  | none => rfl
  | some fault => exact log_recordShowable fault _

end

/-- What is recorded in a call: of the line that is read or that the chip is at, and nothing
of one that was refused or breaks off. -/
def callRecordings (i : Interpreter ω) : Call → Chip → List Recording
  | .line text, chip =>
    match Line.parse text i.file chip.nextLine with
    | .ok line => i.recordings line chip
    | .error _ => []
  | .tick p, chip =>
    match p.error? chip.nextLine with
    | some _ => []
    | none => i.recordings (p.line chip.nextLine) chip.advance

/-- What is recorded in calls, one after the other, each on the machine that the one before it
left. -/
def callsRecordings (i : Interpreter ω) : List Call → Machine ω → List Recording
  | [], _ => []
  | first :: rest, m => i.callRecordings first m.chip ++ i.callsRecordings rest (i.call first m).2

def afterCalls (i : Interpreter ω) (calls : List Call) (m : Machine ω) : Machine ω :=
  calls.foldl (fun m call => (i.call call m).2) m

section

variable (verbose : Bool) (file : String) (ops : Operators)

/-- A call leaves recordings of the statements that are started in it. Of a line that was
refused there are none. -/
theorem log_call (call : Call) (m : Machine Unit) :
    ((unobserved verbose file ops).call call m).2.log =
      m.log.recordAll ((unobserved verbose file ops).callRecordings call m.chip) := by
  cases call with
  | line text =>
    rw [Interpreter.call, callRecordings]
    cases read : Line.parse text (unobserved verbose file ops).file m.chip.nextLine with
    | ok line =>
      rw [executeLine_of_ok read]
      exact log_runRecorded verbose file ops line m
    | error fault =>
      cases fault with
      | refused error =>
        rw [executeLine_of_error read]
        rfl
      | overlong digits =>
        rw [executeLine_of_overlong read]
        rfl
  | tick p =>
    rw [Interpreter.call, callRecordings]
    cases unread : p.error? m.chip.nextLine with
    | none =>
      rw [step_of_none unread]
      exact log_runRecorded verbose file ops _ { m with chip := m.chip.advance }
    | some error =>
      rw [step_of_some unread]
      rfl

/-- Calls leave recordings of all statements that are started in them.

Proof: induction over the calls. -/
theorem log_afterCalls (calls : List Call) (m : Machine Unit) :
    ((unobserved verbose file ops).afterCalls calls m).log =
      m.log.recordAll ((unobserved verbose file ops).callsRecordings calls m) := by
  induction calls generalizing m with
  | nil => rfl
  | cons first rest inductionHypothesis =>
    rw [afterCalls, List.foldl_cons, ← afterCalls, inductionHypothesis, callsRecordings,
      StepLog.recordAll_append, log_call]

end

/-- Whether the entries that a line adds to the log are those of the statements that are started by
the rules of its execution: one for each, in their order, with its kind as the rule and with the
number of the line. -/
def Logs (i : Interpreter ω) (line : Line) (m : Machine ω) : Prop :=
  ∃ told finish left rs, Executes i.operators line.statements m.chip told finish left ∧
    (i.runLine line m).2.log = m.log.recordAll rs ∧
    (m.log.made rs).map (fun entry => (entry.line, Bindings.find? "rule" entry.record)) =
      (Notice.started told).map fun s => (line.number, some (.text s.kind))

theorem map_made_recording (i : Interpreter ω) (line : Int) (starts : List (Stmt × Chip))
    (log : StepLog) :
    (log.made (starts.map (i.recording line))).map
        (fun entry => (entry.line, Bindings.find? "rule" entry.record)) =
      starts.map fun start => (line, some (.text start.1.kind)) := by
  induction starts generalizing log with
  | nil => rfl
  | cons start rest inductionHypothesis =>
    have records := log.entryOf_records (i.recording line start)
    rw [List.map_cons, StepLog.made, List.map_cons, List.map_cons, inductionHypothesis,
      records.line, records.others "rule" (by decide) (by decide)]
    rfl

/-- The log of steps. In a log with any limit, recordings make a chain of entries, the last of which
it holds. A line that is run without observers adds the entries of the statements that it starts. So
the log of an interpreter is the chain of all statements that are started in its calls. -/
theorem log_steps (verbose : Bool) (file : String) (ops : Operators) :
    let i := unobserved verbose file ops
    (∀ limit rs, StepLog.Chain limit rs ((StepLog.empty limit).made rs)
      ((StepLog.empty limit).recordAll rs)) ∧
    (∀ line m, i.Logs line m) ∧
    ∀ calls chip, StepLog.Chain StepLog.usualLimit (i.callsRecordings calls (.start chip ()))
      ((StepLog.empty StepLog.usualLimit).made (i.callsRecordings calls (.start chip ())))
      (i.afterCalls calls (.start chip ())).log := by
  intro i
  refine ⟨StepLog.chain_recordAll, ?_, ?_⟩
  · intro line m
    obtain ⟨told, finish, left, executes⟩ := exists_executes ops line.statements m.chip
    refine ⟨told, finish, left, i.recordings line m.chip, executes,
      log_runLine verbose file ops line m, ?_⟩
    rw [recordings, map_made_recording, ← executes.ofBlock.2, List.map_map]
    rfl
  · intro calls chip
    rw [log_afterCalls]
    exact StepLog.chain_recordAll _ _

end Interpreter

end YololChip
