import YololChip.Proofs.StepRecords

/-!
# A journal of a run

A journal is kept beside the observers: what they are told, each step that is logged, and which
rules are called at it, by their places among the rules, with what they answer. Keeping it changes
nothing: without the journal, every run with one is the run without it, whatever the observers do.

Of a step, first the logging is written down, and then the calls of those rules that are due, in
turn, up to the first that does not pass.
-/

namespace YololChip

variable {ω : Type}

/-- What is written in a journal: that the observers were told of a notice, that a step was
logged, or that the rule at a place was called at a step and answered so. A rule that is not due
leaves no trace. -/
inductive JournalEntry where
  | told (notice : Notice)
  | logged (step : StepNotice)
  | called (place : Nat) (step : StepNotice) (answer : Verdict)

namespace Machine

/-- The machine without its journal. -/
def bare (m : Machine (ω × List JournalEntry)) : Machine ω := ⟨m.chip, m.log, m.observer.1⟩

def journal (m : Machine (ω × List JournalEntry)) : List JournalEntry := m.observer.2

/-- The machine with this written in its journal. -/
def writing (m : Machine ω) (journal : List JournalEntry) : Machine (ω × List JournalEntry) :=
  ⟨m.chip, m.log, (m.observer, journal)⟩

variable (m : Machine ω) (journal : List JournalEntry)

@[simp] theorem bare_writing : (m.writing journal).bare = m := rfl

@[simp] theorem journal_writing : (m.writing journal).journal = journal := rfl

@[simp] theorem log_writing : (m.writing journal).log = m.log := rfl

end Machine

def StepRule.Due (rule : StepRule ω) (step : StepNotice) : Prop :=
  step.stepIndex % rule.interval = 0

instance (rule : StepRule ω) (step : StepNotice) : Decidable (rule.Due step) :=
  inferInstanceAs (Decidable (_ = _))

namespace Hooks

/-- A handler that takes no notice of the journal beside it. It is run on the machine without
the journal, which is then put back. -/
def besideJournal (run : Notice → Machine ω → Verdict × Machine ω) (notice : Notice)
    (m : Machine (ω × List JournalEntry)) : Verdict × Machine (ω × List JournalEntry) :=
  let (answer, after) := run notice m.bare
  (answer, after.writing m.journal)

/-- The handler that writes down what observers are told. -/
def journalist : Handler (ω × List JournalEntry) :=
  ⟨0, "journal", fun notice m => (.passed, m.bare.writing (m.journal ++ [.told notice]))⟩

/-- A rule whose calls are written down with its place. Two rules may have one name, so the name
would not tell them apart. -/
def intoJournal (place : Nat) (run : StepNotice → Machine ω → Verdict × Machine ω)
    (step : StepNotice) (m : Machine (ω × List JournalEntry)) :
    Verdict × Machine (ω × List JournalEntry) :=
  let (answer, after) := run step m.bare
  (answer, after.writing (m.journal ++ [.called place step answer]))

/-- The rule that writes down every step. It stands before all others, so a step is written down
before the rules that are due at it. -/
def clerk : StepRule (ω × List JournalEntry) :=
  ⟨1, "journal", fun step m => (.passed, m.bare.writing (m.journal ++ [.logged step]))⟩

/-- The hooks with a journal, which the observers do not notice. -/
def journaled (hooks : Hooks ω) : Hooks (ω × List JournalEntry) where
  handlers event := journalist ::
    (hooks.handlers event).map fun handler =>
      ⟨handler.priority, handler.name, besideJournal handler.run⟩
  rules := clerk :: hooks.rules.zipIdx.map fun placed =>
    ⟨placed.1.interval, placed.1.name, intoJournal placed.2 placed.1.run⟩

/-! ### What is written of a step -/

/-- Which calls are written down when rules are told of a step: those of the rules that are due,
in turn, up to the first that does not pass. The rules behind that one are not called, due or
not. -/
inductive Fires (step : StepNotice) : List (StepRule ω × Nat) → List JournalEntry → Prop where
  | nobody : Fires step [] []
  | idle {rule : StepRule ω} (place : Nat) {rest : List (StepRule ω × Nat)}
      {calls : List JournalEntry} (notDue : ¬ rule.Due step) (others : Fires step rest calls) :
    Fires step ((rule, place) :: rest) calls
  | passes {rule : StepRule ω} (place : Nat) {rest : List (StepRule ω × Nat)}
      {calls : List JournalEntry} (due : rule.Due step) (others : Fires step rest calls) :
    Fires step ((rule, place) :: rest) (.called place step .passed :: calls)
  | stops {rule : StepRule ω} (place : Nat) (rest : List (StepRule ω × Nat)) {answer : Verdict}
      (due : rule.Due step) (raises : answer ≠ .passed) :
    Fires step ((rule, place) :: rest) [.called place step answer]

end Hooks

/-- Whether a journal entry tells of no rule that raises. -/
def JournalEntry.Passes : JournalEntry → Prop
  | called _ _ answer => answer = .passed
  | told _ | logged _ => True

/-- Whether a journal tells of no rule that raises. -/
def AllPass (journal : List JournalEntry) : Prop := ∀ entry ∈ journal, entry.Passes

@[simp] theorem allPass_append {first second : List JournalEntry} :
    AllPass (first ++ second) ↔ AllPass first ∧ AllPass second := by
  simp only [AllPass, List.mem_append, or_imp, forall_and]

/-- No rule raises in a journal if none does at first and none does then. -/
@[simp] theorem allPass_cons {entry : JournalEntry} {rest : List JournalEntry} :
    AllPass (entry :: rest) ↔ entry.Passes ∧ AllPass rest := by
  simp only [AllPass, List.mem_cons, forall_eq_or_imp]

@[simp] theorem allPass_nil : AllPass [] := fun _ member => absurd member List.not_mem_nil

namespace Hooks

theorem faultOf_eq_none {broken : String → HookFault} {answer : Verdict} :
    faultOf broken answer = .none ↔ answer = .passed := by
  cases answer <;> simp [faultOf]

/-- Rules whose calls are written down do what they do without it. There is a fault if one of them
raises.

Proof: induction over the rules. -/
theorem tellRules_journaled (step : StepNotice) (rules : List (StepRule ω)) (start : Nat)
    (m : Machine (ω × List JournalEntry)) :
    ∃ calls, Fires step (rules.zipIdx start) calls ∧
      tellRules step ((rules.zipIdx start).map fun placed =>
          ⟨placed.1.interval, placed.1.name, intoJournal placed.2 placed.1.run⟩) m =
        ((tellRules step rules m.bare).1,
          (tellRules step rules m.bare).2.writing (m.journal ++ calls)) ∧
      ((tellRules step rules m.bare).1 = .none ↔ AllPass calls) := by
  induction rules generalizing start m with
  | nil => exact ⟨[], .nobody, by rw [List.append_nil]; rfl, by simp [tellRules]⟩
  | cons rule rest inductionHypothesis =>
    obtain ⟨interval, name, run⟩ := rule
    rw [List.zipIdx_cons, List.map_cons, tellRules, tellRules]
    by_cases due : step.stepIndex % interval = 0
    · rw [if_pos due, if_pos due]
      simp only [intoJournal]
      rcases run step m.bare with ⟨answer, after⟩
      simp only
      cases fault? : faultOf (.ruleBroke (if name.isEmpty then step.rule else name)) answer with
      | none =>
        obtain rfl := faultOf_eq_none.mp fault?
        obtain ⟨calls, fires, told, passes⟩ := inductionHypothesis (start + 1)
          (after.writing (m.journal ++ [.called start step .passed]))
        refine ⟨_, .passes start due fires, ?_, ?_⟩
        · rw [Machine.journal_writing, List.append_assoc] at told
          exact told
        · rw [allPass_cons]
          exact passes.trans (by simp [JournalEntry.Passes])
      | some fault =>
        have raises : answer ≠ .passed := by
          rintro rfl
          contradiction
        exact ⟨_, .stops start _ due raises, rfl, by simp [JournalEntry.Passes, raises]⟩
    · rw [if_neg due, if_neg due]
      obtain ⟨calls, fires, told⟩ := inductionHypothesis (start + 1) m
      exact ⟨calls, .idle start due fires, told⟩

theorem tellRules_clerk (step : StepNotice) (rules : List (StepRule (ω × List JournalEntry)))
    (m : Machine (ω × List JournalEntry)) :
    tellRules step (clerk :: rules) m =
      tellRules step rules (m.bare.writing (m.journal ++ [.logged step])) := by
  have due : step.stepIndex % (clerk : StepRule (ω × List JournalEntry)).interval = 0 :=
    Nat.mod_one step.stepIndex
  rw [tellRules, if_pos due]
  rfl

/-- Handlers beside a journal do what they do without it, and write nothing. Only the journalist
before them writes. -/
theorem tell_besideJournal (notice : Notice) (handlers : List (Handler ω))
    (m : Machine (ω × List JournalEntry)) :
      tell notice (handlers.map fun handler =>
          ⟨handler.priority, handler.name, besideJournal handler.run⟩) m =
      ((tell notice handlers m.bare).1, (tell notice handlers m.bare).2.writing m.journal) := by
  induction handlers generalizing m with
  | nil => rfl
  | cons handler rest inductionHypothesis =>
    obtain ⟨priority, name, run⟩ := handler
    rw [List.map_cons, tell, tell]
    simp only [besideJournal]
    rcases run notice m.bare with ⟨answer, after⟩
    simp only
    cases faultOf (.handlerBroke notice.event) answer with
    | some fault => rfl
    | none => exact inductionHypothesis (after.writing m.journal)

/-- What observers are told is written down, and they do what they do without the journal. -/
theorem dispatch_journaled (hooks : Hooks ω) (notice : Notice)
    (m : Machine (ω × List JournalEntry)) :
    hooks.journaled.dispatch notice m =
      ((hooks.dispatch notice m.bare).1,
        (hooks.dispatch notice m.bare).2.writing (m.journal ++ [.told notice])) :=
  tell_besideJournal notice (hooks.handlers notice.event)
    (m.bare.writing (m.journal ++ [JournalEntry.told notice]))

end Hooks

namespace Interpreter

def journaled (i : Interpreter ω) : Interpreter (ω × List JournalEntry) :=
  ⟨i.verbose, i.file, i.hooks.journaled, i.operators⟩

@[simp] theorem hooks_journaled (i : Interpreter ω) : i.journaled.hooks = i.hooks.journaled := rfl

/-- What rules are told of the start of a statement in a line, under a log. -/
def stepOf (line : Int) (s : Stmt) (log : StepLog) : StepNotice :=
  ⟨log.nextIndex, s.kind, line, s.loc⟩

variable (i : Interpreter ω)

/-- The start of a statement is recorded, and then the rules are told. The rules find the entry
of the step in the log already. -/
theorem logStep_eq (line : Int) (s : Stmt) (m : Machine ω) :
    i.logStep line s m = Hooks.tellRules (stepOf line s m.log) i.hooks.rules
      { m with log := m.log.record (i.recording line (s, m.chip)) } :=
  rfl

/-- The start of a statement is logged with a journal as without it. The logging is written down
and then the calls of rules. There is a fault if one of them raises. -/
theorem logStep_journaled (line : Int) (s : Stmt) (m : Machine (ω × List JournalEntry)) :
    ∃ calls, Hooks.Fires (stepOf line s m.log) i.hooks.rules.zipIdx calls ∧
      i.journaled.logStep line s m =
        ((i.logStep line s m.bare).1, (i.logStep line s m.bare).2.writing
          (m.journal ++ .logged (stepOf line s m.log) :: calls)) ∧
      ((i.logStep line s m.bare).1 = none ↔ AllPass calls) := by
  obtain ⟨calls, fires, told, passes⟩ := Hooks.tellRules_journaled (stepOf line s m.log)
    i.hooks.rules 0 (Machine.writing
      { m.bare with log := m.log.record (i.recording line (s, m.chip)) }
      (m.journal ++ [.logged (stepOf line s m.log)]))
  rw [Machine.journal_writing, List.append_assoc] at told
  refine ⟨calls, fires, ?_, passes⟩
  rw [logStep_eq]
  exact (Hooks.tellRules_clerk _ _ _).trans told

theorem simulates_journaled : i.journaled.Simulates (fun m n => m.bare = n) i where
  operators := rfl
  file := rfl
  chips := by
    rintro m _ rfl
    rfl
  places := by
    rintro line error m _ rfl
    rfl
  changed := by
    rintro m _ chip rfl
    rfl
  told := by
    rintro notice m _ rfl
    rw [hooks_journaled, Hooks.dispatch_journaled]
    exact .both _ rfl
  logged := by
    rintro line s m _ rfl
    obtain ⟨calls, _, logs, _⟩ := i.logStep_journaled line s m
    rw [logs]
    exact .both _ rfl

end Interpreter

end YololChip
