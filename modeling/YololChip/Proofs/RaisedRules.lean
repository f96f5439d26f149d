import YololChip.Proofs.HandlerOrder
import YololChip.Proofs.StepSchedule

/-!
# Rules that raise

A rule is called between the logging of a statement and its execution. If it raises, the statement
does nothing: the chip is left as it was when the statement was started, however deep the statement
stands in if statements. Its entry stays in the log, no later rules are called for it, it is not
told of as finished, and neither are those around it; nothing behind it is started. What the rule
raised is what the line ends by.

This is so as long as the observers of events pass and nobody writes to the chip. Up to the
statement the line then runs by the rules of its execution.
-/

namespace YololChip

variable {ω : Type}

/-! ### Telling rules -/

/-- A rule as a listener that is told of a step. Without a name it goes by the step's own rule. -/
def StepRule.listener (step : StepNotice) (rule : StepRule ω) : Hooks.Listener ω :=
  ⟨rule.run step, .ruleBroke (if rule.name.isEmpty then step.rule else rule.name)⟩

namespace Hooks

/-- Telling rules of a step tells those in turn that are due, up to the first that raises.

Proof: induction over the rules. -/
theorem hears_tellRules (step : StepNotice) (rules : List (StepRule ω)) (m : Machine ω) :
    Hears ((rules.filter fun rule => rule.Due step).map (·.listener step)) m
      (tellRules step rules m) := by
  induction rules generalizing m with
  | nil => exact .passed (.nobody m)
  | cons rule rest inductionHypothesis =>
    rw [tellRules]
    by_cases due : rule.Due step
    · have remains : step.stepIndex % rule.interval = 0 := due
      rw [if_pos remains, List.filter_cons_of_pos (by simpa using due), List.map_cons]
      exact Hears.step _ m (inductionHypothesis _)
    · have remains : ¬ step.stepIndex % rule.interval = 0 := due
      rw [if_neg remains, List.filter_cons_of_neg (by simpa using due)]
      exact inductionHypothesis m

/-- Whether no handler of an event raises, and neither handlers nor rules write to the chip.
Rules may raise; they are what the statements are about. -/
structure Guarding (hooks : Hooks ω) : Prop where
  handlers : ∀ event, ∀ handler ∈ hooks.handlers event, ∀ notice m,
    (handler.run notice m).1 = .passed ∧ (handler.run notice m).2.chip = m.chip
  rules : ∀ rule ∈ hooks.rules, ∀ step m, (rule.run step m).2.chip = m.chip

/-- Rules that do not write to the chip leave it as it is, whether or not one of them raises. -/
theorem chip_tellRules {rules : List (StepRule ω)}
    (leaves : ∀ rule ∈ rules, ∀ step m, (rule.run step m).2.chip = m.chip)
    (step : StepNotice) (m : Machine ω) : (tellRules step rules m).2.chip = m.chip := by
  induction rules generalizing m with
  | nil => rfl
  | cons rule rest inductionHypothesis =>
    have others := inductionHypothesis fun other member =>
      leaves other (List.mem_cons_of_mem _ member)
    rw [tellRules]
    by_cases due : step.stepIndex % rule.interval = 0
    · have here := leaves rule List.mem_cons_self step m
      rw [if_pos due]
      simp only
      split
      · exact here
      · exact (others _).trans here
    · rw [if_neg due]
      exact others m

end Hooks

/-- What observers were told, by a journal. Steps and calls of rules are left out. -/
def notices (journal : List JournalEntry) : List Notice :=
  journal.filterMap fun
    | .told notice => some notice
    | _ => none

/-- What was told by two journals in a row is what the first says and then what the second says. -/
@[simp] theorem notices_append (first second : List JournalEntry) :
    notices (first ++ second) = notices first ++ notices second :=
  List.filterMap_append

theorem Hooks.Fires.notices_eq {step : StepNotice} {rules : List (StepRule ω × Nat)}
    {calls : List JournalEntry} (fires : Fires step rules calls) : notices calls = [] := by
  induction fires with
  | nobody => rfl
  | idle _ _ _ inductionHypothesis => exact inductionHypothesis
  | passes _ _ _ inductionHypothesis => exact inductionHypothesis
  | stops => rfl

/-! ### Statements that are stopped -/

/-- Whether a part of a run went on: no rule raised, this was told, and the chip is left so. The
entries are those that this part wrote, and no earlier ones. -/
structure WentOn (m after : Machine (ω × List JournalEntry)) (told : List Notice) (left : Chip)
    (entries : List JournalEntry) : Prop where
  chip : after.chip = left
  wrote : after.journal = m.journal ++ entries
  pass : AllPass entries
  notices : YololChip.notices entries = told

theorem WentOn.nothing (m : Machine (ω × List JournalEntry)) : WentOn m m [] m.chip [] where
  chip := rfl
  wrote := (List.append_nil _).symm
  pass := allPass_nil
  notices := rfl

theorem WentOn.trans {m mid after : Machine (ω × List JournalEntry)} {first second : List Notice}
    {between left : Chip} {earlier later : List JournalEntry}
    (before : WentOn m mid first between earlier) (behind : WentOn mid after second left later) :
    WentOn m after (first ++ second) left (earlier ++ later) where
  chip := behind.chip
  wrote := by rw [behind.wrote, before.wrote, List.append_assoc]
  pass := allPass_append.mpr ⟨before.pass, behind.pass⟩
  notices := by rw [notices_append, before.notices, behind.notices]

/-- Whether a run of statements is stopped by a rule. Of what the statements start and tell without
rules, all went on up to the start of one of them. There the chip is as it should be, and when the
statement is logged a rule raises, by which the run ends. -/
inductive Stopped (i : Interpreter ω) (line : Int) (starts : List (Stmt × Chip))
    (told : List Notice) (m : Machine (ω × List JournalEntry)) :
    Ending × Machine (ω × List JournalEntry) → Prop where
  | here {before rest : List Notice} {s : Stmt} {started after : Machine (ω × List JournalEntry)}
      {fault : Fault} {entries : List JournalEntry}
      (parts : told = before ++ .statementStarted s :: rest)
      (start : starts[(Notice.started before).length]? = some (s, started.chip))
      (went : WentOn m started (before ++ [.statementStarted s]) started.chip entries)
      (raised : i.journaled.logStep line s started = (some fault, after)) :
    Stopped i line starts told m (.failed fault, after)

theorem Stopped.exists_failed {i : Interpreter ω} {line : Int} {starts : List (Stmt × Chip)}
    {told : List Notice} {m : Machine (ω × List JournalEntry)}
    {run : Ending × Machine (ω × List JournalEntry)} (stopped : Stopped i line starts told m run) :
    ∃ fault after, run = (.failed fault, after) := by
  cases stopped with
  | here => exact ⟨_, _, rfl⟩

/-- What is stopped behind a part that went on is stopped, whatever else would come after. -/
theorem Stopped.behind {i : Interpreter ω} {line : Int} {starts : List (Stmt × Chip)}
    {early told : List Notice} {m mid : Machine (ω × List JournalEntry)} {between : Chip}
    {entries : List JournalEntry} {run : Ending × Machine (ω × List JournalEntry)}
    (stopped : Stopped i line starts told mid run) (first : List (Stmt × Chip))
    (went : WentOn m mid early between entries)
    (alike : (Notice.started early).length = first.length) (more : List (Stmt × Chip))
    (later : List Notice) :
    Stopped i line (first ++ (starts ++ more)) (early ++ (told ++ later)) m run := by
  cases stopped with
  | @here before rest s started after fault others parts start wentOn raised =>
    have place : (Notice.started before).length < starts.length :=
      (List.getElem?_eq_some_iff.mp start).1
    have whole : early ++ (told ++ later) =
        (early ++ before) ++ .statementStarted s :: (rest ++ later) := by
      simp only [parts, List.append_assoc, List.cons_append]
    have wentWhole := went.trans wentOn
    rw [← List.append_assoc] at wentWhole
    refine .here whole ?_ wentWhole raised
    rw [Notice.started_append, List.length_append, alike, List.getElem?_append_right (by omega),
      Nat.add_sub_cancel_left, List.getElem?_append_left place, start]

/-! ### Running statements -/

/-- How a run of statements that do this without rules ends if there are some: it goes on to the
end, or is stopped by a rule. -/
inductive Guarded (i : Interpreter ω) (line : Int) (starts : List (Stmt × Chip))
    (told : List Notice) (finish : Finish) (left : Chip) (m : Machine (ω × List JournalEntry)) :
    Ending × Machine (ω × List JournalEntry) → Prop where
  | through {after : Machine (ω × List JournalEntry)} {entries : List JournalEntry}
      (went : WentOn m after told left entries) :
    Guarded i line starts told finish left m (finish.ending, after)
  | stopped {run : Ending × Machine (ω × List JournalEntry)}
      (stopped : Stopped i line starts told m run) :
    Guarded i line starts told finish left m run

namespace Interpreter

/-- Opens a statement of a block: tells of its start, and runs it. -/
def opens (i : Interpreter ω) (line : Int) (s : Stmt) (m : Machine ω) : Ending × Machine ω :=
  match i.hooks.dispatch (.statementStarted s) m with
  | (some fault, m) => (.failed fault, m)
  | (none, m) => i.runStatement line s m

/-- A block opens its first statement, and if that one is done tells of its end and goes on. -/
theorem runBlock_eq_opens (i : Interpreter ω) (line : Int) (s : Stmt) (rest : List Stmt)
    (m : Machine ω) :
    i.runBlock line (s :: rest) m =
      match i.opens line s m with
      | (.done, m) =>
        match i.hooks.dispatch (.statementFinished s) m with
        | (some fault, m) => (.failed fault, m)
        | (none, m) => i.runBlock line rest m
      | ended => ended := by
  rw [runBlock, opens]
  rcases i.hooks.dispatch (.statementStarted s) m with ⟨_ | fault, started⟩ <;> rfl

section

variable {i : Interpreter ω} (guarding : i.hooks.Guarding)

include guarding

/-- What is told to guarding observers is written down, and nothing comes of it. The chip is the
same, and the journal has one entry more. -/
theorem dispatch_of_guarding (notice : Notice) (m : Machine (ω × List JournalEntry)) :
    ∃ after, i.journaled.hooks.dispatch notice m = (none, after) ∧
      WentOn m after [notice] m.chip [.told notice] ∧
      (i.hooks.LeavesLog → after.log = m.log) := by
  obtain ⟨after, told, same⟩ :=
    Hooks.tell_of_watching (guarding.handlers notice.event) notice m.bare
  refine ⟨after.writing (m.journal ++ [.told notice]), ?_, ?_, ?_⟩
  · rw [hooks_journaled, Hooks.dispatch_journaled, Hooks.dispatch, told]
  · exact ⟨same, rfl, by simp [JournalEntry.Passes], rfl⟩
  · intro leaves
    have alone := Hooks.log_tell (leaves.handlers notice.event) notice m.bare
    rw [told] at alone
    exact alone

/-- When the start of a statement is logged, the chip is left as it is. The logging is written
down, and the calls of rules. There is a fault if one of them raises. -/
theorem logStep_of_guarding (line : Int) (s : Stmt) (m : Machine (ω × List JournalEntry)) :
    ∃ calls, Hooks.Fires (stepOf line s m.log) i.hooks.rules.zipIdx calls ∧
      (i.journaled.logStep line s m).2.chip = m.chip ∧
      (i.journaled.logStep line s m).2.journal =
        m.journal ++ .logged (stepOf line s m.log) :: calls ∧
      ((i.journaled.logStep line s m).1 = none ↔ AllPass calls) := by
  obtain ⟨calls, fires, logs, passes⟩ := i.logStep_journaled line s m
  rw [logs]
  exact ⟨calls, fires, Hooks.chip_tellRules guarding.rules _ _, rfl, passes⟩

/-- A statement that is opened is stopped by a rule there, whatever it would start and tell then; or
it is told of as started, and its logging goes on. -/
theorem opens_of_guarding (line : Int) (s : Stmt) (m : Machine (ω × List JournalEntry)) :
    (∀ more later, Stopped i line ((s, m.chip) :: more) (.statementStarted s :: later) m
        (i.journaled.opens line s m)) ∨
      ∃ started logged entries,
        i.journaled.opens line s m = i.journaled.runStatement line s started ∧
        i.journaled.logStep line s started = (none, logged) ∧
        WentOn m logged [.statementStarted s] m.chip entries := by
  obtain ⟨started, announced, went, _⟩ := dispatch_of_guarding guarding (.statementStarted s) m
  obtain ⟨calls, fires, chip, wrote, passes⟩ := logStep_of_guarding guarding line s started
  have opened : i.journaled.opens line s m = i.journaled.runStatement line s started := by
    rw [opens, announced]
  rcases logs : i.journaled.logStep line s started with ⟨_ | fault, logged⟩
  · rw [logs] at chip wrote passes
    have pass := passes.mp rfl
    have goesOn : WentOn started logged [] m.chip (.logged (stepOf line s started.log) :: calls) :=
      ⟨chip.trans went.chip, wrote, allPass_cons.mpr ⟨trivial, pass⟩, fires.notices_eq⟩
    exact .inr ⟨started, logged, _, opened, logs, went.trans goesOn⟩
  · refine .inl fun more later => ?_
    rw [opened, runStatement, logs, ← went.chip]
    exact .here (List.nil_append (.statementStarted s :: later)).symm rfl (went.chip ▸ went) logs

end

end Interpreter

open Interpreter

namespace Guarded

variable {i : Interpreter ω} (guarding : i.hooks.Guarding) {line : Int} {s : Stmt}
  {m : Machine (ω × List JournalEntry)} {left : Chip} {finish : Finish}

include guarding

/-- A statement with a rule of its own is opened by that rule, unless a rule of steps raises. -/
theorem opens (does : s.Does i.operators m.chip finish left) :
    Guarded i line [(s, m.chip)] [.statementStarted s] finish left m
      (i.journaled.opens line s m) := by
  rcases opens_of_guarding guarding line s m with
    stopped | ⟨started, logged, entries, opened, logs, went⟩
  · exact .stopped (stopped [] [])
  · rw [opened, does.runStatement_of_logged (i := i.journaled) logs went.chip]
    exact .through { went with chip := rfl }

/-- An if statement whose condition has a value is opened and runs as the block that it goes on
with, unless a rule raises. -/
theorem branch {loc : Option Location} {condition : Expr} {body : List Stmt}
    {otherwise : Option (List Stmt)} {value : Value} {decided : Chip}
    {starts : List (Stmt × Chip)} {inside : List Notice}
    (evaluated : evaluate i.operators condition m.chip = (.ok value, decided))
    (taken : ∀ n : Machine (ω × List JournalEntry), n.chip = decided →
      Guarded i line starts inside finish left n
        (i.journaled.runBlock line (Stmt.chosen value body otherwise) n)) :
    Guarded i line ((.branch loc condition body otherwise, m.chip) :: starts)
      (.statementStarted (.branch loc condition body otherwise) :: inside) finish left m
      (i.journaled.opens line (.branch loc condition body otherwise) m) := by
  rcases opens_of_guarding guarding line (.branch loc condition body otherwise) m with
    stopped | ⟨started, logged, entries, opened, logs, went⟩
  · exact .stopped (stopped starts inside)
  · rw [opened, runStatement_branch_of_logged (i := i.journaled) evaluated logs went.chip]
    have wentThere : WentOn m { logged with chip := decided }
        [.statementStarted (.branch loc condition body otherwise)] decided entries :=
      { went with chip := rfl }
    have inner := taken { logged with chip := decided } rfl
    generalize i.journaled.runBlock line (Stmt.chosen value body otherwise) _ = run at inner ⊢
    cases inner with
    | through wentOn => exact .through (wentThere.trans wentOn)
    | stopped stopped =>
      have whole := stopped.behind [(.branch loc condition body otherwise, m.chip)] wentThere rfl
        [] []
      rw [List.append_nil, List.append_nil] at whole
      exact .stopped whole

variable {starts later : List (Stmt × Chip)} {opening told : List Notice} {mid : Chip}
  {rest : List Stmt}

/-- A statement that is done is told of as finished, and what stands behind it runs. What is
stopped inside of it or behind it is stopped. -/
theorem next (alike : (Notice.started opening).length = starts.length)
    (opened : Guarded i line starts opening .completed mid m (i.journaled.opens line s m))
    (goesOn : ∀ n : Machine (ω × List JournalEntry), n.chip = mid →
      Guarded i line later told finish left n (i.journaled.runBlock line rest n)) :
    Guarded i line (starts ++ later) (opening ++ .statementFinished s :: told) finish left m
      (i.journaled.runBlock line (s :: rest) m) := by
  rw [runBlock_eq_opens]
  generalize i.journaled.opens line s m = run at opened ⊢
  cases opened with
  | @through ran entries went =>
    obtain ⟨finished, announced, wentFinished, _⟩ :=
      dispatch_of_guarding guarding (.statementFinished s) ran
    have wentBoth := went.trans wentFinished
    have behind := goesOn finished (wentFinished.chip.trans went.chip)
    simp only [Finish.ending, announced]
    generalize i.journaled.runBlock line rest finished = run at behind ⊢
    cases behind with
    | through wentOn =>
      have whole := wentBoth.trans wentOn
      rw [List.append_assoc, List.singleton_append] at whole
      exact .through whole
    | stopped stopped =>
      have counted :
          (Notice.started (opening ++ [.statementFinished s])).length = starts.length := by
        rw [Notice.started_append, List.length_append, alike]
        rfl
      have whole := stopped.behind starts wentBoth counted [] []
      rw [List.append_nil, List.append_nil, List.append_assoc, List.singleton_append] at whole
      exact .stopped whole
  | stopped stopped =>
    obtain ⟨fault, after, rfl⟩ := stopped.exists_failed
    exact .stopped (stopped.behind [] (.nothing m) rfl later (.statementFinished s :: told))

omit guarding in
theorem cut (rest : List Stmt) (early : finish ≠ .completed)
    (opened : Guarded i line starts opening finish left m (i.journaled.opens line s m)) :
    Guarded i line starts opening finish left m (i.journaled.runBlock line (s :: rest) m) := by
  rw [runBlock_eq_opens]
  generalize i.journaled.opens line s m = run at opened ⊢
  cases opened with
  | through went =>
    cases finish with
    | completed => contradiction
    | jumped | failed => exact .through went
  | stopped stopped =>
    obtain ⟨fault, after, rfl⟩ := stopped.exists_failed
    exact .stopped stopped

end Guarded

/-- Under guarding observers a block runs by the rules of its execution, unless it is stopped by
a rule of steps.

Proof: induction over the rules of execution. Each statement is stopped when it is opened, or
inside of it, or is done, and then what stands behind it runs. -/
theorem Executes.guarded {i : Interpreter ω} (guarding : i.hooks.Guarding) (line : Int)
    {block : List Stmt} {chip left : Chip} {told : List Notice} {finish : Finish}
    (executes : Executes i.operators block chip told finish left)
    (m : Machine (ω × List JournalEntry)) (here : m.chip = chip) :
    Guarded i line (Effect.startsAll i.operators block chip) told finish left m
      (i.journaled.runBlock line block m) := by
  have counted {block : List Stmt} {chip left : Chip} {told : List Notice} {finish : Finish}
      (executes : Executes i.operators block chip told finish left) :
      (Notice.started told).length = (Effect.startsAll i.operators block chip).length := by
    rw [← executes.ofBlock.2, List.length_map]
  induction executes generalizing m with
  | nothing =>
    subst here
    rw [runBlock]
    exact .through (.nothing m)
  | @next s rest chip mid left told finish does goesOn inductionHypothesis =>
    subst here
    obtain ⟨ends, alone⟩ := does.ofStatement
    rw [(Effect.ofBlock_of_done rest ends).2, alone]
    exact (Guarded.opens guarding does).next guarding rfl inductionHypothesis
  | @cut s rest chip left finish does early =>
    subst here
    obtain ⟨ends, alone⟩ := does.ofStatement
    rw [(Effect.ofBlock_of_cut rest early ends).2, alone]
    exact (Guarded.opens guarding does).cut rest early
  | @branch loc condition body rest otherwise chip decided mid left value inside told finish
      evaluated taken goesOn takenHypothesis goesOnHypothesis =>
    subst here
    obtain ⟨chooses, starts⟩ := Effect.ofStatement_branch evaluated
    rw [(Effect.ofBlock_of_done rest (chooses.trans taken.ofBlock.1)).2, starts]
    refine (Guarded.branch guarding evaluated takenHypothesis).next guarding ?_ goesOnHypothesis
    exact congrArg (· + 1) (counted taken)
  | @branchCut loc condition body rest otherwise chip decided left value inside finish evaluated
      taken early inductionHypothesis =>
    subst here
    obtain ⟨chooses, starts⟩ := Effect.ofStatement_branch evaluated
    rw [(Effect.ofBlock_of_cut rest early (chooses.trans taken.ofBlock.1)).2, starts]
    exact (Guarded.branch guarding evaluated inductionHypothesis).cut rest early

/-! ### Running lines -/

namespace Line

/-- The fault by which a line ends if a rule raises this one: itself, a fault of evaluation with
what the log and the line know of it. A rule may raise any fault in its own words. -/
def raised (line : Line) (log : StepLog) : Fault → Fault
  | .eval error => .eval (placed line log error)
  | other => other

/-- What observers are told if a rule raises this fault in a line: of a fault of evaluation, and of
no other. -/
def failureTold (line : Line) (log : StepLog) : Fault → List Notice
  | .eval error => [.failed (.eval (placed line log error))]
  | _ => []

end Line

namespace Interpreter

variable (i : Interpreter ω)

/-- Whether a run of a line is stopped at the start of a statement, with this machine when the
statement is started and this one when a rule has raised this fault.

The run is that of the rules of execution up to the start of the statement. There some of the rules
that are due pass in turn, and the next one raises; no later one is called. The chip is left as it
was when the statement was started, of which observers are told last: it and what is around it are
not told of as finished, and nothing behind it is started. The line ends by the fault. If observers
leave the log alone, the entry of the statement is its newest. -/
structure StoppedAt (line : Line) (m : Machine ω) (before : List Notice) (s : Stmt)
    (started logged : Machine ω) (fault : Fault) : Prop where
  executes : ∃ rest finish left, Executes i.operators line.statements m.chip
    (before ++ .statementStarted s :: rest) finish left
  start : (line.starts i.operators m.chip)[(Notice.started before).length]? =
    some (s, started.chip)
  raises : Hooks.Hears
    ((i.hooks.rules.filter fun rule => rule.Due (stepOf line.number s started.log)).map
      (·.listener (stepOf line.number s started.log)))
    { started with log := started.log.record (i.recording line.number (s, started.chip)) }
    (some fault, logged)
  calls : ∃ earlier calls, i.journalOf [.line line] m =
      earlier ++ .logged (stepOf line.number s started.log) :: calls ++
        (line.failureTold logged.log fault).map .told ∧
    AllPass earlier ∧ ¬ AllPass calls ∧
    Hooks.Fires (stepOf line.number s started.log) i.hooks.rules.zipIdx calls
  told : notices (i.journalOf [.line line] m) =
    .lineStarted line :: before ++ [.statementStarted s] ++ line.failureTold logged.log fault
  chip : (i.runLine line m).2.chip = started.chip
  ends : (i.runLine line m).1 = some (line.raised logged.log fault)
  log : i.hooks.LeavesLog →
    (i.runLine line m).2.log = started.log.record (i.recording line.number (s, started.chip))

/-- Ends the run of a line whose statements ended so. It is the last part of a run, which is the
same whatever the statements were. -/
def close (line : Line) : Ending × Machine ω → Option Fault × Machine ω
  | (.done, m) => i.hooks.dispatch (.lineFinished line) m
  | (.jumped target, m) =>
    match i.hooks.dispatch (.jumped target) m with
    | (some fault, m) => (some fault, m)
    | (none, m) => i.hooks.dispatch (.lineFinished line) m
  | (.failed (.eval error), m) =>
    let (fault, m) := i.report (.eval (placed line m.log error)) m
    (some fault, m)
  | (.failed fault, m) => (some fault, m)

variable {i}

/-- A line that is told of as started runs its statements and ends. Whoever hears of the start
may stop it there. -/
theorem runLine_of_started {line : Line} {m started : Machine ω}
    (announced : i.hooks.dispatch (.lineStarted line) m = (none, started)) :
    i.runLine line m = i.close line (i.runBlock line.number line.statements started) := by
  rw [runLine, announced]
  simp only
  rcases i.runBlock line.number line.statements started with ⟨_ | target | fault, left⟩
  · rfl
  · rfl
  · cases fault <;> rfl

/-- A line that is run with a journal is run as without it. So what is said of the run with a
journal is said of the run. -/
theorem runLine_eq_bare (line : Line) (m : Machine ω) :
    i.runLine line m = ((i.journaled.runLine line (m.writing [])).1,
      (i.journaled.runLine line (m.writing [])).2.bare) := by
  have alike := i.simulates_journaled.runLine line (m := m.writing []) (n := m) rfl
  generalize i.journaled.runLine line (m.writing []) = first at alike ⊢
  generalize i.runLine line m = second at alike ⊢
  obtain ⟨result, rfl⟩ := alike
  rfl

section

variable (guarding : i.hooks.Guarding)

include guarding

/-- A line ends under guarding observers without a rule that raises. -/
theorem close_of_finish (line : Line) (finish : Finish) (m : Machine (ω × List JournalEntry)) :
    ∃ told entries, WentOn m (i.journaled.close line (finish.ending, m)).2 told m.chip entries := by
  cases finish with
  | completed =>
    obtain ⟨after, announced, went, _⟩ := dispatch_of_guarding guarding (.lineFinished line) m
    rw [Finish.ending, close, announced]
    exact ⟨_, _, went⟩
  | jumped target =>
    obtain ⟨jumped, announced, went, _⟩ :=
      dispatch_of_guarding guarding (.jumped (Chip.targetLine target)) m
    obtain ⟨after, announcedToo, wentToo, _⟩ :=
      dispatch_of_guarding guarding (.lineFinished line) jumped
    rw [Finish.ending, close, announced]
    simp only [announcedToo]
    exact ⟨_, _, went.trans { wentToo with chip := wentToo.chip.trans went.chip }⟩
  | failed error =>
    obtain ⟨after, announced, went, _⟩ :=
      dispatch_of_guarding guarding (.failed (.eval (placed line m.log error))) m
    rw [Finish.ending, close]
    simp only [report, announced]
    exact ⟨_, _, went⟩

theorem close_of_raised (line : Line) (fault : Fault) (m : Machine (ω × List JournalEntry)) :
    ∃ after, i.journaled.close line (.failed fault, m) = (some (line.raised m.log fault), after) ∧
      WentOn m after (line.failureTold m.log fault) m.chip
        ((line.failureTold m.log fault).map .told) ∧
      (i.hooks.LeavesLog → after.log = m.log) := by
  cases fault with
  | eval error =>
    obtain ⟨after, announced, went, leaves⟩ :=
      dispatch_of_guarding guarding (.failed (.eval (placed line m.log error))) m
    refine ⟨after, ?_, went, leaves⟩
    rw [close]
    simp only [report, announced]
    rfl
  | source | document | hook | plain =>
    exact ⟨m, rfl, ⟨rfl, (List.append_nil _).symm, allPass_nil, rfl⟩, fun _ => rfl⟩

/-- If a rule raises while a line is run under guarding observers, the run is stopped there. -/
theorem exists_stoppedAt (line : Line) (m : Machine ω)
    (raises : ¬ AllPass (i.journalOf [.line line] m)) :
    ∃ before s started logged fault, i.StoppedAt line m before s started logged fault := by
  obtain ⟨told, finish, left, executes⟩ := exists_executes i.operators line.statements m.chip
  obtain ⟨opened, announced, wentOpened, _⟩ :=
    dispatch_of_guarding guarding (.lineStarted line) (m.writing [])
  have guarded := executes.guarded guarding line.number opened wentOpened.chip
  have runs := runLine_eq_bare (i := i) line m
  have written : i.journalOf [.line line] m =
      (i.journaled.runLine line (m.writing [])).2.journal := rfl
  rw [runLine_of_started (i := i.journaled) announced] at runs written
  generalize i.journaled.runBlock line.number line.statements opened = run at guarded runs written
  cases guarded with
  | @through after entries went =>
    -- Nobody raised on the way, and nobody does at the end.
    obtain ⟨last, closing, wentClosing⟩ := close_of_finish guarding line finish after
    have whole := (wentOpened.trans went).trans wentClosing
    rw [written, whole.wrote] at raises
    exact absurd whole.pass raises
  | stopped stopped =>
    obtain @⟨before, rest, s, started, logged, fault, entries, parts, start, went, raised⟩ :=
      stopped
    obtain ⟨calls, fires, chip, wrote, passes⟩ :=
      logStep_of_guarding guarding line.number s started
    obtain ⟨after, closes, wentClosing, leaves⟩ := close_of_raised guarding line fault logged
    rw [raised] at chip wrote passes
    rw [closes] at runs written
    have bare := i.logStep_journaled line.number s started
    have stopsBare : i.logStep line.number s started.bare = (some fault, logged.bare) := by
      obtain ⟨_, _, logs, _⟩ := bare
      rw [logs, Prod.mk.injEq] at raised
      rw [← raised.2, Machine.bare_writing, ← raised.1]
    have toldFirst := wentOpened.trans went
    refine ⟨before, s, started.bare, logged.bare, fault, ?_⟩
    constructor
    · exact ⟨rest, finish, left, parts ▸ executes⟩
    · exact start
    · rw [← stopsBare, logStep_eq]
      exact Hooks.hears_tellRules _ _ _
    · refine ⟨_, calls, ?_, toldFirst.pass, ?_, fires⟩
      · rw [written, wentClosing.wrote, wrote, toldFirst.wrote]
        rfl
      · rw [← passes]
        exact Option.some_ne_none fault
    · have silent : notices (.logged (stepOf line.number s started.log) :: calls) = [] :=
        fires.notices_eq
      rw [written, wentClosing.wrote, wrote, toldFirst.wrote, Machine.journal_writing,
        List.nil_append, notices_append, notices_append, toldFirst.notices, silent,
        wentClosing.notices, List.append_nil, List.singleton_append, List.cons_append]
      rfl
    · rw [runs]
      exact wentClosing.chip.trans chip
    · rw [runs]
      rfl
    · intro leavesLog
      rw [runs]
      refine (leaves leavesLog).trans ?_
      have logs := log_logStep leavesLog line.number s started.bare
      rw [stopsBare] at logs
      exact logs

end

/-- Step rules. Those that were asked for are called in turn, each with an interval. They are on
schedule through all runs over any lines, whatever the observers do. And if one of them raises while
a line is run, and observers only guard, the run is stopped at the statement whose step it is. -/
theorem rules_fire_and_guard (i : Interpreter ω) :
    (∀ requests : List (RuleRequest ω),
      (Hooks.none.addRules requests).rules =
          (requests.filter fun request => 0 < request.interval).map (·.rule) ∧
        ∀ rule ∈ (Hooks.none.addRules requests).rules, 0 < rule.interval) ∧
    (∀ list m, i.OnSchedule list m) ∧
    (i.hooks.Guarding → ∀ line m, ¬ AllPass (i.journalOf [.line line] m) →
      ∃ before s started logged fault, i.StoppedAt line m before s started logged fault) := by
  refine ⟨fun requests => ⟨?_, fun rule => Hooks.interval_pos_of_mem⟩, i.onSchedule, ?_⟩
  · rw [Hooks.rules_addRules]
    rfl
  · exact exists_stoppedAt

/-- An interpreter with a rule that raises at the third step and one behind it that never does.
The second one is due at that step too, and is not called. -/
def impatient : Interpreter Unit :=
  ⟨false, "<line>", Hooks.none.addRules
    [⟨1, "third", fun step m => (if step.stepIndex = 2 then .broke "enough" else .passed, m)⟩,
      ⟨2, "even", fun _ m => (.passed, m)⟩], .default⟩

/-- A line whose third step is inside of an if statement. -/
def nestedLine : Line :=
  ⟨none, [.branch none (.number none .one) [.comment none "second", .comment none "third"] none], 1⟩

/-- The rule raises in the if statement, and stops the run there. -/
theorem impatient_stopped :
    impatient.hooks.Guarding ∧ impatient.hooks.LeavesLog ∧
      ∃ before s started logged fault,
        impatient.StoppedAt nestedLine (.start (.fresh "chip") ()) before s started logged
          fault := by
  have guarding : impatient.hooks.Guarding := by
    constructor
    · intro event handler member
      exact absurd member List.not_mem_nil
    · intro rule member step m
      rcases List.mem_cons.mp member with rfl | member
      · rfl
      · rw [List.mem_singleton.mp member]
  have leaves : impatient.hooks.LeavesLog := by
    constructor
    · intro event handler member
      exact absurd member List.not_mem_nil
    · intro rule member step m
      rcases List.mem_cons.mp member with rfl | member
      · rfl
      · rw [List.mem_singleton.mp member]
  have raises : ¬ AllPass (impatient.journalOf [.line nestedLine] (.start (.fresh "chip") ())) := by
    intro pass
    have last := pass (.called 0 ⟨2, "Comment", 1, none⟩ (.broke "enough"))
    have journal : (impatient.journalOf [.line nestedLine] (.start (.fresh "chip") ())).getLast? =
        some (.called 0 ⟨2, "Comment", 1, none⟩ (.broke "enough")) := by rfl
    exact absurd (last (List.mem_of_getLast? journal)) (by simp [JournalEntry.Passes])
  exact ⟨guarding, leaves, (rules_fire_and_guard impatient).2.2 guarding nestedLine _ raises⟩

end Interpreter

end YololChip
