import Mathlib.Data.Int.CardIntervalMod
import YololChip.Proofs.Journal

/-!
# The schedule of step rules

Whatever lines are run, and on whatever chips: after each step that is logged the rules are called
that are due at it, in the order in which they were added, up to the first that raises. So as long
as none raises, a rule is called once for each logged step whose index is a multiple of its
interval, and at no other time.

If observers leave the log alone, the indices of the logged steps count up without a gap. Then the
number of calls is the number of steps over the interval, rounded up.
-/

namespace YololChip

variable {ω : Type}

/-! ### Asking for rules -/

/-- That somebody asks to be told of every step whose index is a multiple of an interval. The
interval may be any number; below one the request is refused. -/
structure RuleRequest (ω : Type) where
  interval : Int
  name : String
  run : StepNotice → Machine ω → Verdict × Machine ω

def RuleRequest.rule (request : RuleRequest ω) : StepRule ω :=
  ⟨request.interval.toNat, request.name, request.run⟩

namespace Hooks

/-- The hooks after some have asked for rules, one after the other. Who asks for no interval is
refused, and changes nothing. -/
def addRules (hooks : Hooks ω) (requests : List (RuleRequest ω)) : Hooks ω :=
  requests.foldl (fun hooks request =>
    match hooks.addRule request.interval request.name request.run with
    | .ok more => more
    | .error _ => hooks) hooks

/-- The rules are those that were asked for, in turn, less those without an interval. -/
theorem rules_addRules (hooks : Hooks ω) (requests : List (RuleRequest ω)) :
    (hooks.addRules requests).rules =
      hooks.rules ++ (requests.filter fun request => 0 < request.interval).map (·.rule) := by
  induction requests generalizing hooks with
  | nil => exact (List.append_nil _).symm
  | cons request rest inductionHypothesis =>
    rw [addRules, List.foldl_cons, ← addRules, inductionHypothesis, addRule]
    by_cases none : request.interval ≤ 0
    · rw [if_pos none, List.filter_cons_of_neg (by simpa using none)]
    · rw [if_neg none, List.filter_cons_of_pos (by simpa using none), List.map_cons,
        List.append_assoc]
      rfl

theorem interval_pos_of_mem {requests : List (RuleRequest ω)} {rule : StepRule ω}
    (member : rule ∈ ((none : Hooks ω).addRules requests).rules) : 0 < rule.interval := by
  rw [rules_addRules] at member
  obtain ⟨request, asked, rfl⟩ := List.mem_map.mp member
  have positive := (List.mem_filter.mp asked).2
  simp only [decide_eq_true_eq] at positive
  simp only [RuleRequest.rule]
  omega

end Hooks

/-! ### What a journal says of steps -/

/-- The steps that were logged, by a journal. -/
def loggedSteps (journal : List JournalEntry) : List StepNotice :=
  journal.filterMap fun
    | .logged step => some step
    | _ => none

/-- The steps at which the rule at a place was called, by a journal. How it answered is left
out. -/
def callsOf (place : Nat) (journal : List JournalEntry) : List StepNotice :=
  journal.filterMap fun
    | .called other step _ => if other = place then some step else none
    | _ => none

/-- What a journal says of the rules: all but what observers were told. Steps at which no rule
is due are in it too. -/
def ruleEntries (journal : List JournalEntry) : List JournalEntry :=
  journal.filter fun
    | .told _ => false
    | _ => true

section

variable (first second : List JournalEntry)

/-- The steps of two journals in a row are those of the first and then those of the second. -/
@[simp] theorem loggedSteps_append :
    loggedSteps (first ++ second) = loggedSteps first ++ loggedSteps second :=
  List.filterMap_append

/-- The calls of two journals in a row are those of the first and then those of the second. -/
@[simp] theorem callsOf_append (place : Nat) :
    callsOf place (first ++ second) = callsOf place first ++ callsOf place second :=
  List.filterMap_append

/-- What two journals in a row say of rules is what they say one after the other. -/
@[simp] theorem ruleEntries_append :
    ruleEntries (first ++ second) = ruleEntries first ++ ruleEntries second :=
  List.filter_append ..

end

/-- The calls at a step of those of some rules that are due, when all of them pass. They come in
the order in which the rules were asked for. -/
def dueCalls (rules : List (StepRule ω × Nat)) (step : StepNotice) : List JournalEntry :=
  (rules.filter fun placed => placed.1.Due step).map fun placed => .called placed.2 step .passed

namespace Hooks.Fires

variable {step : StepNotice} {rules : List (StepRule ω × Nat)} {calls : List JournalEntry}

theorem eq_dueCalls (fires : Fires step rules calls) (pass : AllPass calls) :
    calls = dueCalls rules step := by
  induction fires with
  | nobody => rfl
  | idle place notDue _ inductionHypothesis =>
    rw [dueCalls, List.filter_cons_of_neg (by simpa using notDue), ← dueCalls]
    exact inductionHypothesis pass
  | passes place due _ inductionHypothesis =>
    rw [dueCalls, List.filter_cons_of_pos (by simpa using due), List.map_cons, ← dueCalls,
      ← inductionHypothesis (allPass_cons.mp pass).2]
  | stops place rest due raises => exact absurd (allPass_cons.mp pass).1 raises

theorem loggedSteps_eq (fires : Fires step rules calls) : loggedSteps calls = [] := by
  induction fires with
  | nobody => rfl
  | idle _ _ _ inductionHypothesis => exact inductionHypothesis
  | passes _ _ _ inductionHypothesis => exact inductionHypothesis
  | stops => rfl

/-- Calls of rules are told by a journal as what it says of rules. -/
theorem ruleEntries_eq (fires : Fires step rules calls) : ruleEntries calls = calls := by
  induction fires with
  | nobody => rfl
  | idle _ _ _ inductionHypothesis => exact inductionHypothesis
  | passes place _ _ inductionHypothesis =>
    exact congrArg (JournalEntry.called place step .passed :: ·) inductionHypothesis
  | stops => rfl

end Hooks.Fires

/-- The calls of some rules at a step begin with that of the first, if it is due. -/
theorem dueCalls_cons (rule : StepRule ω) (place : Nat) (rest : List (StepRule ω × Nat))
    (step : StepNotice) :
    dueCalls ((rule, place) :: rest) step =
      (if rule.Due step then [.called place step .passed] else []) ++ dueCalls rest step := by
  by_cases due : rule.Due step
  · rw [if_pos due, dueCalls, List.filter_cons_of_pos (by simpa using due)]
    rfl
  · rw [if_neg due, dueCalls, List.filter_cons_of_neg (by simpa using due)]
    rfl

theorem callsOf_call (place other : Nat) (rule : StepRule ω) (step : StepNotice) :
    callsOf place (if rule.Due step then [.called other step .passed] else []) =
      if other = place ∧ rule.Due step then [step] else [] := by
  by_cases due : rule.Due step <;> by_cases its : other = place <;> simp [callsOf, due, its]

/-- Of rules that are numbered from a place on, none before that place is called. -/
theorem callsOf_dueCalls_of_lt (rules : List (StepRule ω)) (step : StepNotice) {place start : Nat}
    (before : place < start) : callsOf place (dueCalls (rules.zipIdx start) step) = [] := by
  induction rules generalizing start with
  | nil => rfl
  | cons rule rest inductionHypothesis =>
    rw [List.zipIdx_cons, dueCalls_cons, callsOf_append, callsOf_call, if_neg (by omega),
      inductionHypothesis (by omega), List.append_nil]

/-- Of rules that are numbered from a place on, each is called once if it is due. Its place
tells it from others of the same name. -/
theorem callsOf_dueCalls {rules : List (StepRule ω)} (step : StepNotice) {index : Nat}
    {rule : StepRule ω} (there : rules[index]? = some rule) (start : Nat) :
    callsOf (start + index) (dueCalls (rules.zipIdx start) step) =
      if rule.Due step then [step] else [] := by
  induction rules generalizing index start with
  | nil => contradiction
  | cons front rest inductionHypothesis =>
    rw [List.zipIdx_cons, dueCalls_cons, callsOf_append, callsOf_call]
    cases index with
    | zero =>
      obtain rfl := Option.some.inj there
      rw [callsOf_dueCalls_of_lt rest step (by omega), List.append_nil]
      simp
    | succ index =>
      have others := inductionHypothesis there (start + 1)
      rw [Nat.add_assoc, Nat.add_comm 1] at others
      rw [if_neg (by omega), others, List.nil_append]

/-! ### What a run writes of steps -/

/-- Whether all that a journal says of steps is in order: each is logged, and then the rules
fire that are due at it. Nothing is told in between. -/
inductive Accounts (rules : List (StepRule ω × Nat)) : List JournalEntry → Prop where
  | empty : Accounts rules []
  | told {journal : List JournalEntry} (earlier : Accounts rules journal) (notice : Notice) :
    Accounts rules (journal ++ [.told notice])
  | step {journal calls : List JournalEntry} {step : StepNotice}
      (earlier : Accounts rules journal) (fires : Hooks.Fires step rules calls) :
    Accounts rules (journal ++ .logged step :: calls)

namespace Accounts

variable {journal : List JournalEntry}

/-- As long as no rule raises, after each logged step all rules are called that are due at it, in
turn.

Proof: induction over the steps. -/
theorem ruleEntries_eq {rules : List (StepRule ω × Nat)} (accounts : Accounts rules journal)
    (pass : AllPass journal) :
    ruleEntries journal =
      (loggedSteps journal).flatMap fun step => .logged step :: dueCalls rules step := by
  induction accounts with
  | empty => rfl
  | told _ notice inductionHypothesis =>
    rw [ruleEntries_append, loggedSteps_append, inductionHypothesis (allPass_append.mp pass).1]
    simp [ruleEntries, loggedSteps]
  | @step _ calls step _ fires inductionHypothesis =>
    obtain ⟨passBefore, passHere⟩ := allPass_append.mp pass
    have here : ruleEntries (.logged step :: calls) = .logged step :: dueCalls rules step := by
      rw [← fires.eq_dueCalls (allPass_cons.mp passHere).2]
      exact congrArg (JournalEntry.logged step :: ·) fires.ruleEntries_eq
    have logged : loggedSteps (.logged step :: calls) = [step] :=
      congrArg (step :: ·) fires.loggedSteps_eq
    rw [ruleEntries_append, loggedSteps_append, inductionHypothesis passBefore, here, logged,
      List.flatMap_append, List.flatMap_singleton]

/-- As long as no rule raises, each is called at the logged steps at which it is due.

Proof: induction over the steps. -/
theorem callsOf_eq {rules : List (StepRule ω)} (accounts : Accounts rules.zipIdx journal)
    (pass : AllPass journal) {place : Nat} {rule : StepRule ω}
    (there : rules[place]? = some rule) :
    callsOf place journal = (loggedSteps journal).filter fun step => rule.Due step := by
  induction accounts with
  | empty => rfl
  | told _ notice inductionHypothesis =>
    rw [callsOf_append, loggedSteps_append, inductionHypothesis (allPass_append.mp pass).1]
    simp [callsOf, loggedSteps]
  | @step _ calls step _ fires inductionHypothesis =>
    obtain ⟨passBefore, passHere⟩ := allPass_append.mp pass
    have called : callsOf place (.logged step :: calls) = if rule.Due step then [step] else [] := by
      rw [fires.eq_dueCalls (allPass_cons.mp passHere).2, ← callsOf_dueCalls step there 0,
        Nat.zero_add]
      rfl
    have logged : loggedSteps (.logged step :: calls) = [step] :=
      congrArg (step :: ·) fires.loggedSteps_eq
    rw [callsOf_append, loggedSteps_append, inductionHypothesis passBefore, called, logged,
      List.filter_append]
    by_cases due : rule.Due step <;> simp [due]

end Accounts

/-! ### The log -/

/-- Whether observers leave the log alone. They may change the chip, raise, and show what they
like. -/
structure Hooks.LeavesLog (hooks : Hooks ω) : Prop where
  handlers : ∀ event, ∀ handler ∈ hooks.handlers event, ∀ notice m,
    (handler.run notice m).2.log = m.log
  rules : ∀ rule ∈ hooks.rules, ∀ step m, (rule.run step m).2.log = m.log

namespace Hooks

theorem log_tell {handlers : List (Handler ω)}
    (leaves : ∀ handler ∈ handlers, ∀ notice m, (handler.run notice m).2.log = m.log)
    (notice : Notice) (m : Machine ω) : (tell notice handlers m).2.log = m.log := by
  induction handlers generalizing m with
  | nil => rfl
  | cons handler rest inductionHypothesis =>
    have here := leaves handler List.mem_cons_self notice m
    have others := inductionHypothesis (fun other member =>
      leaves other (List.mem_cons_of_mem _ member)) (handler.run notice m).2
    rw [tell]
    simp only
    split
    · exact here
    · exact others.trans here

theorem log_tellRules {rules : List (StepRule ω)}
    (leaves : ∀ rule ∈ rules, ∀ step m, (rule.run step m).2.log = m.log)
    (step : StepNotice) (m : Machine ω) : (tellRules step rules m).2.log = m.log := by
  induction rules generalizing m with
  | nil => rfl
  | cons rule rest inductionHypothesis =>
    have others := inductionHypothesis fun other member =>
      leaves other (List.mem_cons_of_mem _ member)
    rw [tellRules]
    by_cases due : step.stepIndex % rule.interval = 0
    · have here := leaves rule List.mem_cons_self step m
      rw [if_pos due]
      simp only
      split
      · exact here
      · exact (others _).trans here
    · rw [if_neg due]
      exact others m

end Hooks

/-- Whether what was added to a log are the entries of steps, one for each: with the index of
the step, its rule, its line and its place. Entries that the limit drops later count as added. -/
def StepLog.GrewBy (before after : StepLog) (steps : List StepNotice) : Prop :=
  ∃ rs, after = before.recordAll rs ∧
    (before.made rs).map (fun entry =>
        (entry.stepIndex, entry.line, entry.loc, Bindings.find? "rule" entry.record)) =
      steps.map fun step => (step.stepIndex, step.line, step.loc, some (.text step.rule))

namespace StepLog

/-- The entries of recordings are counted on from where the log was. What the limit has dropped
is counted too. -/
theorem stepIndex_made (log : StepLog) (rs : List Recording) :
    (log.made rs).map (·.stepIndex) = List.range' log.nextIndex rs.length := by
  induction rs generalizing log with
  | nil => rfl
  | cons r rest inductionHypothesis =>
    rw [made, List.map_cons, inductionHypothesis, List.length_cons, List.range'_succ,
      nextIndex_record]
    rfl

/-- A log to which the entries of steps were added counts them without a gap. So rules that go
by the index go by the count of steps. -/
theorem GrewBy.indices {before after : StepLog} {steps : List StepNotice}
    (grew : before.GrewBy after steps) :
    steps.map (·.stepIndex) = List.range' before.nextIndex steps.length ∧
      after.nextIndex = before.nextIndex + steps.length := by
  obtain ⟨rs, rfl, fields⟩ := grew
  have lengths := congrArg List.length fields
  rw [List.length_map, List.length_map, length_made] at lengths
  have counted := congrArg (List.map Prod.fst) fields
  rw [List.map_map, List.map_map] at counted
  rw [nextIndex_recordAll, ← lengths, ← stepIndex_made]
  exact ⟨counted.symm, rfl⟩

end StepLog

namespace Interpreter

variable (i : Interpreter ω)

theorem preserves_accounts :
    i.journaled.Preserves fun m => Accounts i.hooks.rules.zipIdx m.journal where
  changed _ accounts := accounts
  told notice m accounts := by
    rw [hooks_journaled, Hooks.dispatch_journaled]
    exact .told accounts notice
  logged line s m accounts := by
    obtain ⟨calls, fires, logs, _⟩ := i.logStep_journaled line s m
    rw [logs]
    exact .step accounts fires

variable {i}

/-- If observers leave the log alone, the start of a statement adds its entry and nothing else. -/
theorem log_logStep (leaves : i.hooks.LeavesLog) (line : Int) (s : Stmt) (m : Machine ω) :
    (i.logStep line s m).2.log = m.log.record (i.recording line (s, m.chip)) :=
  Hooks.log_tellRules leaves.rules _ _

/-- If observers leave the log alone, every part of a run adds the entries of its steps. -/
theorem preserves_grewBy (leaves : i.hooks.LeavesLog) (before : StepLog) :
    i.journaled.Preserves fun m => before.GrewBy m.log (loggedSteps m.journal) where
  changed _ grew := grew
  told notice m grew := by
    have same := Hooks.log_tell (leaves.handlers notice.event) notice m.bare
    rw [hooks_journaled, Hooks.dispatch_journaled, Machine.log_writing, Machine.journal_writing,
      loggedSteps_append, Hooks.dispatch, same]
    exact (List.append_nil (loggedSteps m.journal)).symm ▸ grew
  logged line s m grew := by
    obtain ⟨calls, fires, logs, _⟩ := i.logStep_journaled line s m
    obtain ⟨rs, earlier, fields⟩ := grew
    have logged : loggedSteps (.logged (stepOf line s m.log) :: calls) = [stepOf line s m.log] :=
      congrArg (stepOf line s m.log :: ·) fires.loggedSteps_eq
    rw [logs, Machine.log_writing, Machine.journal_writing, loggedSteps_append, logged,
      log_logStep leaves]
    refine ⟨rs ++ [i.recording line (s, m.chip)], ?_, ?_⟩
    · rw [StepLog.recordAll_append, ← earlier]
      rfl
    · have records := m.log.entryOf_records (i.recording line (s, m.chip))
      have named := records.others "rule" (by decide) (by decide)
      rw [StepLog.made_append, List.map_append, fields, List.map_append, ← earlier, StepLog.made,
        StepLog.made, List.map_singleton, named]
      rfl

end Interpreter

/-! ### Runs over any lines -/

/-- What an interpreter is used for: a call, a line that was read before, or another chip to go
on with. The log and the observers go on through all of these. -/
inductive Errand where
  | call (call : Call)
  | line (line : Line)
  | turn (chip : Chip)

namespace Interpreter

def errand (i : Interpreter ω) : Errand → Machine ω → Machine ω
  | .call call, m => (i.call call m).2
  | .line line, m => (i.runLine line m).2
  | .turn chip, m => { m with chip }

def errands (i : Interpreter ω) (errands : List Errand) (m : Machine ω) : Machine ω :=
  errands.foldl (fun m errand => i.errand errand m) m

theorem Preserves.errands {i : Interpreter ω} {kept : Machine ω → Prop}
    (preserves : i.Preserves kept) (list : List Errand) {m : Machine ω} (holds : kept m) :
    kept (i.errands list m) := by
  induction list generalizing m with
  | nil => exact holds
  | cons first rest inductionHypothesis =>
    refine inductionHypothesis ?_
    match first with
    | .call (.line text) => exact preserves.executeLine holds text
    | .call (.tick p) => exact preserves.step holds p
    | .line line => exact preserves.runLine holds line
    | .turn chip => exact preserves.changed chip holds

/-- Errands are run alike by interpreters whose runs stay side by side. Putting another chip in
is done on both sides. -/
theorem Simulates.errands {ν : Type} {related : Machine ν → Machine ω → Prop}
    {j : Interpreter ν} {i : Interpreter ω} (simulates : j.Simulates related i)
    (list : List Errand) {m : Machine ν} {n : Machine ω} (alike : related m n) :
    related (j.errands list m) (i.errands list n) := by
  induction list generalizing m n with
  | nil => exact alike
  | cons first rest inductionHypothesis =>
    refine inductionHypothesis ?_
    match first with
    | .call (.line text) => exact (simulates.executeLine text alike).related
    | .call (.tick p) => exact (simulates.step p alike).related
    | .line line => exact (simulates.runLine line alike).related
    | .turn chip => exact simulates.changed chip alike

def journalOf (i : Interpreter ω) (list : List Errand) (m : Machine ω) : List JournalEntry :=
  (i.journaled.errands list (m.writing [])).journal

/-- Whether the rules are on schedule through errands, by their journal. It is a journal of what
happens without it too. After each step that is logged the rules fire that are due at it. As long
as none raises, all that are due are called, in turn, so each is called once for each step at which
it is due. If observers leave the log alone, the steps are the entries that are added to it; and so
many calls come of the first steps as their number over the interval, rounded up. -/
structure OnSchedule (i : Interpreter ω) (list : List Errand) (m : Machine ω) : Prop where
  same : (i.journaled.errands list (m.writing [])).bare = i.errands list m
  fires : Accounts i.hooks.rules.zipIdx (i.journalOf list m)
  inTurn : AllPass (i.journalOf list m) →
    ruleEntries (i.journalOf list m) = (loggedSteps (i.journalOf list m)).flatMap fun step =>
      .logged step :: dueCalls i.hooks.rules.zipIdx step
  called : AllPass (i.journalOf list m) → ∀ place rule, i.hooks.rules[place]? = some rule →
    callsOf place (i.journalOf list m) =
      (loggedSteps (i.journalOf list m)).filter fun step => step.stepIndex % rule.interval = 0
  logged : i.hooks.LeavesLog →
    m.log.GrewBy (i.errands list m).log (loggedSteps (i.journalOf list m))
  counted : i.hooks.LeavesLog → AllPass (i.journalOf list m) → m.log.nextIndex = 0 →
    ∀ place rule, i.hooks.rules[place]? = some rule → 0 < rule.interval →
      ((callsOf place (i.journalOf list m)).length : Int) =
        ⌈((i.errands list m).log.nextIndex : ℚ) / rule.interval⌉

/-- Of the first steps, so many are multiples of an interval as their number over the interval,
rounded up. -/
theorem length_filter_due {steps : List StepNotice}
    (counted : steps.map (·.stepIndex) = List.range' 0 steps.length) {interval : Nat}
    (positive : 0 < interval) :
    ((steps.filter fun step => step.stepIndex % interval = 0).length : Int) =
      ⌈(steps.length : ℚ) / interval⌉ := by
  have indices : (steps.filter fun step => step.stepIndex % interval = 0).length =
      ((List.range steps.length).filter fun k => k % interval = 0).length := by
    rw [List.range_eq_range', ← counted, List.filter_map, List.length_map]
    rfl
  have multiples : ((List.range steps.length).filter fun k => k % interval = 0).length =
      Nat.count (· ≡ 0 [MOD interval]) steps.length := by
    rw [← List.countP_eq_length_filter, Nat.count]
    refine List.countP_congr fun k _ => ?_
    rw [decide_eq_true_iff, decide_eq_true_iff, Nat.ModEq, Nat.zero_mod]
  rw [indices, multiples, Nat.count_modEq_card_eq_ceil _ positive]
  simp

theorem onSchedule (i : Interpreter ω) (list : List Errand) (m : Machine ω) :
    i.OnSchedule list m := by
  have same : (i.journaled.errands list (m.writing [])).bare = i.errands list m :=
    i.simulates_journaled.errands list rfl
  have fires : Accounts i.hooks.rules.zipIdx (i.journalOf list m) :=
    i.preserves_accounts.errands list (m := m.writing []) .empty
  have logged (leaves : i.hooks.LeavesLog) :
      m.log.GrewBy (i.errands list m).log (loggedSteps (i.journalOf list m)) := by
    rw [← same]
    exact (preserves_grewBy leaves m.log).errands list (m := m.writing []) ⟨[], rfl, rfl⟩
  have called (pass : AllPass (i.journalOf list m)) (place : Nat) (rule : StepRule ω)
      (there : i.hooks.rules[place]? = some rule) := fires.callsOf_eq pass there
  refine ⟨same, fires, fires.ruleEntries_eq, called, logged, ?_⟩
  intro leaves pass fresh place rule there positive
  obtain ⟨indices, next⟩ := (logged leaves).indices
  rw [fresh] at indices next
  rw [called pass place rule there, next, Nat.zero_add]
  exact length_filter_due indices positive

end Interpreter

end YololChip
