import YololChip.Proofs.Simulation

/-!
# Recording what observers are told

A recorder is told of every event before all other handlers, and keeps the notices. It changes
nothing else: without what it kept, every run with a recorder is the run without it, whatever
the other observers do.
-/

namespace YololChip

variable {ω : Type}

namespace Machine

def plain (m : Machine (ω × List Notice)) : Machine ω := ⟨m.chip, m.log, m.observer.1⟩

def heard (m : Machine (ω × List Notice)) : List Notice := m.observer.2

def hearing (m : Machine ω) (heard : List Notice) : Machine (ω × List Notice) :=
  ⟨m.chip, m.log, (m.observer, heard)⟩

@[simp] theorem plain_hearing (m : Machine ω) (heard : List Notice) :
    (m.hearing heard).plain = m := rfl

end Machine

def withoutRecorder {α : Type} (ended : α × Machine (ω × List Notice)) : α × Machine ω :=
  (ended.1, ended.2.plain)

namespace Hooks

/-- An observer that takes no notice of the recorder beside it. It is run on the machine without
the recorder, and what was heard is put back. -/
def besideRecorder {ν : Type} (run : ν → Machine ω → Verdict × Machine ω) (notice : ν)
    (m : Machine (ω × List Notice)) : Verdict × Machine (ω × List Notice) :=
  let (verdict, after) := run notice m.plain
  (verdict, after.hearing m.heard)

/-- The handler that keeps all that it is told. It passes always and touches nothing of the
machine beneath it. -/
def recorder : Handler (ω × List Notice) :=
  ⟨0, "recorder", fun notice m => (.passed, m.plain.hearing (m.heard ++ [notice]))⟩

/-- The hooks with a recorder that is told of every event before all others. -/
def recorded (hooks : Hooks ω) : Hooks (ω × List Notice) where
  handlers event := recorder ::
    (hooks.handlers event).map fun handler =>
      ⟨handler.priority, handler.name, besideRecorder handler.run⟩
  rules := hooks.rules.map fun rule => ⟨rule.interval, rule.name, besideRecorder rule.run⟩

/-! ### A recorder changes nothing -/

/-- Handlers beside a recorder do what they do without it, and it hears nothing of them. -/
theorem tell_besideRecorder (notice : Notice) (handlers : List (Handler ω))
    (m : Machine (ω × List Notice)) :
    tell notice (handlers.map fun handler =>
        ⟨handler.priority, handler.name, besideRecorder handler.run⟩) m =
      ((tell notice handlers m.plain).1, (tell notice handlers m.plain).2.hearing m.heard) := by
  induction handlers generalizing m with
  | nil => rfl
  | cons handler rest inductionHypothesis =>
    obtain ⟨priority, name, run⟩ := handler
    rw [List.map_cons, tell, tell]
    simp only [besideRecorder]
    rcases run notice m.plain with ⟨verdict, after⟩
    simp only
    cases faultOf (.handlerBroke notice.event) verdict with
    | some fault => rfl
    | none => exact inductionHypothesis (after.hearing m.heard)

/-- The recorder hears of an event, and all others do what they do without it. It stands before
them, so it hears also of what one of them refuses. -/
theorem dispatch_recorded (hooks : Hooks ω) (notice : Notice) (m : Machine (ω × List Notice)) :
    hooks.recorded.dispatch notice m =
      ((hooks.dispatch notice m.plain).1,
        (hooks.dispatch notice m.plain).2.hearing (m.heard ++ [notice])) :=
  tell_besideRecorder notice (hooks.handlers notice.event) (m.plain.hearing (m.heard ++ [notice]))

/-- Rules beside a recorder do what they do without it, and it hears nothing of them. -/
theorem tellRules_recorded (notice : StepNotice) (rules : List (StepRule ω))
    (m : Machine (ω × List Notice)) :
    tellRules notice (rules.map fun rule =>
        ⟨rule.interval, rule.name, besideRecorder rule.run⟩) m =
      ((tellRules notice rules m.plain).1,
        (tellRules notice rules m.plain).2.hearing m.heard) := by
  induction rules generalizing m with
  | nil => rfl
  | cons rule rest inductionHypothesis =>
    obtain ⟨interval, name, run⟩ := rule
    rw [List.map_cons, tellRules, tellRules]
    by_cases due : notice.stepIndex % interval = 0
    · rw [if_pos due, if_pos due]
      simp only [besideRecorder]
      rcases run notice m.plain with ⟨verdict, after⟩
      simp only
      cases faultOf (.ruleBroke (if name.isEmpty then notice.rule else name)) verdict with
      | some fault => rfl
      | none => exact inductionHypothesis (after.hearing m.heard)
    · rw [if_neg due, if_neg due]
      exact inductionHypothesis m

end Hooks

namespace Interpreter

/-- The interpreter with a recorder that is told of every event before all others. -/
def recorded (i : Interpreter ω) : Interpreter (ω × List Notice) :=
  ⟨i.verbose, i.file, i.hooks.recorded, i.operators⟩

@[simp] theorem hooks_recorded (i : Interpreter ω) : i.recorded.hooks = i.hooks.recorded := rfl

variable (i : Interpreter ω)

/-- The start of a statement is logged with a recorder as without it. -/
theorem logStep_recorded (line : Int) (s : Stmt) (m : Machine (ω × List Notice)) :
    i.recorded.logStep line s m =
      ((i.logStep line s m.plain).1, (i.logStep line s m.plain).2.hearing m.heard) :=
  Hooks.tellRules_recorded _ i.hooks.rules _

theorem simulates_recorded : i.recorded.Simulates (fun m n => m.plain = n) i where
  operators := rfl
  file := rfl
  chips := by
    rintro m _ rfl
    rfl
  places := by
    rintro line error m _ rfl
    rfl
  changed := by
    rintro m _ chip rfl
    rfl
  told := by
    rintro notice m _ rfl
    rw [hooks_recorded, Hooks.dispatch_recorded]
    exact .both _ rfl
  logged := by
    rintro line s m _ rfl
    rw [logStep_recorded]
    exact .both _ rfl

/-- A run beside one without a recorder is that one without what the recorder heard. -/
theorem withoutRecorder_of_endAlike {α : Type} {first : α × Machine (ω × List Notice)}
    {second : α × Machine ω} (ends : EndAlike (fun m n => m.plain = n) first second) :
    withoutRecorder first = second := by
  obtain ⟨result, rfl⟩ := ends
  rfl

theorem runBlock_withoutRecorder (line : Int) (block : List Stmt)
    (m : Machine (ω × List Notice)) :
    withoutRecorder (i.recorded.runBlock line block m) = i.runBlock line block m.plain :=
  withoutRecorder_of_endAlike (i.simulates_recorded.runBlock line block rfl)

theorem runLine_withoutRecorder (line : Line) (m : Machine (ω × List Notice)) :
    withoutRecorder (i.recorded.runLine line m) = i.runLine line m.plain :=
  withoutRecorder_of_endAlike (i.simulates_recorded.runLine line rfl)

end Interpreter

end YololChip
