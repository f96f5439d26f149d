import YololChip.Proofs.Entries

/-!
# Runs side by side

Two interpreters that run lines of one name with one table of operators differ in their hooks
alone. If the hooks of both answer alike whenever the machines are related, and leave related
machines, then all runs from related machines end alike and leave related machines.

With one interpreter on both sides this is the way to what holds on through its runs: whatever its
hooks keep, and the logging of a step, is kept by every run.
-/

namespace YololChip

variable {ω ν : Type}

/-- Whether two runs return the same and leave related machines. A run that tells its observers
something else may still end alike. -/
inductive EndAlike {α : Type} (related : Machine ν → Machine ω → Prop) :
    α × Machine ν → α × Machine ω → Prop where
  | both (result : α) {m : Machine ν} {n : Machine ω} (alike : related m n) :
    EndAlike related (result, m) (result, n)

theorem EndAlike.related {α : Type} {related : Machine ν → Machine ω → Prop}
    {first : α × Machine ν} {second : α × Machine ω} (ends : EndAlike related first second) :
    related first.2 second.2 := by
  obtain ⟨result, alike⟩ := ends
  exact alike

namespace Interpreter

/-- Whether the runs of two interpreters stay side by side: related machines have one chip, and
logs that give a fault one place and one step; they are still related when the chip is changed
in both; and the hooks of both answer alike to what they are told. These are asked for each part
of a run by itself, and carry over to all runs. -/
structure Simulates (related : Machine ν → Machine ω → Prop) (j : Interpreter ν)
    (i : Interpreter ω) : Prop where
  operators : j.operators = i.operators
  file : j.file = i.file
  chips : ∀ {m n}, related m n → m.chip = n.chip
  places : ∀ (line : Line) (error : EvalError) {m n}, related m n →
    placed line m.log error = placed line n.log error
  changed : ∀ {m n} (chip : Chip), related m n → related { m with chip } { n with chip }
  told : ∀ (notice : Notice) {m n}, related m n →
    EndAlike related (j.hooks.dispatch notice m) (i.hooks.dispatch notice n)
  logged : ∀ (line : Int) (s : Stmt) {m n}, related m n →
    EndAlike related (j.logStep line s m) (i.logStep line s n)

namespace Simulates

variable {related : Machine ν → Machine ω → Prop} {j : Interpreter ν} {i : Interpreter ω}
  (simulates : j.Simulates related i)

include simulates

theorem withValue (e : Expr) {m : Machine ν} {n : Machine ω} (alike : related m n)
    {next : Value → Machine ν → Ending × Machine ν} {other : Value → Machine ω → Ending × Machine ω}
    (goesOn : ∀ value {m n}, related m n → EndAlike related (next value m) (other value n)) :
    EndAlike related (j.withValue e m next) (i.withValue e n other) := by
  unfold Interpreter.withValue
  rw [simulates.operators, simulates.chips alike]
  rcases evaluate i.operators e n.chip with ⟨error | value, chip⟩
  · exact .both _ (simulates.changed chip alike)
  · exact goesOn value (simulates.changed chip alike)

theorem store (loc : Option Location) (target : Variable) (op : AssignOperator) (value : Value)
    {m : Machine ν} {n : Machine ω} (alike : related m n) :
    EndAlike related (j.store loc target op value m) (i.store loc target op value n) := by
  unfold Interpreter.store
  rw [simulates.operators, simulates.chips alike]
  cases op.binary? with
  | none => exact .both _ (simulates.changed _ alike)
  | some binary =>
    simp only
    cases i.operators.applyBinary binary (n.chip.read target) value with
    | error cause => exact .both _ alike
    | ok result => exact .both _ (simulates.changed _ alike)

theorem jump (loc : Option Location) (value : Value) {m : Machine ν} {n : Machine ω}
    (alike : related m n) :
    EndAlike related (Interpreter.jump loc value m) (Interpreter.jump loc value n) := by
  cases value with
  | num a =>
    unfold Interpreter.jump
    rw [simulates.chips alike]
    exact .both _ (simulates.changed _ alike)
  | str s => exact .both _ alike

mutual

theorem runStatement (line : Int) (s : Stmt) {m : Machine ν} {n : Machine ω}
    (alike : related m n) :
    EndAlike related (j.runStatement line s m) (i.runStatement line s n) := by
  have logged := simulates.logged line s alike
  rw [Interpreter.runStatement, Interpreter.runStatement]
  generalize j.logStep line s m = first at logged ⊢
  generalize i.logStep line s n = second at logged ⊢
  obtain ⟨_ | fault, alike⟩ := logged
  · match s with
    | .comment _ _ => exact .both _ alike
    | .expression _ value => exact simulates.withValue value alike fun _ _ _ alike => .both _ alike
    | .assign loc target op value =>
      cases target with
      | var _ target =>
        exact simulates.withValue value alike fun value _ _ =>
          simulates.store loc target op value
      | _ => exact .both _ alike
    | .jump loc target =>
      exact simulates.withValue target alike fun value _ _ => simulates.jump loc value
    | .branch _ condition body otherwise =>
      apply simulates.withValue condition alike
      intro value m n alike
      by_cases isFalse : value.isFalse = true
      · rw [if_pos isFalse, if_pos isFalse]
        match otherwise with
        | none => exact .both _ alike
        | some block => exact runBlock line block alike
      · rw [if_neg isFalse, if_neg isFalse]
        exact runBlock line body alike
  · exact .both _ alike

theorem runBlock (line : Int) (block : List Stmt) {m : Machine ν} {n : Machine ω}
    (alike : related m n) :
    EndAlike related (j.runBlock line block m) (i.runBlock line block n) := by
  match block with
  | [] =>
    rw [Interpreter.runBlock, Interpreter.runBlock]
    exact .both _ alike
  | s :: rest =>
    have started := simulates.told (.statementStarted s) alike
    rw [Interpreter.runBlock, Interpreter.runBlock]
    generalize j.hooks.dispatch (.statementStarted s) m = first at started ⊢
    generalize i.hooks.dispatch (.statementStarted s) n = second at started ⊢
    obtain @⟨_ | fault, started, startedToo, alike⟩ := started
    · have ran := runStatement line s alike
      simp only
      generalize j.runStatement line s started = first at ran ⊢
      generalize i.runStatement line s startedToo = second at ran ⊢
      obtain @⟨_ | target | fault, left, leftToo, alike⟩ := ran
      · have finished := simulates.told (.statementFinished s) alike
        simp only
        generalize j.hooks.dispatch (.statementFinished s) left = first at finished ⊢
        generalize i.hooks.dispatch (.statementFinished s) leftToo = second at finished ⊢
        obtain ⟨_ | fault, alike⟩ := finished
        · exact runBlock line rest alike
        · exact .both _ alike
      · exact .both _ alike
      · exact .both _ alike
    · exact .both _ alike

end

theorem runLine (line : Line) {m : Machine ν} {n : Machine ω} (alike : related m n) :
    EndAlike related (j.runLine line m) (i.runLine line n) := by
  have started := simulates.told (.lineStarted line) alike
  rw [Interpreter.runLine, Interpreter.runLine]
  generalize j.hooks.dispatch (.lineStarted line) m = first at started ⊢
  generalize i.hooks.dispatch (.lineStarted line) n = second at started ⊢
  obtain @⟨_ | fault, started, startedToo, alike⟩ := started
  · have ran := simulates.runBlock line.number line.statements alike
    simp only
    generalize j.runBlock line.number line.statements started = first at ran ⊢
    generalize i.runBlock line.number line.statements startedToo = second at ran ⊢
    obtain @⟨_ | target | fault, left, leftToo, alike⟩ := ran
    · exact simulates.told (.lineFinished line) alike
    · have jumped := simulates.told (.jumped target) alike
      simp only
      generalize j.hooks.dispatch (.jumped target) left = first at jumped ⊢
      generalize i.hooks.dispatch (.jumped target) leftToo = second at jumped ⊢
      obtain ⟨_ | fault, alike⟩ := jumped
      · exact simulates.told (.lineFinished line) alike
      · exact .both _ alike
    · cases fault with
      | eval error =>
        have failed := simulates.told (.failed (.eval (placed line left.log error))) alike
        simp only [report]
        rw [← simulates.places line error alike]
        generalize j.hooks.dispatch (.failed (.eval (placed line left.log error))) left = first
          at failed ⊢
        generalize i.hooks.dispatch (.failed (.eval (placed line left.log error))) leftToo = second
          at failed ⊢
        obtain ⟨_ | fault, alike⟩ := failed
        · exact .both _ alike
        · exact .both _ alike
      | source | document | hook | plain => exact .both _ alike
  · exact .both _ alike

/-- A line runs alike on both sides with its fault recorded. -/
theorem runRecorded (line : Line) {m : Machine ν} {n : Machine ω} (alike : related m n) :
    EndAlike related (j.runRecorded line m) (i.runRecorded line n) := by
  have ran := simulates.runLine line alike
  rw [Interpreter.runRecorded, Interpreter.runRecorded]
  generalize j.runLine line m = first at ran ⊢
  generalize i.runLine line n = second at ran ⊢
  obtain @⟨_ | fault, left, leftToo, alike⟩ := ran
  · exact .both _ alike
  · simp only [recordError]
    rw [simulates.chips alike]
    split
    · exact .both _ (simulates.changed _ alike)
    · exact .both _ alike

theorem answerUnread {α : Type} (error : SourceError) (answer : α) {m : Machine ν}
    {n : Machine ω} (alike : related m n) :
    EndAlike related (j.answerUnread error answer m) (i.answerUnread error answer n) := by
  have told := simulates.told (.failed (.source error)) alike
  unfold Interpreter.answerUnread
  generalize j.hooks.dispatch (.failed (.source error)) m = first at told ⊢
  generalize i.hooks.dispatch (.failed (.source error)) n = second at told ⊢
  obtain ⟨_ | fault, alike⟩ := told
  · exact .both _ alike
  · exact .both _ alike

/-- Machines past a line that is refused are still related. The error and the line are of the
chip, which is changed on both sides alike. -/
theorem passOver (error : SourceError) {m : Machine ν} {n : Machine ω} (alike : related m n) :
    related (m.passOver error) (n.passOver error) := by
  unfold Machine.passOver
  rw [simulates.chips alike]
  exact simulates.changed _ alike

theorem executeLine (text : String) {m : Machine ν} {n : Machine ω} (alike : related m n) :
    EndAlike related (j.executeLine text m) (i.executeLine text n) := by
  have reading : Line.parse text j.file m.chip.nextLine =
      Line.parse text i.file n.chip.nextLine := by
    rw [simulates.file, simulates.chips alike]
  cases read : Line.parse text i.file n.chip.nextLine with
  | ok line =>
    rw [executeLine_of_ok (reading.trans read), executeLine_of_ok read]
    exact simulates.runRecorded line alike
  | error fault =>
    cases fault with
    | refused error =>
      rw [executeLine_of_error (reading.trans read), executeLine_of_error read]
      exact simulates.answerUnread error false (simulates.passOver error alike)
    | overlong digits =>
      rw [executeLine_of_overlong (reading.trans read), executeLine_of_overlong read]
      exact .both _ alike

theorem step (p : Program) {m : Machine ν} {n : Machine ω} (alike : related m n) :
    EndAlike related (j.step p m) (i.step p n) := by
  have chips := simulates.chips alike
  cases unread : p.error? n.chip.nextLine with
  | none =>
    rw [step_of_none ((congrArg (fun chip => p.error? chip.nextLine) chips).trans unread),
      step_of_none unread, chips]
    have ran := simulates.runRecorded (p.line n.chip.nextLine)
      (simulates.changed n.chip.advance alike)
    generalize j.runRecorded _ _ = first at ran ⊢
    generalize i.runRecorded _ _ = second at ran ⊢
    obtain ⟨result, alike⟩ := ran
    exact .both _ alike
  | some error =>
    rw [step_of_some ((congrArg (fun chip => p.error? chip.nextLine) chips).trans unread),
      step_of_some unread, chips]
    exact simulates.answerUnread error _ (simulates.passOver error alike)

end Simulates

/-! ### One interpreter -/

/-- Whether a property of machines is kept by all that a run is made of: changes of the chip,
what the hooks do when they are told something, and the logging of a step. A property that
depends on the chip is seldom kept, because any change of it counts. -/
structure Preserves (i : Interpreter ω) (kept : Machine ω → Prop) : Prop where
  changed : ∀ {m} (chip : Chip), kept m → kept { m with chip }
  told : ∀ (notice : Notice) {m}, kept m → kept (i.hooks.dispatch notice m).2
  logged : ∀ (line : Int) (s : Stmt) {m}, kept m → kept (i.logStep line s m).2

namespace Preserves

variable {i : Interpreter ω} {kept : Machine ω → Prop}

/-- What is related to itself as long as a property holds stays so. An invariant of one
interpreter is thus a case of two that stay side by side. -/
theorem simulates (preserves : i.Preserves kept) :
    i.Simulates (fun m n => m = n ∧ kept m) i where
  operators := rfl
  file := rfl
  chips alike := congrArg Machine.chip alike.1
  places line error m n alike := by rw [alike.1]
  changed chip alike := by
    obtain ⟨rfl, holds⟩ := alike
    exact ⟨rfl, preserves.changed chip holds⟩
  told notice m n alike := by
    obtain ⟨rfl, holds⟩ := alike
    exact .both _ ⟨rfl, preserves.told notice holds⟩
  logged line s m n alike := by
    obtain ⟨rfl, holds⟩ := alike
    exact .both _ ⟨rfl, preserves.logged line s holds⟩

variable (preserves : i.Preserves kept) {m : Machine ω} (holds : kept m)

include preserves holds

theorem runLine (line : Line) : kept (i.runLine line m).2 :=
  (preserves.simulates.runLine line ⟨rfl, holds⟩).related.2

theorem executeLine (text : String) : kept (i.executeLine text m).2 :=
  (preserves.simulates.executeLine text ⟨rfl, holds⟩).related.2

theorem step (p : Program) : kept (i.step p m).2 :=
  (preserves.simulates.step p ⟨rfl, holds⟩).related.2

end Preserves

end Interpreter

end YololChip
