import YololChip.Proofs.Locality

/-!
# Observation changes nothing

Whether log entries hold snapshots, what was logged before, and observers that only watch have no
part in what an interpreter answers nor in what it does to a chip. So an interpreter that lives
through many calls cannot be told from one that is made for each of them.
-/

namespace YololChip

/-- What an interpreter is called for: a line of source, or a tick of a program. -/
inductive Call where
  | line (text : String)
  | tick (program : Program)

/-- What a call returns. A call that raises has that for its answer. -/
inductive Answer where
  | ran (result : Except Raised Bool)
  | ticked (result : Except Raised Int)

namespace Interpreter

variable {ω ν : Type}

/-- Answers a call. The two kinds of calls may follow each other on one machine in any order. -/
def call (i : Interpreter ω) : Call → Machine ω → Answer × Machine ω
  | .line text, m => (.ran (i.executeLine text m).1, (i.executeLine text m).2)
  | .tick p, m => (.ticked (i.step p m).1, (i.step p m).2)

/-- Answers calls, one after the other. The results are the answers, each with the chip that the
call left. The logs and what observers show are left out. -/
def calls (i : Interpreter ω) : List Call → Machine ω → List (Answer × Chip)
  | [], _ => []
  | first :: rest, m =>
    ((i.call first m).1, (i.call first m).2.chip) :: i.calls rest (i.call first m).2

/-- Whether two interpreters run lines of one name with one table of operators, under observers
that only watch. They may log differently and have different observers. -/
structure Matches (i : Interpreter ω) (j : Interpreter ν) : Prop where
  watching : i.hooks.Watching
  watchingToo : j.hooks.Watching
  file : i.file = j.file
  operators : i.operators = j.operators

/-- Whether two runs return the same and leave the same chip. Their machines may be of different
kinds. -/
def SameEnd {α : Type} (first : α × Machine ω) (second : α × Machine ν) : Prop :=
  first.1 = second.1 ∧ first.2.chip = second.2.chip

variable {i : Interpreter ω} {j : Interpreter ν}

theorem Matches.runRecorded (alike : i.Matches j) (line : Line) {m : Machine ω} {n : Machine ν}
    (same : m.chip = n.chip) : SameEnd (i.runRecorded line m) (j.runRecorded line n) := by
  obtain ⟨after, runs, left⟩ := runRecorded_of_watching alike.watching line m
  obtain ⟨afterToo, runsToo, leftToo⟩ := runRecorded_of_watching alike.watchingToo line n
  rw [runs, runsToo]
  constructor
  · rw [alike.operators, same]
  · rw [left, leftToo, alike.operators, same]

/-- Observers that watch answer nothing to a line that is refused. -/
theorem answerUnread_of_watching {α : Type} (watching : i.hooks.Watching) (error : SourceError)
    (answer : α) (m : Machine ω) :
    ∃ after, i.answerUnread error answer m = (.ok answer, after) ∧ after.chip = m.chip := by
  obtain ⟨after, told, same⟩ := watching.dispatch (.failed (.source error)) m
  exact ⟨after, by rw [answerUnread, told], same⟩

/-- Interpreters that match do the same with a line that is refused. -/
theorem Matches.answerUnread {α : Type} (alike : i.Matches j) (error : SourceError) (answer : α)
    {m : Machine ω} {n : Machine ν} (same : m.chip = n.chip) :
    SameEnd (i.answerUnread error answer (m.passOver error))
      (j.answerUnread error answer (n.passOver error)) := by
  obtain ⟨after, answers, left⟩ :=
    answerUnread_of_watching alike.watching error answer (m.passOver error)
  obtain ⟨afterToo, answersToo, leftToo⟩ :=
    answerUnread_of_watching alike.watchingToo error answer (n.passOver error)
  rw [answers, answersToo]
  refine ⟨rfl, ?_⟩
  rw [left, leftToo, Machine.passOver, Machine.passOver, same]

/-- Interpreters that match do the same with a line of source. The names of their logs and the
states of their observers do not matter. -/
theorem Matches.executeLine (alike : i.Matches j) (text : String) {m : Machine ω}
    {n : Machine ν} (same : m.chip = n.chip) :
    SameEnd (i.executeLine text m) (j.executeLine text n) := by
  have reading : Line.parse text j.file n.chip.nextLine =
      Line.parse text i.file m.chip.nextLine := by
    rw [alike.file, same]
  cases read : Line.parse text i.file m.chip.nextLine with
  | ok line =>
    rw [executeLine_of_ok read, executeLine_of_ok (reading.trans read)]
    exact alike.runRecorded line same
  | error fault =>
    cases fault with
    | refused error =>
      rw [executeLine_of_error read, executeLine_of_error (reading.trans read)]
      exact alike.answerUnread error false same
    | overlong digits =>
      rw [executeLine_of_overlong read, executeLine_of_overlong (reading.trans read)]
      exact ⟨rfl, same⟩

theorem Matches.step (alike : i.Matches j) (p : Program) {m : Machine ω} {n : Machine ν}
    (same : m.chip = n.chip) : SameEnd (i.step p m) (j.step p n) := by
  obtain ⟨after, steps, left⟩ := step_of_watching alike.watching p m
  obtain ⟨afterToo, stepsToo, leftToo⟩ := step_of_watching alike.watchingToo p n
  rw [steps, stepsToo]
  constructor
  · rw [alike.operators, same]
  · rw [left, leftToo, alike.operators, same]

/-- Interpreters that match answer calls alike and leave the same chip after each.

Proof: induction over the calls. -/
theorem Matches.calls (alike : i.Matches j) (calls : List Call) {m : Machine ω} {n : Machine ν}
    (same : m.chip = n.chip) : i.calls calls m = j.calls calls n := by
  induction calls generalizing m n with
  | nil => rfl
  | cons first rest inductionHypothesis =>
    have ends : SameEnd (i.call first m) (j.call first n) := by
      cases first with
      | line text =>
        obtain ⟨result, left⟩ := alike.executeLine text same
        exact ⟨congrArg Answer.ran result, left⟩
      | tick p =>
        obtain ⟨result, left⟩ := alike.step p same
        exact ⟨congrArg Answer.ticked result, left⟩
    rw [Interpreter.calls, Interpreter.calls, ends.1, ends.2, inductionHypothesis ends.2]

end Interpreter

/-- Executes lines of source, each by itself and each on the chip that the one before it left. -/
def executeLines : List String → Chip → List (Except Raised Bool × Chip)
  | [], _ => []
  | text :: rest, chip => executeLine text chip :: executeLines rest (executeLine text chip).2

/-- An interpreter under the name that lines have by themselves answers lines as if each were
executed by itself.

Proof: induction over the lines. -/
theorem Interpreter.Matches.executeLines {ω : Type} {i : Interpreter ω} (alike : i.Matches plain)
    (texts : List String) (m : Machine ω) :
    i.calls (texts.map .line) m =
      (executeLines texts m.chip).map fun ended => (.ran ended.1, ended.2) := by
  induction texts generalizing m with
  | nil => rfl
  | cons text rest inductionHypothesis =>
    obtain ⟨result, left⟩ := alike.executeLine text (n := .start m.chip ()) rfl
    have alone : YololChip.executeLine text m.chip =
        ((i.executeLine text m).1, (i.executeLine text m).2.chip) := by
      rw [result, left]
      rfl
    rw [List.map_cons, Interpreter.calls, YololChip.executeLines, List.map_cons, alone,
      inductionHypothesis]
    rfl

end YololChip
