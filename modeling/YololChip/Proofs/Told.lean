import YololChip.Proofs.Announcements
import YololChip.Proofs.Cursor
import YololChip.Proofs.Recorder

/-!
# What observers are told of lines

Under observers that only watch, statements run as the rules of execution have it, and observers
are told what those rules say that they are told. A line is announced when it starts; then come
the notices of its statements; and then it ends in one of three ways. It is finished, or
a goto is told of and then it is finished, or its fault is told of.
-/

namespace YololChip

variable {ω : Type} {i : Interpreter ω}

def Finish.ending : Finish → Ending
  | completed => .done
  | jumped target => .jumped (Chip.targetLine target)
  | failed error => .failed (.eval error)

namespace Interpreter

theorem withValue_of_ok {e : Expr} {m : Machine ω} {value : Value} {after : Chip}
    (evaluated : evaluate i.operators e m.chip = (.ok value, after))
    (next : Value → Machine ω → Ending × Machine ω) :
    i.withValue e m next = next value { m with chip := after } := by
  rw [withValue, evaluated]

theorem withValue_of_error {e : Expr} {m : Machine ω} {error : EvalError} {after : Chip}
    (refused : evaluate i.operators e m.chip = (.error error, after))
    (next : Value → Machine ω → Ending × Machine ω) :
    i.withValue e m next = (.failed (.eval error), { m with chip := after }) := by
  rw [withValue, refused]

theorem store_of_ok {loc : Option Location} {target : Variable} {op : AssignOperator}
    {value result : Value} {m : Machine ω}
    (stored : op.stored i.operators (m.chip.read target) value = .ok result) :
    i.store loc target op value m = (.done, { m with chip := m.chip.write target result }) := by
  unfold AssignOperator.stored at stored
  unfold store
  cases isCompound : op.binary? with
  | none =>
    simp only [isCompound] at stored ⊢
    rw [Except.ok.inj stored]
  | some binary =>
    simp only [isCompound] at stored ⊢
    rw [stored]

theorem store_of_error {loc : Option Location} {target : Variable} {op : AssignOperator}
    {value : Value} {cause : EvalCause} {m : Machine ω}
    (refused : op.stored i.operators (m.chip.read target) value = .error cause) :
    i.store loc target op value m = (.failed (.eval ⟨cause, loc, none⟩), m) := by
  unfold AssignOperator.stored at refused
  unfold store
  cases isCompound : op.binary? with
  | none =>
    simp only [isCompound] at refused
    contradiction
  | some binary =>
    simp only [isCompound] at refused ⊢
    rw [refused]

/-- Observers that watch are told of a notice, the recorder too, and nothing comes of it. -/
theorem dispatch_recorded_of_watching (watching : i.hooks.Watching) (notice : Notice)
    (m : Machine (ω × List Notice)) :
    ∃ after, i.recorded.hooks.dispatch notice m = (none, after) ∧ after.chip = m.chip ∧
      after.heard = m.heard ++ [notice] := by
  obtain ⟨after, told, same⟩ := watching.dispatch notice m.plain
  refine ⟨after.hearing (m.heard ++ [notice]), ?_, same, rfl⟩
  rw [hooks_recorded, Hooks.dispatch_recorded, told]

/-- The start of a statement is logged, and nothing comes of it. -/
theorem logStep_recorded_of_watching (watching : i.hooks.Watching) (line : Int) (s : Stmt)
    (m : Machine (ω × List Notice)) :
    ∃ after, i.recorded.logStep line s m = (none, after) ∧ after.chip = m.chip ∧
      after.heard = m.heard := by
  obtain ⟨after, logged, same⟩ := logStep_of_watching watching line s m.plain
  refine ⟨after.hearing m.heard, ?_, same, rfl⟩
  rw [logStep_recorded, logged]

end Interpreter

/-- Whether a run, from every machine with the chip, ends so, leaves the chip so and tells the
recorder this. Neither the log nor what the other observers hold makes a difference. -/
def Comes (run : Machine (ω × List Notice) → Ending × Machine (ω × List Notice)) (chip : Chip)
    (told : List Notice) (finish : Finish) (left : Chip) : Prop :=
  ∀ m, m.chip = chip →
    ∃ after, run m = (finish.ending, after) ∧ after.chip = left ∧ after.heard = m.heard ++ told

open Interpreter

/-- Once a statement with a rule of its own is logged, it runs by that rule. How it is announced
is not a matter of the rule. -/
theorem Stmt.Does.runStatement_of_logged {s : Stmt} {chip left : Chip} {finish : Finish}
    (does : s.Does i.operators chip finish left) {line : Int} {m logged : Machine ω}
    (logs : i.logStep line s m = (none, logged)) (same : logged.chip = chip) :
    i.runStatement line s m = (finish.ending, { logged with chip := left }) := by
  rw [runStatement, logs]
  subst same
  cases does with
  | comment => rfl
  | expression loc evaluated => exact withValue_of_ok evaluated _
  | jump loc evaluated => exact withValue_of_ok evaluated _
  | jumpToText loc evaluated => exact withValue_of_ok evaluated _
  | @assignElsewhere loc target op e _ elsewhere =>
    cases target with
    | var place name => exact absurd rfl (elsewhere place name)
    | _ => rfl
  | assign loc place evaluated stored =>
    refine (withValue_of_ok evaluated _).trans ?_
    exact store_of_ok stored
  | assignRefused loc place evaluated refused =>
    refine (withValue_of_ok evaluated _).trans ?_
    exact store_of_error refused
  | unevaluated first refused =>
    cases s with
    | comment => contradiction
    | expression | jump | branch =>
      obtain rfl := Option.some.inj first
      exact withValue_of_error refused _
    | assign loc target =>
      cases target with
      | var =>
        obtain rfl := Option.some.inj first
        exact withValue_of_error refused _
      | _ => contradiction

/-- Once an if statement whose condition has a value is logged, it runs as the block that it goes on
with. -/
theorem Interpreter.runStatement_branch_of_logged {loc : Option Location} {condition : Expr}
    {body : List Stmt} {otherwise : Option (List Stmt)} {value : Value} {chip decided : Chip}
    (evaluated : evaluate i.operators condition chip = (.ok value, decided)) {line : Int}
    {m logged : Machine ω}
    (logs : i.logStep line (.branch loc condition body otherwise) m = (none, logged))
    (same : logged.chip = chip) :
    i.runStatement line (.branch loc condition body otherwise) m =
      i.runBlock line (Stmt.chosen value body otherwise) { logged with chip := decided } := by
  rw [runStatement, logs]
  subst same
  refine (withValue_of_ok evaluated _).trans ?_
  unfold Stmt.chosen
  by_cases isFalse : value.isFalse = true
  · rw [if_pos isFalse, if_pos isFalse]
    cases otherwise with
    | none => rw [Option.getD_none, runBlock]
    | some block => rfl
  · rw [if_neg isFalse, if_neg isFalse]

/-- A statement with a rule of its own runs by that rule, and nobody is told of it. -/
theorem Stmt.Does.comes {s : Stmt} {chip left : Chip} {finish : Finish}
    (does : s.Does i.operators chip finish left) (watching : i.hooks.Watching) (line : Int) :
    Comes (i.recorded.runStatement line s) chip [] finish left := by
  intro m here
  obtain ⟨started, logged, same, heard⟩ := logStep_recorded_of_watching watching line s m
  exact ⟨{ started with chip := left },
    does.runStatement_of_logged (i := i.recorded) logged (same.trans here), rfl,
    heard.trans (List.append_nil _).symm⟩

namespace Comes

variable {line : Int} {chip mid left : Chip} {inside told : List Notice} {finish : Finish}

/-- An if statement runs as the block that it goes on with. Its own start and end are around
what it tells. -/
theorem branch (watching : i.hooks.Watching) (loc : Option Location) {condition : Expr}
    {body : List Stmt} {otherwise : Option (List Stmt)} {value : Value}
    (evaluated : evaluate i.operators condition chip = (.ok value, mid))
    (taken : Comes (i.recorded.runBlock line (Stmt.chosen value body otherwise)) mid inside finish
      left) :
    Comes (i.recorded.runStatement line (.branch loc condition body otherwise)) chip inside finish
      left := by
  intro m here
  obtain ⟨started, logged, same, heard⟩ := logStep_recorded_of_watching watching line
    (.branch loc condition body otherwise) m
  obtain ⟨after, runs, chipAfter, heardAfter⟩ := taken { started with chip := mid } rfl
  refine ⟨after, ?_, chipAfter, heardAfter.trans (congrArg (· ++ inside) heard)⟩
  rw [← runs]
  exact runStatement_branch_of_logged (i := i.recorded) evaluated logged (same.trans here)

/-- A statement that is executed to its end is announced before and after, and what stands
behind it runs then. -/
theorem next (watching : i.hooks.Watching) {s : Stmt} {rest : List Stmt}
    (runs : Comes (i.recorded.runStatement line s) chip inside .completed mid)
    (goesOn : Comes (i.recorded.runBlock line rest) mid told finish left) :
    Comes (i.recorded.runBlock line (s :: rest)) chip
      (.statementStarted s :: (inside ++ .statementFinished s :: told)) finish left := by
  intro m here
  obtain ⟨started, announced, same, heard⟩ :=
    dispatch_recorded_of_watching watching (.statementStarted s) m
  obtain ⟨ran, done, chipRan, heardRan⟩ := runs started (same.trans here)
  obtain ⟨finished, announcedToo, sameToo, heardToo⟩ :=
    dispatch_recorded_of_watching watching (.statementFinished s) ran
  obtain ⟨after, rests, chipAfter, heardAfter⟩ := goesOn finished (sameToo.trans chipRan)
  refine ⟨after, ?_, chipAfter, ?_⟩
  · rw [runBlock, announced]
    simp only [done, Finish.ending, announcedToo, rests]
  · rw [heardAfter, heardToo, heardRan, heard]
    simp only [List.append_assoc, List.cons_append, List.nil_append]

/-- A statement that is cut short is announced before, and nothing runs behind it. -/
theorem cut (watching : i.hooks.Watching) {s : Stmt} (rest : List Stmt)
    (runs : Comes (i.recorded.runStatement line s) chip inside finish left)
    (early : finish ≠ .completed) :
    Comes (i.recorded.runBlock line (s :: rest)) chip (.statementStarted s :: inside) finish
      left := by
  intro m here
  obtain ⟨started, announced, same, heard⟩ :=
    dispatch_recorded_of_watching watching (.statementStarted s) m
  obtain ⟨after, ends, chipAfter, heardAfter⟩ := runs started (same.trans here)
  refine ⟨after, ?_, chipAfter, ?_⟩
  · rw [runBlock, announced]
    cases finish with
    | completed => contradiction
    | jumped target => simp only [ends, Finish.ending]
    | failed error => simp only [ends, Finish.ending]
  · rw [heardAfter, heard, List.append_assoc, List.singleton_append]

end Comes

/-- A block runs by the rules of blocks, and the recorder hears what the rules say. -/
theorem Executes.comes {block : List Stmt} {chip left : Chip} {told : List Notice}
    {finish : Finish} (executes : Executes i.operators block chip told finish left)
    (watching : i.hooks.Watching) (line : Int) :
    Comes (i.recorded.runBlock line block) chip told finish left := by
  induction executes with
  | nothing chip =>
    intro m here
    refine ⟨m, ?_, here, (List.append_nil _).symm⟩
    rw [runBlock]
    rfl
  | next does _ inductionHypothesis =>
    exact .next watching (does.comes watching line) inductionHypothesis
  | cut rest does early => exact .cut watching rest (does.comes watching line) early
  | branch loc evaluated _ _ takenHypothesis goesOnHypothesis =>
    exact .next watching (.branch watching loc evaluated takenHypothesis) goesOnHypothesis
  | branchCut loc rest evaluated _ early inductionHypothesis =>
    exact .cut watching rest (.branch watching loc evaluated inductionHypothesis) early

/-! ### Lines -/

/-- How a line ends after its statements ended so: whether its run ends by a fault, and what is
told of it. A fault is told of with what the log and the line know of it, and then the line is
not told of as finished. -/
inductive Finish.Closes (line : Line) : Finish → Option Fault → List Notice → Prop where
  | completed : Closes line .completed none [.lineFinished line]
  | jumped (target : Fixed) :
    Closes line (.jumped target) none
      [.jumped (max 1 (min (mostLines : Int) (target.units / Fixed.scale))), .lineFinished line]
  | failed (error : EvalError) (log : StepLog) :
    Closes line (.failed error) (some (.eval (placed line log error)))
      [.failed (.eval (placed line log error))]

/-- A line runs by the rules of its statements, and the recorder hears that it starts, what the
rules say, and how it ends. -/
theorem Executes.runLine {line : Line} {m : Machine (ω × List Notice)} {told : List Notice}
    {finish : Finish} {left : Chip}
    (executes : Executes i.operators line.statements m.chip told finish left)
    (watching : i.hooks.Watching) :
    ∃ fault? after ending, i.recorded.runLine line m = (fault?, after) ∧ after.chip = left ∧
      finish.Closes line fault? ending ∧
      after.heard = m.heard ++ .lineStarted line :: (told ++ ending) := by
  obtain ⟨started, announced, same, heard⟩ :=
    dispatch_recorded_of_watching watching (.lineStarted line) m
  obtain ⟨ended, runs, chipEnded, heardEnded⟩ :=
    executes.comes watching line.number started same
  have heardSoFar : ended.heard = m.heard ++ .lineStarted line :: told := by
    rw [heardEnded, heard, List.append_assoc, List.singleton_append]
  rw [Interpreter.runLine, announced]
  simp only [runs]
  cases finish with
  | completed =>
    obtain ⟨after, finished, chipAfter, heardAfter⟩ :=
      dispatch_recorded_of_watching watching (.lineFinished line) ended
    refine ⟨none, after, _, finished, chipAfter.trans chipEnded, .completed, ?_⟩
    rw [heardAfter, heardSoFar, List.append_assoc, List.cons_append]
  | jumped target =>
    obtain ⟨jumped, announcedJump, chipJumped, heardJumped⟩ :=
      dispatch_recorded_of_watching watching (.jumped (Chip.targetLine target)) ended
    obtain ⟨after, finished, chipAfter, heardAfter⟩ :=
      dispatch_recorded_of_watching watching (.lineFinished line) jumped
    simp only [Finish.ending, announcedJump]
    refine ⟨none, after, _, finished, (chipAfter.trans chipJumped).trans chipEnded,
      .jumped target, ?_⟩
    rw [heardAfter, heardJumped, heardSoFar, Chip.targetLine_eq]
    simp only [List.append_assoc, List.cons_append, List.nil_append]
  | failed error =>
    obtain ⟨after, reported, chipAfter, heardAfter⟩ :=
      dispatch_recorded_of_watching watching (.failed (.eval (placed line ended.log error))) ended
    simp only [Finish.ending, report, reported]
    refine ⟨_, after, _, rfl, chipAfter.trans chipEnded, .failed error ended.log, ?_⟩
    rw [heardAfter, heardSoFar, List.append_assoc, List.cons_append]

/-- A line runs by the rules of its statements, whether or not there is a recorder. -/
theorem Executes.runLine_plain {line : Line} {m : Machine ω} {told : List Notice}
    {finish : Finish} {left : Chip}
    (executes : Executes i.operators line.statements m.chip told finish left)
    (watching : i.hooks.Watching) :
    ∃ fault? after ending, i.runLine line m = (fault?, after) ∧ after.chip = left ∧
      finish.Closes line fault? ending := by
  obtain ⟨fault?, after, ending, runs, chip, closes, _⟩ :=
    executes.runLine (m := m.hearing []) watching
  refine ⟨fault?, after.plain, ending, ?_, chip, closes⟩
  rw [← Machine.plain_hearing m [], ← runLine_withoutRecorder, runs]
  rfl

namespace Interpreter

/-- What observers are told of when a line is run, by a recorder that is put beside them. -/
def lineNotices (i : Interpreter ω) (line : Line) (m : Machine ω) : List Notice :=
  (i.recorded.runLine line (m.hearing [])).2.heard

def textNotices (i : Interpreter ω) (text : String) (m : Machine ω) : List Notice :=
  (i.recorded.executeLine text (m.hearing [])).2.heard

def tickNotices (i : Interpreter ω) (p : Program) (m : Machine ω) : List Notice :=
  (i.recorded.step p (m.hearing [])).2.heard

/-- Whether observers are told of a line in order: that it starts; the notices of its statements,
of which only those are left open that a goto or a fault left unfinished; and how it ends. The
start of the innermost unfinished one is the last that is told of statements. -/
def TellsInOrder (i : Interpreter ω) (line : Line) (m : Machine ω) : Prop :=
  ∃ told finish left ending unfinished,
    Executes i.operators line.statements m.chip told finish left ∧
      finish.Closes line (i.runLine line m).1 ending ∧
      i.lineNotices line m = .lineStarted line :: (told ++ ending) ∧
      Notice.unfinished [] told = some unfinished ∧ finish.Leaves unfinished ∧
      ∀ s ∈ unfinished.head?, told.getLast? = some (.statementStarted s)

variable {m : Machine ω}

/-- Observers are told that a line starts, then what the rules of its statements say, and then
how it ends. -/
theorem lineNotices_of_executes (watching : i.hooks.Watching) {line : Line}
    {told : List Notice} {finish : Finish} {left : Chip}
    (executes : Executes i.operators line.statements m.chip told finish left) :
    ∃ ending, finish.Closes line (i.runLine line m).1 ending ∧
      i.lineNotices line m = .lineStarted line :: (told ++ ending) := by
  obtain ⟨fault?, after, ending, runs, _, closes, heard⟩ :=
    executes.runLine (m := m.hearing []) watching
  refine ⟨ending, ?_, ?_⟩
  · rw [← Machine.plain_hearing m [], ← runLine_withoutRecorder, runs]
    exact closes
  · rw [lineNotices, runs, heard]
    rfl

/-- The statements of a line that observers are told are started are those that the rules say. -/
theorem started_lineNotices (watching : i.hooks.Watching) {line : Line} {told : List Notice}
    {finish : Finish} {left : Chip}
    (executes : Executes i.operators line.statements m.chip told finish left) :
    Notice.started (i.lineNotices line m) = Notice.started told := by
  obtain ⟨ending, closes, heard⟩ := lineNotices_of_executes watching executes
  have none : Notice.started ending = [] := by
    generalize (i.runLine line m).1 = fault? at closes
    cases closes with
    | completed | jumped | failed => rfl
  rw [← List.append_nil (Notice.started told), ← none, ← Notice.started_append, heard]
  rfl

theorem tellsInOrder_of_watching (watching : i.hooks.Watching) (line : Line) (m : Machine ω) :
    i.TellsInOrder line m := by
  obtain ⟨told, finish, left, executes⟩ := exists_executes i.operators line.statements m.chip
  obtain ⟨ending, closes, heard⟩ := lineNotices_of_executes watching executes
  obtain ⟨cut, remain, leaves⟩ := executes.unfinished []
  rw [List.append_nil] at remain
  refine ⟨told, finish, left, ending, cut, executes, closes, heard, remain, leaves, ?_⟩
  intro s innermost
  by_cases completed : finish = .completed
  · subst completed
    cases leaves
    contradiction
  · obtain ⟨first, t, rfl⟩ := executes.last completed
    rw [Notice.head_unfinished remain] at innermost
    rw [List.getLast?_concat, Option.some.inj innermost]

/-- Of a line, the fault that ends it is told of and no other one. If it ends by none, nothing
is told of as a fault. -/
theorem failures_lineNotices (watching : i.hooks.Watching) (line : Line) :
    Notice.failures (i.lineNotices line m) = (i.runLine line m).1.toList := by
  obtain ⟨told, finish, left, ending, _, executes, closes, heard, _⟩ :=
    tellsInOrder_of_watching watching line m
  have split : Notice.failures (i.lineNotices line m) =
      Notice.failures told ++ Notice.failures ending := by
    rw [heard]
    exact List.filterMap_append
  rw [split, executes.failures, List.nil_append]
  generalize (i.runLine line m).1 = fault? at closes
  cases closes with
  | completed | jumped | failed => rfl

theorem heard_answerUnread {α : Type} (watching : i.hooks.Watching) (error : SourceError)
    (answer : α) (m : Machine (ω × List Notice)) :
    (i.recorded.answerUnread error answer m).2.heard = m.heard ++ [.failed (.source error)] := by
  obtain ⟨after, told, _, heard⟩ :=
    dispatch_recorded_of_watching watching (.failed (.source error)) m
  rw [answerUnread, told]
  exact heard

theorem heard_runRecorded (line : Line) (m : Machine (ω × List Notice)) :
    (i.recorded.runRecorded line m).2.heard = (i.recorded.runLine line m).2.heard := by
  rw [runRecorded_eq]
  cases (i.recorded.runLine line m).1 with
  | none => rfl
  | some fault => exact congrArg Prod.snd (observer_recordShowable fault _)

/-- Of a line of source that is refused, observers are told that, and nothing else. -/
theorem textNotices_of_error (watching : i.hooks.Watching) {text : String} {error : SourceError}
    (unread : Line.parse text i.file m.chip.nextLine = .error (.refused error)) :
    i.textNotices text m = [.failed (.source error)] := by
  rw [textNotices, executeLine_of_error (i := i.recorded) unread, heard_answerUnread watching]
  rfl

/-- Of a line of source that breaks off, observers are told nothing. It was not read, and it was
not refused. -/
theorem textNotices_of_overlong {text : String} {digits : Nat}
    (overlong : Line.parse text i.file m.chip.nextLine = .error (.overlong digits)) :
    i.textNotices text m = [] := by
  rw [textNotices, executeLine_of_overlong (i := i.recorded) overlong]
  rfl

/-- Of a line of source that can be read, observers are told what they are told of the line. -/
theorem textNotices_of_ok {text : String} {line : Line}
    (read : Line.parse text i.file m.chip.nextLine = .ok line) :
    i.textNotices text m = i.lineNotices line m := by
  rw [textNotices, executeLine_of_ok (i := i.recorded) read, heard_runRecorded]
  rfl

/-- In a tick of a line that was refused, observers are told that, and nothing else. -/
theorem tickNotices_of_some (watching : i.hooks.Watching) {p : Program} {error : SourceError}
    (unread : p.error? m.chip.nextLine = some error) :
    i.tickNotices p m = [.failed (.source error)] := by
  rw [tickNotices, step_of_some (m := m.hearing []) unread, heard_answerUnread watching]
  rfl

/-- In any other tick, observers are told what they are told of its line. -/
theorem tickNotices_of_none {p : Program} (readable : p.error? m.chip.nextLine = none) :
    i.tickNotices p m =
      i.lineNotices (p.line m.chip.nextLine) { m with chip := m.chip.advance } := by
  rw [tickNotices, step_of_none (m := m.hearing []) readable, heard_runRecorded]
  rfl

/-- What failed in a line of source, and no more, is told of as a fault. -/
theorem mem_failures_textNotices (watching : i.hooks.Watching) (text : String) :
    (∀ fault, i.Fails text m fault → Notice.failures (i.textNotices text m) = [fault]) ∧
      ((∀ fault, ¬ i.Fails text m fault) → Notice.failures (i.textNotices text m) = []) := by
  constructor
  · intro fault fails
    cases fails with
    | unread unread =>
      rw [textNotices_of_error watching unread]
      rfl
    | ran read ended =>
      rw [textNotices_of_ok read, failures_lineNotices watching, ended]
      rfl
  · intro never
    cases read : Line.parse text i.file m.chip.nextLine with
    | error refusal =>
      cases refusal with
      | refused error => exact absurd (.unread read) (never _)
      | overlong digits =>
        rw [textNotices_of_overlong read]
        rfl
    | ok line =>
      rw [textNotices_of_ok read, failures_lineNotices watching]
      cases ended : (i.runLine line m).1 with
      | none => rfl
      | some fault => exact absurd (.ran read ended) (never fault)

/-- What failed in a tick, and no more, is told of as a fault. -/
theorem mem_failures_tickNotices (watching : i.hooks.Watching) (p : Program) :
    (∀ fault, i.TickFails p m fault → Notice.failures (i.tickNotices p m) = [fault]) ∧
      ((∀ fault, ¬ i.TickFails p m fault) → Notice.failures (i.tickNotices p m) = []) := by
  constructor
  · intro fault fails
    cases fails with
    | unread unread =>
      rw [tickNotices_of_some watching unread]
      rfl
    | ran readable ended =>
      rw [tickNotices_of_none readable, failures_lineNotices watching, ended]
      rfl
  · intro never
    cases readable : p.error? m.chip.nextLine with
    | some error => exact absurd (.unread readable) (never _)
    | none =>
      rw [tickNotices_of_none readable, failures_lineNotices watching]
      cases ended : (i.runLine (p.line m.chip.nextLine) { m with chip := m.chip.advance }).1 with
      | none => rfl
      | some fault => exact absurd (.ran readable ended) (never fault)

/-- Observers that watch are told of every line in order. A line of source and a tick tell of
their line, and only that it is refused if it is; of a line of source that breaks off they tell
nothing. So what failed is told of once, and nothing is told of as a fault if nothing failed. -/
theorem notices_of_watching (watching : i.hooks.Watching) (m : Machine ω) :
    (∀ line, i.TellsInOrder line m) ∧
    (∀ text,
      (∀ error, Line.parse text i.file m.chip.nextLine = .error (.refused error) →
        i.textNotices text m = [.failed (.source error)]) ∧
      (∀ digits, Line.parse text i.file m.chip.nextLine = .error (.overlong digits) →
        i.textNotices text m = []) ∧
      (∀ line, Line.parse text i.file m.chip.nextLine = .ok line →
        i.textNotices text m = i.lineNotices line m) ∧
      (∀ fault, i.Fails text m fault → Notice.failures (i.textNotices text m) = [fault]) ∧
      ((∀ fault, ¬ i.Fails text m fault) → Notice.failures (i.textNotices text m) = [])) ∧
    ∀ p : Program,
      (∀ error, p.error? m.chip.nextLine = some error →
        i.tickNotices p m = [.failed (.source error)]) ∧
      (p.error? m.chip.nextLine = none → i.tickNotices p m =
        i.lineNotices (p.line m.chip.nextLine) { m with chip := m.chip.advance }) ∧
      (∀ fault, i.TickFails p m fault → Notice.failures (i.tickNotices p m) = [fault]) ∧
      ((∀ fault, ¬ i.TickFails p m fault) → Notice.failures (i.tickNotices p m) = []) := by
  refine ⟨fun line => tellsInOrder_of_watching watching line m, ?_, ?_⟩
  · intro text
    obtain ⟨once, never⟩ := mem_failures_textNotices (m := m) watching text
    exact ⟨fun _ => textNotices_of_error watching, fun _ => textNotices_of_overlong,
      fun _ => textNotices_of_ok, once, never⟩
  · intro p
    obtain ⟨once, never⟩ := mem_failures_tickNotices (m := m) watching p
    exact ⟨fun _ => tickNotices_of_some watching, tickNotices_of_none, once, never⟩

/-- An interpreter whose observer counts the events and every second step. It only watches, and
changes its own state each time. -/
def counting : Interpreter Nat :=
  let count {ν : Type} (_ : ν) (m : Machine Nat) : Verdict × Machine Nat :=
    (.passed, { m with observer := m.observer + 1 })
  ⟨true, "<line>", ⟨fun _ => [⟨0, "events", count⟩], [⟨2, "steps", count⟩]⟩, .default⟩

/-- Counting is watching, so what fails in a line of source is told of once. -/
theorem counting_notices :
    counting.hooks.Watching ∧
      ∀ text fault, counting.Fails text (.start (.fresh "chip") 0) fault →
        Notice.failures (counting.textNotices text (.start (.fresh "chip") 0)) = [fault] := by
  have watching : counting.hooks.Watching := by
    constructor
    · intro event handler member notice m
      rw [List.mem_singleton.mp member]
      exact ⟨rfl, rfl⟩
    · intro rule member notice m
      rw [List.mem_singleton.mp member]
      exact ⟨rfl, rfl⟩
  exact ⟨watching, fun text => ((notices_of_watching watching _).2.1 text).2.2.2.1⟩

end Interpreter

end YololChip
