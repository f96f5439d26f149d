import YololChip.Console.Streams
import YololChip.Proofs.Attribution

/-!
# What reports show

An observer that makes a report of every fault of a run and does nothing else has no part in what
the run does: beside it, the chip and the log are what they are without it. So what is reported
depends on the ticks alone. A fault with a place of its own is shown there. One without a place is
shown at the newest step, and that can be in another line.
-/

namespace YololChip

variable {ω : Type}

/-! ### The place that is shown -/

namespace Traceback

/-- Whether both reports of a fault show this place, or none if there is none: the report for
people right under its heading, and the one for programs as a field of its frame. What the
reports show besides is left open. -/
structure Shows (log : StepLog) (fault : Fault) (loc : Option Location) : Prop where
  text : ∀ verbose, ∃ more, Traceback.text log fault verbose =
    "\n".intercalate ("Traceback (most recent call last):" :: (placeLines loc ++ more))
  json : ∃ fields, frame log fault = .object fields ∧
    Bindings.find? "source_location" fields = loc.map placeJson

theorem shows_place (log : StepLog) (fault : Fault) : Shows log fault (place? log fault) := by
  constructor
  · intro verbose
    unfold text
    rw [List.append_assoc, List.append_assoc]
    exact ⟨_, rfl⟩
  · refine ⟨_, rfl, ?_⟩
    cases place? log fault with
    | some loc => rfl
    | none =>
      cases log.newest? with
      | none => rfl
      | some entry =>
        obtain ⟨index, line, loc, statement, environment, record⟩ := entry
        cases environment with
        | none => rfl
        | some snapshot => rfl

end Traceback

/-! ### An observer of faults -/

/-- Whether a handler makes a report of a fault when it is told of it, and does nothing else. It
is asked for one fault at a time, because a handler may break at another. -/
def Handler.Reports (handler : Handler ω) (report : StepLog → Fault → ω → ω) (fault : Fault) :
    Prop :=
  ∀ m, handler.run (.failed fault) m =
    (.passed, { m with observer := report m.log fault m.observer })

/-- The machine with the state of an observer beside it. The chip and the log are the same. -/
def Machine.beside (o : ω) (n : Machine Unit) : Machine ω := ⟨n.chip, n.log, o⟩

@[simp] theorem Machine.chip_beside (o : ω) (n : Machine Unit) : (n.beside o).chip = n.chip := rfl

@[simp] theorem Machine.log_beside (o : ω) (n : Machine Unit) : (n.beside o).log = n.log := rfl

/-- A result and a machine with the state of an observer beside it. -/
def besideObserver {α : Type} (o : ω) (ended : α × Machine Unit) : α × Machine ω :=
  (ended.1, ended.2.beside o)

namespace Interpreter

/-- The interpreter with one observer, which is told of faults. Of other events nobody is told. -/
def reporting (verbose : Bool) (file : String) (ops : Operators) (handler : Handler ω) :
    Interpreter ω :=
  ⟨verbose, file, Hooks.none.add .onError handler, ops⟩

variable (verbose : Bool) (file : String) (ops : Operators) (handler : Handler ω) (o : ω)

@[simp] theorem operators_reporting : (reporting verbose file ops handler).operators = ops := rfl

@[simp] theorem operators_unobserved : (unobserved verbose file ops).operators = ops := rfl

theorem dispatch_reporting {notice : Notice} (other : notice.failure? = none) (m : Machine ω) :
    (reporting verbose file ops handler).hooks.dispatch notice m = (none, m) := by
  cases notice with
  | failed => contradiction
  | _ => rfl

/-- The start of a statement is logged beside an observer of faults as without it. -/
theorem logStep_beside (line : Int) (s : Stmt) (n : Machine Unit) :
    (reporting verbose file ops handler).logStep line s (n.beside o) =
      besideObserver o ((unobserved verbose file ops).logStep line s n) := rfl

/-- A value is used beside an observer of faults as without it. -/
theorem withValue_beside (e : Expr) (n : Machine Unit)
    {next : Value → Machine ω → Ending × Machine ω}
    {alone : Value → Machine Unit → Ending × Machine Unit}
    (same : ∀ value n, next value (n.beside o) = besideObserver o (alone value n)) :
    (reporting verbose file ops handler).withValue e (n.beside o) next =
      besideObserver o ((unobserved verbose file ops).withValue e n alone) := by
  unfold withValue
  rw [operators_reporting, operators_unobserved, Machine.chip_beside]
  rcases evaluate ops e n.chip with ⟨error | value, chip⟩
  · rfl
  · exact same value { n with chip }

/-- A value is stored beside an observer of faults as without it. -/
theorem store_beside (loc : Option Location) (target : Variable) (op : AssignOperator)
    (value : Value) (n : Machine Unit) :
    (reporting verbose file ops handler).store loc target op value (n.beside o) =
      besideObserver o ((unobserved verbose file ops).store loc target op value n) := by
  unfold store
  cases op.binary? with
  | none => rfl
  | some binary =>
    simp only [operators_reporting, operators_unobserved, Machine.chip_beside]
    cases ops.applyBinary binary (n.chip.read target) value with
    | error cause => rfl
    | ok result => rfl

/-- A goto is taken beside an observer of faults as without it. -/
theorem jump_beside (loc : Option Location) (value : Value) (n : Machine Unit) :
    jump loc value (n.beside o) = besideObserver o (jump loc value n) := by
  cases value with
  | num a => rfl
  | str s => rfl

mutual

/-- A statement runs beside an observer of faults as without it. -/
theorem runStatement_beside (line : Int) (s : Stmt) (n : Machine Unit) :
    (reporting verbose file ops handler).runStatement line s (n.beside o) =
      besideObserver o ((unobserved verbose file ops).runStatement line s n) := by
  rw [runStatement, runStatement, logStep_beside, logStep_unobserved]
  simp only [besideObserver]
  match s with
  | .comment _ _ => rfl
  | .expression _ value =>
    exact withValue_beside verbose file ops handler o value _ fun _ _ => rfl
  | .assign loc target op value =>
    cases target with
    | var _ target =>
      exact withValue_beside verbose file ops handler o value _
        (store_beside verbose file ops handler o loc target op)
    | _ => rfl
  | .jump loc target =>
    exact withValue_beside verbose file ops handler o target _ (jump_beside o loc)
  | .branch _ condition body otherwise =>
    apply withValue_beside verbose file ops handler o condition
    intro value n
    by_cases isFalse : value.isFalse = true
    · rw [if_pos isFalse, if_pos isFalse]
      match otherwise with
      | none => rfl
      | some block => exact runBlock_beside line block n
    · rw [if_neg isFalse, if_neg isFalse]
      exact runBlock_beside line body n

/-- A block runs beside an observer of faults as without it. No fault is told of before the line
ends. -/
theorem runBlock_beside (line : Int) (block : List Stmt) (n : Machine Unit) :
    (reporting verbose file ops handler).runBlock line block (n.beside o) =
      besideObserver o ((unobserved verbose file ops).runBlock line block n) := by
  match block with
  | [] => rfl
  | s :: rest =>
    rw [runBlock, runBlock, dispatch_reporting _ _ _ _ rfl, dispatch_unobserved]
    simp only
    rw [runStatement_beside]
    rcases (unobserved verbose file ops).runStatement line s n with ⟨_ | target | fault, left⟩
    · simp only [besideObserver]
      rw [dispatch_reporting _ _ _ _ rfl, dispatch_unobserved]
      exact runBlock_beside line rest left
    · rfl
    · rfl

end

end Interpreter

/-- The fault of a tick, if it fails: that the line could not be read, or the one by which its
run ends. It is there also where it cannot be shown. -/
def Interpreter.tickFault? (i : Interpreter ω) (p : Program) (m : Machine ω) : Option Fault :=
  match p.error? m.chip.nextLine with
  | some error => some (.source error)
  | none => (i.runLine (p.line m.chip.nextLine) { m with chip := m.chip.advance }).1

theorem Interpreter.tickFails_iff {i : Interpreter ω} {p : Program} {m : Machine ω}
    {fault : Fault} : i.TickFails p m fault ↔ i.tickFault? p m = some fault := by
  unfold tickFault?
  cases unread : p.error? m.chip.nextLine with
  | some error =>
    rw [tickFails_of_some unread, Option.some.injEq]
    exact eq_comm
  | none => exact tickFails_of_none unread

/-- What an observer has made of the fault of a run, if there is one. -/
def reported (report : StepLog → Fault → ω → ω) (log : StepLog) (o : ω) : Option Fault → ω
  | some fault => report log fault o
  | none => o

/-- A run with its fault, if it has one, and the machine with an observer beside it that has
made its report. The report sees the log that the run left. -/
def besideReport (report : StepLog → Fault → ω → ω) (o : ω)
    (ended : Option Fault × Machine Unit) : Option Fault × Machine ω :=
  besideObserver (reported report ended.2.log o ended.1) ended

theorem Handler.Reports.dispatch {handler : Handler ω} {report : StepLog → Fault → ω → ω}
    {fault : Fault} (reports : handler.Reports report fault) (verbose : Bool) (file : String)
    (ops : Operators) (o : ω) (n : Machine Unit) :
    (Interpreter.reporting verbose file ops handler).hooks.dispatch (.failed fault) (n.beside o) =
      (none, n.beside (report n.log fault o)) := by
  have alone : (Interpreter.reporting verbose file ops handler).hooks.handlers .onError =
      [handler] := rfl
  rw [Hooks.dispatch, Notice.event, alone, Hooks.tell, reports]
  rfl

namespace Interpreter

variable {handler : Handler ω} {report : StepLog → Fault → ω → ω} (verbose : Bool) (file : String)
  (ops : Operators)

/-- A line runs beside an observer of faults as without it, and its fault is reported. -/
theorem runLine_beside (line : Line) (o : ω) (n : Machine Unit)
    (reports : ∀ fault, ((unobserved verbose file ops).runLine line n).1 = some fault →
      handler.Reports report fault) :
    (reporting verbose file ops handler).runLine line (n.beside o) =
      besideReport report o ((unobserved verbose file ops).runLine line n) := by
  have ran := runBlock_beside verbose file ops handler o line.number line.statements n
  rw [runLine, dispatch_unobserved] at reports
  rw [runLine, runLine, dispatch_reporting _ _ _ _ rfl, dispatch_unobserved]
  simp only at reports ⊢
  rw [ran]
  obtain ⟨told, finish, left, executes⟩ := exists_executes ops line.statements n.chip
  have ends := runBlock_of_executes (i := unobserved verbose file ops) executes
    Hooks.watching_none line.number
  generalize (unobserved verbose file ops).runBlock line.number line.statements n = run
    at ends reports ⊢
  obtain ⟨ending, after⟩ := run
  obtain rfl : ending = finish.ending := ends
  cases finish with
  | completed => rfl
  | jumped target => rfl
  | failed error =>
    have reported := reports (.eval (placed line after.log error)) rfl
    simp only [besideObserver, Finish.ending, Interpreter.report, Machine.log_beside]
    rw [reported.dispatch]
    rfl

/-- A line runs beside an observer of faults with its fault recorded as without it. -/
theorem runRecorded_beside (line : Line) (o : ω) (n : Machine Unit)
    (reports : ∀ fault, ((unobserved verbose file ops).runLine line n).1 = some fault →
      handler.Reports report fault) :
    let u := unobserved verbose file ops
    (reporting verbose file ops handler).runRecorded line (n.beside o) =
      besideObserver (reported report (u.runRecorded line n).2.log o (u.runLine line n).1)
        (u.runRecorded line n) := by
  intro u
  rw [runRecorded_eq, runRecorded_eq, runLine_beside verbose file ops line o n reports]
  generalize (unobserved verbose file ops).runLine line n = ended
  obtain ⟨_ | fault, left⟩ := ended
  · rfl
  · simp only [besideReport, besideObserver, recordShowable]
    cases fault.isShowable <;> rfl

/-- An observer of faults is told that a line is refused, and answers nothing. Its report is
made from the log as it is, in which the line has left nothing. -/
theorem answerUnread_beside {α : Type} {error : SourceError} (answer : α) (o : ω) (n : Machine Unit)
    (reports : handler.Reports report (.source error)) :
    (reporting verbose file ops handler).answerUnread error answer (n.beside o) =
      besideObserver (report n.log (.source error) o)
        ((unobserved verbose file ops).answerUnread error answer n) := by
  unfold answerUnread
  rw [reports.dispatch, dispatch_unobserved]
  rfl

/-- A line of source runs beside an observer of faults as without it. -/
theorem exists_executeLine_beside (text : String) (o : ω) (n : Machine Unit)
    (reports : ∀ fault, (unobserved verbose file ops).Fails text n fault →
      handler.Reports report fault) :
    ∃ other, (reporting verbose file ops handler).executeLine text (n.beside o) =
      besideObserver other ((unobserved verbose file ops).executeLine text n) := by
  cases read : Line.parse text file n.chip.nextLine with
  | ok line =>
    rw [executeLine_of_ok (m := n.beside o) read, executeLine_of_ok read, runRecorded_beside]
    · exact ⟨_, rfl⟩
    · exact fun fault ended => reports fault (.ran read ended)
  | error refusal =>
    cases refusal with
    | overlong digits =>
      rw [executeLine_of_overlong (m := n.beside o) read, executeLine_of_overlong read]
      exact ⟨o, rfl⟩
    | refused error =>
      rw [executeLine_of_error (m := n.beside o) read, executeLine_of_error read]
      exact ⟨_, answerUnread_beside verbose file ops false o (n.passOver error)
        (reports _ (.unread read))⟩

/-- A tick runs beside an observer of faults as without it, and its fault is reported under the log
that the tick leaves. -/
theorem step_beside (p : Program) (o : ω) (n : Machine Unit)
    (reports : ∀ fault, (unobserved verbose file ops).TickFails p n fault →
      handler.Reports report fault) :
    let u := unobserved verbose file ops
    (reporting verbose file ops handler).step p (n.beside o) =
      besideObserver (reported report (u.step p n).2.log o (u.tickFault? p n)) (u.step p n) := by
  intro u
  cases unread : p.error? n.chip.nextLine with
  | some error =>
    have fault : u.tickFault? p n = some (.source error) := by
      rw [tickFault?, unread]
    have answers := answerUnread_beside verbose file ops n.chip.nextLine o (n.passOver error)
      (reports _ (.unread unread))
    rw [step_of_some (m := n.beside o) unread, step_of_some unread, fault]
    refine answers.trans ?_
    rw [answerUnread_snd, dispatch_unobserved]
    rfl
  | none =>
    have fault : u.tickFault? p n =
        (u.runLine (p.line n.chip.nextLine) { n with chip := n.chip.advance }).1 := by
      rw [tickFault?, unread]
    have ran := runRecorded_beside verbose file ops (p.line n.chip.nextLine) o
      { n with chip := n.chip.advance } (fun fault ended => reports fault (.ran unread ended))
    have moved : { n.beside o with chip := (n.beside o).chip.advance } =
        Machine.beside o { n with chip := n.chip.advance } := rfl
    rw [step_of_none (m := n.beside o) unread, step_of_none unread, fault, moved,
      Machine.chip_beside, ran]
    rfl

/-- A tick fails beside an observer of faults as without it. The fault is there before it is
reported. -/
theorem tickFault?_beside (p : Program) (o : ω) (n : Machine Unit)
    (reports : ∀ fault, (unobserved verbose file ops).TickFails p n fault →
      handler.Reports report fault) :
    (reporting verbose file ops handler).tickFault? p (n.beside o) =
      (unobserved verbose file ops).tickFault? p n := by
  unfold tickFault?
  rw [Machine.chip_beside]
  cases readable : p.error? n.chip.nextLine with
  | some error => rfl
  | none =>
    have ran := runLine_beside verbose file ops (p.line n.chip.nextLine) o
      { n with chip := n.chip.advance } (fun fault ended => reports fault (.ran readable ended))
    exact congrArg Prod.fst ran

/-- Ticks run beside an observer of faults as without it.

Proof: induction over the number of ticks, the last of which starts from what the others leave. -/
theorem exists_ticks_beside (p : Program) (count : Nat) (o : ω) (n : Machine Unit)
    (reports : ∀ index < count, ∀ fault, (unobserved verbose file ops).TickFails p
      ((unobserved verbose file ops).ticks p index n).2 fault → handler.Reports report fault) :
    ∃ other, ((reporting verbose file ops handler).ticks p count (n.beside o)).2 =
      ((unobserved verbose file ops).ticks p count n).2.beside other := by
  induction count with
  | zero => exact ⟨o, rfl⟩
  | succ count inductionHypothesis =>
    obtain ⟨other, same⟩ := inductionHypothesis fun index below =>
      reports index (Nat.lt_succ_of_lt below)
    rw [ticks_succ_snd, ticks_succ_snd, same,
      step_beside verbose file ops p other _ (reports count (Nat.lt_succ_self count))]
    exact ⟨_, rfl⟩

end Interpreter

/-! ### The newest step -/

namespace Program

/-- The statements that a tick starts, each with the chip that it starts from. -/
def starts (ops : Operators) (p : Program) (chip : Chip) : List (Stmt × Chip) :=
  match p.error? chip.nextLine with
  | some _ => []
  | none => (p.line chip.nextLine).starts ops chip.advance

/-- The statement that was started last in some ticks, with the number of the line that the tick
ran. Ticks that start none are passed over, so it may be that of a tick long before. -/
def lastStarted? (ops : Operators) (p : Program) (chip : Chip) : (count : Nat) → Option (Int × Stmt)
  | 0 => none
  | count + 1 =>
    let before := Nat.repeat (p.tick ops) count chip
    ((p.starts ops before).getLast?.map fun start => (before.nextLine, start.1)).or
      (p.lastStarted? ops chip count)

variable {text file : String} {p : Program} {ops : Operators} {chip : Chip}

/-- The statement that was started last is in the line that was run then. A tick that starts
nothing leaves it where it was. -/
theorem within_of_lastStarted (parsed : parse text file = .ok p) {count : Nat} {number : Int}
    {s : Stmt} (last : p.lastStarted? ops chip count = some (number, s)) :
    Location.Within file number s.loc := by
  induction count with
  | zero => contradiction
  | succ count inductionHypothesis =>
    rw [lastStarted?, Option.or_eq_some_iff] at last
    rcases last with here | ⟨-, earlier⟩
    · obtain ⟨⟨t, start⟩, started, same⟩ := Option.map_eq_some_iff.mp here
      obtain ⟨rfl, rfl⟩ := Prod.mk.inj same
      have member := List.mem_of_getLast? started
      unfold starts at member
      split at member
      · exact absurd member List.not_mem_nil
      · have inside := Line.mem_within_of_starts member
        have filled : (p.line (Nat.repeat (p.tick ops) count chip).nextLine).statements ≠ [] := by
          intro blank
          rw [Line.within, blank] at inside
          exact absurd inside List.not_mem_nil
        exact (((sits_line parsed _).2 filled).2 _ inside).1
    · exact inductionHypothesis earlier

end Program

namespace Interpreter

variable (verbose : Bool) (name : String) (ops : Operators) {p : Program}

theorem log_step (p : Program) (n : Machine Unit) :
    ((unobserved verbose name ops).step p n).2.log =
      n.log.recordAll ((p.starts ops n.chip).map
        ((unobserved verbose name ops).recording (p.line n.chip.nextLine).number)) := by
  refine (log_call verbose name ops (.tick p) n).trans ?_
  rw [callRecordings, Program.starts]
  cases p.error? n.chip.nextLine with
  | some error => rfl
  | none => rfl

/-- After ticks without observers, the chip is what the ticks make of it, and the newest entry of
the log is that of the statement that was started last.

Proof: induction over the number of ticks. A tick that starts a statement leaves the entry of the
last one, and any other tick leaves the log as it is. -/
theorem newest?_ticks (numbered : ∀ number, (p.line number).number = number) (chip : Chip)
    (count : Nat) :
    let n := ((unobserved verbose name ops).ticks p count (.start chip ())).2
    n.chip = Nat.repeat (p.tick ops) count chip ∧ 0 < n.log.window.limit ∧
      (n.log.newest?.map fun entry => (entry.line, entry.loc)) =
        (p.lastStarted? ops chip count).map fun last => (last.1, last.2.loc) := by
  induction count with
  | zero =>
    have room : 0 < StepLog.usualLimit := by decide
    exact ⟨rfl, room, rfl⟩
  | succ count inductionHypothesis =>
    dsimp only at inductionHypothesis ⊢
    rw [ticks_succ_snd]
    generalize ((unobserved verbose name ops).ticks p count (.start chip ())).2 = n
      at inductionHypothesis ⊢
    obtain ⟨here, room, newest⟩ := inductionHypothesis
    obtain ⟨after, steps, left⟩ :=
      step_of_watching (i := unobserved verbose name ops) Hooks.watching_none p n
    have logged := log_step verbose name ops p n
    rw [steps] at logged ⊢
    dsimp only at logged ⊢
    refine ⟨by rw [left, here]; rfl, by rw [logged, StepLog.limit_recordAll]; exact room, ?_⟩
    rw [Program.lastStarted?, ← here, logged, numbered]
    cases started : (p.starts ops n.chip).getLast? with
    | none =>
      rw [List.getLast?_eq_none_iff.mp started, Option.map_none, Option.none_or]
      exact newest
    | some start =>
      have last : ((p.starts ops n.chip).map
          ((unobserved verbose name ops).recording n.chip.nextLine)).getLast? =
            some ((unobserved verbose name ops).recording n.chip.nextLine start) := by
        rw [List.getLast?_map, started, Option.map_some]
      obtain ⟨entry, isNewest, -, entryLine, entryLoc⟩ := StepLog.newest?_recordAll room last
      rw [isNewest, Option.map_some, Option.map_some, Option.some_or, Option.map_some, entryLine,
        entryLoc]
      rfl

/-- A fault of a tick is shown in the line that it ran if it is one of an evaluation, and otherwise
where the statement is that was started last. -/
theorem shows_of_tickFault {text file : String} (parsed : Program.parse text file = .ok p)
    (chip : Chip) (count : Nat) {fault : Fault} :
    let u := unobserved verbose name ops
    let before := (u.ticks p count (.start chip ())).2
    let after := (u.step p before).2
    u.tickFault? p before = some fault →
    (∃ error loc, fault = .eval error ∧ Traceback.Shows after.log fault (some loc) ∧
      loc.file = file ∧ loc.line = before.chip.nextLine) ∨
    ∃ error, fault = .source error ∧ p.error? before.chip.nextLine = some error ∧
      Traceback.Shows after.log fault ((p.lastStarted? ops chip count).bind (·.2.loc)) := by
  intro u before after failed
  have shows := Traceback.shows_place after.log fault
  cases unread : p.error? before.chip.nextLine with
  | some error =>
    rw [tickFault?, unread] at failed
    obtain rfl := Option.some.inj failed
    have logged : after.log = before.log := by
      rw [show after = _ from congrArg Prod.snd (step_of_some unread), answerUnread_snd,
        dispatch_unobserved]
      rfl
    obtain ⟨-, -, newest⟩ :=
      newest?_ticks verbose name ops (fun number => (Program.sits_line parsed number).1) chip count
    have place : Traceback.place? before.log (.source error) =
        (p.lastStarted? ops chip count).bind (·.2.loc) := by
      refine Option.none_or.trans ?_
      simpa only [Option.bind_map, Function.comp_def] using congrArg (Option.bind · Prod.snd) newest
    refine .inr ⟨error, rfl, rfl, ?_⟩
    rw [logged, place] at shows
    exact logged ▸ shows
  | none =>
    rw [tickFault?, unread] at failed
    obtain ⟨told, failure, left, executes, -⟩ := executes_of_runLine failed
    have filled : (p.line before.chip.nextLine).statements ≠ [] := by
      intro blank
      rw [blank] at executes
      cases executes
    have loaded : p.Loaded := .inl ⟨text, file, parsed⟩
    obtain ⟨error, rfl, loc, located, sameFile, sameLine⟩ := within_of_runLine
      (loaded.targeted before.chip.nextLine) ((Program.sits_line parsed _).2 filled) failed
    refine .inl ⟨error, loc, rfl, ?_, sameFile, sameLine⟩
    have place : Traceback.place? after.log (.eval error) = some loc := by
      rw [Traceback.place?, Fault.loc?, located, Option.some_or]
    exact place ▸ shows

end Interpreter

/-! ### Runs under an observer -/

namespace Console

/-- What the command reports of a fault: its report for people, and if asked the one for
programs. -/
def reportOf (verbose json : Bool) (log : StepLog) (fault : Fault) (s : Streams) : Streams :=
  let s := s.complain (Traceback.text log fault verbose)
  if json then s.complain (Traceback.json log fault) else s

/-- The command reports faults that can be shown, and does nothing else with them. -/
theorem reports_reporter (verbose json : Bool) {fault : Fault}
    (showable : fault.isShowable = true) :
    (reporter verbose json).Reports (reportOf verbose json) fault := by
  intro m
  simp only [reporter, if_pos showable]
  rfl

end Console

namespace Interpreter

/-- Over every number of ticks of a program from source, under an observer that makes a report of
every fault by which one of them fails and does nothing else: a tick that fails has its fault
reported, once and under the log that the tick leaves, and no other tick has anything reported. A
fault of an evaluation is shown at a place in the line that the tick ran. That a line could not be
read is no place, so it is shown at that of the newest step, which is the statement that was
started last in an earlier tick, in whatever line that was; and at none if no statement was
started yet. -/
theorem shows_of_ticks {text file : String} {p : Program} (parsed : Program.parse text file = .ok p)
    (verbose : Bool) (name : String) (ops : Operators) {handler : Handler ω}
    {report : StepLog → Fault → ω → ω} (chip : Chip) (o : ω) (count : Nat)
    (reports : ∀ index ≤ count, ∀ fault, (unobserved verbose name ops).TickFails p
      ((unobserved verbose name ops).ticks p index (.start chip ())).2 fault →
        handler.Reports report fault) :
    let i := reporting verbose name ops handler
    let before := (i.ticks p count (.start chip o)).2
    let after := (i.step p before).2
    ((∀ fault, ¬ i.TickFails p before fault) → after.observer = before.observer) ∧
    ∀ fault, i.TickFails p before fault →
      after.observer = report after.log fault before.observer ∧
      ((∃ error loc, fault = .eval error ∧ Traceback.Shows after.log fault (some loc) ∧
          loc.file = file ∧ loc.line = before.chip.nextLine) ∨
        ∃ error, fault = .source error ∧ p.error? before.chip.nextLine = some error ∧
          Traceback.Shows after.log fault ((p.lastStarted? ops chip count).bind (·.2.loc)) ∧
          ∀ number s, p.lastStarted? ops chip count = some (number, s) →
            Location.Within file number s.loc) := by
  intro i before after
  let u := unobserved verbose name ops
  let n := (u.ticks p count (.start chip ())).2
  obtain ⟨other, same⟩ : ∃ other, before = n.beside other :=
    exists_ticks_beside verbose name ops p count o (.start chip ()) fun index below =>
      reports index (Nat.le_of_lt below)
  have reportsHere := reports count (Nat.le_refl count)
  have fault? : i.tickFault? p before = u.tickFault? p n := by
    rw [same]
    exact tickFault?_beside verbose name ops p other n reportsHere
  have left : after = (u.step p n).2.beside
      (reported report (u.step p n).2.log before.observer (u.tickFault? p n)) := by
    rw [show after = (i.step p before).2 from rfl, same]
    exact congrArg Prod.snd (step_beside verbose name ops p other n reportsHere)
  constructor
  · intro never
    have none : u.tickFault? p n = none := by
      rw [← fault?, Option.eq_none_iff_forall_ne_some]
      exact fun fault failed => never fault (tickFails_iff.mpr failed)
    rw [left, none]
    rfl
  · intro fault fails
    have failed : u.tickFault? p n = some fault := fault? ▸ tickFails_iff.mp fails
    rw [left, failed]
    refine ⟨rfl, ?_⟩
    rcases shows_of_tickFault verbose name ops parsed chip count failed with
      atLine | ⟨error, isSource, unread, shows⟩
    · rw [same]
      exact .inl atLine
    · rw [same]
      exact .inr ⟨error, isSource, unread, shows,
        fun _ _ last => Program.within_of_lastStarted parsed last⟩

/-- A source whose second line cannot be read and whose third multiplies by a text. -/
def mixedSource : String := "a=1\nif b\nc=2*\"x\""

/-- The interpreter of the command, which reports faults in both ways. -/
def commandLike : Interpreter Console.Streams :=
  reporting true "" .default (Console.reporter true true)

/-- The machine of the command after ticks of a program. -/
def commandAfter (p : Program) (count : Nat) : Machine Console.Streams :=
  (commandLike.ticks p count (.start (.fresh "chip") .empty)).2

/-- The fault of the third line is reported as the command reports, and shown in that line. -/
theorem shows_of_ticks_mixed :
    ∃ p fault, Program.parse mixedSource "" = .ok p ∧
      (Console.reporter true true).Reports (Console.reportOf true true) fault ∧
      commandLike.TickFails p (commandAfter p 2) fault ∧
      (commandLike.step p (commandAfter p 2)).2.observer =
        Console.reportOf true true (commandLike.step p (commandAfter p 2)).2.log fault
          (commandAfter p 2).observer ∧
      ∃ loc, Traceback.Shows (commandLike.step p (commandAfter p 2)).2.log fault (some loc) ∧
        loc.line = 3 := by
  obtain ⟨p, parsed, checked⟩ := exists_ok_of_any (x := Program.parse mixedSource "")
    (f := fun p => decide ((commandAfter p 2).chip.nextLine = 3) &&
      (commandLike.tickFault? p (commandAfter p 2)).any fun fault =>
        decide (fault.title = "OperatorError") && fault.isShowable) (by decide +kernel)
  obtain ⟨third, failed⟩ := Bool.and_eq_true_iff.mp checked
  obtain ⟨fault, failed, shown⟩ := (Option.any_eq_true _ _).mp failed
  obtain ⟨isRefusal, showable⟩ := Bool.and_eq_true_iff.mp shown
  have fails : commandLike.TickFails p (commandAfter p 2) fault := tickFails_iff.mpr failed
  have reports : ∀ index ≤ 2, ∀ fault, (unobserved true "" .default).TickFails p
      ((unobserved true "" .default).ticks p index (.start (.fresh "chip") ())).2 fault →
        (Console.reporter true true).Reports (Console.reportOf true true) fault := by
    intro index _ fault fails
    apply Console.reports_reporter
    exact isShowable_of_tickFails (i := unobserved true "" .default) Hooks.watching_none
      Operators.showable_default parsed fails
  obtain ⟨reported, ⟨_, loc, _, shows, _, atLine⟩ | ⟨_, rfl, _⟩⟩ :=
    (shows_of_ticks parsed true "" .default (.fresh "chip") Console.Streams.empty 2 reports).2
      fault fails
  · exact ⟨p, fault, parsed, Console.reports_reporter true true showable, fails, reported, loc,
      shows, atLine.trans (of_decide_eq_true third)⟩
  · obtain ⟨_, isEval, _⟩ := Fault.eval_of_title (of_decide_eq_true isRefusal)
    cases isEval

/-- What is reported of a line that could not be read can be shown in another line. -/
theorem shows_elsewhere :
    ¬ ∀ text p, Program.parse text "" = .ok p → ∀ count fault,
      commandLike.TickFails p (commandAfter p count) fault →
        ∀ loc, Traceback.Shows (commandLike.step p (commandAfter p count)).2.log fault (some loc) →
          loc.line = (commandAfter p count).chip.nextLine := by
  intro own
  obtain ⟨p, parsed, checked⟩ := exists_ok_of_any (x := Program.parse mixedSource "")
    (f := fun p => (commandLike.tickFault? p (commandAfter p 1)).any fun fault =>
      (Traceback.place? (commandLike.step p (commandAfter p 1)).2.log fault).any fun loc =>
        decide (loc.line ≠ (commandAfter p 1).chip.nextLine)) (by decide +kernel)
  obtain ⟨fault, failed, checked⟩ := (Option.any_eq_true _ _).mp checked
  obtain ⟨loc, place, differs⟩ := (Option.any_eq_true _ _).mp checked
  have shows := place ▸ Traceback.shows_place (commandLike.step p (commandAfter p 1)).2.log fault
  exact of_decide_eq_true differs
    (own mixedSource p parsed 1 fault (tickFails_iff.mpr failed) loc shows)

end Interpreter

end YololChip
