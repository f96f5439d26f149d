import YololChip.Proofs.NumeralGrammar
import YololChip.Proofs.ShowableFaults
import YololChip.Proofs.Told

/-!
# How a line of source ends

Without observers a line of source ends in exactly one of four ways. It is refused, and then the
chip passes over it and nothing else changes; or its run stops short, and then its fault is
recorded and the chip is where it was; or it runs through, and then the chip is where it was
unless the line took a goto, which was its last statement and led to the line of the number's
floor. Or else reading it breaks off at a number of too many digits: then nothing happens at all,
nothing is recorded, and the caller has no answer.
-/

namespace YololChip.Interpreter

variable {ω : Type} (i : Interpreter ω) (text : String) (m : Machine ω)
  (result : Except Raised Bool) (after : Machine ω)

/-- A line of source is refused: the chip is moved to the next line and the error recorded. The
variables stay, and no step is logged; but for the chip the machine is as it was. -/
def PassesOver : Prop :=
  ∃ error, Line.parse text i.file m.chip.nextLine = .error (.refused error) ∧
    result = .ok false ∧
    after = { m with chip := { m.chip with
      nextLine := m.chip.nextLine % mostLines + 1, error := error.message } }

/-- A line of source is read, and one of its statements fails: the fault is recorded, and the
chip is where it was. What was done before the failure stays done. -/
def StopsShort : Prop :=
  ∃ line told error left, Line.parse text i.file m.chip.nextLine = .ok line ∧
    Executes i.operators line.statements m.chip told (.failed error) left ∧ result = .ok false ∧
    after.chip = { left with error := error.message } ∧ after.chip.nextLine = m.chip.nextLine

/-- A line of source is read and no statement fails: the recorded error stays. If no goto is
taken, the chip is where it was. Otherwise exactly one is taken, nothing after it, and the chip is
at the line of the floor of its number, or at the nearer end. -/
def RunsThrough : Prop :=
  ∃ line told finish left, Line.parse text i.file m.chip.nextLine = .ok line ∧
    Executes i.operators line.statements m.chip told finish left ∧ result = .ok true ∧
    after.chip = left ∧ after.chip.error = m.chip.error ∧
    ((finish = .completed ∧ Notice.JumpFree (i.lineNotices line m) ∧
        after.chip.nextLine = m.chip.nextLine) ∨
      ∃ target, finish = .jumped target ∧
        EndsInGoto i.operators (i.lineNotices line m) target left ∧
        after.chip.nextLine = max 1 (min (mostLines : Int) (target.units / Fixed.scale)))

/-- Reading a line of source breaks off at a number of too many digits: that goes to the caller, and
the machine is as it was. -/
def BreaksOff : Prop :=
  ∃ digits, Line.parse text i.file m.chip.nextLine = .error (.overlong digits) ∧
    result = .error (.overlong digits) ∧ after = m

variable {i text m result after}

/-- A line that is refused is not run, and does not break off. -/
theorem PassesOver.alone (passes : i.PassesOver text m result after) :
    ¬ i.StopsShort text m result after ∧ ¬ i.RunsThrough text m result after ∧
      ¬ i.BreaksOff text m result after := by
  obtain ⟨error, unread, _⟩ := passes
  refine ⟨?_, ?_, ?_⟩
  · rintro ⟨line, _, _, _, read, _⟩
    cases unread.symm.trans read
  · rintro ⟨line, _, _, _, read, _⟩
    cases unread.symm.trans read
  · rintro ⟨digits, overlong, _⟩
    cases unread.symm.trans overlong

/-- A line that stops short does not run through, and does not break off. -/
theorem StopsShort.alone (stops : i.StopsShort text m result after) :
    ¬ i.RunsThrough text m result after ∧ ¬ i.BreaksOff text m result after := by
  obtain ⟨_, _, _, _, read, _, short, _⟩ := stops
  constructor
  · rintro ⟨_, _, _, _, _, _, whole, _⟩
    cases short.symm.trans whole
  · rintro ⟨digits, overlong, _⟩
    cases read.symm.trans overlong

theorem RunsThrough.not_breaksOff (runs : i.RunsThrough text m result after) :
    ¬ i.BreaksOff text m result after := by
  obtain ⟨_, _, _, _, read, _⟩ := runs
  rintro ⟨digits, overlong, _⟩
  cases read.symm.trans overlong

/-- A line of source that is read stops short or runs through, if observers watch and the table
refuses by causes that can be shown. -/
theorem stopsShort_or_runsThrough (watching : i.hooks.Watching) (shows : i.operators.Showable)
    {line : Line} (read : Line.parse text i.file m.chip.nextLine = .ok line) :
    i.StopsShort text m (i.executeLine text m).1 (i.executeLine text m).2 ∨
      i.RunsThrough text m (i.executeLine text m).1 (i.executeLine text m).2 := by
  obtain ⟨told, finish, left, executes⟩ := exists_executes i.operators line.statements m.chip
  obtain ⟨fault?, ended, ending, runs, rfl, closes⟩ := executes.runLine_plain watching
  obtain ⟨cursor, error⟩ := executes.cursor
  have same := started_lineNotices watching executes
  rw [executeLine_of_ok read, runRecorded_eq, runs]
  cases closes with
  | failed error log =>
    have showable : (Fault.eval (placed line log error)).isShowable = true :=
      isShowable_of_runLine watching shows (Line.leveled_of_parse read) (congrArg Prod.fst runs)
    simp only [answerFault, recordShowable, if_pos showable]
    refine .inl ⟨line, told, error, _, read, executes, rfl, ?_, cursor⟩
    exact congrArg (fun text => { ended.chip with error := text }) (message_placed line log error)
  | completed =>
    refine .inr ⟨line, told, _, _, read, executes, rfl, rfl, error, .inl ⟨rfl, ?_, cursor⟩⟩
    rw [Notice.JumpFree, same]
    exact executes.jumpFree rfl
  | jumped target =>
    refine .inr ⟨line, told, _, _, read, executes, rfl, rfl, error, .inr ⟨target, rfl, ?_, ?_⟩⟩
    · rw [EndsInGoto, same]
      exact executes.endsInGoto rfl
    · exact cursor.trans (Chip.targetLine_eq target)

/-- Without observers a line of source ends in exactly one of four ways, of which the last is no
answer: it is passed over, stops short, runs through, or breaks off while it is read. -/
theorem executeLine_outcome (verbose : Bool) (file : String) {ops : Operators}
    (shows : ops.Showable) (text : String) (m : Machine Unit) :
    let i := unobserved verbose file ops
    let result := (i.executeLine text m).1
    let after := (i.executeLine text m).2
    (i.PassesOver text m result after ∨ i.StopsShort text m result after ∨
      i.RunsThrough text m result after ∨ i.BreaksOff text m result after) ∧
    List.Pairwise (fun one other => ¬ (one ∧ other))
      [i.PassesOver text m result after, i.StopsShort text m result after,
        i.RunsThrough text m result after, i.BreaksOff text m result after] := by
  intro i result after
  constructor
  · cases read : Line.parse text i.file m.chip.nextLine with
    | ok line =>
      rcases stopsShort_or_runsThrough (i := i) Hooks.watching_none shows read with stops | runs
      · exact .inr (.inl stops)
      · exact .inr (.inr (.inl runs))
    | error fault =>
      cases fault with
      | refused error =>
        have passed : i.executeLine text m = (.ok false, m.passOver error) :=
          executeLine_of_error read
        exact .inl ⟨error, read, congrArg Prod.fst passed, congrArg Prod.snd passed⟩
      | overlong digits =>
        have broken : i.executeLine text m = (.error (.overlong digits), m) :=
          executeLine_of_overlong read
        exact .inr (.inr (.inr
          ⟨digits, read, congrArg Prod.fst broken, congrArg Prod.snd broken⟩))
  · have first {one other : Prop} (excludes : one → ¬ other) : ¬ (one ∧ other) :=
      fun both => excludes both.1 both.2
    simp only [List.pairwise_cons, List.forall_mem_cons, List.not_mem_nil, false_imp_iff,
      implies_true, and_true, List.Pairwise.nil]
    refine ⟨⟨?_, ?_, ?_⟩, ⟨?_, ?_⟩, ?_⟩
    · exact first fun passes => passes.alone.1
    · exact first fun passes => passes.alone.2.1
    · exact first fun passes => passes.alone.2.2
    · exact first fun stops => stops.alone.1
    · exact first fun stops => stops.alone.2
    · exact first fun runs => runs.not_breaksOff

/-- With the default table a line with a goto ends in one of these ways. -/
theorem executeLine_outcome_goto :
    Operators.default.Showable ∧
      let result := (plain.executeLine "a=1 goto 3" (.start (.fresh "chip") ())).1
      let after := (plain.executeLine "a=1 goto 3" (.start (.fresh "chip") ())).2
      plain.PassesOver "a=1 goto 3" (.start (.fresh "chip") ()) result after ∨
        plain.StopsShort "a=1 goto 3" (.start (.fresh "chip") ()) result after ∨
        plain.RunsThrough "a=1 goto 3" (.start (.fresh "chip") ()) result after ∨
        plain.BreaksOff "a=1 goto 3" (.start (.fresh "chip") ()) result after :=
  ⟨Operators.showable_default, (executeLine_outcome false "<line>" Operators.showable_default
    "a=1 goto 3" (.start (.fresh "chip") ())).1⟩

/-- A line that assigns one digit more than are read ends in none of the three ways that are an
answer. -/
theorem executeLine_unanswered :
    ¬ ∀ (text : String) (m : Machine Unit),
      plain.PassesOver text m (plain.executeLine text m).1 (plain.executeLine text m).2 ∨
        plain.StopsShort text m (plain.executeLine text m).1 (plain.executeLine text m).2 ∨
        plain.RunsThrough text m (plain.executeLine text m).1 (plain.executeLine text m).2 := by
  intro answered
  have broken (number : Int) := Line.parse_assignOnes plain.file number
    (Nat.lt_add_one mostDigits)
  rcases answered (assignOnes (mostDigits + 1)) (.start (.fresh "chip") ()) with
    ⟨_, refused, _⟩ | ⟨_, _, _, _, read, _⟩ | ⟨_, _, _, _, read, _⟩
  · cases (broken _).symm.trans refused
  · cases (broken _).symm.trans read
  · cases (broken _).symm.trans read

end YololChip.Interpreter
