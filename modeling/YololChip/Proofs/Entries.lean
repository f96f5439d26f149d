import YololChip.Run.Interpreter

/-!
# The entry points

A line is run from its source or as the next one of a program. Either it can be read, and is run
with its fault recorded; or it is refused, and then the chip passes over it, its error is recorded,
and the handlers of errors are told. What they answer then goes to the caller. Two things more
go to the caller that no handler has a part in: a line of source can break off while it is
read, and a fault can be one that cannot be shown, and so not be recorded.
-/

namespace YololChip

/-- What is made of a result fails just as the result does. -/
theorem map_eq_error {ε α β : Type} {f : α → β} {x : Except ε α} {e : ε} :
    x.map f = .error e ↔ x = .error e := by
  cases x <;> simp [Except.map]

theorem map_eq_ok {ε α β : Type} {f : α → β} {x : Except ε α} {b : β} :
    x.map f = .ok b ↔ ∃ a, x = .ok a ∧ f a = b := by
  cases x <;> simp [Except.map]

variable {ω : Type}

/-- The machine past a line that is refused, with its error recorded. No step is logged for it,
and no variable is touched. -/
def Machine.passOver (error : SourceError) (m : Machine ω) : Machine ω :=
  { m with chip := { m.chip.advance with error := error.message } }

namespace Interpreter

variable {i : Interpreter ω}

/-- Tells the handlers of errors of a line that is refused, and answers unless one of them
fails. What the handler raises then is not recorded but raised. -/
def answerUnread {α : Type} (i : Interpreter ω) (error : SourceError) (answer : α)
    (m : Machine ω) : Except Raised α × Machine ω :=
  match i.hooks.dispatch (.failed (.source error)) m with
  | (some fault, m) => (.error (.fault fault), m)
  | (none, m) => (.ok answer, m)

/-- A line of source that can be read is run and its fault recorded. -/
theorem executeLine_of_ok {text : String} {m : Machine ω} {line : Line}
    (read : Line.parse text i.file m.chip.nextLine = .ok line) :
    i.executeLine text m = i.runRecorded line m := by
  rw [executeLine, read]

theorem executeLine_of_error {text : String} {m : Machine ω} {error : SourceError}
    (unread : Line.parse text i.file m.chip.nextLine = .error (.refused error)) :
    i.executeLine text m = i.answerUnread error false (m.passOver error) := by
  rw [executeLine, unread]
  rfl

theorem executeLine_of_overlong {text : String} {m : Machine ω} {digits : Nat}
    (overlong : Line.parse text i.file m.chip.nextLine = .error (.overlong digits)) :
    i.executeLine text m = (.error (.overlong digits), m) := by
  rw [executeLine, overlong]

/-- A tick moves the chip on and runs the line that it was at. -/
theorem step_of_none {p : Program} {m : Machine ω}
    (readable : p.error? m.chip.nextLine = none) :
    i.step p m =
      ((i.runRecorded (p.line m.chip.nextLine) { m with chip := m.chip.advance }).1.map
          fun _ => m.chip.nextLine,
        (i.runRecorded (p.line m.chip.nextLine) { m with chip := m.chip.advance }).2) := by
  rw [step]
  simp only [readable]

theorem step_of_some {p : Program} {m : Machine ω} {error : SourceError}
    (unread : p.error? m.chip.nextLine = some error) :
    i.step p m = i.answerUnread error m.chip.nextLine (m.passOver error) := by
  rw [step]
  simp only [unread]
  rfl

/-- What is recorded of the fault of a run: the fault, or nothing if it cannot be shown. In the
second case the error stays that was there before. -/
def recordShowable (fault : Fault) (m : Machine ω) : Machine ω :=
  if fault.isShowable then recordError fault m else m

@[simp] theorem log_recordShowable (fault : Fault) (m : Machine ω) :
    (recordShowable fault m).log = m.log := by
  unfold recordShowable
  split <;> rfl

@[simp] theorem observer_recordShowable (fault : Fault) (m : Machine ω) :
    (recordShowable fault m).observer = m.observer := by
  unfold recordShowable
  split <;> rfl

/-- A fault that is recorded is the error of the chip, and one that cannot be shown leaves the error
that it had. -/
theorem error_recordShowable (fault : Fault) (m : Machine ω) :
    (recordShowable fault m).chip.error =
      if fault.isShowable then fault.message else m.chip.error := by
  unfold recordShowable
  split <;> rfl

/-- What the caller is told of the fault of a run: that the line did not run to its end, or that
its fault cannot be shown. The fault itself is not handed on. -/
def answerFault (fault : Fault) : Except Raised Bool :=
  if fault.isShowable then .ok false else .error .unshowable

/-- A line that is run to its end says so, and any other does with its fault what can be done. -/
theorem runRecorded_eq (i : Interpreter ω) (line : Line) (m : Machine ω) :
    i.runRecorded line m =
      match (i.runLine line m).1 with
      | none => (.ok true, (i.runLine line m).2)
      | some fault => (answerFault fault, recordShowable fault (i.runLine line m).2) := by
  rw [runRecorded]
  rcases i.runLine line m with ⟨_ | fault, left⟩
  · rfl
  · unfold answerFault recordShowable
    by_cases showable : fault.isShowable = true
    · simp only [if_pos showable]
    · simp only [if_neg showable]

/-- A line whose run ends by a fault does with it what can be done. It is recorded if it can be
shown, and otherwise the caller is told that it cannot. -/
theorem runRecorded_of_some {line : Line} {m : Machine ω} {fault : Fault}
    (ended : (i.runLine line m).1 = some fault) :
    i.runRecorded line m = (answerFault fault, recordShowable fault (i.runLine line m).2) := by
  rw [runRecorded_eq, ended]

/-- A line that is run raises nothing but that its fault cannot be shown. Faults of the line and
of observers are recorded, and not raised. -/
theorem runRecorded_eq_error {line : Line} {m : Machine ω} {raised : Raised} :
    (i.runRecorded line m).1 = .error raised ↔ raised = .unshowable ∧
      ∃ fault, (i.runLine line m).1 = some fault ∧ fault.isShowable = false := by
  rw [runRecorded_eq]
  cases (i.runLine line m).1 with
  | none => simp
  | some fault =>
    unfold answerFault
    cases showable : fault.isShowable with
    | true => simp [showable]
    | false =>
      simp only [Bool.false_eq_true, if_false, Except.error.injEq, Option.some.injEq,
        exists_eq_left', showable, and_true]
      exact eq_comm

/-- A line that is run says that it ran to its end just if it ends by no fault. -/
theorem runRecorded_eq_true {line : Line} {m : Machine ω} :
    (i.runRecorded line m).1 = .ok true ↔ (i.runLine line m).1 = none := by
  rw [runRecorded_eq]
  cases (i.runLine line m).1 with
  | none => simp
  | some fault => cases showable : fault.isShowable <;> simp [answerFault, showable]

/-- The caller is told of a fault exactly if a handler of errors fails, and of nothing else. -/
theorem answerUnread_eq_error {α : Type} {error : SourceError} {answer : α} {m : Machine ω}
    {raised : Raised} :
    (i.answerUnread error answer m).1 = .error raised ↔ ∃ fault, raised = .fault fault ∧
      (i.hooks.dispatch (.failed (.source error)) m).1 = some fault := by
  unfold answerUnread
  rcases i.hooks.dispatch (.failed (.source error)) m with ⟨_ | other, after⟩
  · simp
  · simp [eq_comm]

/-- The caller is answered exactly if no handler of errors fails. -/
theorem answerUnread_eq_ok {α : Type} {error : SourceError} {answer other : α} {m : Machine ω} :
    (i.answerUnread error answer m).1 = .ok other ↔
      (i.hooks.dispatch (.failed (.source error)) m).1 = none ∧ answer = other := by
  unfold answerUnread
  rcases i.hooks.dispatch (.failed (.source error)) m with ⟨_ | fault, after⟩
  · simp
  · simp

/-- What the handlers of errors leave is what the caller finds. What one of them changes on the
chip stays changed, also if another one fails. -/
theorem answerUnread_snd {α : Type} (error : SourceError) (answer : α) (m : Machine ω) :
    (i.answerUnread error answer m).2 = (i.hooks.dispatch (.failed (.source error)) m).2 := by
  unfold answerUnread
  rcases i.hooks.dispatch (.failed (.source error)) m with ⟨_ | fault, after⟩
  · rfl
  · rfl

/-! ### What the caller is told -/

/-- How a line of source can fail: it is refused, or its run ends by a fault, be it one of the line
or one of an observer. That it breaks off is no fault. -/
inductive Fails (i : Interpreter ω) (text : String) (m : Machine ω) : Fault → Prop where
  | unread {error : SourceError}
      (unread : Line.parse text i.file m.chip.nextLine = .error (.refused error)) :
    Fails i text m (.source error)
  | ran {line : Line} {fault : Fault}
      (read : Line.parse text i.file m.chip.nextLine = .ok line)
      (ended : (i.runLine line m).1 = some fault) : Fails i text m fault

/-- How a tick can fail: the line could not be read, or its run ends by a fault, be it one of
the line or one of an observer. The run is that from the chip that has been moved on. -/
inductive TickFails (i : Interpreter ω) (p : Program) (m : Machine ω) : Fault → Prop where
  | unread {error : SourceError} (unread : p.error? m.chip.nextLine = some error) :
    TickFails i p m (.source error)
  | ran {fault : Fault} (readable : p.error? m.chip.nextLine = none)
      (ended : (i.runLine (p.line m.chip.nextLine) { m with chip := m.chip.advance }).1 =
        some fault) :
    TickFails i p m fault

/-- A tick of a line that could not be read fails in that way only. -/
theorem tickFails_of_some {p : Program} {m : Machine ω} {error : SourceError}
    (unread : p.error? m.chip.nextLine = some error) {fault : Fault} :
    i.TickFails p m fault ↔ fault = .source error := by
  constructor
  · intro fails
    cases fails with
    | unread other => rw [Option.some.inj (unread.symm.trans other)]
    | ran readable =>
      rw [readable] at unread
      contradiction
  · rintro rfl
    exact .unread unread

/-- A tick of a line that was read fails as the run of the line does. -/
theorem tickFails_of_none {p : Program} {m : Machine ω}
    (readable : p.error? m.chip.nextLine = none) {fault : Fault} :
    i.TickFails p m fault ↔
      (i.runLine (p.line m.chip.nextLine) { m with chip := m.chip.advance }).1 = some fault := by
  constructor
  · intro fails
    cases fails with
    | unread unread =>
      rw [readable] at unread
      contradiction
    | ran _ ended => exact ended
  · exact .ran readable

end Interpreter

namespace Hooks

/-- Whether the handlers of errors leave the recorded error of a line that cannot be read as it
is. They may fail, and do all else. -/
def KeepsError (hooks : Hooks ω) : Prop :=
  ∀ handler ∈ hooks.handlers .onError, ∀ error m,
    (handler.run (.failed (.source error)) m).2.chip.error = m.chip.error

/-- Handlers that leave the recorded error as it is leave it so together, whether or not one of
them fails. -/
theorem error_tell {handlers : List (Handler ω)} {notice : Notice}
    (keeps : ∀ handler ∈ handlers, ∀ m, (handler.run notice m).2.chip.error = m.chip.error)
    (m : Machine ω) : (tell notice handlers m).2.chip.error = m.chip.error := by
  induction handlers generalizing m with
  | nil => rfl
  | cons handler rest inductionHypothesis =>
    have here := keeps handler List.mem_cons_self m
    have others : ∀ other ∈ rest, ∀ m, (other.run notice m).2.chip.error = m.chip.error :=
      fun other member => keeps other (List.mem_cons_of_mem _ member)
    rw [tell]
    rcases ran : handler.run notice m with ⟨verdict, after⟩
    rw [ran] at here
    simp only
    cases faultOf (.handlerBroke notice.event) verdict with
    | some fault => exact here
    | none => exact (inductionHypothesis others after).trans here

/-- Handlers of errors that leave the recorded error as it is leave that of a line that cannot
be read. -/
theorem KeepsError.dispatch {hooks : Hooks ω} (keeps : hooks.KeepsError) (error : SourceError)
    (m : Machine ω) :
    (hooks.dispatch (.failed (.source error)) m).2.chip.error = m.chip.error :=
  error_tell (fun handler member => keeps handler member error) m

end Hooks

namespace Interpreter

variable {i : Interpreter ω} {m : Machine ω}

theorem error_runRecorded {line : Line} {fault : Fault}
    (ended : (i.runLine line m).1 = some fault) (showable : fault.isShowable = true) :
    (i.runRecorded line m).2.chip.error = fault.message := by
  rw [runRecorded_of_some ended, recordShowable, if_pos showable]
  rfl

/-- The error of a line that is refused is recorded, if handlers leave it as it is. -/
theorem error_answerUnread {α : Type} (keeps : i.hooks.KeepsError) (error : SourceError)
    (answer : α) :
    (i.answerUnread error answer (m.passOver error)).2.chip.error = error.message := by
  rw [answerUnread_snd, keeps.dispatch]
  rfl

/-- What the caller of a line of source is told instead of an answer: the number of digits at
which reading the line broke off, that its fault cannot be shown, or a fault of a handler
that is told that the line is refused. -/
inductive Raises (i : Interpreter ω) (text : String) (m : Machine ω) : Raised → Prop where
  | overlong {digits : Nat}
      (overlong : Line.parse text i.file m.chip.nextLine = .error (.overlong digits)) :
    Raises i text m (.overlong digits)
  | unshowable {line : Line} {fault : Fault}
      (read : Line.parse text i.file m.chip.nextLine = .ok line)
      (ended : (i.runLine line m).1 = some fault) (hidden : fault.isShowable = false) :
    Raises i text m .unshowable
  | handler {error : SourceError} {fault : Fault}
      (unread : Line.parse text i.file m.chip.nextLine = .error (.refused error))
      (told : (i.hooks.dispatch (.failed (.source error)) (m.passOver error)).1 = some fault) :
    Raises i text m (.fault fault)

/-- What the caller of a tick is told instead of an answer: that the fault of its line cannot be
shown, or a fault of a handler that is told that the line was refused. -/
inductive TickRaises (i : Interpreter ω) (p : Program) (m : Machine ω) : Raised → Prop where
  | unshowable {fault : Fault} (readable : p.error? m.chip.nextLine = none)
      (ended : (i.runLine (p.line m.chip.nextLine) { m with chip := m.chip.advance }).1 =
        some fault) (hidden : fault.isShowable = false) :
    TickRaises i p m .unshowable
  | handler {error : SourceError} {fault : Fault}
      (unread : p.error? m.chip.nextLine = some error)
      (told : (i.hooks.dispatch (.failed (.source error)) (m.passOver error)).1 = some fault) :
    TickRaises i p m (.fault fault)

theorem executeLine_eq_error {text : String} {raised : Raised} :
    (i.executeLine text m).1 = .error raised ↔ i.Raises text m raised := by
  constructor
  · intro raises
    cases read : Line.parse text i.file m.chip.nextLine with
    | ok line =>
      rw [executeLine_of_ok read, runRecorded_eq_error] at raises
      obtain ⟨rfl, fault, ended, hidden⟩ := raises
      exact .unshowable read ended hidden
    | error refusal =>
      cases refusal with
      | overlong digits =>
        rw [executeLine_of_overlong read] at raises
        obtain rfl := Except.error.inj raises
        exact .overlong read
      | refused error =>
        rw [executeLine_of_error read, answerUnread_eq_error] at raises
        obtain ⟨fault, rfl, told⟩ := raises
        exact .handler read told
  · rintro (overlong | ⟨read, ended, hidden⟩ | ⟨unread, told⟩)
    · rw [executeLine_of_overlong overlong]
    · rw [executeLine_of_ok read, runRecorded_eq_error]
      exact ⟨rfl, _, ended, hidden⟩
    · rw [executeLine_of_error unread, answerUnread_eq_error]
      exact ⟨_, rfl, told⟩

/-- A line of source raises a fault exactly if it is refused and a handler that is told so fails. -/
theorem raises_fault_iff {text : String} {fault : Fault} :
    i.Raises text m (.fault fault) ↔
      ∃ error, Line.parse text i.file m.chip.nextLine = .error (.refused error) ∧
        (i.hooks.dispatch (.failed (.source error)) (m.passOver error)).1 = some fault := by
  constructor
  · rintro (_ | _ | ⟨unread, told⟩)
    exact ⟨_, unread, told⟩
  · rintro ⟨error, unread, told⟩
    exact .handler unread told

/-- A line of source ran to its end exactly if nothing failed and it did not break off. -/
theorem executeLine_eq_true {text : String} :
    (i.executeLine text m).1 = .ok true ↔ (∀ fault, ¬ i.Fails text m fault) ∧
      ∀ digits, Line.parse text i.file m.chip.nextLine ≠ .error (.overlong digits) := by
  cases read : Line.parse text i.file m.chip.nextLine with
  | error refusal =>
    cases refusal with
    | overlong digits => simp [executeLine_of_overlong read]
    | refused error =>
      have fails : i.Fails text m (.source error) := .unread read
      rw [executeLine_of_error read, answerUnread_eq_ok]
      constructor
      · intro answered
        cases answered.2
      · intro never
        exact absurd fails (never.1 _)
  | ok line =>
    rw [executeLine_of_ok read, runRecorded_eq_true]
    constructor
    · intro done
      refine ⟨fun fault fails => ?_, by simp⟩
      cases fails with
      | unread unread => cases read.symm.trans unread
      | ran readToo ended =>
        obtain rfl := Except.ok.inj (read.symm.trans readToo)
        rw [done] at ended
        contradiction
    · rintro ⟨never, -⟩
      cases ended : (i.runLine line m).1 with
      | none => rfl
      | some fault => exact absurd (.ran read ended) (never fault)

/-- The fault of a line of source that was run is recorded, if it can be shown. -/
theorem error_executeLine_of_ok {text : String} {line : Line} {fault : Fault}
    (read : Line.parse text i.file m.chip.nextLine = .ok line)
    (ended : (i.runLine line m).1 = some fault) (showable : fault.isShowable = true) :
    (i.executeLine text m).2.chip.error = fault.message := by
  rw [executeLine_of_ok read]
  exact error_runRecorded ended showable

/-- That a line of source is refused is recorded, if handlers leave it so. They are told of it
after it was recorded, so they may replace it. -/
theorem error_executeLine_of_error {text : String} {error : SourceError}
    (keeps : i.hooks.KeepsError)
    (unread : Line.parse text i.file m.chip.nextLine = .error (.refused error)) :
    (i.executeLine text m).2.chip.error = error.message := by
  rw [executeLine_of_error unread]
  exact error_answerUnread keeps error false

theorem step_eq_error {p : Program} {raised : Raised} :
    (i.step p m).1 = .error raised ↔ i.TickRaises p m raised := by
  constructor
  · intro raises
    cases unread : p.error? m.chip.nextLine with
    | some error =>
      rw [step_of_some unread, answerUnread_eq_error] at raises
      obtain ⟨fault, rfl, told⟩ := raises
      exact .handler unread told
    | none =>
      rw [step_of_none unread, map_eq_error, runRecorded_eq_error] at raises
      obtain ⟨rfl, fault, ended, hidden⟩ := raises
      exact .unshowable unread ended hidden
  · rintro (⟨readable, ended, hidden⟩ | ⟨unread, told⟩)
    · rw [step_of_none readable, map_eq_error, runRecorded_eq_error]
      exact ⟨rfl, _, ended, hidden⟩
    · rw [step_of_some unread, answerUnread_eq_error]
      exact ⟨_, rfl, told⟩

/-- A tick raises a fault exactly if its line was refused and a handler that is told so fails. -/
theorem tickRaises_fault_iff {p : Program} {fault : Fault} :
    i.TickRaises p m (.fault fault) ↔
      ∃ error, p.error? m.chip.nextLine = some error ∧
        (i.hooks.dispatch (.failed (.source error)) (m.passOver error)).1 = some fault := by
  constructor
  · rintro (_ | ⟨unread, told⟩)
    exact ⟨_, unread, told⟩
  · rintro ⟨error, unread, told⟩
    exact .handler unread told

/-- A tick that answers gives the number of the line that the chip was at. It is the number of
the line that was run, and not that of the next one. -/
theorem step_eq_ok {p : Program} {number : Int} (answered : (i.step p m).1 = .ok number) :
    number = m.chip.nextLine := by
  cases unread : p.error? m.chip.nextLine with
  | some error =>
    rw [step_of_some unread, answerUnread_eq_ok] at answered
    exact answered.2.symm
  | none =>
    rw [step_of_none unread, map_eq_ok] at answered
    obtain ⟨ran, -, rfl⟩ := answered
    rfl

/-- The fault of a tick whose line was run is recorded, if it can be shown. -/
theorem error_step_of_none {p : Program} {fault : Fault}
    (readable : p.error? m.chip.nextLine = none)
    (ended : (i.runLine (p.line m.chip.nextLine) { m with chip := m.chip.advance }).1 =
      some fault) (showable : fault.isShowable = true) :
    (i.step p m).2.chip.error = fault.message := by
  rw [step_of_none readable]
  exact error_runRecorded ended showable

/-- That the line of a tick was refused is recorded, if handlers leave it so. -/
theorem error_step_of_some {p : Program} {error : SourceError} (keeps : i.hooks.KeepsError)
    (unread : p.error? m.chip.nextLine = some error) :
    (i.step p m).2.chip.error = error.message := by
  rw [step_of_some unread]
  exact error_answerUnread keeps error m.chip.nextLine

/-- The entry points answer, except that a fault of a handler that is told of a line that is refused
goes to the caller. Two things that are no faults go there as well: that a line of source breaks
off, and that a fault cannot be shown. A line of source that runs to its end is answered so, and a
tick by the number of its line. Whatever else fails is recorded: the fault of a run, be it one of
the line or one of an observer, and that a line is refused, unless a handler that is told so sets
another error. -/
theorem answers_or_handler_fails (i : Interpreter ω) (m : Machine ω) :
    (∀ text,
      (∀ fault, (i.executeLine text m).1 = .error (.fault fault) ↔
        ∃ error, Line.parse text i.file m.chip.nextLine = .error (.refused error) ∧
          (i.hooks.dispatch (.failed (.source error)) (m.passOver error)).1 = some fault) ∧
      (∀ raised, (i.executeLine text m).1 = .error raised ↔ i.Raises text m raised) ∧
      ((i.executeLine text m).1 = .ok true ↔ (∀ fault, ¬ i.Fails text m fault) ∧
        ∀ digits, Line.parse text i.file m.chip.nextLine ≠ .error (.overlong digits)) ∧
      (∀ line fault, Line.parse text i.file m.chip.nextLine = .ok line →
        (i.runLine line m).1 = some fault → fault.isShowable = true →
        (i.executeLine text m).2.chip.error = fault.message) ∧
      (i.hooks.KeepsError → ∀ error,
        Line.parse text i.file m.chip.nextLine = .error (.refused error) →
        (i.executeLine text m).2.chip.error = error.message)) ∧
    ∀ p : Program,
      (∀ fault, (i.step p m).1 = .error (.fault fault) ↔
        ∃ error, p.error? m.chip.nextLine = some error ∧
          (i.hooks.dispatch (.failed (.source error)) (m.passOver error)).1 = some fault) ∧
      (∀ raised, (i.step p m).1 = .error raised ↔ i.TickRaises p m raised) ∧
      (∀ number, (i.step p m).1 = .ok number → number = m.chip.nextLine) ∧
      (∀ fault, p.error? m.chip.nextLine = none →
        (i.runLine (p.line m.chip.nextLine) { m with chip := m.chip.advance }).1 = some fault →
        fault.isShowable = true → (i.step p m).2.chip.error = fault.message) ∧
      (i.hooks.KeepsError → ∀ error, p.error? m.chip.nextLine = some error →
        (i.step p m).2.chip.error = error.message) := by
  constructor
  · intro text
    exact ⟨fun _ => executeLine_eq_error.trans raises_fault_iff, fun _ => executeLine_eq_error,
      executeLine_eq_true, fun _ _ => error_executeLine_of_ok,
      fun keeps _ => error_executeLine_of_error keeps⟩
  · intro p
    exact ⟨fun _ => step_eq_error.trans tickRaises_fault_iff, fun _ => step_eq_error,
      fun _ => step_eq_ok, fun _ => error_step_of_none, fun keeps _ => error_step_of_some keeps⟩

/-- An interpreter with one handler of errors, which refuses. It turns every fault that it is
told of into another one. -/
def refusing : Interpreter Unit :=
  ⟨false, "<line>",
    Hooks.none.add .onError ⟨0, "h", fun _ m => (.refused (.plain "hook says no"), m)⟩, .default⟩

theorem exists_error_of_open_group :
    ∃ error, Line.parse "a = (" "<line>" 1 = .error (.refused error) := by
  obtain ⟨fault, failed, same⟩ := exists_error_of_any (x := Line.parse "a = (" "<line>" 1)
    (f := fun fault => fault = .refused (.parse ⟨.unexpected .finish, some ⟨.finish, 1, 6⟩⟩))
    (by decide +kernel)
  obtain rfl := of_decide_eq_true same
  exact ⟨_, failed⟩

/-- A handler of errors that refuses to be told of a line that cannot be read refuses it to the
caller. The error is recorded all the same. -/
theorem refusing_executeLine :
    (refusing.executeLine "a = (" (.start (.fresh "chip") ())).1 =
        .error (.fault (.plain "hook says no")) ∧
      ∃ error, Line.parse "a = (" "<line>" 1 = .error (.refused error) ∧
        (refusing.executeLine "a = (" (.start (.fresh "chip") ())).2.chip.error =
          error.message := by
  obtain ⟨error, unread⟩ := exists_error_of_open_group
  have keeps : refusing.hooks.KeepsError := by
    intro handler member error m
    rw [List.mem_singleton.mp member]
  obtain ⟨⟨raises, _, _, _, recorded⟩, _⟩ := (answers_or_handler_fails refusing
    (.start (.fresh "chip") ())).imp_left (· "a = (")
  exact ⟨(raises _).mpr ⟨error, unread, rfl⟩, error, unread, recorded keeps error unread⟩

/-- Not every call answers: what a handler of errors refuses can go to the caller. -/
theorem not_always_answered :
    ¬ ∀ (i : Interpreter Unit) (text : String) (m : Machine Unit),
      ∃ ran, (i.executeLine text m).1 = .ok ran := by
  intro always
  obtain ⟨error, unread⟩ := exists_error_of_open_group
  obtain ⟨ran, answered⟩ := always refusing "a = (" (.start (.fresh "chip") ())
  have raised := (executeLine_eq_error (i := refusing) (m := .start (.fresh "chip") ())).mpr
    (.handler unread rfl)
  rw [answered] at raised
  contradiction

end Interpreter

end YololChip
