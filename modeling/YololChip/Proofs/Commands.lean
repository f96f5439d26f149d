import YololChip.Console.Command
import YololChip.Proofs.Observation
import YololChip.Proofs.Observers

/-!
# What the command shows

The observers of the command print, and answer every notice alike whatever flags ask for them: the
reporter breaks at a fault that cannot be shown, and nothing else fails. So the flags change what
is printed of faults and of lines on the way, and nothing of what is printed of the chip.
-/

namespace YololChip

/-- A handler of hooks to which one was added is the added one or one of the others. -/
theorem Hooks.mem_add {ω : Type} {hooks : Hooks ω} {event other : Event}
    {added handler : Handler ω} (member : handler ∈ (hooks.add event added).handlers other) :
    handler = added ∨ handler ∈ hooks.handlers other := by
  unfold add at member
  simp only at member
  split at member
  · exact mem_insertHandler.mp member
  · exact .inr member

namespace Console

/-! ### Output -/

theorem outText_write (s : Streams) (piece : String) :
    (s.write piece).outText = s.outText ++ piece := by
  simp [Streams.outText, Streams.write, String.join_append]

/-- Printing lines adds them to the output, one after the other. -/
theorem outText_foldl_print (lines : List String) (s : Streams) :
    (lines.foldl Streams.print s).outText =
      s.outText ++ String.join (lines.map (· ++ "\n")) := by
  induction lines generalizing s with
  | nil => simp
  | cons line rest inductionHypothesis =>
    rw [List.foldl_cons, inductionHypothesis, Streams.print, outText_write, List.map_cons,
      String.join_cons, String.append_assoc]

/-- What is printed when these lines are announced in turn, each on the chip that it was
announced on. Every announcement takes a line of its own. -/
def announced (told : List (Chip × Line)) : String :=
  String.join (told.map fun (chip, line) => announcement chip line ++ "\n")

/-- Whether what was printed on the output are announcements of lines, and nothing unless they
were asked for. Nothing is said of the error stream, where reports go. -/
def Announces (trace : Bool) (s : Streams) : Prop :=
  ∃ told, s.outText = announced told ∧ (trace = false → told = [])

theorem announced_append (told : List (Chip × Line)) (chip : Chip) (line : Line) :
    announced (told ++ [(chip, line)]) = announced told ++ (announcement chip line ++ "\n") := by
  simp [announced, String.join_append]

/-! ### The observers of the command -/

/-- The observers of the command report faults, and announce lines if that is asked for. -/
theorem mem_hooksOf {args : Arguments} {event : Event} {handler : Handler Streams}
    (member : handler ∈ (hooksOf args).handlers event) :
    handler = reporter args.verbose args.tracebackJson ∨
      args.trace = true ∧ handler = tracer := by
  unfold hooksOf at member
  simp only at member
  split at member
  · next trace =>
    rcases Hooks.mem_add member with isTracer | reports
    · exact .inr ⟨trace, isTracer⟩
    · rcases Hooks.mem_add reports with isReporter | none
      · exact .inl isReporter
      · exact absurd none List.not_mem_nil
  · rcases Hooks.mem_add member with isReporter | none
    · exact .inl isReporter
    · exact absurd none List.not_mem_nil

theorem rules_hooksOf (args : Arguments) : (hooksOf args).rules = [] := by
  unfold hooksOf
  cases args.trace <;> rfl

/-- What the observers of the command answer when they are told something: nothing, except that
the reporter breaks at a fault whose report cannot be made up. It is the same whether anything
was asked for, because every command has the reporter. -/
def heard? : Notice → Option Fault
  | .failed fault =>
    if fault.isShowable then none
    else some (.hook (.handlerBroke .onError "maximum recursion depth exceeded"))
  | _ => none

/-- The observers of the command answer so whatever flags ask for them, and change what they printed
only. -/
theorem dispatch_hooksOf (args : Arguments) (notice : Notice) (m : Machine Streams) :
    ∃ s, (hooksOf args).dispatch notice m = (heard? notice, { m with observer := s }) := by
  unfold hooksOf
  cases notice with
  | failed fault =>
    have alone : ∃ s, Hooks.tell (.failed fault) [reporter args.verbose args.tracebackJson] m =
        (heard? (.failed fault), { m with observer := s }) := by
      simp only [Hooks.tell, reporter, heard?]
      by_cases showable : fault.isShowable = true
      · simp only [if_pos showable]
        exact ⟨_, rfl⟩
      · simp only [if_neg showable]
        exact ⟨_, rfl⟩
    cases args.trace <;> exact alone
  | _ => cases args.trace <;> exact ⟨_, rfl⟩

theorem out_reporter (verbose json : Bool) (notice : Notice) (m : Machine Streams) :
    ((reporter verbose json).run notice m).2.observer.out = m.observer.out := by
  cases notice with
  | failed fault =>
    simp only [reporter]
    cases fault.isShowable <;> cases json <;> rfl
  | _ => rfl

theorem keeps_announces (args : Arguments) : (hooksOf args).Keeps (Announces args.trace) := by
  constructor
  · intro event handler member notice m announces
    rcases mem_hooksOf member with rfl | ⟨trace, rfl⟩
    · unfold Announces Streams.outText
      rw [out_reporter]
      exact announces
    · obtain ⟨told, printed, _⟩ := announces
      cases notice with
      | lineStarted line =>
        refine ⟨told ++ [(m.chip, line)], ?_, by simp [trace]⟩
        rw [announced_append, ← printed]
        simp [tracer, printing, Streams.outText, Streams.print, Streams.write, String.join_append]
      | _ => exact ⟨told, printed, by simp [trace]⟩
  · intro rule member
    rw [rules_hooksOf] at member
    exact absurd member List.not_mem_nil

/-! ### Runs under the observers of the command -/

/-- Whether two machines have one chip, and logs whose newest entries are of one step and at one
place. The entries may differ in their snapshots, which only a machine takes that is asked for
more, and older entries may differ in anything. -/
structure SameSteps (m n : Machine Streams) : Prop where
  chip : m.chip = n.chip
  limit : m.log.window.limit = n.log.window.limit
  index : m.log.nextIndex = n.log.nextIndex
  newest : m.log.newest?.map (fun entry => (entry.stepIndex, entry.loc)) =
    n.log.newest?.map fun entry => (entry.stepIndex, entry.loc)

namespace SameSteps

variable {m n : Machine Streams}

/-- A machine has its own steps, whatever its observers printed. -/
theorem refl (m : Machine Streams) : SameSteps m m := ⟨rfl, rfl, rfl, rfl⟩

/-- Entries of one step at one place can be pushed on both. The snapshots in them may differ. -/
theorem push (same : SameSteps m n) {entry other : LogEntry}
    (step : entry.stepIndex = other.stepIndex) (place : entry.loc = other.loc) :
    SameSteps { m with log := m.log.push entry } { n with log := n.log.push other } where
  chip := same.chip
  limit := by
    have pushed (log : StepLog) (entry : LogEntry) :
        (log.push entry).window.limit = log.window.limit := by
      rw [StepLog.push, Window.push]
      cases log.window.room <;> rfl
    rw [pushed, pushed, same.limit]
  index := congrArg (· + 1) same.index
  newest := by
    have pushed (log : StepLog) (entry : LogEntry) :
        (log.push entry).newest? = ([entry].take log.window.limit).head? := by
      rw [StepLog.newest?, StepLog.push, Window.newest?, Window.newestFirst_push]
      cases log.window.limit <;> rfl
    rw [pushed, pushed, same.limit]
    cases n.log.window.limit with
    | zero => rfl
    | succ limit => simp [step, place]

theorem placed (same : SameSteps m n) (line : Line) (error : EvalError) :
    Interpreter.placed line m.log error = Interpreter.placed line n.log error := by
  have newest := same.newest
  unfold Interpreter.placed
  generalize m.log.newest? = first at newest ⊢
  generalize n.log.newest? = second at newest ⊢
  rcases first with _ | entry <;> rcases second with _ | other
  · rfl
  · contradiction
  · contradiction
  · obtain ⟨index, place⟩ := Prod.mk.inj (Option.some.inj newest)
    simp only [index, place]

end SameSteps

/-- Runs under observers of the command stay side by side, whatever flags ask for the observers and
whether or not snapshots are logged. -/
theorem simulates_hooksOf (verbose verboseToo : Bool) (file : String) (args argsToo : Arguments) :
    Interpreter.Simulates SameSteps ⟨verbose, file, hooksOf args, .default⟩
      ⟨verboseToo, file, hooksOf argsToo, .default⟩ where
  operators := rfl
  file := rfl
  chips same := same.chip
  places line error _ _ same := same.placed line error
  changed _ same := ⟨rfl, same.limit, same.index, same.newest⟩
  told notice m n same := by
    obtain ⟨s, told⟩ := dispatch_hooksOf args notice m
    obtain ⟨sToo, toldToo⟩ := dispatch_hooksOf argsToo notice n
    rw [told, toldToo]
    exact .both _ ⟨same.chip, same.limit, same.index, same.newest⟩
  logged line s m n same := by
    simp only [Interpreter.logStep, rules_hooksOf, Hooks.tellRules]
    exact .both _ (same.push same.index rfl)

theorem endAlike_runTicks {i j : Interpreter Streams}
    {related : Machine Streams → Machine Streams → Prop} (simulates : i.Simulates related j)
    (p : Program) (ticks : Nat) {m n : Machine Streams} (alike : related m n) :
    EndAlike related (runTicks i p ticks m) (runTicks j p ticks n) := by
  induction ticks generalizing m n with
  | zero => exact .both _ alike
  | succ ticks inductionHypothesis =>
    have steps := simulates.step p alike
    rw [runTicks, runTicks]
    generalize i.step p m = first at steps ⊢
    generalize j.step p n = second at steps ⊢
    obtain ⟨raised | _, alike⟩ := steps
    · exact .both _ alike
    · exact inductionHypothesis alike

theorem keeps_runTicks {i : Interpreter Streams} {kept : Streams → Prop}
    (keeps : i.hooks.Keeps kept) (p : Program) (ticks : Nat) {m : Machine Streams}
    (holds : kept m.observer) : kept (runTicks i p ticks m).2.observer := by
  have alike := endAlike_runTicks (Interpreter.preserves_of_keeps keeps).simulates p ticks
    (m := m) ⟨rfl, holds⟩
  exact (alike.related.1 ▸ alike.related.2 :)

/-! ### Programs -/

/-- The arguments without the flags that ask for reports and announcements. The program, its
operators and the number of ticks are those that were asked for. -/
def Arguments.quiet (args : Arguments) : Arguments :=
  { args with verbose := false, trace := false, tracebackJson := false }

/-- Whether a result shows what another shows, behind announcements of lines if they were asked
for, and has its code. The error streams of the two are not compared. -/
def Result.Follows (trace : Bool) (result quiet : Result) : Prop :=
  result.code = quiet.code ∧
    ∃ told, (trace = false → told = []) ∧ result.out = announced told ++ quiet.out

theorem Result.Follows.refl (trace : Bool) (result : Result) : result.Follows trace result :=
  ⟨rfl, [], fun _ => rfl, by simp [announced]⟩

/-- The ticks of a program that the command runs, and the machine that they leave. The chip is
fresh and named after the file, and there are as many ticks as were asked for or as there are
lines. -/
def ran (args : Arguments) (file : String) (p : Program) : Option Raised × Machine Streams :=
  runTicks ⟨args.verbose, file, hooksOf args, .default⟩ p (args.ticks.number p.lines.length)
    (.start (.fresh (chipName file)) .empty)

/-- What the command prints of a chip behind all that was printed on the way: its variables,
unless the ticks broke off. Then it prints nothing more and its code is one. -/
def outcome : Option Raised × Machine Streams → Nat × String
  | (none, m) => (0, m.observer.outText ++ String.join (m.chip.listing.map (· ++ "\n")))
  | (some _, m) => (1, m.observer.outText)

theorem perform_of_ran (args : Arguments) (noCylon : args.cylon = false) (file : String)
    (p : Program) :
    ((perform args file p).code, (perform args file p).out) = outcome (ran args file p) := by
  rw [perform, noCylon, ran]
  simp only [Bool.false_eq_true, if_false]
  rcases runTicks _ p _ _ with ⟨_ | raised, m⟩
  · rw [outcome, ← outText_foldl_print]
  · rfl

theorem announces_ran (args : Arguments) (file : String) (p : Program) :
    Announces args.trace (ran args file p).2.observer := by
  apply keeps_runTicks (keeps_announces args)
  exact ⟨[], rfl, fun _ => rfl⟩

/-- The flags for reports and announcements leave what is printed of the chip as it is. -/
theorem perform_follows (args : Arguments) (file : String) (p : Program) :
    (perform args file p).Follows args.trace (perform args.quiet file p) := by
  cases cylon : args.cylon with
  | true =>
    have same : perform args file p = perform args.quiet file p := by
      rw [perform, perform, Arguments.quiet, cylon]
      rfl
    rw [same]
    exact .refl args.trace _
  | false =>
    have ends : EndAlike SameSteps (ran args file p) (ran args.quiet file p) :=
      endAlike_runTicks (simulates_hooksOf _ _ file args args.quiet) p _ (.refl _)
    have shown := perform_of_ran args cylon file p
    have shownQuiet := perform_of_ran args.quiet cylon file p
    obtain ⟨told, printed, asked⟩ := announces_ran args file p
    obtain ⟨none, printedQuiet, silent⟩ := announces_ran args.quiet file p
    obtain rfl := silent rfl
    have nothing : announced [] = "" := rfl
    generalize ran args file p = first at *
    generalize ran args.quiet file p = second at *
    obtain ⟨result, alike⟩ := ends
    rw [nothing] at printedQuiet
    cases result with
    | none =>
      rw [outcome, printed, Prod.mk.injEq] at shown
      rw [outcome, printedQuiet, String.empty_append, Prod.mk.injEq, ← alike.chip] at shownQuiet
      exact ⟨shown.1.trans shownQuiet.1.symm, told, asked, shownQuiet.2 ▸ shown.2⟩
    | some raised =>
      rw [outcome, printed, Prod.mk.injEq] at shown
      rw [outcome, printedQuiet, Prod.mk.injEq] at shownQuiet
      refine ⟨shown.1.trans shownQuiet.1.symm, told, asked, ?_⟩
      rw [shown.2, shownQuiet.2, String.append_empty]

theorem runProgram_follows (args : Arguments) (file text : String) :
    (runProgram args file text).Follows args.trace (runProgram args.quiet file text) := by
  have same : args.quiet.fromCylon = args.fromCylon := rfl
  rw [runProgram, runProgram, same]
  by_cases fromCylon : args.fromCylon = true
  · rw [if_pos fromCylon, if_pos fromCylon]
    cases Cylon.read text with
    | ok program => exact perform_follows args file program
    | error fault => exact .refl args.trace _
  · rw [if_neg fromCylon, if_neg fromCylon]
    cases Program.parse text file with
    | ok program => exact perform_follows args file program
    | error error => exact .refl args.trace _

/-! ### Sessions -/

namespace Repl

/-- Whether two sessions have the same steps and have printed the same on the output. Their
error streams may differ. -/
structure SameOut (m n : Machine Streams) : Prop extends SameSteps m n where
  out : m.observer.out = n.observer.out

theorem SameOut.printing {m n : Machine Streams} (same : SameOut m n) (piece : String) :
    SameOut (printing (·.write piece) m) (printing (·.write piece) n) :=
  ⟨⟨same.chip, same.limit, same.index, same.newest⟩, congrArg (piece :: ·) same.out⟩

/-- The observers of a session print nothing on the output. Reports go to the error stream, so
they are not seen here. -/
theorem keeps_out (verbose : Bool) (pieces : List String) :
    (interpreter verbose).hooks.Keeps fun s => s.out = pieces := by
  constructor
  · intro event handler member notice m holds
    rcases Hooks.mem_add member with rfl | none
    · rw [out_reporter]
      exact holds
    · exact absurd none List.not_mem_nil
  · intro rule member
    exact absurd member List.not_mem_nil

/-- Sessions that print the same lines go on showing the same. -/
theorem SameOut.foldl {m n : Machine Streams} (same : SameOut m n)
    (entries : List (String × Value)) :
    SameOut
      (entries.foldl (fun m (name, value) =>
        Console.printing (·.print (Chip.assignmentText name value)) m) m)
      (entries.foldl (fun m (name, value) =>
        Console.printing (·.print (Chip.assignmentText name value)) m) n) := by
  induction entries generalizing m n with
  | nil => exact same
  | cons entry rest inductionHypothesis => exact inductionHypothesis (same.printing _)

/-- An entry shows the same whether or not reports hold snapshots. Snapshots are shown in
reports only, and these go elsewhere. -/
theorem SameOut.enter (verbose : Bool) (text : String) {m n : Machine Streams}
    (same : SameOut m n) : EndAlike SameOut (enter verbose text m) (enter false text n) := by
  unfold Repl.enter
  by_cases blank : (Text.strip text).isEmpty = true
  · rw [if_pos blank, if_pos blank]
    exact .both _ same
  · rw [if_neg blank, if_neg blank]
    have ends : EndAlike SameSteps ((interpreter verbose).executeLine text m)
        ((interpreter false).executeLine text n) :=
      (simulates_hooksOf verbose false "<repl>" { Arguments.none with verbose }
        Arguments.none).executeLine text same.toSameSteps
    have out := Interpreter.keeps_executeLine (keeps_out verbose m.observer.out) text rfl
    have outToo := Interpreter.keeps_executeLine (keeps_out false n.observer.out) text rfl
    generalize (interpreter verbose).executeLine text m = first at ends out ⊢
    generalize (interpreter false).executeLine text n = second at ends outToo ⊢
    obtain ⟨result, steps⟩ := ends
    have after : SameOut _ _ := ⟨steps, (out.trans same.out).trans outToo.symm⟩
    cases result with
    | error raised => exact .both _ after
    | ok ran =>
      simp only [printChanged]
      rw [same.chip, steps.chip]
      exact .both _ (after.foldl _)

/-- A session shows the same whether or not reports hold snapshots. -/
theorem SameOut.session (verbose : Bool) (texts : List String) {m n : Machine Streams}
    (same : SameOut m n) : EndAlike SameOut (session verbose m texts) (session false n texts) := by
  have asked : SameOut (ask m) (ask n) := by
    rw [ask, ask, same.chip]
    exact same.printing _
  induction texts generalizing m n with
  | nil => exact .both _ (asked.printing _)
  | cons text rest inductionHypothesis =>
    have entered := asked.enter verbose text
    rw [Repl.session, Repl.session]
    generalize Repl.enter verbose text (ask m) = first at entered ⊢
    generalize Repl.enter false text (ask n) = second at entered ⊢
    obtain @⟨_ | raised, m, n, same⟩ := entered
    · apply inductionHypothesis same
      rw [ask, ask, same.chip]
      exact same.printing _
    · exact .both _ same

end Repl

/-- A session shows the same whether or not reports hold snapshots. -/
theorem runSession_follows (verbose : Bool) (input : String) :
    (runSession verbose input).code = (runSession false input).code ∧
      (runSession verbose input).out = (runSession false input).out := by
  have ends := Repl.SameOut.session verbose (Repl.entries (asRead input))
    (m := Repl.start) ⟨.refl Repl.start, rfl⟩
  rw [runSession, runSession]
  generalize Repl.session verbose Repl.start (Repl.entries (asRead input)) = first at ends ⊢
  generalize Repl.session false Repl.start (Repl.entries (asRead input)) = second at ends ⊢
  obtain @⟨_ | raised, m, n, same⟩ := ends
  · exact ⟨rfl, by simp only [Streams.outText, same.out]⟩
  · exact ⟨rfl, by simp only [Result.brokenOff, Streams.outText, same.out]⟩

/-- An interpreter that logs snapshots and announces every line before it runs. It stands for
everything that only looks on. -/
def announcing : Interpreter Streams :=
  ⟨true, "<line>", Hooks.none.add .beforeLine tracer, .default⟩

end Console

end YololChip
