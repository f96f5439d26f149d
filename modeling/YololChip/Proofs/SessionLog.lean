import Mathlib.Data.List.TakeWhile
import YololChip.Proofs.Commands
import YololChip.Proofs.NumeralGrammar
import YololChip.Proofs.Reports
import YololChip.Proofs.Stores

/-!
# What a session shows of the variables

After each entry a session shows the variables whose values the entry changed, in the order of their
names, with the values that they have now. It does so however the entry ended. What is shown in
all is a log of the variables: a variable that is set was shown, and the last line for it shows
its value. Only an entry with a number of too many digits is not executed at all: it ends the
session, with the entries behind it unread.

That rests on three things. The names of the chip and of the data fields are apart, so both can be
merged and no name is shown twice; an entry never removes a variable; and nothing but these lines
is printed between the prompts.
-/

namespace YololChip

namespace Bindings

variable {α : Type} {name : String} {value : α}

/-- A name that is bound once reads as the value of its binding. -/
theorem find?_eq_some_iff {bindings : List (String × α)} (unique : (names bindings).Nodup) :
    find? name bindings = some value ↔ (name, value) ∈ bindings := by
  induction bindings with
  | nil => simp [find?]
  | cons entry rest inductionHypothesis =>
    obtain ⟨key, bound⟩ := entry
    obtain ⟨fresh, uniqueRest⟩ := List.nodup_cons.mp unique
    by_cases same : key = name
    · subst same
      have notLater : (key, value) ∉ rest := fun later =>
        fresh (List.mem_map.mpr ⟨_, later, rfl⟩)
      simp [find?, notLater, eq_comm]
    · simp [find?, same, Ne.symm same, inductionHypothesis uniqueRest]

theorem mem_names_append {log more : List (String × α)} :
    name ∈ names (log ++ more) ↔ name ∈ names log ∨ name ∈ names more := by
  rw [names, List.map_append, List.mem_append, names, names]

/-- Whether a value is the last that a log has for a name. A name that the log lacks has none,
and no name has two. -/
def Last (log : List (String × α)) (name : String) (value : α) : Prop :=
  ∃ earlier later, log = earlier ++ (name, value) :: later ∧ name ∉ names later

/-- The last value in a longer log is that of its end, if the end has the name. Otherwise it is
that of the beginning. -/
theorem last_append {log more : List (String × α)} :
    Last (log ++ more) name value ↔
      Last more name value ∨ name ∉ names more ∧ Last log name value := by
  constructor
  · rintro ⟨earlier, later, split, noLater⟩
    rcases List.append_eq_append_iff.mp split with
      ⟨middle, rfl, inMore⟩ | ⟨middle, rfl, inLog⟩
    · exact .inl ⟨middle, later, inMore, noLater⟩
    · cases middle with
      | nil => exact .inl ⟨[], later, inLog.symm, noLater⟩
      | cons entry middle =>
        obtain ⟨rfl, rfl⟩ := List.cons.inj inLog
        obtain ⟨notMiddle, notMore⟩ := not_or.mp (mt mem_names_append.mpr noLater)
        exact .inr ⟨notMore, earlier, middle, rfl, notMiddle⟩
  · rintro (⟨earlier, later, rfl, noLater⟩ | ⟨noMore, earlier, later, rfl, noLater⟩)
    · exact ⟨log ++ earlier, later, by simp, noLater⟩
    · refine ⟨earlier, later ++ more, by simp, ?_⟩
      exact mt mem_names_append.mp (not_or.mpr ⟨noLater, noMore⟩)

/-- In a log that has each name once, the last values are all values. -/
theorem last_iff_mem {log : List (String × α)} (unique : (names log).Nodup) :
    Last log name value ↔ (name, value) ∈ log := by
  constructor
  · rintro ⟨earlier, later, rfl, _⟩
    simp
  · intro member
    obtain ⟨earlier, later, rfl⟩ := List.append_of_mem member
    refine ⟨earlier, later, rfl, ?_⟩
    rw [names, List.map_append] at unique
    exact (List.nodup_cons.mp (List.nodup_append.mp unique).2.1).1

end Bindings

namespace Chip

/-! ### Variables that are set -/

/-- Whether a chip has a variable of a name, of its own or in a data field, that is set to a
value. A variable that is not set stores nothing, not even zero. -/
def Stores (chip : Chip) (name : String) (value : Value) : Prop :=
  ∃ scope, (name, value) ∈ chip.bindings scope

/-- Whether no name is bound twice on a chip, in one scope or in both. Every chip that can be
reached is so. -/
def Distinct (chip : Chip) : Prop := (Bindings.names (chip.locals ++ chip.fields)).Nodup

/-- A chip whose variables are kept in order has distinct names. -/
theorem Orderly.distinct {deeds : List Deed} {chip : Chip} (orderly : Orderly deeds chip) :
    chip.Distinct := by
  unfold Distinct Bindings.names
  rw [List.map_append]
  refine List.nodup_append.mpr ⟨orderly.unique .chip, orderly.unique .field, ?_⟩
  rintro name inChip _ inFields rfl
  exact orderly.apart name inChip inFields

theorem stores_iff_mem {chip : Chip} {name : String} {value : Value} :
    chip.Stores name value ↔ (name, value) ∈ chip.locals ++ chip.fields := by
  constructor
  · rintro ⟨scope | scope, member⟩
    · exact List.mem_append_left _ member
    · exact List.mem_append_right _ member
  · intro member
    rcases List.mem_append.mp member with inChip | inFields
    · exact ⟨.chip, inChip⟩
    · exact ⟨.field, inFields⟩

namespace Distinct

variable {chip : Chip} (distinct : chip.Distinct)

include distinct

/-- Merging the scopes of distinct names puts one behind the other. -/
theorem allBindings_eq : chip.allBindings = chip.locals ++ chip.fields :=
  Bindings.putAll_of_nodup distinct

/-- What is read by name among all variables is what the chip stores. The scopes do not share a
name, so none hides another. -/
theorem find?_iff {name : String} {value : Value} :
    Bindings.find? name chip.allBindings = some value ↔ chip.Stores name value := by
  rw [distinct.allBindings_eq, Bindings.find?_eq_some_iff distinct, stores_iff_mem]

theorem unique {name : String} {value other : Value} (stores : chip.Stores name value)
    (storesOther : chip.Stores name other) : value = other :=
  Option.some.inj ((distinct.find?_iff.mpr stores).symm.trans (distinct.find?_iff.mpr storesOther))

end Distinct

/-! ### Variables that changed -/

/-- Whether bindings show a change of a chip: they have, in the order of the names, the variables
that are set to what they were not set to before. -/
structure Shows (before after : Chip) (shown : List (String × Value)) : Prop where
  ascending : shown.Pairwise fun first later => first.1 < later.1
  exact : ∀ name value,
    (name, value) ∈ shown ↔ after.Stores name value ∧ ¬ before.Stores name value

theorem Shows.nothing (chip : Chip) : Shows chip chip [] where
  ascending := .nil
  exact name value := by simp

theorem Shows.nodup {before after : Chip} {shown : List (String × Value)}
    (change : Shows before after shown) : (Bindings.names shown).Nodup := by
  rw [Bindings.names, List.nodup_iff_pairwise_ne, List.pairwise_map]
  refine change.ascending.imp fun less same => ?_
  exact String.lt_irrefl _ (same ▸ less)

theorem shows_changed {before after : Chip} (distinct : before.Distinct)
    (distinctAfter : after.Distinct) : Shows before after (Console.Repl.changed before after) := by
  have inOrder : (sorted after.allBindings).Pairwise fun first later => first.1 < later.1 := by
    have ascending : (sorted after.allBindings).Pairwise fun first later => first.1 ≤ later.1 := by
      have checked : (sorted after.allBindings).Pairwise
          fun first later => decide (first.1 ≤ later.1) = true := by
        apply List.pairwise_mergeSort
        · intro a b c first second
          simp only [decide_eq_true_eq] at *
          exact String.le_trans first second
        · intro a b
          simpa using String.le_total a.1 b.1
      exact checked.imp of_decide_eq_true
    have apart : (sorted after.allBindings).Pairwise fun first later => first.1 ≠ later.1 := by
      rw [← List.pairwise_map (R := (· ≠ ·)) (f := Prod.fst), ← List.nodup_iff_pairwise_ne]
      refine ((List.mergeSort_perm _ _).map Prod.fst).nodup_iff.mpr ?_
      rw [distinctAfter.allBindings_eq]
      exact distinctAfter
    exact ascending.imp₂ (fun _ _ le ne => Std.lt_of_le_of_ne le ne) apart
  constructor
  · exact inOrder.filter _
  · intro name value
    rw [Console.Repl.changed, List.mem_filter, sorted, List.mem_mergeSort,
      distinctAfter.allBindings_eq, ← stores_iff_mem, decide_eq_true_eq, ne_eq,
      distinct.find?_iff]

/-- Once no variable was removed, what a chip stores is what was shown of the change, and for other
names what it stored before. -/
theorem Shows.stores_iff {before after : Chip} {shown : List (String × Value)}
    (change : Shows before after shown) (distinct : before.Distinct)
    (distinctAfter : after.Distinct)
    (kept : ∀ name value, before.Stores name value → ∃ other, after.Stores name other)
    (name : String) (value : Value) :
    after.Stores name value ↔
      (name, value) ∈ shown ∨ name ∉ Bindings.names shown ∧ before.Stores name value := by
  constructor
  · intro stores
    by_cases stored : before.Stores name value
    · right
      refine ⟨?_, stored⟩
      intro member
      obtain ⟨⟨_, other⟩, inShown, rfl⟩ := List.mem_map.mp member
      obtain ⟨storesOther, changed⟩ := (change.exact _ other).mp inShown
      exact changed (distinctAfter.unique stores storesOther ▸ stored)
    · exact .inl ((change.exact name value).mpr ⟨stores, stored⟩)
  · rintro (member | ⟨notShown, stored⟩)
    · exact ((change.exact name value).mp member).1
    · obtain ⟨other, stores⟩ := kept name value stored
      by_cases same : value = other
      · exact same ▸ stores
      · have changed : ¬ before.Stores name other := fun storedOther =>
          same (distinct.unique stored storedOther)
        have member := (change.exact name other).mpr ⟨stores, changed⟩
        exact absurd (List.mem_map_of_mem member) notShown

/-- A variable of a chip stays set by deeds that only set variables. Its value may be another
then. -/
theorem stores_afterAll {chip : Chip} {vs : List Variable} {deeds : List Deed}
    (sets : ∀ deed ∈ deeds, deed.Sets vs) {name : String} {value : Value}
    (stores : chip.Stores name value) : ∃ other, (chip.afterAll deeds).Stores name other := by
  induction deeds generalizing chip value with
  | nil => exact ⟨value, stores⟩
  | cons deed rest inductionHypothesis =>
    have setsRest : ∀ deed ∈ rest, deed.Sets vs := fun other member =>
      sets other (List.mem_cons_of_mem _ member)
    cases deed with
    | forget => exact (sets .forget List.mem_cons_self).elim
    | set v written =>
      obtain ⟨scope, member⟩ := stores
      have bound : name ∈ Bindings.names ((chip.write v written).bindings scope) := by
        have before : name ∈ Bindings.names (chip.bindings scope) := List.mem_map_of_mem member
        rw [bindings_write]
        split
        · rw [Bindings.names_put]
          split
          · exact before
          · exact List.mem_append_left _ before
        · exact before
      obtain ⟨⟨_, other⟩, memberAfter, rfl⟩ := List.mem_map.mp bound
      exact inductionHypothesis setsRest ⟨scope, memberAfter⟩

end Chip

/-- A line of source removes no variable, if observers watch. -/
theorem Interpreter.stores_executeLine {ω : Type} {i : Interpreter ω}
    (watching : i.hooks.Watching) (text : String) (m : Machine ω) {name : String} {value : Value}
    (stores : m.chip.Stores name value) :
    ∃ other, (i.executeLine text m).2.chip.Stores name other := by
  have sets : ∃ vs, ∀ deed ∈ i.textDeeds text m.chip, deed.Sets vs := by
    unfold textDeeds
    cases Line.parse text i.file m.chip.nextLine with
    | error error => exact ⟨[], fun _ member => absurd member List.not_mem_nil⟩
    | ok line => exact ⟨_, (line.effect_deeds i.operators m.chip).2⟩
  obtain ⟨vs, sets⟩ := sets
  obtain ⟨other, scope, member⟩ := Chip.stores_afterAll sets stores
  refine ⟨other, scope, ?_⟩
  rwa [(executeLine_deeds watching text m).bindings scope]

namespace Console.Repl

/-! ### Turns of a session -/

/-- An entry of a session, with the chip before and after it and the variables that are shown.
An entry that breaks off is none. -/
structure Turn where
  before : Chip
  text : String
  after : Chip
  shown : List (String × Value)

namespace Turn

/-- What is printed in a turn: the prompt, and one line for each variable that is shown. -/
def output (turn : Turn) : String :=
  prompt turn.before ++
    String.join (turn.shown.map fun (name, value) => Chip.assignmentText name value ++ "\n")

/-- Whether the chip of a turn is left as its entry leaves it: one of blanks only does nothing, and
any other is executed, whether or not it runs to its end. -/
inductive Runs (verbose : Bool) (turn : Turn) : Prop where
  | blank (isBlank : (Text.strip turn.text).isEmpty = true) (same : turn.after = turn.before)
  | run (notBlank : (Text.strip turn.text).isEmpty = false) (ran : Bool) (left : Machine Streams)
    (executes : (interpreter verbose).executeLine turn.text (.start turn.before .empty) =
      (.ok ran, left))
    (same : turn.after = left.chip)

end Turn

/-- What becomes of a session from a chip on: the turns that it takes, the chip that it leaves, and
what it raises if it ends early. Each turn begins with the chip that the one before leaves, and
only an entry that breaks off takes none. -/
inductive Goes (verbose : Bool) :
    Chip → List String → List Turn → Chip → Option Raised → Prop where
  | ended (chip : Chip) : Goes verbose chip [] [] chip none
  | turn {turn : Turn} {rest : List String} {turns : List Turn} {left : Chip}
      {raised : Option Raised} (runs : turn.Runs verbose)
      (shows : Chip.Shows turn.before turn.after turn.shown)
      (goesOn : Goes verbose turn.after rest turns left raised) :
    Goes verbose turn.before (turn.text :: rest) (turn :: turns) left raised
  | brokenOff {chip : Chip} {text : String} {rest : List String} {digits : Nat}
      (notBlank : (Text.strip text).isEmpty = false)
      (overlong : Line.parse text "<repl>" chip.nextLine = .error (.overlong digits)) :
    Goes verbose chip (text :: rest) [] chip (some (.overlong digits))

/-- All variables that turns show, in their order. A name is in it as often as its variable
changed. -/
def log (turns : List Turn) : List (String × Value) := turns.flatMap Turn.shown

variable (verbose : Bool)

/-! ### Entries without observers -/

/-- The interpreter of a session without the observer that reports faults. It does the same to a
chip. -/
def alone : Interpreter Unit := .unobserved false "<repl>" .default

/-- The observer of a session has no part in what an entry does: all faults of a line of source can
be shown, so it makes its report of each and does nothing else. -/
theorem sameEnd_executeLine (text : String) (m : Machine Streams) :
    Interpreter.SameEnd ((interpreter verbose).executeLine text m)
      (alone.executeLine text (.start m.chip ())) := by
  have reports : ∀ fault, (Interpreter.unobserved verbose "<repl>" .default).Fails text
      ⟨m.chip, m.log, ()⟩ fault →
        (reporter verbose false).Reports (reportOf verbose false) fault := by
    intro fault fails
    apply reports_reporter
    cases fails with
    | unread => rfl
    | ran read ended =>
      exact Interpreter.isShowable_of_runLine
        (i := .unobserved verbose "<repl>" .default) Hooks.watching_none
        Operators.showable_default (Line.leveled_of_parse read) ended
  obtain ⟨other, beside⟩ := Interpreter.exists_executeLine_beside verbose "<repl>" .default text
    m.observer ⟨m.chip, m.log, ()⟩ reports
  have alike : (Interpreter.unobserved verbose "<repl>" .default).Matches alone :=
    ⟨Hooks.watching_none, Hooks.watching_none, rfl, rfl⟩
  have same : (interpreter verbose).executeLine text m =
      besideObserver other ((Interpreter.unobserved verbose "<repl>" .default).executeLine text
        ⟨m.chip, m.log, ()⟩) := beside
  rw [same]
  exact alike.executeLine text rfl

/-- An entry that does not break off ends, and leaves the chip alike whatever was printed and logged
before. -/
theorem exists_executeLine {text : String} (m : Machine Streams)
    (whole : ∀ digits, Line.parse text "<repl>" m.chip.nextLine ≠ .error (.overlong digits)) :
    ∃ ran left, (interpreter verbose).executeLine text m = (.ok ran, left) ∧
      left.chip = (alone.executeLine text (.start m.chip ())).2.chip := by
  obtain ⟨sameAnswer, sameChip⟩ := sameEnd_executeLine verbose text m
  have answers : ∃ ran, (alone.executeLine text (.start m.chip ())).1 = .ok ran := by
    cases read : Line.parse text "<repl>" m.chip.nextLine with
    | ok line =>
      obtain ⟨after, runs, -⟩ := Interpreter.runRecorded_of_watching (i := alone)
        Hooks.watching_none line (.start m.chip ())
      rw [Interpreter.executeLine_of_ok (i := alone) read, runs]
      exact (Line.leveled_of_parse read).exists_answer Operators.showable_default m.chip
    | error fault =>
      cases fault with
      | refused error =>
        obtain ⟨after, answered, -⟩ := Interpreter.answerUnread_of_watching (i := alone)
          Hooks.watching_none error false (Machine.passOver error (.start m.chip ()))
        rw [Interpreter.executeLine_of_error (i := alone) read, answered]
        exact ⟨false, rfl⟩
      | overlong digits => exact absurd read (whole digits)
  obtain ⟨ran, answered⟩ := answers
  exact ⟨ran, _, Prod.ext (sameAnswer.trans answered) rfl, sameChip⟩

/-- An entry that is executed does to the chip what it does without observers. Its observer only
prints reports. -/
theorem chip_of_executes {text : String} {m left : Machine Streams} {ran : Except Raised Bool}
    (executes : (interpreter verbose).executeLine text m = (ran, left)) :
    left.chip = (alone.executeLine text (.start m.chip ())).2.chip := by
  rw [← (sameEnd_executeLine verbose text m).2, executes]

namespace Turn.Runs

variable {verbose : Bool} {turn : Turn} (runs : turn.Runs verbose)

include runs

/-- A turn leads from a chip that can be reached to such a chip. Its names are distinct, and
stay so. -/
theorem reached (before : ∃ deeds, Chip.Reached deeds turn.before) :
    ∃ deeds, Chip.Reached deeds turn.after := by
  obtain ⟨deeds, before⟩ := before
  cases runs with
  | blank _ same => exact ⟨deeds, same ▸ before⟩
  | run _ ran left executes same =>
    rw [same, chip_of_executes verbose executes]
    exact ⟨_, before.text (i := alone) (m := .start turn.before ()) Hooks.watching_none turn.text⟩

theorem stores {name : String} {value : Value} (stored : turn.before.Stores name value) :
    ∃ other, turn.after.Stores name other := by
  cases runs with
  | blank _ same => exact ⟨value, same ▸ stored⟩
  | run _ ran left executes same =>
    rw [same, chip_of_executes verbose executes]
    exact Interpreter.stores_executeLine (i := alone) Hooks.watching_none turn.text
      (.start turn.before ()) stored

end Turn.Runs

theorem distinct_of_reached {chip : Chip} (reached : ∃ deeds, Chip.Reached deeds chip) :
    chip.Distinct := by
  obtain ⟨_, reached⟩ := reached
  exact reached.replays.orderly.distinct

/-! ### The log of a session -/

/-- A chip stores at the end of a session what the log has last, and for names that are not in the
log what it stored at the start.

Proof: induction over the turns. Each shows its own change, and the log of the others is
behind it. -/
theorem Goes.stores_iff {chip left : Chip} {texts : List String} {all : List Turn}
    {raised : Option Raised} (goes : Goes verbose chip texts all left raised)
    (reached : ∃ deeds, Chip.Reached deeds chip) (name : String) (value : Value) :
    left.Stores name value ↔ Bindings.Last (log all) name value ∨
      name ∉ Bindings.names (log all) ∧ chip.Stores name value := by
  have empty : ¬ Bindings.Last [] name value := by
    rintro ⟨earlier, later, split, _⟩
    simp at split
  induction goes with
  | ended | brokenOff => simp [log, Bindings.names, empty]
  | @turn turn rest turns left raised runs shows _ inductionHypothesis =>
    have reachedAfter := runs.reached reached
    have here := shows.stores_iff (distinct_of_reached reached) (distinct_of_reached reachedAfter)
      (fun _ _ stores => runs.stores stores) name value
    have logged : log (turn :: turns) = turn.shown ++ log turns := rfl
    refine (inductionHypothesis reachedAfter).trans ?_
    rw [here, logged, Bindings.last_append,
      Bindings.last_iff_mem shows.nodup, Bindings.mem_names_append, not_or, and_or_left,
      or_assoc, and_left_comm, and_assoc]

/-- If no entry breaks off, a session takes a turn for each entry and raises nothing. -/
theorem Goes.whole {chip left : Chip} {texts : List String} {all : List Turn}
    {raised : Option Raised} (goes : Goes verbose chip texts all left raised)
    (whole : ∀ text ∈ texts, ∀ number digits,
      Line.parse text "<repl>" number ≠ .error (.overlong digits)) :
    raised = none ∧ all.map Turn.text = texts := by
  induction goes with
  | ended => exact ⟨rfl, rfl⟩
  | turn _ _ _ inductionHypothesis =>
    obtain ⟨quiet, texts⟩ := inductionHypothesis fun text member =>
      whole text (List.mem_cons_of_mem _ member)
    exact ⟨quiet, by rw [List.map_cons, texts]⟩
  | brokenOff _ overlong => exact absurd overlong (whole _ List.mem_cons_self _ _)

/-! ### Output -/

/-- Printing variables adds a line for each of them and leaves the chip as it is. -/
theorem print_shown (shown : List (String × Value)) (m : Machine Streams) :
    let printed := shown.foldl (fun m (name, value) =>
      printing (·.print (Chip.assignmentText name value)) m) m
    printed.chip = m.chip ∧ printed.observer.outText = m.observer.outText ++
      String.join (shown.map fun (name, value) => Chip.assignmentText name value ++ "\n") := by
  induction shown generalizing m with
  | nil => simp
  | cons entry rest inductionHypothesis =>
    obtain ⟨name, value⟩ := entry
    obtain ⟨chip, out⟩ :=
      inductionHypothesis (printing (·.print (Chip.assignmentText name value)) m)
    refine ⟨chip, ?_⟩
    rw [List.foldl_cons, out, printing, Streams.print, outText_write, List.map_cons,
      String.join_cons, String.append_assoc]

/-- How an entry is entered in a session: it takes a turn and prints what the turn shows, or it
breaks off and does nothing. -/
inductive Enters (verbose : Bool) (text : String) (m : Machine Streams) :
    Option Raised × Machine Streams → Prop where
  | turn (after : Machine Streams) (shown : List (String × Value))
      (runs : Turn.Runs verbose ⟨m.chip, text, after.chip, shown⟩)
      (shows : Chip.Shows m.chip after.chip shown)
      (out : after.observer.outText = m.observer.outText ++
        String.join (shown.map fun (name, value) => Chip.assignmentText name value ++ "\n")) :
    Enters verbose text m (none, after)
  | brokenOff {digits : Nat} (notBlank : (Text.strip text).isEmpty = false)
      (overlong : Line.parse text "<repl>" m.chip.nextLine = .error (.overlong digits)) :
    Enters verbose text m (some (.overlong digits), m)

theorem enters_enter (text : String) {m : Machine Streams}
    (reached : ∃ deeds, Chip.Reached deeds m.chip) :
    Enters verbose text m (enter verbose text m) := by
  rw [enter]
  cases blank : (Text.strip text).isEmpty with
  | true => exact .turn m [] (.blank blank rfl) (.nothing m.chip) (by simp)
  | false =>
    simp only [Bool.false_eq_true, if_false]
    by_cases overlong : ∃ digits,
        Line.parse text "<repl>" m.chip.nextLine = .error (.overlong digits)
    · obtain ⟨digits, overlong⟩ := overlong
      rw [Interpreter.executeLine_of_overlong overlong]
      exact .brokenOff blank overlong
    · have whole := not_exists.mp overlong
      obtain ⟨_, left, executes, leftChip⟩ := exists_executeLine verbose m whole
      obtain ⟨ran, again, executesAgain, againChip⟩ :=
        exists_executeLine verbose (.start m.chip .empty) whole
      have silent := Interpreter.keeps_executeLine (keeps_out verbose m.observer.out) text rfl
      rw [executes] at silent ⊢
      obtain ⟨chip, out⟩ := print_shown (changed m.chip left.chip) left
      have runs (shown : List (String × Value)) : Turn.Runs verbose
          ⟨m.chip, text, (printChanged m.chip left).chip, shown⟩ :=
        .run blank ran again executesAgain (chip.trans (leftChip.trans againChip.symm))
      have distinct := distinct_of_reached reached
      have distinctAfter := distinct_of_reached ((runs []).reached reached)
      refine .turn _ (changed m.chip left.chip) (runs _) ?_ ?_
      · rw [← show (printChanged m.chip left).chip = left.chip from chip]
        exact Chip.shows_changed distinct distinctAfter
      · rw [printChanged, out, Streams.outText, silent, ← Streams.outText]

/-- What a session prints at its end, behind the prompt that no entry answers: the end of the line,
unless it was an entry that ended it. -/
def closing : Option Raised → String
  | none => "\n"
  | some _ => ""

/-- A session goes by its entries and prints what its turns print, and one prompt more.

Proof: induction over the entries. -/
theorem goes_session (texts : List String) {m : Machine Streams}
    (reached : ∃ deeds, Chip.Reached deeds m.chip) :
    let ended := session verbose m texts
    ∃ all, Goes verbose m.chip texts all ended.2.chip ended.1 ∧
      ended.2.observer.outText = m.observer.outText ++ String.join (all.map Turn.output) ++
        prompt ended.2.chip ++ closing ended.1 := by
  induction texts generalizing m with
  | nil =>
    refine ⟨[], .ended m.chip, ?_⟩
    simp only [session, ask, printing, Streams.print, outText_write]
    simp [closing, String.append_assoc]
  | cons text rest inductionHypothesis =>
    have asked : (ask m).observer.outText = m.observer.outText ++ prompt m.chip :=
      outText_write m.observer (prompt m.chip)
    have entered := enters_enter verbose text (m := ask m) reached
    dsimp only
    rw [session]
    generalize enter verbose text (ask m) = entry at entered ⊢
    cases entered with
    | turn after shown runs shows out =>
      obtain ⟨all, goes, outRest⟩ := inductionHypothesis (runs.reached reached)
      refine ⟨⟨m.chip, text, after.chip, shown⟩ :: all, .turn runs shows goes, ?_⟩
      rw [outRest, out, asked]
      simp [Turn.output, String.append_assoc]
    | brokenOff notBlank overlong =>
      refine ⟨[], .brokenOff notBlank overlong, ?_⟩
      simp only [asked, closing]
      simp [ask, printing]

theorem outText_start : start.observer.outText = banner ++ "\n" := by
  have nothing : Streams.empty.outText = "" := rfl
  rw [start, Machine.start, Streams.print, outText_write, nothing, String.empty_append]

/-- A session is a faithful log of the variables, up to an entry that breaks off. Between the
prompts it prints one line for each variable whose value the entry before changed, in the order of
their names and however the entry ended, and nothing else. At its end a variable is set if it was
shown, and its value is the one that was shown last. If no entry breaks off, every entry has its
turn. One that does ends the session behind its prompt, and what follows it is not read. -/
theorem session_logged (texts : List String) :
    ∃ raised ended all, session verbose start texts = (raised, ended) ∧
      Goes verbose (.fresh "repl") texts all ended.chip raised ∧
      ((∀ text ∈ texts, ∀ number digits,
          Line.parse text "<repl>" number ≠ .error (.overlong digits)) →
        raised = none ∧ all.map Turn.text = texts) ∧
      ended.observer.outText = banner ++ "\n" ++ String.join (all.map Turn.output) ++
        prompt ended.chip ++ closing raised ∧
      ∀ name value, ended.chip.Stores name value ↔ Bindings.Last (log all) name value := by
  have reached : ∃ deeds, Chip.Reached deeds start.chip := ⟨[], .empty rfl rfl⟩
  obtain ⟨all, goes, out⟩ := goes_session verbose texts reached
  rw [outText_start] at out
  refine ⟨_, _, all, rfl, goes, goes.whole verbose, out, fun name value => ?_⟩
  have unset : ¬ (Chip.fresh "repl").Stores name value := by
    rintro ⟨scope | scope, member⟩ <;> exact absurd member List.not_mem_nil
  rw [goes.stores_iff verbose reached, or_iff_left fun earlier => unset earlier.2]

/-- A text that begins with a character that is not blank is not blank. -/
theorem strip_ne_empty {text : String} {c : Char} {cs : List Char} (chars : text.toList = c :: cs)
    (notBlank : Text.isBlank c = false) : (Text.strip text).isEmpty = false := by
  have first : (c :: cs).dropWhile Text.isBlank = c :: cs :=
    List.dropWhile_cons_of_neg (by simp [notBlank])
  have kept : ((c :: cs).reverse.dropWhile Text.isBlank).reverse ≠ [] := by
    rw [ne_eq, List.reverse_eq_nil_iff, List.dropWhile_eq_nil_iff]
    intro allBlank
    have blank := allBlank c (by simp)
    rw [notBlank] at blank
    contradiction
  rw [Text.strip, Text.stripChars, chars, first, Bool.eq_false_iff, ne_eq, String.isEmpty_iff]
  simpa using kept

/-- Not every session takes a turn for each of its entries: an entry that assigns one digit more
than are read takes none, and the one behind it is not read. -/
theorem session_cut_short :
    ¬ ∀ texts, ∃ all, all.map Turn.text = texts ∧
      Goes false (.fresh "repl") texts all (session false start texts).2.chip
        (session false start texts).1 := by
  intro each
  have broken (number : Int) := Line.parse_assignOnes "<repl>" number
    (Nat.lt_add_one mostDigits)
  have notBlank : (Text.strip (assignOnes (mostDigits + 1))).isEmpty = false :=
    strip_ne_empty (show _ = 'a' :: '=' :: (ones (mostDigits + 1)).toList by simp [assignOnes])
      (by decide)
  obtain ⟨all, entries, goes⟩ := each [assignOnes (mostDigits + 1), "b=1"]
  generalize assignOnes (mostDigits + 1) = text at *
  generalize (session false start [text, "b=1"]).1 = raised at goes
  generalize (session false start [text, "b=1"]).2.chip = left at goes
  generalize Chip.fresh "repl" = chip at goes
  cases goes with
  | turn runs =>
    cases runs with
    | blank isBlank => exact absurd isBlank (by simp [notBlank])
    | run _ ran left executes =>
      rw [Interpreter.executeLine_of_overlong (broken _)] at executes
      cases executes
  | brokenOff => contradiction

end Console.Repl

end YololChip
