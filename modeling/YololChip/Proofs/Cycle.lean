import YololChip.Proofs.Carried
import YololChip.Proofs.Told

/-!
# The cycle of lines

A tick runs the line that the chip is at and leaves it at the following one, or where a goto
led; after the last line comes the first. So the gotos alone determine which lines a run
visits. A line that could not be read changes nothing but the cursor and the recorded error,
and a line outside the program nothing but the cursor.

Every tick answers the number of its line, with one exception: if the fault of the line cannot be
shown, the tick raises that instead, and has moved the chip on all the same. It takes a document to
get there, since in a program from source all faults can be shown.
-/

namespace YololChip

/-- Whether a line executed from a chip takes a goto to a number. Statements before the goto may
have done anything but fail, and those behind it are left out. -/
def Line.Jumps (ops : Operators) (line : Line) (chip : Chip) (target : Fixed) : Prop :=
  ∃ told left, Executes ops line.statements chip told (.jumped target) left

theorem Executes.jumps_iff {ops : Operators} {line : Line} {chip left : Chip}
    {told : List Notice} {finish : Finish}
    (executes : Executes ops line.statements chip told finish left) (target : Fixed) :
    finish.target? = some target ↔ line.Jumps ops chip target := by
  constructor
  · intro jumped
    cases finish with
    | jumped other => exact ⟨told, left, Option.some.inj jumped ▸ executes⟩
    | completed | failed => contradiction
  · rintro ⟨_, _, jumps⟩
    obtain ⟨_, rfl, _⟩ := executes.unique jumps
    rfl

namespace Program

/-- Where programs come from: from source or from a document. A program from source may have
lines that could not be read; one from a document has none. -/
def Loaded (p : Program) : Prop :=
  (∃ text file, parse text file = .ok p) ∨ ∃ document, Cylon.read document = .ok p

/-- The errors of a program that was loaded are those of its own lines. -/
theorem Loaded.inside {p : Program} (loaded : p.Loaded) {number : Int} {error : SourceError}
    (found : p.error? number = some error) : 1 ≤ number ∧ number ≤ p.lines.length := by
  obtain ⟨entry, first, rfl⟩ := Option.map_eq_some_iff.mp found
  rcases loaded with ⟨text, file, parsed⟩ | ⟨document, read⟩
  · obtain ⟨index, _, line, _, atIndex, place, _⟩ :=
      (keptFrom_of_parse parsed).2.refused_of_mem (List.mem_of_find?_eq_some first)
    obtain ⟨inside, _⟩ := List.getElem?_eq_some_iff.mp atIndex
    have same : entry.1 = number := by simpa using List.find?_some first
    omega
  · have none : p.errors = [] := congrArg Program.errors (Cylon.read_text read).2.1.symm
    rw [none] at first
    contradiction

/-- The line after a line: the one that a goto to a number led to, and otherwise the next one;
after the last comes the first. A goto rounds down and stays among the lines of a chip, so it
always leads to one. -/
def following (here : Int) : Option Fixed → Int
  | none => here % mostLines + 1
  | some target => max 1 (min (mostLines : Int) (target.units / Fixed.scale))

/-- The lines that are visited from a line on, if these gotos are taken or none in turn. Nothing
else is needed for it, neither the program nor the variables. -/
def visited : (here : Int) → List (Option Fixed) → List Int
  | _, [] => []
  | here, goto? :: rest => here :: visited (following here goto?) rest

theorem length_visited (here : Int) (gotos : List (Option Fixed)) :
    (visited here gotos).length = gotos.length := by
  induction gotos generalizing here with
  | nil => rfl
  | cons goto? rest inductionHypothesis =>
    rw [visited, List.length_cons, inductionHypothesis, List.length_cons]

theorem following_mem (here : Int) (goto? : Option Fixed) :
    1 ≤ following here goto? ∧ following here goto? ≤ mostLines := by
  have last : (mostLines : Int) = 20 := rfl
  cases goto? with
  | none =>
    rw [following, last]
    omega
  | some target =>
    rw [following, last]
    omega

/-- What a tick does to a chip, if it takes this goto or none. The goto is taken just if a line
that could be read executes to it from the chip that has been moved on; the last two fields are
for lines that could not be read and for places that no line of the program has, where nothing
but the line changes, and the error. -/
structure Ticks (p : Program) (ops : Operators) (before : Chip) (goto? : Option Fixed)
    (after : Chip) : Prop where
  jumps : ∀ target, goto? = some target ↔ p.error? before.nextLine = none ∧
    (p.line before.nextLine).Jumps ops before.advance target
  cursor : after.nextLine = following before.nextLine goto?
  inside : 1 ≤ after.nextLine ∧ after.nextLine ≤ mostLines
  unread : ∀ error, p.error? before.nextLine = some error →
    after = { before with nextLine := after.nextLine, error := error.message }
  outside : before.nextLine < 1 ∨ p.lines.length < before.nextLine →
    after = { before with nextLine := after.nextLine }

/-- The line at a position outside the program has no statements. A tick there runs a blank line
and moves on. -/
theorem line_outside {p : Program} {number : Int}
    (outside : number < 1 ∨ p.lines.length < number) : (p.line number).statements = [] := by
  unfold line
  by_cases first : 1 ≤ number
  · have beyond : p.lines.length ≤ number.toNat - 1 := by omega
    rw [if_pos first, List.getElem?_eq_none beyond]
    rfl
  · rw [if_neg first]
    rfl

variable {p : Program}

theorem ticks_of_some (loaded : p.Loaded) (ops : Operators) {chip : Chip} {error : SourceError}
    (unread : p.error? chip.nextLine = some error) :
    p.Ticks ops chip none { chip.advance with error := error.message } := by
  constructor
  · intro target
    simp [unread]
  · rfl
  · exact following_mem chip.nextLine none
  · intro other found
    rw [Option.some.inj (unread.symm.trans found)]
    rfl
  · intro outside
    have inside := loaded.inside unread
    omega

/-- A tick runs a line that could be read as the rules have it. The recorded error stays, unless
the line fails. -/
theorem ticks_of_none {ops : Operators} {chip left : Chip} {told : List Notice}
    {finish : Finish} {text : String} (readable : p.error? chip.nextLine = none)
    (executes : Executes ops (p.line chip.nextLine).statements chip.advance told finish left)
    (recorded : text = left.error ∨ ∃ error, finish = .failed error) :
    p.Ticks ops chip finish.target? { left with error := text } := by
  have cursor : left.nextLine = following chip.nextLine finish.target? := by
    rw [executes.cursor.1]
    cases finish with
    | jumped target => exact Chip.targetLine_eq target
    | completed | failed => rfl
  constructor
  · intro target
    rw [executes.jumps_iff target]
    simp [readable]
  · exact cursor
  · rw [cursor]
    exact following_mem _ _
  · intro error found
    rw [readable] at found
    contradiction
  · intro outside
    rw [line_outside outside] at executes
    cases executes with
    | nothing =>
      rcases recorded with rfl | ⟨error, failed⟩
      · rfl
      · contradiction

end Program

namespace Interpreter

variable {ω : Type} {i : Interpreter ω} {p : Program}

/-- A tick takes the chip to the following line or where a goto leads. Which of the two it is
goes by whether the line ends in a goto. -/
theorem exists_ticks (loaded : p.Loaded) (watching : i.hooks.Watching) (m : Machine ω) :
    ∃ goto?, p.Ticks i.operators m.chip goto? (i.step p m).2.chip := by
  cases readable : p.error? m.chip.nextLine with
  | some error =>
    obtain ⟨after, told, same⟩ := watching.dispatch (.failed (.source error)) (m.passOver error)
    refine ⟨none, ?_⟩
    rw [step_of_some readable, answerUnread, told]
    simp only [same]
    exact Program.ticks_of_some loaded i.operators readable
  | none =>
    obtain ⟨told, finish, left, executes⟩ :=
      exists_executes i.operators (p.line m.chip.nextLine).statements m.chip.advance
    obtain ⟨fault?, after, ending, runs, rfl, closes⟩ :=
      executes.runLine_plain (m := { m with chip := m.chip.advance }) watching
    refine ⟨finish.target?, ?_⟩
    rw [step_of_none readable, runRecorded_eq, runs]
    cases closes with
    | completed => exact Program.ticks_of_none readable executes (.inl rfl)
    | jumped target => exact Program.ticks_of_none readable executes (.inl rfl)
    | failed error log =>
      simp only [recordShowable]
      split
      · exact Program.ticks_of_none readable executes (.inr ⟨error, rfl⟩)
      · exact Program.ticks_of_none readable executes (.inl rfl)

/-- A tick answers the number of its line if what fails in it can be shown. -/
theorem step_eq_ok_of_showable (watching : i.hooks.Watching) {m : Machine ω}
    (showable : ∀ fault, i.TickFails p m fault → fault.isShowable = true) :
    (i.step p m).1 = .ok m.chip.nextLine := by
  cases answered : (i.step p m).1 with
  | ok number => rw [step_eq_ok answered]
  | error raised =>
    cases step_eq_error.mp answered with
    | unshowable readable ended hidden =>
      rw [showable _ (.ran readable ended)] at hidden
      contradiction
    | handler _ told =>
      obtain ⟨after, nothing, _⟩ := watching.dispatch (.failed (.source _)) (m.passOver _)
      rw [nothing] at told
      contradiction

/-- A tick of a line whose fault cannot be shown raises that. The chip is moved on all the same,
and keeps the error that it had. -/
theorem step_eq_unshowable {m : Machine ω} {fault : Fault} (fails : i.TickFails p m fault)
    (hidden : fault.isShowable = false) : (i.step p m).1 = .error .unshowable := by
  cases fails with
  | unread => contradiction
  | ran readable ended => exact step_eq_error.mpr (.unshowable readable ended hidden)

/-- What fails in a tick of a program from source can be shown. No step in it is applied to a
deeply nested operand, as one from a document may be. -/
theorem isShowable_of_tickFails (watching : i.hooks.Watching) (shows : i.operators.Showable)
    {text file : String} (parsed : Program.parse text file = .ok p) {m : Machine ω}
    {fault : Fault} (fails : i.TickFails p m fault) : fault.isShowable = true := by
  cases fails with
  | unread => rfl
  | ran _ ended =>
    exact isShowable_of_runLine watching shows (Program.leveled_line parsed _) ended

/-- What a tick of several answers is what it answers where the ones before it leave the chip. -/
theorem getElem?_ticks (i : Interpreter ω) (p : Program) {index count : Nat}
    (inside : index < count) (m : Machine ω) :
    (i.ticks p count m).1[index]? = some (i.step p (i.ticks p index m).2).1 := by
  induction count generalizing index m with
  | zero => exact absurd inside (Nat.not_lt_zero index)
  | succ count inductionHypothesis =>
    cases index with
    | zero => rfl
    | succ index => exact inductionHypothesis (Nat.lt_of_succ_lt_succ inside) (i.step p m).2

/-- Over every number of ticks of a loaded program, the lines that are visited are those that
the gotos lead to that are taken on the way, and every tick does what a tick with its goto does. It
answers the line that the chip was at, or raises that its fault cannot be shown. In a program from
source every fault can be shown, with a table that refuses by causes that can.

Proof: induction over the number of ticks. The first goto is the one of the first tick, and all
others are those of the ticks behind it. -/
theorem ticks_visited (loaded : p.Loaded) (verbose : Bool) (file : String) (ops : Operators)
    (count : Nat) (m : Machine Unit) :
    let i := unobserved verbose file ops
    ∃ gotos : List (Option Fixed), gotos.length = count ∧
      (∀ index goto?, gotos[index]? = some goto? →
        let before := (i.ticks p index m).2
        (Program.visited m.chip.nextLine gotos)[index]? = some before.chip.nextLine ∧
        p.Ticks ops before.chip goto? (i.ticks p (index + 1) m).2.chip ∧
        ((∀ fault, i.TickFails p before fault → fault.isShowable = true) →
          (i.ticks p count m).1[index]? = some (.ok before.chip.nextLine)) ∧
        ∀ fault, i.TickFails p before fault → fault.isShowable = false →
          (i.ticks p count m).1[index]? = some (.error .unshowable)) ∧
      ∀ text name, ops.Showable → Program.parse text name = .ok p →
        (i.ticks p count m).1 = (Program.visited m.chip.nextLine gotos).map .ok := by
  intro i
  have watching : i.hooks.Watching := Hooks.watching_none
  obtain ⟨gotos, length, visits⟩ : ∃ gotos : List (Option Fixed), gotos.length = count ∧
      ∀ index goto?, gotos[index]? = some goto? →
        (Program.visited m.chip.nextLine gotos)[index]? = some (i.ticks p index m).2.chip.nextLine ∧
        p.Ticks ops (i.ticks p index m).2.chip goto? (i.ticks p (index + 1) m).2.chip := by
    induction count generalizing m with
    | zero => exact ⟨[], rfl, by simp⟩
    | succ count inductionHypothesis =>
      obtain ⟨goto?, ticks⟩ := exists_ticks (i := i) loaded watching m
      obtain ⟨gotos, length, laws⟩ := inductionHypothesis (i.step p m).2
      refine ⟨goto? :: gotos, by rw [List.length_cons, length], ?_⟩
      intro index other found
      cases index with
      | zero =>
        obtain rfl : goto? = other := by simpa using found
        exact ⟨rfl, ticks⟩
      | succ index =>
        rw [Program.visited, ← ticks.cursor]
        exact laws index other (by simpa using found)
  have answers {index : Nat} {goto? : Option Fixed} (found : gotos[index]? = some goto?) :
      (i.ticks p count m).1[index]? = some (i.step p (i.ticks p index m).2).1 :=
    getElem?_ticks i p (length ▸ (List.getElem?_eq_some_iff.mp found).1) m
  refine ⟨gotos, length, ?_, ?_⟩
  · intro index goto? found
    obtain ⟨visited, ticks⟩ := visits index goto? found
    refine ⟨visited, ticks, ?_, ?_⟩
    · intro showable
      rw [answers found, step_eq_ok_of_showable watching showable]
    · intro fault fails hidden
      rw [answers found, step_eq_unshowable fails hidden]
  · intro text name shows parsed
    apply List.ext_getElem?
    intro index
    rw [List.getElem?_map]
    cases found : gotos[index]? with
    | some goto? =>
      rw [answers found, (visits index goto? found).1, step_eq_ok_of_showable watching fun _ =>
        isShowable_of_tickFails watching shows parsed]
      rfl
    | none =>
      have beyond : count ≤ index := length ▸ List.getElem?_eq_none_iff.mp found
      rw [List.getElem?_eq_none (by rwa [length_ticks]),
        List.getElem?_eq_none (by rwa [Program.length_visited, length])]
      rfl

/-- Ticks of the sample, of which one line could not be read, visit the lines that gotos lead to,
from a line behind the last one on. -/
theorem ticks_visited_sample :
    ∃ p : Program, p.Loaded ∧ ∃ gotos : List (Option Fixed), gotos.length = 30 ∧
      (plain.ticks p 30 (.start { Chip.fresh "chip" with nextLine := 47 } ())).1 =
        (Program.visited 47 gotos).map .ok := by
  obtain ⟨p, parsed, _⟩ := Cylon.exists_parse_sample
  have loaded : p.Loaded := .inl ⟨_, _, parsed⟩
  obtain ⟨gotos, length, _, visits⟩ := ticks_visited loaded false "<line>" .default 30
    (.start { Chip.fresh "chip" with nextLine := 47 } ())
  exact ⟨p, loaded, gotos, length, visits _ _ Operators.showable_default parsed⟩

end Interpreter

/-! ### A tick that does not answer -/

/-- A number in so many groups. A step of it is refused, and the refusal shows all of the
groups. -/
def Expr.grouped : (count : Nat) → Expr
  | 0 => .number none .zero
  | count + 1 => .group none (grouped count)

theorem Expr.depth_grouped (count : Nat) : (grouped count).depth = count + 1 := by
  induction count with
  | zero => rfl
  | succ count inductionHypothesis => rw [grouped, depth, inductionHypothesis]

theorem Expr.settled_grouped (count : Nat) : (grouped count).Settled := by
  induction count with
  | zero => trivial
  | succ count inductionHypothesis => exact inductionHypothesis

theorem Expr.bare_grouped (count : Nat) : (grouped count).bare = grouped count := by
  induction count with
  | zero => rfl
  | succ count inductionHypothesis => rw [grouped, bare, inductionHypothesis]

/-- The program whose one line steps a number in groups. It has no location, as a program from a
document has none. -/
def steppingGroups (count : Nat) : Program :=
  ⟨none, [⟨none, [.expression none (.unary none .preIncrement (.grouped count))], 1⟩], []⟩

theorem loaded_steppingGroups {count : Nat} (fits : Cylon.Fits (steppingGroups count)) :
    (steppingGroups count).Loaded := by
  have portable : (steppingGroups count).Portable := by
    constructor
    · intro line member
      rw [List.mem_singleton.mp member]
      exact ⟨[.expression none (.unary none .preIncrement (.grouped count))], [], "",
        ⟨Expr.settled_grouped count, trivial⟩, .absent, rfl⟩
    · exact ⟨rfl, trivial⟩
    · exact Nat.le_of_ble_eq_true rfl
  obtain ⟨document, _, readBack, _⟩ := Cylon.exists_write portable fits none
  have carried : (steppingGroups count).carried = steppingGroups count := by
    simp [steppingGroups, Program.carried, Line.carried, Line.withoutEmptyComments, Line.bare,
      Stmt.isEmptyComment, Stmt.bareAll, Stmt.bare, Expr.bare, Expr.bare_grouped]
  exact .inr ⟨document, carried ▸ readBack⟩

/-- The first tick of a document that steps a number in groups raises that its fault cannot be
shown, if there are groups enough. -/
theorem answer_steppingGroups {count : Nat} (deep : EvalCause.shownDepth < count + 1) :
    (steppingGroups count).answer .default (.fresh "chip") = .error .unshowable := by
  have noVariable : ∀ place target, Expr.grouped count ≠ .var place target := by
    intro place target same
    cases count <;> contradiction
  have refused (chip : Chip) :
      evaluate .default (.unary none .preIncrement (.grouped count)) chip =
        (.error ⟨.stepOnExpression .preIncrement (.grouped count), none, none⟩, chip) :=
    Evaluate.expression_step_other _ 999 none rfl noVariable chip
  have hidden : (EvalCause.stepOnExpression .preIncrement (.grouped count)).isShowable = false :=
    decide_eq_false (by rw [Expr.depth_grouped]; exact Nat.not_le.mpr deep)
  have statements : ((steppingGroups count).line 1).statements =
      [.expression none (.unary none .preIncrement (.grouped count))] := rfl
  have answers : ((steppingGroups count).line 1).answer .default (Chip.fresh "chip").advance =
      .error .unshowable := by
    rw [Line.answer, statements, Effect.ofBlock_cons, Effect.ofStatement, refused]
    simp only [Ended.andThen, Effect.answer, hidden, Bool.false_eq_true, if_false]
  have noErrors : (steppingGroups count).error? (Chip.fresh "chip").nextLine = none := rfl
  rw [Program.answer, noErrors]
  exact congrArg (Except.map fun _ => (Chip.fresh "chip").nextLine) answers

namespace Interpreter

theorem step_steppingGroups {count : Nat} (deep : EvalCause.shownDepth < count + 1) :
    (plain.step (steppingGroups count) (.start (.fresh "chip") ())).1 = .error .unshowable := by
  obtain ⟨after, raises, _⟩ := step_of_watching (i := plain) Hooks.watching_none
    (steppingGroups count) (.start (.fresh "chip") ())
  rw [raises]
  exact answer_steppingGroups deep

/-- A loaded program need not answer in each tick: the fault of a line that steps a number in
five hundred groups shows all of these, and cannot be shown. -/
theorem step_unanswered : ¬ ∀ p : Program, p.Loaded → ∀ m : Machine Unit,
    (plain.step p m).1 = .ok m.chip.nextLine := by
  intro answers
  have answered := answers (steppingGroups 500) (loaded_steppingGroups (by decide +kernel))
    (.start (.fresh "chip") ())
  rw [step_steppingGroups (by decide)] at answered
  contradiction

end Interpreter

end YololChip
