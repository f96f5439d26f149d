import YololChip.Proofs.Carried
import YololChip.Proofs.KeptLines
import YololChip.Proofs.Locality

/-!
# Lines by themselves and in a program

A tick of a program does what the source of the line that the chip is at does by itself: both set
the same variables and record the same error, be it that the line is refused. They differ in
the cursor only. A line that breaks off is in no program: it raises by itself what reading the
program raises.

The lines of a program are cut at every character that ends a line. A source that is run by itself
ends at a line feed only. So a text is a program of one line with the same meaning if it
holds none of those characters; of one that holds another one than a line feed or a carriage
return, the program runs a part.
-/

namespace YololChip

/-! ### The lines of a text -/

namespace Text

/-- The line of a text under a number, from one on. Past the ends it is empty, like a line of a
program that is not there. -/
def lineAt (text : String) (number : Int) : String :=
  if 1 ≤ number then ((lines text)[number.toNat - 1]?).getD "" else ""

theorem linesOf_of_endless {c : Char} {cs : List Char}
    (endless : ∀ other ∈ c :: cs, endsLine other = false) : linesOf (c :: cs) = [c :: cs] := by
  induction cs generalizing c with
  | nil =>
    rw [linesOf.eq_def]
    simp [endless c List.mem_cons_self, linesOf, consFirst]
  | cons next rest inductionHypothesis =>
    have noReturn : c ≠ '\r' := by
      rintro rfl
      exact absurd (endless '\r' List.mem_cons_self) (by decide)
    have behind : linesOf (next :: rest) = [next :: rest] :=
      inductionHypothesis fun other member => endless other (List.mem_cons_of_mem _ member)
    rw [linesOf.eq_3 c (next :: rest) (by simp [noReturn]), behind]
    simp [endless c List.mem_cons_self, consFirst]

/-- A text in which nothing ends a line has one line at most, and it is the first one. -/
theorem lineAt_one_of_endless {text : String} (endless : ∀ c ∈ text.toList, endsLine c = false) :
    (lines text).length ≤ 1 ∧ lineAt text 1 = text := by
  cases characters : text.toList with
  | nil =>
    have isEmpty : text = "" := String.toList_inj.mp characters
    rw [isEmpty]
    decide
  | cons c cs =>
    rw [characters] at endless
    have whole : String.ofList (c :: cs) = text := by rw [← characters, String.ofList_toList]
    have single : lines text = [text] := by
      rw [lines, characters, linesOf_of_endless endless, List.map_singleton, whole]
    rw [lineAt, single]
    exact ⟨Nat.le_refl 1, rfl⟩

end Text

/-! ### The lines of a program -/

theorem Line.parse_empty (file : String) (number : Int) :
    ∃ line, Line.parse "" file number = .ok line ∧ line.statements = [] := by
  have scanned : scan file "" = .ok [⟨.finish, 1, 1⟩] := by
    rw [scan, String.toList_empty, scanFrom]
  have nothing (sheet : Grammar.Sheet) :
      Grammar.statements sheet [⟨.finish, 1, 1⟩] = .ok ([], [⟨.finish, 1, 1⟩]) :=
    Grammar.block_of_endsBlock rfl
  simp only [Line.parse, scanned, Line.ofTokens, nothing]
  exact ⟨_, rfl, rfl⟩

namespace Program

section

variable {file : String} {number : Nat} {texts : List String} {lines : List Line}
  {errors : List (Int × SourceError)}

/-- Under a number at which no text stands no error is kept. The errors are kept under the
numbers of their own lines. -/
theorem KeptFrom.find?_eq_none (kept : KeptFrom file number texts lines errors) {under : Int}
    (apart : ∀ index < texts.length, under ≠ number + index) :
    errors.find? (·.1 = under) = none := by
  rw [List.find?_eq_none]
  intro entry member
  obtain ⟨index, text, _, found, _, here, _⟩ := kept.refused_of_mem member
  have inside := (List.getElem?_eq_some_iff.mp found).1
  rw [decide_eq_true_eq, here]
  exact fun same => apart index inside (by rw [← same, Int.natCast_add])

/-- Whether lines and errors have this of a text: its line and no error, or the error for which it
is refused. Of a text that breaks off there is nothing to have. -/
def Has (lines : List Line) (errors : List (Int × SourceError)) (index : Nat) (under : Int) :
    Except (ReadFault SourceError) Line → Prop
  | .ok line => lines[index]? = some line ∧ errors.find? (·.1 = under) = none
  | .error (.refused error) => errors.find? (·.1 = under) = some (under, error)
  | .error (.overlong _) => False

/-- What is read of a text is what the lines and the errors have of it that are kept.

Proof: induction over what is kept. The error of the first text is under another number than
those of the texts behind it. -/
theorem KeptFrom.has (kept : KeptFrom file number texts lines errors) {index : Nat} {text : String}
    (found : texts[index]? = some text) {under : Int} (same : under = number + index) :
    Has lines errors index under (Line.parse text file under) := by
  induction kept generalizing index with
  | nil => simp at found
  | @cons number first rest line lines own later here others inductionHypothesis =>
    cases index with
    | zero =>
      obtain rfl := Option.some.inj found
      obtain rfl : under = number := by simpa using same
      have behind : later.find? (·.1 = (number : Int)) = none :=
        others.find?_eq_none (by omega)
      cases here with
      | read parsed =>
        rw [parsed]
        exact ⟨rfl, behind⟩
      | refused failed =>
        rw [failed]
        simp [Has]
    | succ index =>
      have has := inductionHypothesis found (by omega)
      cases here with
      | read => exact has
      | @refused error failed =>
        have skipped : ((number : Int), error).1 ≠ under := by
          simp only
          omega
        unfold Has at has ⊢
        rwa [List.singleton_append, List.find?_cons_of_neg (by simpa using skipped)]

end

variable {text file : String} {p : Program}

/-- The line of a text under the number of one of its lines is that line. -/
theorem lineAt_of_getElem? {index : Nat} {source : String}
    (found : (Text.lines text)[index]? = some source) :
    Text.lineAt text (1 + index : Nat) = source := by
  have inside : (1 : Int) ≤ (1 + index : Nat) := by omega
  rw [Text.lineAt, if_pos inside, Int.toNat_natCast, Nat.add_sub_cancel_left, found,
    Option.getD_some]

/-- The line of a text under a number is one of its lines, or it is empty. So a tick at any
number has a line to compare with. -/
theorem lineAt_cases (text : String) (number : Int) :
    (∃ index : Nat, number = (1 + index : Nat) ∧
      (Text.lines text)[index]? = some (Text.lineAt text number)) ∨
    Text.lineAt text number = "" ∧ ∀ index < (Text.lines text).length,
      number ≠ ((1 : Nat) : Int) + index := by
  unfold Text.lineAt
  by_cases positive : 1 ≤ number
  · rw [if_pos positive]
    cases found : (Text.lines text)[number.toNat - 1]? with
    | some source => exact .inl ⟨number.toNat - 1, by omega, found⟩
    | none =>
      have past := List.getElem?_eq_none_iff.mp found
      exact .inr ⟨rfl, by omega⟩
  · rw [if_neg positive]
    exact .inr ⟨rfl, by omega⟩

/-- A text is a program if it has no more lines than a chip and none of them breaks off. -/
theorem exists_parse (text file : String) :
    (∃ p, parse text file = .ok p) ↔ (Text.lines text).length ≤ mostLines ∧
      ∀ number digits,
        Line.parse (Text.lineAt text number) file number ≠ .error (.overlong digits) := by
  constructor
  · rintro ⟨p, parsed⟩
    obtain ⟨fits, kept⟩ := keptFrom_of_parse parsed
    refine ⟨fits, fun number digits broken => ?_⟩
    rcases lineAt_cases text number with ⟨index, rfl, found⟩ | ⟨isEmpty, _⟩
    · exact (exists_keptFrom file 1 (Text.lines text)).mp ⟨_, _, kept⟩ index _ found digits broken
    · obtain ⟨line, read, _⟩ := Line.parse_empty file number
      rw [isEmpty, read] at broken
      contradiction
  · rintro ⟨fits, whole⟩
    obtain ⟨lines, errors, kept⟩ := (exists_keptFrom file 1 (Text.lines text)).mpr (by
      intro index source found digits
      have here := whole (1 + index : Nat) digits
      rwa [lineAt_of_getElem? found] at here)
    refine ⟨⟨some ⟨file, 1, 1, ""⟩, lines, errors⟩, ?_⟩
    simp only [parse, if_neg (Nat.not_lt.mpr fits), parseLines_eq_ok.mpr kept]

/-- Under every number, a program from source has what is read of the line of the source there:
its error if it is refused, and otherwise no error and its statements. Past the ends of the
source that is an empty line. -/
theorem parse_lineAt (parsed : parse text file = .ok p) (number : Int) :
    (∃ error, Line.parse (Text.lineAt text number) file number = .error (.refused error) ∧
      p.error? number = some error) ∨
    ∃ line, Line.parse (Text.lineAt text number) file number = .ok line ∧
      p.error? number = none ∧ (p.line number).statements = line.statements := by
  obtain ⟨_, kept⟩ := keptFrom_of_parse parsed
  unfold error? Program.line
  rcases lineAt_cases text number with ⟨index, rfl, found⟩ | ⟨isEmpty, apart⟩
  · have inside : (1 : Int) ≤ (1 + index : Nat) := by omega
    rw [if_pos inside, Int.toNat_natCast, Nat.add_sub_cancel_left]
    have has := kept.has found (Int.natCast_add 1 index)
    cases read : Line.parse (Text.lineAt text (1 + index : Nat)) file (1 + index : Nat) with
    | ok line =>
      rw [read] at has
      exact .inr ⟨line, rfl, by rw [has.2, Option.map_none], by rw [has.1, Option.getD_some]⟩
    | error fault =>
      rw [read] at has
      cases fault with
      | refused error => exact .inl ⟨error, rfl, by rw [has, Option.map_some]⟩
      | overlong => exact has.elim
  · obtain ⟨line, read, blank⟩ := Line.parse_empty file number
    rw [isEmpty]
    refine .inr ⟨line, read, by rw [kept.find?_eq_none apart, Option.map_none], ?_⟩
    split
    · have past : p.lines.length ≤ number.toNat - 1 := by
        rw [kept.length]
        by_contra inside
        exact apart (number.toNat - 1) (by omega) (by omega)
      rw [List.getElem?_eq_none past, Option.getD_none, blank]
      rfl
    · exact blank.symm

/-- A text in which nothing ends a line breaks off as a program if it does so as a line. -/
theorem parse_eq_overlong (endless : ∀ c ∈ text.toList, Text.endsLine c = false) {digits : Nat}
    (broken : Line.parse text file 1 = .error (.overlong digits)) :
    parse text file = .error (.overlong digits) := by
  obtain ⟨short, whole⟩ := Text.lineAt_one_of_endless endless
  rcases lineAt_cases text 1 with ⟨index, first, found⟩ | ⟨isEmpty, _⟩
  · obtain rfl : index = 0 := by omega
    rw [whole] at found
    have single : Text.lines text = [text] := by
      cases lines : Text.lines text with
      | nil => rw [lines] at found; contradiction
      | cons only rest =>
        rw [lines] at found short
        obtain rfl := Option.some.inj found
        have nothing : rest = [] := List.length_eq_zero_iff.mp (by simpa using short)
        rw [nothing]
    have fits : ¬ mostLines < (Text.lines text).length := Nat.not_lt.mpr
      (Nat.le_trans short (by decide))
    have kept : keep file 1 text = .error (.overlong digits) := by simp only [keep, broken,
      Int.natCast_one]
    rw [parse, if_neg fits, single, parseLines, kept]
  · obtain ⟨line, read, _⟩ := Line.parse_empty file 1
    rw [← whole, isEmpty, read] at broken
    contradiction

end Program

/-! ### Chips that differ in the cursor -/

namespace Chip

/-- Whether two chips have the same variables and the same error, wherever they are. A line of
source by itself does not move the chip on, as a tick does. -/
structure SameButLine (a b : Chip) : Prop extends SameVariables a b where
  error : a.error = b.error

/-- Chips that differ in the cursor go on differing in nothing else. A goto moves both to one
line. -/
theorem respects_sameButLine (reads sets : List Variable) :
    Respects SameButLine reads sets where
  read same v _ := congrArg (·.getD .unset) (same.read? v)
  write same v _ value := by
    refine ⟨same.toSameVariables.write v value, ?_⟩
    rw [(stays_write _ v value).error, (stays_write _ v value).error, same.error]
  goTo same _ := ⟨⟨same.locals, same.fields⟩, same.error⟩

end Chip

namespace Interpreter

variable (verbose : Bool) (file : String) (ops : Operators)

/-- Lines with the same statements do the same to chips that differ in the cursor. -/
theorem runRecorded_sameButLine {line other : Line}
    (statements : line.statements = other.statements) {m n : Machine Unit}
    (same : m.chip.SameButLine n.chip) :
    let i := unobserved verbose file ops
    (i.runRecorded line m).2.chip.SameButLine (i.runRecorded other n).2.chip := by
  intro i
  obtain ⟨told, finish, left, executes⟩ := exists_executes ops line.statements m.chip
  obtain ⟨leftToo, executesToo, leftSame⟩ := executes.of_related
    (Chip.respects_sameButLine (Stmt.mentionsAll line.statements)
      (Stmt.settableAll line.statements))
    (Stmt.touches_throughout line.statements) same
  rw [statements] at executesToo
  obtain ⟨fault?, after, _, runs, rfl, closes⟩ :=
    executes.runLine_plain (i := i) Hooks.watching_none
  obtain ⟨faultToo?, afterToo, _, runsToo, rfl, closesToo⟩ :=
    executesToo.runLine_plain (i := i) Hooks.watching_none
  rw [runRecorded_eq, runRecorded_eq, runs, runsToo]
  cases closes with
  | completed | jumped =>
    cases closesToo
    exact leftSame
  | failed error log =>
    cases closesToo
    simp only [recordShowable, Fault.isShowable, cause_placed]
    split
    · refine ⟨⟨leftSame.locals, leftSame.fields⟩, ?_⟩
      simp only [recordError, Fault.message, message_placed]
    · exact leftSame

/-- A tick of a program from source does what the line of the source does by itself that the chip
is at: both set the same variables and record the same error. A text is a program if it has no
more lines than a chip and none of them breaks off while it is read. So a text in which nothing
ends a line is one, unless it breaks off as a line and as a program alike, and from the first line
on its tick does what the text does by itself. -/
theorem step_sameButLine_executeLine (text : String) {m n : Machine Unit}
    (sameChip : m.chip = n.chip) :
    let i := unobserved verbose file ops
    (∀ p, Program.parse text file = .ok p →
      (i.executeLine (Text.lineAt text m.chip.nextLine) m).2.chip.SameButLine
        (i.step p n).2.chip) ∧
    ((∃ p, Program.parse text file = .ok p) ↔ (Text.lines text).length ≤ mostLines ∧
      ∀ number digits,
        Line.parse (Text.lineAt text number) file number ≠ .error (.overlong digits)) ∧
    ((∀ c ∈ text.toList, Text.endsLine c = false) → m.chip.nextLine = 1 →
      (∃ p, Program.parse text file = .ok p ∧
        (i.executeLine text m).2.chip.SameButLine (i.step p n).2.chip) ∨
      ∃ digits, Program.parse text file = .error (.overlong digits) ∧
        i.executeLine text m = (.error (.overlong digits), m)) := by
  intro i
  have agree (p : Program) (parsed : Program.parse text file = .ok p) :
      (i.executeLine (Text.lineAt text m.chip.nextLine) m).2.chip.SameButLine
        (i.step p n).2.chip := by
    rcases Program.parse_lineAt parsed n.chip.nextLine with
      ⟨error, unread, unreadToo⟩ | ⟨line, read, readable, statements⟩
    · rw [← sameChip] at unread
      rw [executeLine_of_error (i := i) unread, step_of_some unreadToo]
      have passed : (m.passOver error).chip.SameButLine (n.passOver error).chip := by
        rw [Machine.passOver, Machine.passOver, sameChip]
        exact ⟨⟨rfl, rfl⟩, rfl⟩
      exact passed
    · have moved : n.chip.SameButLine n.chip.advance := ⟨⟨rfl, rfl⟩, rfl⟩
      rw [← sameChip] at read
      rw [executeLine_of_ok (i := i) read, step_of_none readable]
      exact runRecorded_sameButLine verbose file ops statements.symm (sameChip ▸ moved)
  refine ⟨agree, Program.exists_parse text file, ?_⟩
  intro endless first
  obtain ⟨short, whole⟩ := Text.lineAt_one_of_endless endless
  by_cases broken : ∃ digits, Line.parse text file 1 = .error (.overlong digits)
  · obtain ⟨digits, broken⟩ := broken
    refine .inr ⟨digits, Program.parse_eq_overlong endless broken, ?_⟩
    exact executeLine_of_overlong (i := i) (first ▸ broken)
  · have unbroken : ∀ number digits,
        Line.parse (Text.lineAt text number) file number ≠ .error (.overlong digits) := by
      intro number digits overlong
      rcases Program.lineAt_cases text number with ⟨index, rfl, found⟩ | ⟨isEmpty, _⟩
      · have inside := (List.getElem?_eq_some_iff.mp found).1
        obtain rfl : index = 0 := by omega
        exact broken ⟨digits, whole ▸ overlong⟩
      · obtain ⟨line, read, _⟩ := Line.parse_empty file number
        rw [isEmpty, read] at overlong
        contradiction
    obtain ⟨p, parsed⟩ := (Program.exists_parse text file).mpr
      ⟨Nat.le_trans short (by decide), unbroken⟩
    have both := agree p parsed
    rw [first, whole] at both
    exact .inl ⟨p, parsed, both⟩

/-- A string with a blank in it, a step, and a comment behind them are a program of one line,
which does what they do by themselves. -/
theorem step_sameButLine_executeLine_sample :
    ∃ p, Program.parse "a=\"x y\" a-- // done" "<line>" = .ok p ∧
      (plain.executeLine "a=\"x y\" a-- // done" (.start (.fresh "chip") ())).2.chip.SameButLine
        (plain.step p (.start (.fresh "chip") ())).2.chip := by
  rcases (step_sameButLine_executeLine false "<line>" .default "a=\"x y\" a-- // done"
    (m := .start (.fresh "chip") ()) (n := .start (.fresh "chip") ()) rfl).2.2
      (by simp [Text.endsLine, Text.inRanges, Text.lineEnds]) rfl with both | ⟨_, broken, _⟩
  · exact both
  · obtain ⟨p, parsed, _⟩ := exists_ok_of_any (f := fun _ => true)
      (x := Program.parse "a=\"x y\" a-- // done" "<line>") (by decide +kernel)
    rw [parsed] at broken
    contradiction

/-- A text without line feeds and carriage returns that is a program of two lines: a line
separator stands in its string. -/
def separatedText : String := "a=\"x\u2028y\""

/-- A text without line feeds and carriage returns need not do the same by itself and as a
program. -/
theorem separated_step_ne_executeLine :
    ¬ ∀ text : String, (∀ c ∈ text.toList, c ≠ '\n' ∧ c ≠ '\r') →
      ∀ p, Program.parse text "<line>" = .ok p →
        (plain.executeLine text (.start (.fresh "chip") ())).2.chip.SameButLine
          (plain.step p (.start (.fresh "chip") ())).2.chip := by
  intro agree
  obtain ⟨p, parsed, differ⟩ := exists_ok_of_any (x := Program.parse separatedText "<line>")
    (f := fun p => decide
      ((plain.executeLine separatedText (.start (.fresh "chip") ())).2.chip.locals ≠
        (plain.step p (.start (.fresh "chip") ())).2.chip.locals))
    (by decide +kernel)
  exact of_decide_eq_true differ (agree separatedText (by simp [separatedText]) p parsed).locals

end Interpreter

end YololChip
