import YololChip.Proofs.Carried
import YololChip.Proofs.Entries
import YololChip.Proofs.FirstLines
import YololChip.Proofs.Layout
import YololChip.Proofs.NumeralGrammar

/-!
# Lines that are laid out differently

A parser sees of its tokens what their marks are, so texts that are the same but for letter case and
layout are read as one line, but for locations, or given up for the same reason with the same part
read. What is run of them does the same to a chip, except that a recorded error may name another
place.
-/

namespace YololChip

theorem Grammar.View.settles_of_eq {a b : Lexeme} (same : b = a) :
    b = a ∨ a.endsLine = true ∧ b.endsLine = true :=
  .inl same

/-- Tokens with the same marks, which a parser sees alike. It looks at nothing else of a token
than its mark, except to place what it reads. -/
def Grammar.View.sameMarks (sheet other : Grammar.Sheet) : Grammar.View where
  sheet := sheet
  other := other
  Sees ts us := marksOf ts = marksOf us
  alike a b := b = a
  place _ := True
  gap := 0
  front same := by rw [lexeme_front, lexeme_front, same]
  settles := @settles_of_eq
  pairs same first second := by rw [isPair_marksOf, isPair_marksOf, same]
  goesOn same _ := by rw [marksOf_drop, marksOf_drop, same]
  length same := by simpa using congrArg List.length same
  located _ := trivial

/-- Whether two results of reading a line are one but for places: the same tree, a refusal by
the scanner at the same character, a number with as many digits at which both break off, or an
error of the parser of the same kind that says the same and keeps the same part. Lexemes are
compared, so a text in a message is the same in letter case too. -/
inductive Line.SameReading :
    Except (ReadFault SourceError) Line → Except (ReadFault SourceError) Line → Prop where
  | read {line line' : Line} (same : line.bare = line'.bare) : SameReading (.ok line) (.ok line')
  | scan {error error' : ScanError} (same : error.character = error'.character) :
    SameReading (.error (.refused (.scan error))) (.error (.refused (.scan error')))
  | overlong (digits : Nat) : SameReading (.error (.overlong digits)) (.error (.overlong digits))
  | parse {error error' : ParseError} (kind : error.fault.kind = error'.fault.kind)
      (message : error.fault.message = error'.fault.message)
      (fragment : error.fault.fragment?.map Fragment.bare =
        error'.fault.fragment?.map Fragment.bare) :
    SameReading (.error (.refused (.parse error))) (.error (.refused (.parse error')))

theorem Line.sameReading_ofTokens {sheet other : Grammar.Sheet} {ts us : List Token}
    (number : sheet.firstLine = other.firstLine) (same : marksOf ts = marksOf us) :
    Line.SameReading ((Line.ofTokens sheet ts).mapError ParseError.asRead)
      ((Line.ofTokens other us).mapError ParseError.asRead) := by
  have agree : (Grammar.View.sameMarks sheet other).Agree _ _
      (Grammar.statements sheet ts) (Grammar.statements other us) :=
    Grammar.View.respects_statements (.sameMarks sheet other) same
  unfold Line.ofTokens
  generalize Grammar.statements sheet ts = read, Grammar.statements other us = read' at agree ⊢
  cases agree with
  | read same =>
    refine .read ?_
    rw [Line.bare, Line.bare, same.bare, number]
  | @stuck fault fault' _ _ faults =>
    obtain ⟨kind, fragment⟩ := faults.reads
    have message : fault.message = fault'.message := by
      obtain equal | ⟨a, b, rfl, rfl, rfl⟩ := faults.message
      · exact equal
      · rfl
    exact .parse kind message fragment

/-- Texts that are the same but for letter case and layout are read as the same line. -/
theorem Line.sameReading_of_sameLayout {text other : String} (same : SameLayout text other)
    (file : String) (number : Int) :
    Line.SameReading (Line.parse text file number) (Line.parse other file number) := by
  have marks := sameMarks_of_sameLayout file same
  generalize scanned : scan file text = tokens, scannedToo : scan file other = tokensToo at marks
  cases marks with
  | tokens marks =>
    rw [Line.parse_of_scan scanned, Line.parse_of_scan scannedToo]
    exact Line.sameReading_ofTokens rfl marks
  | refused character =>
    rw [Line.parse, Line.parse, scanned, scannedToo]
    exact .scan character
  | overlong digits =>
    rw [Line.parse, Line.parse, scanned, scannedToo]
    exact .overlong digits

/-- Lines that are the same but for locations do the same to chips that are alike. -/
theorem Line.effect_of_bare {ops : Operators} {line other : Line} (same : line.bare = other.bare)
    {exact : Prop} {a b : Chip} (alike : a.Alike exact b) :
    (line.effect ops a).Alike exact (other.effect ops b) := by
  have first := Line.effect_bare ops line alike
  rw [same] at first
  exact first.trans (Line.effect_bare ops other (.refl exact b)).symm

namespace Interpreter

/-- Letter case and layout do not matter. Let two texts be the same but for the case of letters and
for the blanks and tabs outside of texts and comments, where some stand in for others, or also for
none at the beginnings and the ends. Then both are read as the same line, but for locations; or the
parser gives up on both with an error of the same kind, the same message and the same part read; or
the scanner refuses both at the same character; or reading both breaks off at a number of as many
digits. And if they are run from chips that have the same variables and are at the same line, then
they leave such chips.

Proof: both are scanned with the same marks, which are all that a parser sees. What is run of the
two differs in locations, and these do nothing. -/
theorem executeLine_of_sameLayout {text other : String} (same : SameLayout text other)
    (verbose : Bool) (file : String) (ops : Operators) :
    let i := unobserved verbose file ops
    (∀ number, Line.SameReading (Line.parse text file number) (Line.parse other file number)) ∧
    ∀ a b : Machine Unit, a.chip.Alike False b.chip →
      Chip.Alike False (i.executeLine text a).2.chip (i.executeLine other b).2.chip := by
  intro i
  have watching : i.hooks.Watching := Hooks.watching_none
  have reads := Line.sameReading_of_sameLayout same file
  refine ⟨reads, ?_⟩
  intro a b alike
  have reading := reads a.chip.nextLine
  have passesOver (error error' : SourceError) :
      Chip.Alike False (i.answerUnread error false (a.passOver error)).2.chip
        (i.answerUnread error' false (b.passOver error')).2.chip :=
    alike.advance.recorded fun counts => counts.elim
  generalize read : Line.parse text file a.chip.nextLine = result at reading
  generalize readToo : Line.parse other file a.chip.nextLine = resultToo at reading
  rw [alike.nextLine] at readToo
  cases reading with
  | read bare =>
    rw [executeLine_of_ok (i := i) read, executeLine_of_ok (i := i) readToo,
      runRecorded_chip watching, runRecorded_chip watching]
    exact Line.effect_of_bare bare alike
  | scan | parse =>
    rw [executeLine_of_error (i := i) read, executeLine_of_error (i := i) readToo]
    exact passesOver _ _
  | overlong digits =>
    rw [executeLine_of_overlong (i := i) read, executeLine_of_overlong (i := i) readToo]
    exact alike

/-- A line that assigns a text, and the same one in another case and layout. The text itself is
in the same case in both. -/
def laidOut : String × String := ("A ++B=\"C d\"", " a\t ++b=\"C d\" ")

theorem sameLayout_laidOut : SameLayout laidOut.1 laidOut.2 := by
  have quoted : Relaid .code ['=', '"', 'C', ' ', 'd', '"'] ['=', '"', 'C', ' ', 'd', '"', ' '] :=
    .same .code '=' (.same .code '"' (.same .quoted 'C' (.same .quoted ' ' (.same .quoted 'd'
      (.same .quoted '"' (.last (by simp) (by simp [isGap])))))))
  have steps : Relaid .code ('+' :: '+' :: 'B' :: ['=', '"', 'C', ' ', 'd', '"'])
      ('+' :: '+' :: 'b' :: ['=', '"', 'C', ' ', 'd', '"', ' ']) :=
    .same .code '+' (.same .code '+' (.letter (by decide) quoted))
  have blanks : Relaid .code (' ' :: ([] ++ ['+', '+', 'B', '=', '"', 'C', ' ', 'd', '"']))
      ('\t' :: ([' '] ++ ['+', '+', 'b', '=', '"', 'C', ' ', 'd', '"', ' '])) :=
    .run (by simp [isGap]) (by simp [isGap]) steps
  refine ⟨[], [' '], _, _, ?_, ?_, by simp, by simp [isGap],
    .letter (c := 'A') (d := 'a') ?_ blanks⟩
  · decide +kernel
  · decide +kernel
  · decide

/-- The two texts that are laid out differently are read as the same line, and do the same to a
chip. -/
theorem executeLine_of_sameLayout_laidOut :
    SameLayout laidOut.1 laidOut.2 ∧
      Line.SameReading (Line.parse laidOut.1 "<line>" 1) (Line.parse laidOut.2 "<line>" 1) ∧
      Chip.Alike False (plain.executeLine laidOut.1 (.start (.fresh "chip") ())).2.chip
        (plain.executeLine laidOut.2 (.start (.fresh "chip") ())).2.chip := by
  obtain ⟨reads, runs⟩ := executeLine_of_sameLayout sameLayout_laidOut false "<line>" .default
  exact ⟨sameLayout_laidOut, reads 1, runs _ _ (.refl False _)⟩

end Interpreter

/-- A text of one digit more than are read is neither read nor refused, in whatever layout. -/
theorem Line.parse_neither_long :
    ¬ ∀ text other, SameLayout text other → ∀ file number,
      (∃ line line', parse text file number = .ok line ∧ parse other file number = .ok line' ∧
        line.bare = line'.bare) ∨
      ∃ error error', parse text file number = .error (.refused error) ∧
        parse other file number = .error (.refused error') := by
  intro either
  have broken := Line.parse_assignOnes "" 1 (Nat.lt_add_one mostDigits)
  rcases either _ _ (.refl (assignOnes (mostDigits + 1))) "" 1 with
    ⟨line, _, read, _, _⟩ | ⟨error, _, refused, _⟩
  · cases broken.symm.trans read
  · cases broken.symm.trans refused

end YololChip
