import YololChip.Proofs.LineViews
import YololChip.Proofs.SourceLines
import YololChip.Proofs.Spans
import YololChip.Proofs.WellFormed

/-!
# The places that lines and errors name

Each line of a source is scanned by itself, and its tokens are numbered from line one on. When a
tree is built, its locations are numbered anew with the line of the file. So every location in
the tree of a line is in that line. But what the report of an error names is a token, or the
place at which the scanner stopped, and these are left in line one.
-/

namespace YololChip

/-! ### Trees -/

/-- Whether a location is in a line of a file. The column and the statement that it shows are
left open. -/
def Location.Within (file : String) (number : Int) (loc : Option Location) : Prop :=
  ∃ l, loc = some l ∧ l.file = file ∧ l.line = number

/-- Whether something holds of all locations in a line: its own, and those of all statements and
expressions in it. -/
def Line.Sits (place : Option Location → Prop) (line : Line) : Prop :=
  place line.loc ∧ Stmt.Throughout (Stmt.Sits place) line.statements

namespace Grammar

/-- Tokens at the front are numbered with the line that they are on, also where none is left. -/
theorem line_front {ts : List Token} (onLine : OnLine 1 ts) : (front ts).line = 1 := by
  cases ts with
  | nil => rfl
  | cons t rest => exact onLine.1

/-- A location that is read of the tokens of a line is in that line of the file. The number of
the line is that of the sheet, and the column that of the token. -/
theorem within_locate {sheet : Sheet} {ts : List Token} (onLine : OnLine 1 ts) :
    Location.Within sheet.file sheet.firstLine (sheet.locate ts) := by
  refine ⟨_, rfl, rfl, ?_⟩
  simp [line_front onLine]

/-- The tokens of a line as they are, of which the places are known. Seen like this, a parser
that respects all views places what it reads in the line. -/
def View.ownLine (sheet : Sheet) : View where
  sheet := sheet
  other := sheet
  Sees ts us := us = ts ∧ OnLine 1 ts
  alike a b := b = a
  place := Location.Within sheet.file sheet.firstLine
  gap := 0
  front := by
    rintro ts us ⟨rfl, _⟩
    rfl
  settles := .inl
  pairs := by
    rintro ts us ⟨rfl, _⟩ first second
    rfl
  goesOn := by
    rintro (_ | ⟨t, rest⟩) us ⟨rfl, onLine⟩ inLine
    · contradiction
    · exact ⟨rfl, onLine.2 inLine⟩
  length := by
    rintro ts us ⟨rfl, _⟩
    rfl
  located := by
    rintro ts us ⟨rfl, onLine⟩
    exact within_locate onLine

/-- What is read of the tokens of a line is in that line, and where it is given up is in the first
line of its text. -/
theorem line_of_statements {sheet : Sheet} {ts : List Token} (onLine : OnLine 1 ts) :
    (∀ read rest, statements sheet ts = .ok (read, rest) →
      Stmt.Throughout (Stmt.Sits (Location.Within sheet.file sheet.firstLine)) read) ∧
    ∀ stuck, statements sheet ts = .error stuck → (front stuck.rest).line = 1 := by
  have agree : (View.ownLine sheet).Agree _ _ (statements sheet ts) (statements sheet ts) :=
    View.respects_statements (.ownLine sheet) ⟨rfl, onLine⟩
  constructor
  · intro read rest found
    rw [found] at agree
    cases agree with
    | read tree => exact tree.placed
  · intro stuck found
    rw [found] at agree
    cases agree with
    | stuck _ sees => exact line_front sees.2

end Grammar

/-- A line that is read of tokens has all its locations in the line of its sheet. -/
theorem Line.sits_of_ofTokens {sheet : Grammar.Sheet} {ts : List Token} {line : Line}
    (onLine : OnLine 1 ts) (read : Line.ofTokens sheet ts = .ok line) :
    line.number = sheet.firstLine ∧ line.Sits (Location.Within sheet.file sheet.firstLine) := by
  unfold Line.ofTokens at read
  split at read
  · contradiction
  · next statements rest found =>
    obtain rfl := Except.ok.inj read
    exact ⟨rfl, Grammar.within_locate onLine, (Grammar.line_of_statements onLine).1 _ _ found⟩

/-- Where tokens are given up that are no line is in their first line. Nothing behind the end of
the line is ever looked at. -/
theorem Line.first_of_ofTokens_error {sheet : Grammar.Sheet} {ts : List Token} {error : ParseError}
    (onLine : OnLine 1 ts) (refused : Line.ofTokens sheet ts = .error error) :
    ∀ t ∈ error.token, t.line = 1 := by
  intro t token
  unfold Line.ofTokens at refused
  split at refused
  · next stuck found =>
    obtain rfl := Except.error.inj refused
    obtain rfl := Option.some.inj token
    exact (Grammar.line_of_statements onLine).2 stuck found
  · contradiction

/-- A line that is read has all its locations in the line of the file that it is read as. -/
theorem Line.sits_of_parse {text file : String} {number : Int} {line : Line}
    (read : Line.parse text file number = .ok line) :
    line.number = number ∧ line.Sits (Location.Within file number) := by
  unfold Line.parse at read
  split at read
  · contradiction
  · next tokens scanned =>
    split at read
    · contradiction
    · next parsed =>
      obtain rfl := Except.ok.inj read
      exact Line.sits_of_ofTokens (onLine_scanFrom scanned) parsed

namespace SourceError

/-- The line and the column that the report of an error names, if it names any. They are those
of a character for the scanner and of a token for the parser. -/
def place? : SourceError → Option Position
  | scan error => some ⟨error.line, error.column⟩
  | parse error => error.token.map fun t => ⟨t.line, t.column⟩

/-- What the report of an error says before it names a line. -/
def words : SourceError → String
  | scan error =>
    "Unexpected character '" ++ error.character.toString ++ "' at " ++ error.file ++ ":"
  | parse error => error.fault.kind.text ++ ": " ++ error.fault.message ++ " at "

/-- The report of an error ends in the place that it names. That place is counted in the text
that was scanned, which is one line. -/
theorem message_of_place? {error : SourceError} {place : Position}
    (named : error.place? = some place) :
    error.message = error.words ++ (toString place.line ++ ":" ++ toString place.column) := by
  cases error with
  | scan error =>
    have same : place = ⟨error.line, error.column⟩ := (Option.some.inj named).symm
    unfold message ScanError.message words
    simp only [same, String.append_assoc]
  | parse error =>
    obtain ⟨t, token, rfl⟩ := Option.map_eq_some_iff.mp named
    unfold message ParseError.message words
    simp only [token, String.append_assoc]

end SourceError

/-- The error of a line by itself names the first line, whatever line of a file it is read as. -/
theorem Line.first_of_parse_error {text file : String} {number : Int} {error : SourceError}
    (noFeed : '\n' ∉ text.toList) (refused : Line.parse text file number = .error (.refused error))
    {place : Position} (named : error.place? = some place) : place.line = 1 := by
  unfold Line.parse at refused
  split at refused
  · next fault scanned =>
    cases fault with
    | overlong digits => cases refused
    | refused given =>
      obtain rfl := ReadFault.refused.inj (Except.error.inj refused)
      obtain rfl := Option.some.inj named
      exact (line_of_scanFrom_error noFeed scanned).1
  · next tokens scanned =>
    split at refused
    · next given parsed =>
      obtain rfl := ReadFault.refused.inj (Except.error.inj refused)
      obtain ⟨t, token, rfl⟩ := Option.map_eq_some_iff.mp named
      exact Line.first_of_ofTokens_error (onLine_scanFrom scanned) parsed t token
    · contradiction

/-! ### Programs -/

/-- No line of a row of characters has a line feed in it.

Proof: induction along the lines. A line feed ends a line, so no line goes on behind it. -/
theorem Text.noFeed_linesOf {cs line : List Char} (member : line ∈ linesOf cs) : '\n' ∉ line := by
  induction cs using linesOf.induct generalizing line with
  | case1 =>
    rw [linesOf] at member
    exact absurd member List.not_mem_nil
  | case2 cs inductionHypothesis =>
    rw [linesOf] at member
    rcases List.mem_cons.mp member with rfl | later
    · exact List.not_mem_nil
    · exact inductionHypothesis later
  | case3 c cs noPair ends inductionHypothesis =>
    rw [linesOf.eq_3 c cs noPair, if_pos ends] at member
    rcases List.mem_cons.mp member with rfl | later
    · exact List.not_mem_nil
    · exact inductionHypothesis later
  | case4 c cs noPair goesOn inductionHypothesis =>
    rw [linesOf.eq_3 c cs noPair, if_neg goesOn] at member
    have noFeed : '\n' ≠ c := by
      rintro rfl
      exact goesOn (by decide)
    have kept {line : List Char} (without : '\n' ∉ line) : '\n' ∉ c :: line := by
      rintro (_ | ⟨_, later⟩)
      · exact noFeed rfl
      · exact without later
    cases lines : linesOf cs with
    | nil =>
      rw [lines, consFirst, List.mem_singleton] at member
      rw [member]
      exact kept List.not_mem_nil
    | cons first others =>
      rw [lines] at member inductionHypothesis
      rcases List.mem_cons.mp member with rfl | later
      · exact kept (inductionHypothesis List.mem_cons_self)
      · exact inductionHypothesis (List.mem_cons_of_mem _ later)

namespace Program

variable {text file : String} {p : Program}

/-- A line that is kept has all its locations in itself, also the blank one in the place of a line
that could not be read. -/
theorem Kept.sits {number : Nat} {line : Line} {errors : List (Int × SourceError)}
    (kept : Kept file number text line errors) : line.Sits (Location.Within file line.number) := by
  cases kept with
  | read parsed =>
    obtain ⟨same, sits⟩ := Line.sits_of_parse parsed
    rwa [same]
  | refused => exact ⟨⟨_, rfl, rfl, rfl⟩, fun _ inside => absurd inside List.not_mem_nil⟩

/-- A line of a program from source is numbered by its place, and all its locations are in it. -/
theorem sits_of_getElem? (parsed : parse text file = .ok p) {index : Nat} {line : Line}
    (found : p.lines[index]? = some line) :
    line.number = (index + 1 : Nat) ∧ line.Sits (Location.Within file line.number) := by
  obtain ⟨_, _, _, kept⟩ := (keptFrom_of_parse parsed).2.kept_of_getElem? found
  exact ⟨(portable_of_parse parsed).wellFormed.numbered index line found, kept.sits⟩

/-- The line under a number has that number, in a program from source. If there is anything to run
in it, all its locations are in that line of the file. -/
theorem sits_line (parsed : parse text file = .ok p) (number : Int) :
    (p.line number).number = number ∧
      ((p.line number).statements ≠ [] → (p.line number).Sits (Location.Within file number)) := by
  have blank : (Line.blank number).number = number ∧ ((Line.blank number).statements ≠ [] →
      (Line.blank number).Sits (Location.Within file number)) :=
    ⟨rfl, fun some => absurd rfl some⟩
  unfold Program.line
  by_cases positive : 1 ≤ number
  · rw [if_pos positive]
    cases found : p.lines[number.toNat - 1]? with
    | none => exact blank
    | some line =>
      obtain ⟨here, sits⟩ := sits_of_getElem? parsed found
      have same : line.number = number := by omega
      exact ⟨same, fun _ => same ▸ sits⟩
  · rw [if_neg positive]
    exact blank

/-- Of a program from source, all locations in the tree of a line name that line of the file. The
error of a line that cannot be read names line one instead, in itself and at the end of its
report, because each line is scanned by itself and only locations in trees are numbered anew. So
it names its own line just if that is the first. -/
theorem places_of_parse (parsed : parse text file = .ok p) :
    (∀ (index : Nat) (line : Line), p.lines[index]? = some line →
      line.number = (index + 1 : Nat) ∧ line.Sits (Location.Within file (index + 1 : Nat))) ∧
    ∀ number error, (number, error) ∈ p.errors → ∀ place, error.place? = some place →
      place.line = 1 ∧
      error.message = error.words ++ (toString 1 ++ ":" ++ toString place.column) ∧
      ((place.line : Int) = number ↔ number = 1) := by
  constructor
  · intro index line found
    obtain ⟨here, sits⟩ := sits_of_getElem? parsed found
    exact ⟨here, here ▸ sits⟩
  · intro number error member place named
    obtain ⟨index, source, _, found, _, _, _, refused⟩ :=
      (keptFrom_of_parse parsed).2.refused_of_mem member
    obtain ⟨line, isLine, rfl⟩ := List.mem_map.mp (List.mem_of_getElem? found)
    have noFeed : '\n' ∉ (String.ofList line).toList := by
      rw [String.toList_ofList]
      exact Text.noFeed_linesOf isLine
    have first := Line.first_of_parse_error noFeed refused named
    refine ⟨first, ?_, ?_⟩
    · rw [SourceError.message_of_place? named, first]
    · rw [first]
      exact eq_comm

/-- A source of which the second line cannot be parsed and the third cannot be scanned. -/
def misnamedSource : String := "a=1\nif b\nc=$"

/-- The errors of its lines name line one. -/
theorem places_of_parse_misnamed :
    ∃ p : Program, parse misnamedSource "" = .ok p ∧
      (∀ (index : Nat) (line : Line), p.lines[index]? = some line →
        line.Sits (Location.Within "" (index + 1 : Nat))) ∧
      ∀ number ∈ [2, 3], ∃ error place, (number, error) ∈ p.errors ∧
        error.place? = some place ∧ place.line = 1 := by
  obtain ⟨p, parsed, checked⟩ := exists_ok_of_any (x := parse misnamedSource "")
    (f := fun p => [2, 3].all fun number => p.errors.any fun entry =>
      decide (entry.1 = number) && entry.2.place?.isSome) (by decide +kernel)
  obtain ⟨trees, errors⟩ := places_of_parse parsed
  refine ⟨p, parsed, fun index line found => (trees index line found).2, ?_⟩
  intro number among
  obtain ⟨⟨under, error⟩, member, named⟩ :=
    List.any_eq_true.mp (List.all_eq_true.mp checked _ among)
  obtain ⟨same, hasPlace⟩ := Bool.and_eq_true_iff.mp named
  obtain rfl : under = number := of_decide_eq_true same
  obtain ⟨place, named⟩ := Option.isSome_iff_exists.mp hasPlace
  exact ⟨error, place, member, named, (errors under error member place named).1⟩

/-- So the errors of a program do not name the lines that they are stored for. -/
theorem not_ownLine_of_errors :
    ¬ ∀ (text file : String) (p : Program), parse text file = .ok p →
      ∀ number error, (number, error) ∈ p.errors →
        ∀ place, error.place? = some place → (place.line : Int) = number := by
  intro own
  obtain ⟨p, parsed, checked⟩ := exists_ok_of_any (x := parse misnamedSource "")
    (f := fun p => p.errors.any fun entry => entry.2.place?.any fun place =>
      decide ((place.line : Int) ≠ entry.1)) (by decide +kernel)
  obtain ⟨⟨number, error⟩, member, misnamed⟩ := List.any_eq_true.mp checked
  obtain ⟨place, named, differs⟩ := (Option.any_eq_true _ _).mp misnamed
  exact of_decide_eq_true differs (own misnamedSource "" p parsed number error member place named)

end Program

end YololChip
