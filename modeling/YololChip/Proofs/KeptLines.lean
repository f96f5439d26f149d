import YololChip.Source.Program

/-!
# The lines that a program keeps

What a program keeps of its text, line by line, as relations. Of each line it keeps what was read,
or a blank line with the error beside it. The relations speak of texts that are read to their
ends only: at a line that breaks off there is nothing to keep, and no program. So all that is
known of kept lines is known by induction over them, without the reader.
-/

namespace YololChip.Program

variable {file : String} {number : Nat} {text : String} {texts : List String} {line : Line}
  {lines : List Line} {errors : List (Int × SourceError)}

/-- What is kept of a text under a number: its line, or a blank line that holds the text in the
place of the one that is refused, with its error. Of a text that breaks off nothing is kept. -/
inductive Kept (file : String) (number : Nat) (text : String) :
    Line → List (Int × SourceError) → Prop where
  | read {line : Line} (parsed : Line.parse text file number = .ok line) :
    Kept file number text line []
  | refused {error : SourceError}
      (failed : Line.parse text file number = .error (.refused error)) :
    Kept file number text ⟨some ⟨file, number, 1, Text.strip text⟩, [], number⟩ [(number, error)]

/-- What is kept of texts in turn, the first of which has the given number. There is a line for
every text, and an error for those that are refused. -/
inductive KeptFrom (file : String) :
    Nat → List String → List Line → List (Int × SourceError) → Prop where
  | nil {number : Nat} : KeptFrom file number [] [] []
  | cons {number : Nat} {text : String} {rest : List String} {line : Line} {lines : List Line}
      {errors later : List (Int × SourceError)} (first : Kept file number text line errors)
      (others : KeptFrom file (number + 1) rest lines later) :
    KeptFrom file number (text :: rest) (line :: lines) (errors ++ later)

theorem keep_eq_ok :
    keep file number text = .ok (line, errors) ↔ Kept file number text line errors := by
  constructor
  · intro kept
    unfold keep at kept
    split at kept
    · next read =>
      obtain ⟨rfl, rfl⟩ := Prod.mk.inj (Except.ok.inj kept)
      exact .read read
    · next refused =>
      obtain ⟨rfl, rfl⟩ := Prod.mk.inj (Except.ok.inj kept)
      exact .refused refused
    · contradiction
  · rintro (parsed | failed)
    · simp only [keep, parsed]
    · simp only [keep, failed]

theorem parseLines_eq_ok :
    parseLines file number texts = .ok (lines, errors) ↔
      KeptFrom file number texts lines errors := by
  constructor
  · intro kept
    induction texts generalizing number lines errors with
    | nil =>
      obtain ⟨rfl, rfl⟩ := Prod.mk.inj (Except.ok.inj kept)
      exact .nil
    | cons text rest inductionHypothesis =>
      unfold parseLines at kept
      split at kept
      · contradiction
      next first =>
      split at kept
      · contradiction
      next others =>
      obtain ⟨rfl, rfl⟩ := Prod.mk.inj (Except.ok.inj kept)
      exact .cons (keep_eq_ok.mp first) (inductionHypothesis others)
  · intro kept
    induction kept with
    | nil => rfl
    | cons first _ inductionHypothesis =>
      simp only [parseLines, keep_eq_ok.mpr first, inductionHypothesis]

/-- A program from source has at most as many lines as a chip holds, and is what is kept of them. -/
theorem keptFrom_of_parse {p : Program} (parsed : parse text file = .ok p) :
    (Text.lines text).length ≤ mostLines ∧
      KeptFrom file 1 (Text.lines text) p.lines p.errors := by
  unfold parse at parsed
  dsimp only at parsed
  split at parsed
  · contradiction
  next fits =>
  split at parsed
  · contradiction
  next kept =>
  obtain rfl := Except.ok.inj parsed
  exact ⟨Nat.not_lt.mp fits, parseLines_eq_ok.mp kept⟩

theorem KeptFrom.length (kept : KeptFrom file number texts lines errors) :
    lines.length = texts.length := by
  induction kept with
  | nil => rfl
  | cons _ _ inductionHypothesis => rw [List.length_cons, List.length_cons, inductionHypothesis]

/-- The line at a place is kept of the text at that place, under its number. -/
theorem KeptFrom.kept_of_getElem? (kept : KeptFrom file number texts lines errors) {index : Nat}
    (found : lines[index]? = some line) :
    ∃ text own, texts[index]? = some text ∧ Kept file (number + index) text line own := by
  induction kept generalizing index with
  | nil => simp at found
  | @cons number text rest _ _ own _ first _ inductionHypothesis =>
    cases index with
    | zero =>
      obtain rfl := Option.some.inj found
      exact ⟨text, own, rfl, first⟩
    | succ index =>
      obtain ⟨other, own, here, later⟩ := inductionHypothesis found
      exact ⟨other, own, here, by rwa [Nat.add_assoc, Nat.add_comm 1] at later⟩

/-- An error is that of a text which is refused, and the line at its place is blank. -/
theorem KeptFrom.refused_of_mem (kept : KeptFrom file number texts lines errors)
    {entry : Int × SourceError} (member : entry ∈ errors) :
    ∃ index text line, texts[index]? = some text ∧ lines[index]? = some line ∧
      entry.1 = (number + index : Nat) ∧ line.statements = [] ∧
      Line.parse text file entry.1 = .error (.refused entry.2) := by
  induction kept with
  | nil => exact absurd member List.not_mem_nil
  | @cons number text rest line _ _ _ first _ inductionHypothesis =>
    rcases List.mem_append.mp member with here | later
    · cases first with
      | read => exact absurd here List.not_mem_nil
      | refused failed =>
        obtain rfl := List.mem_singleton.mp here
        exact ⟨0, text, _, rfl, rfl, rfl, rfl, failed⟩
    · obtain ⟨index, other, otherLine, found, foundLine, under, blank, failed⟩ :=
        inductionHypothesis later
      exact ⟨index + 1, other, otherLine, found, foundLine,
        by rw [under, Nat.add_assoc, Nat.add_comm 1], blank, failed⟩

theorem exists_keptFrom (file : String) (number : Nat) (texts : List String) :
    (∃ lines errors, KeptFrom file number texts lines errors) ↔
      ∀ index text, texts[index]? = some text → ∀ digits,
        Line.parse text file (number + index : Nat) ≠ .error (.overlong digits) := by
  constructor
  · rintro ⟨lines, errors, kept⟩ index text found digits broken
    obtain ⟨line, foundLine⟩ : ∃ line, lines[index]? = some line := by
      rw [← Option.isSome_iff_exists, isSome_getElem?, kept.length]
      exact (List.getElem?_eq_some_iff.mp found).1
    obtain ⟨other, own, foundToo, here⟩ := kept.kept_of_getElem? foundLine
    obtain rfl := Option.some.inj (found.symm.trans foundToo)
    cases here with
    | read parsed => cases parsed.symm.trans broken
    | refused failed => cases failed.symm.trans broken
  · intro whole
    induction texts generalizing number with
    | nil => exact ⟨[], [], .nil⟩
    | cons text rest inductionHypothesis =>
      obtain ⟨lines, later, others⟩ := inductionHypothesis (number + 1) (by
        intro index other found
        rw [Nat.add_assoc, Nat.add_comm 1]
        exact whole (index + 1) other found)
      cases parsed : Line.parse text file number with
      | ok line => exact ⟨_, _, .cons (.read parsed) others⟩
      | error fault =>
        cases fault with
        | refused error => exact ⟨_, _, .cons (.refused parsed) others⟩
        | overlong digits => exact absurd parsed (whole 0 text rfl digits)

end YololChip.Program
