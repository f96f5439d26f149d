import YololChip.Proofs.Numerals
import YololChip.Proofs.Scanned

/-!
# Printed lexemes

The characters of a lexeme are scanned as that lexeme, if what stands behind them ends it.
A blank ends every lexeme but a comment, which goes on to the end of its line. Behind a
symbol any character may stand but a slash, as two slashes side by side would begin a
comment.
-/

namespace YololChip

def Lexeme.chars : Lexeme → List Char
  | newline => ['\n']
  | finish => []
  | comment value => '/' :: '/' :: value.toList
  | symbol s => [s.char]
  | text value => '"' :: (value.toList ++ ['"'])
  | number value => value.text.toList
  | name n | field n => n.toList
  | keyword k => k.word.toList

/-- Whether a lexeme can be printed: a number has no sign, a text ends where its quote stands, a
comment where its line ends, and a name is in lower case and no keyword. Others have characters
too, but would be scanned as something else. -/
def Lexeme.Writable : Lexeme → Prop
  | newline | finish => False
  | comment value => '\n' ∉ value.toList ∧ value.toList.getLast? ≠ some '\r'
  | symbol _ | keyword _ => True
  | text value => value.toList.all continuesString = true
  | number value => 0 ≤ value.units
  | name n =>
    n.toList.head?.any startsName = true ∧ n.toList.all isNameChar = true ∧
      Keyword.ofWord? n = none
  | field n =>
    n.toList.head? = some ':' ∧ n.toList.tail ≠ [] ∧ n.toList.tail.all isNameChar = true

instance (lexeme : Lexeme) : Decidable lexeme.Writable :=
  match lexeme with
  | .newline | .finish => inferInstanceAs (Decidable False)
  | .comment _ | .name _ | .field _ => inferInstanceAs (Decidable (_ ∧ _))
  | .symbol _ | .keyword _ => inferInstanceAs (Decidable True)
  | .text value => inferInstanceAs (Decidable (value.toList.all continuesString = true))
  | .number value => inferInstanceAs (Decidable (0 ≤ value.units))

/-! ### Characters of lexemes -/

/-- A name that can be printed begins with a character that starts names. -/
theorem exists_cons_of_writable_name {n : String} (writable : (Lexeme.name n).Writable) :
    ∃ c cs, n.toList = c :: cs ∧ startsName c = true ∧ (∀ d ∈ c :: cs, isNameChar d = true) ∧
      Keyword.ofWord? n = none := by
  obtain ⟨starts, names, noKeyword⟩ := writable
  cases shape : n.toList with
  | nil =>
    rw [shape] at starts
    contradiction
  | cons c cs =>
    rw [shape] at starts names
    exact ⟨c, cs, rfl, starts, List.all_eq_true.mp names, noKeyword⟩

/-- A field's name that can be printed goes on behind its colon. -/
theorem exists_cons_of_writable_field {n : String} (writable : (Lexeme.field n).Writable) :
    ∃ c cs, n.toList = ':' :: c :: cs ∧ ∀ d ∈ c :: cs, isNameChar d = true := by
  obtain ⟨colon, goesOn, names⟩ := writable
  obtain ⟨more, shape⟩ := List.head?_eq_some_iff.mp colon
  rw [shape, List.tail_cons] at goesOn names
  obtain ⟨c, cs, rfl⟩ := List.exists_cons_of_ne_nil goesOn
  exact ⟨c, cs, shape, List.all_eq_true.mp names⟩

/-- Characters that are taken, up to one that is not, are all that is taken. What follows the
stop is never looked at. -/
theorem takeWhile_append_stop {p : Char → Bool} {cs tail : List Char}
    (taken : ∀ c ∈ cs, p c = true) (stops : ∀ c ∈ tail.head?, p c = false) :
    (cs ++ tail).takeWhile p = cs := by
  rw [List.takeWhile_append_of_pos taken]
  cases tail with
  | nil => rw [List.takeWhile_nil, List.append_nil]
  | cons c tail => simp [stops c rfl]

/-- A character of a name in lower case is its own lower-case form. -/
theorem toLower_of_isNameChar {c : Char} (name : isNameChar c = true) : c.toLower = c := by
  have checked : ∀ n < 128, isNameChar (Char.ofNat n) = true →
      (Char.ofNat n).toLower = Char.ofNat n := by
    decide +kernel
  have continues := (Bool.and_eq_true _ _ ▸ name : _ ∧ _).1
  exact ascii_induction (P := fun c => isNameChar c = true → c.toLower = c) checked
    (toNat_lt_of_continuesName continues) name

theorem nameText_of_isNameChar {cs : List Char} (names : ∀ c ∈ cs, c.toLower = c) :
    nameText cs = String.ofList cs := by
  rw [nameText, List.map_congr_left names, List.map_id']

/-- What may stand behind a token: nothing or a blank, and behind a symbol any character but a
slash. Two slashes would be a comment. -/
def Parts (lexeme : Lexeme) (tail : List Char) : Prop :=
  ∀ c ∈ tail.head?, c = ' ' ∨ (∃ s, lexeme = .symbol s) ∧ c ≠ '/'

/-- Whether some characters are scanned as one lexeme, whatever part of the tail follows. They
are in one line, so the places behind them can be counted in columns. -/
structure Scans (lexeme : Lexeme) (c : Char) (cs tail : List Char) : Prop where
  chars : lexeme.chars = c :: cs
  noGap : isGap c = false
  found : lexemeAt c (cs ++ tail) = .ok (lexeme, cs.length)
  oneLine : ∀ d ∈ c :: cs, d ≠ '\n'

/-- A word in lower case is scanned as a keyword or a name. Which of the two it is goes by the
word alone. -/
theorem lexemeAt_word {n : String} {c : Char} {cs tail : List Char} (shape : n.toList = c :: cs)
    (starts : startsName c = true) (names : ∀ d ∈ c :: cs, isNameChar d = true)
    (parted : ∀ d ∈ tail.head?, d = ' ') :
    lexemeAt c (cs ++ tail) = .ok (wordLexeme n, cs.length) := by
  have more : (cs ++ tail).takeWhile continuesName = cs := by
    apply takeWhile_append_stop
    · intro d member
      exact (Bool.and_eq_true _ _ ▸ names d (List.mem_cons_of_mem _ member) : _ ∧ _).1
    · intro d member
      rw [parted d member]
      decide
  have text : nameText (c :: cs) = n := by
    rw [nameText_of_isNameChar fun d member => toLower_of_isNameChar (names d member), ← shape,
      String.ofList_toList]
  rw [lexemeAt_startsName starts, more, text]

theorem ne_newline_of_isNameChar {c : Char} (name : isNameChar c = true) : c ≠ '\n' := by
  rintro rfl
  contradiction

/-- A tail that parts a token that is no symbol begins with a blank, if at all. -/
theorem Parts.blank {lexeme : Lexeme} {tail : List Char} (parted : Parts lexeme tail)
    (noSymbol : ∀ s, lexeme ≠ .symbol s) : ∀ d ∈ tail.head?, d = ' ' := by
  intro d member
  rcases parted d member with blank | ⟨⟨s, isSymbol⟩, _⟩
  · exact blank
  · exact absurd isSymbol (noSymbol s)

theorem scans_name {n : String} (writable : (Lexeme.name n).Writable) {tail : List Char}
    (parted : Parts (.name n) tail) : ∃ c cs, Scans (.name n) c cs tail := by
  obtain ⟨c, cs, shape, starts, names, noKeyword⟩ := exists_cons_of_writable_name writable
  refine ⟨c, cs, shape, (startsName_only starts).2.2.2.2.2.2, ?_,
    fun d member => ne_newline_of_isNameChar (names d member)⟩
  rw [lexemeAt_word shape starts names (parted.blank (by simp)), wordLexeme, noKeyword]

theorem scans_keyword (k : Keyword) {tail : List Char} (parted : Parts (.keyword k) tail) :
    ∃ c cs, Scans (.keyword k) c cs tail := by
  obtain ⟨c, cs, shape, starts, allNames⟩ : ∃ c cs, k.word.toList = c :: cs ∧
      startsName c = true ∧ (c :: cs).all isNameChar = true := by
    cases k <;> exact ⟨_, _, rfl, by decide, by decide⟩
  have names : ∀ d ∈ c :: cs, isNameChar d = true := List.all_eq_true.mp allNames
  refine ⟨c, cs, shape, (startsName_only starts).2.2.2.2.2.2, ?_,
    fun d member => ne_newline_of_isNameChar (names d member)⟩
  rw [lexemeAt_word shape starts names (parted.blank (by simp)), wordLexeme, Keyword.ofWord?_word]

theorem scans_field {n : String} (writable : (Lexeme.field n).Writable) {tail : List Char}
    (parted : Parts (.field n) tail) : ∃ c cs, Scans (.field n) c cs tail := by
  obtain ⟨c, cs, shape, names⟩ := exists_cons_of_writable_field writable
  have more : (c :: cs ++ tail).takeWhile continuesName = c :: cs := by
    apply takeWhile_append_stop
    · intro d member
      exact (Bool.and_eq_true _ _ ▸ names d member : _ ∧ _).1
    · intro d member
      rw [parted.blank (by simp) d member]
      decide
  have text : nameText (':' :: c :: cs) = n := by
    rw [nameText_of_isNameChar, ← shape, String.ofList_toList]
    intro d member
    rcases List.mem_cons.mp member with rfl | later
    · decide
    · exact toLower_of_isNameChar (names d later)
  refine ⟨':', c :: cs, shape, by decide, ?_, ?_⟩
  · rw [lexemeAt_colon (by rw [more]; exact List.cons_ne_nil _ _), more, text]
  · intro d member
    rcases List.mem_cons.mp member with rfl | later
    · decide
    · exact ne_newline_of_isNameChar (names d later)

theorem scans_symbol (s : Symbol) {tail : List Char} (parted : Parts (.symbol s) tail) :
    ∃ c cs, Scans (.symbol s) c cs tail := by
  have noSlash : tail.head? ≠ some '/' := by
    intro isSlash
    rcases parted '/' isSlash with blank | ⟨_, other⟩
    · contradiction
    · exact other rfl
  have noNewline : s.char ≠ '\n' := by cases s <;> decide
  refine ⟨s.char, [], rfl, by cases s <;> decide, ?_, ?_⟩
  · exact lexemeAt_symbol fun comment => noSlash comment.2
  · intro d member
    rw [List.mem_singleton.mp member]
    exact noNewline

theorem scans_text {value : String} (writable : (Lexeme.text value).Writable) (tail : List Char) :
    ∃ c cs, Scans (.text value) c cs tail := by
  have continues : ∀ c ∈ value.toList, continuesString c = true := List.all_eq_true.mp writable
  have body : (value.toList ++ '"' :: tail).takeWhile continuesString = value.toList := by
    apply takeWhile_append_stop continues
    intro d member
    rw [← Option.some.inj (show some '"' = some d from member)]
    decide
  refine ⟨'"', value.toList ++ ['"'], rfl, by decide, ?_, ?_⟩
  · rw [List.append_assoc, List.singleton_append, lexemeAt_quote, body]
    simp
  · intro d member
    rcases List.mem_cons.mp member with rfl | later
    · decide
    · rcases List.mem_append.mp later with inside | last
      · rintro rfl
        exact absurd (continues _ inside) (by decide)
      · rw [List.mem_singleton.mp last]
        decide

/-- The characters of a number without a sign go on with it. -/
theorem continuesNumber_of_mem_unsignedChars {units : Nat} {c : Char}
    (member : c ∈ Fixed.unsignedChars units) : continuesNumber c = true := by
  have digit (found : c.isDigit = true) : continuesNumber c = true := by
    simp [continuesNumber, found]
  rw [Fixed.unsignedChars] at member
  rcases List.mem_append.mp member with whole | decimals
  · exact digit (Fixed.isDigit_of_mem_toDigits whole)
  · split at decimals
    · contradiction
    · rcases List.mem_cons.mp decimals with rfl | later
      · decide
      · have padded := Fixed.mem_of_mem_withoutTrailingZeros later
        exact digit (Fixed.isDigit_of_mem_paddedDigits padded)

theorem scans_number {value : Fixed} (writable : (Lexeme.number value).Writable) {tail : List Char}
    (parted : Parts (.number value) tail) : ∃ c cs, Scans (.number value) c cs tail := by
  have unsigned : value.text.toList = Fixed.unsignedChars value.units.natAbs := by
    rw [Fixed.toList_text, if_neg (Int.not_lt.mpr writable), List.nil_append]
  obtain ⟨c, cs, shape, digit⟩ := Fixed.unsignedChars_eq_cons value.units.natAbs
  have goesOn : ∀ d ∈ c :: cs, continuesNumber d = true := by
    intro d member
    rw [← shape] at member
    exact continuesNumber_of_mem_unsignedChars member
  obtain ⟨-, -, -, -, noGap⟩ := isDigit_only digit
  have more : (cs ++ tail).takeWhile continuesNumber = cs := by
    apply takeWhile_append_stop (fun d member => goesOn d (List.mem_cons_of_mem _ member))
    intro d member
    rw [parted.blank (by simp) d member]
    decide
  have text : String.ofList (c :: cs) = value.text := by
    rw [← shape, ← unsigned, String.ofList_toList]
  refine ⟨c, cs, unsigned.trans shape, noGap, ?_, ?_⟩
  · rw [lexemeAt_digit digit, more, text, Fixed.ofLiteral_text]
  · intro d member
    have continues := goesOn d member
    rintro rfl
    contradiction

/-- Characters that do not end in a carriage return keep them all. -/
theorem withoutReturns_of_getLast? {cs : List Char} (noReturn : cs.getLast? ≠ some '\r') :
    withoutReturns cs = cs := by
  rw [← List.head?_reverse] at noReturn
  rw [withoutReturns, List.reverse_eq_iff]
  cases reversed : cs.reverse with
  | nil => rfl
  | cons c rest =>
    rw [reversed] at noReturn
    have kept : decide (c = '\r') = false := by simpa using noReturn
    rw [List.dropWhile_cons_of_neg (by simp [kept])]

/-- A printed comment is scanned, if nothing stands behind it. A comment takes all of the line,
so nothing may. -/
theorem scans_comment {text : String} (writable : (Lexeme.comment text).Writable) :
    ∃ c cs, Scans (.comment text) c cs [] := by
  obtain ⟨oneLine, noReturn⟩ := writable
  have body : text.toList.takeWhile (· != '\n') = text.toList := by
    have whole : (text.toList ++ []).takeWhile (· != '\n') = text.toList :=
      takeWhile_append_stop
        (fun c member => bne_iff_ne.mpr fun newline => oneLine (newline ▸ member)) (by simp)
    rwa [List.append_nil] at whole
  have returns := withoutReturns_of_getLast? noReturn
  refine ⟨'/', '/' :: text.toList, rfl, by decide, ?_, ?_⟩
  · rw [List.append_nil, lexemeAt_slashes, body, returns, String.ofList_toList, List.length_cons]
  · intro d member
    rcases List.mem_cons.mp member with rfl | later
    · decide
    · rcases List.mem_cons.mp later with rfl | inside
      · decide
      · rintro rfl
        exact oneLine inside

/-- Every lexeme that can be printed is scanned, a comment if nothing stands behind it. -/
theorem exists_scans {lexeme : Lexeme} (writable : lexeme.Writable) {tail : List Char}
    (parted : Parts lexeme tail) (atEnd : lexeme.isComment = true → tail = []) :
    ∃ c cs, Scans lexeme c cs tail := by
  cases lexeme with
  | newline => exact absurd writable id
  | finish => exact absurd writable id
  | comment value =>
    rw [atEnd rfl]
    exact scans_comment writable
  | symbol s => exact scans_symbol s parted
  | text value => exact scans_text writable tail
  | number value => exact scans_number writable parted
  | name n => exact scans_name writable parted
  | field n => exact scans_field writable parted
  | keyword k => exact scans_keyword k parted

end YololChip
