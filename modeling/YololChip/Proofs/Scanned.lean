import YololChip.Proofs.Spelling
import YololChip.Source.Scan

/-!
# What the scanner gives

What begins a lexeme tells of what kind it is, and so how many characters it takes.

The names in scanned tokens are in lower case, a field's name starts with its colon and no
other name does, and a comment is the last token of its line.
-/

namespace YololChip

/-! ### Names -/

/-- What holds of the first 128 code points holds of their characters. It is decided one by one
for these. -/
theorem ascii_induction {P : Char → Prop} (all : ∀ n < 128, P (Char.ofNat n)) {c : Char}
    (ascii : c.toNat < 128) : P c := by
  rw [← Char.ofNat_toNat c]
  exact all _ ascii

theorem toNat_lt_of_continuesName {c : Char} (continues : continuesName c = true) :
    c.toNat < 128 := by
  have shape : continuesName c = (decide (c = '_') ||
      (decide (c.val ≥ 'A'.val ∧ c.val ≤ 'Z'.val) ||
        (decide (c.val ≥ 'a'.val) && decide (c.val ≤ 'z'.val)) ||
        (decide (c.val ≥ '0'.val) && decide (c.val ≤ '9'.val)))) := rfl
  simp only [shape, Bool.or_eq_true, Bool.and_eq_true, decide_eq_true_eq, ge_iff_le,
    UInt32.le_iff_toNat_le] at continues
  rcases continues with rfl | (⟨_, small⟩ | ⟨_, small⟩) | ⟨_, small⟩
  · decide
  · exact Nat.lt_of_le_of_lt small (by decide)
  · exact Nat.lt_of_le_of_lt small (by decide)
  · exact Nat.lt_of_le_of_lt small (by decide)

/-- No capital of the table beyond the plain ones has a code point below 128. -/
theorem isLow_of_ascii {c : Char} (ascii : c.toNat < 128) (noCapital : c.isUpper = false) :
    Text.IsLow c := by
  have checked : ∀ n < 128, (Char.ofNat n).isUpper = false →
      (Text.dottedCapital :: Text.capitals).all (!·.contains (Char.ofNat n).toNat) = true := by
    decide +kernel
  have outside := ascii_induction (P := fun c => c.isUpper = false →
    (Text.dottedCapital :: Text.capitals).all (!·.contains c.toNat) = true) checked ascii noCapital
  apply Text.isLow_of_not_capital
  intro s member
  simpa using List.all_eq_true.mp outside s member

/-- The characters of names in lower case. -/
def isNameChar (c : Char) : Bool := continuesName c && !c.isUpper

theorem isNameChar_toLower {c : Char} (continues : continuesName c = true) :
    isNameChar c.toLower = true := by
  have checked : ∀ n < 128, continuesName (Char.ofNat n) = true →
      isNameChar (Char.ofNat n).toLower = true := by
    decide +kernel
  exact ascii_induction (P := fun c => continuesName c = true → isNameChar c.toLower = true)
    checked (toNat_lt_of_continuesName continues) continues

/-- The characters of names in lower case are their own lower-case form. -/
theorem isLow_of_isNameChar {c : Char} (name : isNameChar c = true) : Text.IsLow c := by
  simp only [isNameChar, Bool.and_eq_true, Bool.not_eq_true'] at name
  exact isLow_of_ascii (toNat_lt_of_continuesName name.1) name.2

theorem continuesName_of_startsName {c : Char} (starts : startsName c = true) :
    continuesName c = true := by
  simp only [startsName, continuesName, Char.isAlphanum, Bool.or_eq_true] at starts ⊢
  exact starts.imp_right .inl

/-- The characters that a name goes on with are in the name. -/
theorem continuesName_of_mem_takeWhile {cs : List Char} {c : Char}
    (member : c ∈ cs.takeWhile continuesName) : continuesName c = true :=
  List.all_eq_true.mp List.all_takeWhile c member

/-- Whether a name is one that a scanner gives: in lower case and not empty, with a colon at its
start if it is that of a field, and only then. Of other lexemes nothing is asked. -/
def Lexeme.Clean : Lexeme → Prop
  | name n => n ≠ "" ∧ Text.lower n = n ∧ isFieldName n = false
  | field n => n ≠ "" ∧ Text.lower n = n ∧ isFieldName n = true
  | _ => True

theorem lower_nameText {c : Char} {cs : List Char} (first : Text.IsLow c.toLower)
    (continues : ∀ d ∈ cs, continuesName d = true) :
    nameText (c :: cs) ≠ "" ∧ Text.lower (nameText (c :: cs)) = nameText (c :: cs) ∧
      isFieldName (nameText (c :: cs)) = decide (c.toLower = ':') := by
  refine ⟨by simp [nameText], ?_, by simp [isFieldName, nameText]⟩
  apply Text.lower_of_isLow
  intro d member
  rw [nameText, String.toList_ofList, List.map_cons] at member
  rcases List.mem_cons.mp member with rfl | later
  · exact first
  · obtain ⟨original, inside, rfl⟩ := List.mem_map.mp later
    exact isLow_of_isNameChar (isNameChar_toLower (continues original inside))

/-- A word that a scanner gives is a keyword or a clean name. It is in lower case by then. -/
theorem clean_wordLexeme {c : Char} {cs : List Char} (starts : startsName c = true)
    (continues : ∀ d ∈ cs, continuesName d = true) : (wordLexeme (nameText (c :: cs))).Clean := by
  have isName := isNameChar_toLower (continuesName_of_startsName starts)
  obtain ⟨inhabited, lower, field⟩ := lower_nameText (isLow_of_isNameChar isName) continues
  have noColon : c.toLower ≠ ':' := by
    intro colon
    rw [colon] at isName
    contradiction
  unfold wordLexeme
  split
  · trivial
  · exact ⟨inhabited, lower, by rw [field, decide_eq_false noColon]⟩

theorem clean_field {cs : List Char} (continues : ∀ d ∈ cs, continuesName d = true) :
    (Lexeme.field (nameText (':' :: cs))).Clean := by
  have low : Text.IsLow (':' : Char).toLower := isLow_of_ascii (by decide) (by decide)
  obtain ⟨inhabited, lower, field⟩ := lower_nameText low continues
  exact ⟨inhabited, lower, by rw [field]; rfl⟩

/-! ### Lexemes -/

theorem ofChar?_eq_none {p : Char → Bool} {c : Char} (holds : p c = true)
    (others : Symbol.all.all (fun s => !p s.char) = true) : Symbol.ofChar? c = none := by
  rw [Symbol.ofChar?, List.find?_eq_none]
  intro s member
  have differs := List.all_eq_true.mp others s member
  simp only [decide_eq_true_eq]
  rintro rfl
  simp [holds] at differs

theorem startsName_only {c : Char} (starts : startsName c = true) :
    c ≠ '\r' ∧ c ≠ '\n' ∧ c ≠ '/' ∧ c ≠ '"' ∧ c ≠ ':' ∧ c.isDigit = false ∧ isGap c = false := by
  have checked : ∀ n < 128, startsName (Char.ofNat n) = true →
      Char.ofNat n ≠ '\r' ∧ Char.ofNat n ≠ '\n' ∧ Char.ofNat n ≠ '/' ∧ Char.ofNat n ≠ '"' ∧
        Char.ofNat n ≠ ':' ∧ (Char.ofNat n).isDigit = false ∧ isGap (Char.ofNat n) = false := by
    decide +kernel
  exact ascii_induction (P := fun c => startsName c = true → c ≠ '\r' ∧ c ≠ '\n' ∧ c ≠ '/' ∧
    c ≠ '"' ∧ c ≠ ':' ∧ c.isDigit = false ∧ isGap c = false) checked
    (toNat_lt_of_continuesName (continuesName_of_startsName starts)) starts

theorem isDigit_only {c : Char} (digit : c.isDigit = true) :
    c ≠ '\r' ∧ c ≠ '\n' ∧ c ≠ '/' ∧ c ≠ '"' ∧ isGap c = false := by
  refine ⟨?_, ?_, ?_, ?_, ?_⟩
  · rintro rfl
    contradiction
  · rintro rfl
    contradiction
  · rintro rfl
    contradiction
  · rintro rfl
    contradiction
  · rw [Bool.eq_false_iff]
    intro gap
    simp only [isGap, Bool.or_eq_true, decide_eq_true_eq] at gap
    rcases gap with rfl | rfl <;> contradiction

theorem lexemeAt_feed (rest : List Char) : lexemeAt '\n' rest = .ok (.newline, 0) := by
  simp [lexemeAt]

theorem lexemeAt_returnFeed (rest : List Char) :
    lexemeAt '\r' ('\n' :: rest) = .ok (.newline, 1) := by
  simp [lexemeAt]

theorem lexemeAt_slashes (rest : List Char) :
    lexemeAt '/' ('/' :: rest) =
      .ok (.comment (String.ofList (withoutReturns (rest.takeWhile (· != '\n')))),
        (rest.takeWhile (· != '\n')).length + 1) := by
  simp [lexemeAt]

theorem lexemeAt_symbol {s : Symbol} {rest : List Char}
    (noComment : ¬ (s.char = '/' ∧ rest.head? = some '/')) :
    lexemeAt s.char rest = .ok (.symbol s, 0) := by
  have noReturn : s.char ≠ '\r' := by cases s <;> decide
  have noNewline : s.char ≠ '\n' := by cases s <;> decide
  simp only [lexemeAt, noReturn, noNewline, noComment, false_and, if_false, Symbol.ofChar?_char]

theorem lexemeAt_quote (rest : List Char) :
    lexemeAt '"' rest =
      .ok (.text (String.ofList (rest.takeWhile continuesString)),
        (rest.takeWhile continuesString).length +
          if (rest.drop (rest.takeWhile continuesString).length).head? = some '"' then 1
          else 0) := by
  have noSymbol : Symbol.ofChar? '"' = none := by decide
  simp [lexemeAt, noSymbol]

/-- At a digit a number begins, which has a value or too many digits. No other token begins with
one. -/
theorem lexemeAt_digit {c : Char} (digit : c.isDigit = true) (rest : List Char) :
    lexemeAt c rest =
      match Fixed.ofLiteral (String.ofList (c :: rest.takeWhile continuesNumber)) with
      | .ok value => .ok (.number value, (rest.takeWhile continuesNumber).length)
      | .error digits => .error (.overlong digits) := by
  obtain ⟨noReturn, noNewline, noSlash, noQuote, -⟩ := isDigit_only digit
  have noSymbol : Symbol.ofChar? c = none := ofChar?_eq_none digit (by decide)
  cases read : Fixed.ofLiteral (String.ofList (c :: rest.takeWhile continuesNumber)) with
  | ok value =>
    simp only [lexemeAt, noReturn, noNewline, noSlash, noQuote, noSymbol, digit, read, false_and,
      if_false, if_true]
  | error digits =>
    simp only [lexemeAt, noReturn, noNewline, noSlash, noQuote, noSymbol, digit, read, false_and,
      if_false, if_true]

theorem lexemeAt_colon {rest : List Char} (named : rest.takeWhile continuesName ≠ []) :
    lexemeAt ':' rest =
      .ok (.field (nameText (':' :: rest.takeWhile continuesName)),
        (rest.takeWhile continuesName).length) := by
  have noSymbol : Symbol.ofChar? ':' = none := by decide
  simp [lexemeAt, noSymbol, named]

theorem lexemeAt_startsName {c : Char} (starts : startsName c = true) (rest : List Char) :
    lexemeAt c rest =
      .ok (wordLexeme (nameText (c :: rest.takeWhile continuesName)),
        (rest.takeWhile continuesName).length) := by
  obtain ⟨noReturn, noNewline, noSlash, noQuote, noColon, noDigit, -⟩ := startsName_only starts
  have noSymbol : Symbol.ofChar? c = none := ofChar?_eq_none starts (by decide)
  simp [lexemeAt, noReturn, noNewline, noSlash, noQuote, noColon, noDigit, noSymbol, starts]

theorem char_of_ofChar? {c : Char} {s : Symbol} (found : Symbol.ofChar? c = some s) :
    s.char = c := by
  have isChar := List.find?_some found
  exact of_decide_eq_true isChar

/-- Which lexeme is found at a character, and how many of those behind it are taken: a case for
each kind of lexeme, with what begins it. Only one case fits, since no character begins two
kinds, but for slashes, colons and carriage returns, where the next character decides. -/
inductive LexemeAt : Char → List Char → Lexeme → Nat → Prop where
  | returnFeed (rest : List Char) : LexemeAt '\r' ('\n' :: rest) .newline 1
  | feed (rest : List Char) : LexemeAt '\n' rest .newline 0
  | comment (rest : List Char) :
    LexemeAt '/' ('/' :: rest)
      (.comment (String.ofList (withoutReturns (rest.takeWhile (· != '\n')))))
      ((rest.takeWhile (· != '\n')).length + 1)
  | symbol {s : Symbol} {rest : List Char} (noComment : ¬ (s.char = '/' ∧ rest.head? = some '/')) :
    LexemeAt s.char rest (.symbol s) 0
  | text (rest : List Char) :
    LexemeAt '"' rest (.text (String.ofList (rest.takeWhile continuesString)))
      ((rest.takeWhile continuesString).length +
        if (rest.drop (rest.takeWhile continuesString).length).head? = some '"' then 1 else 0)
  | number {c : Char} (digit : c.isDigit = true) {rest : List Char} {value : Fixed}
    (read : Fixed.ofLiteral (String.ofList (c :: rest.takeWhile continuesNumber)) = .ok value) :
    LexemeAt c rest (.number value) (rest.takeWhile continuesNumber).length
  | field {rest : List Char} (named : rest.takeWhile continuesName ≠ []) :
    LexemeAt ':' rest (.field (nameText (':' :: rest.takeWhile continuesName)))
      (rest.takeWhile continuesName).length
  | word {c : Char} (starts : startsName c = true) (rest : List Char) :
    LexemeAt c rest (wordLexeme (nameText (c :: rest.takeWhile continuesName)))
      (rest.takeWhile continuesName).length

theorem LexemeAt.of_lexemeAt {c : Char} {rest : List Char} {lexeme : Lexeme} {more : Nat}
    (found : lexemeAt c rest = .ok (lexeme, more)) : LexemeAt c rest lexeme more := by
  unfold lexemeAt at found
  split at found
  · next returned =>
    obtain ⟨rfl, rfl⟩ := Prod.mk.inj (Except.ok.inj found)
    obtain ⟨rfl, isFeed⟩ := returned
    obtain ⟨tail, rfl⟩ := List.head?_eq_some_iff.mp isFeed
    exact .returnFeed tail
  split at found
  · next isFeed =>
    obtain ⟨rfl, rfl⟩ := Prod.mk.inj (Except.ok.inj found)
    rw [isFeed]
    exact .feed rest
  split at found
  · next slashes =>
    obtain ⟨rfl, rfl⟩ := Prod.mk.inj (Except.ok.inj found)
    obtain ⟨rfl, isSlash⟩ := slashes
    obtain ⟨tail, rfl⟩ := List.head?_eq_some_iff.mp isSlash
    exact .comment tail
  next noComment =>
  split at found
  · next s isSymbol =>
    obtain ⟨rfl, rfl⟩ := Prod.mk.inj (Except.ok.inj found)
    obtain rfl := char_of_ofChar? isSymbol
    exact .symbol noComment
  split at found
  · next quote =>
    obtain ⟨rfl, rfl⟩ := Prod.mk.inj (Except.ok.inj found)
    rw [quote]
    exact .text rest
  split at found
  · next digit =>
    simp only at found
    split at found
    · next value read =>
      obtain ⟨rfl, rfl⟩ := Prod.mk.inj (Except.ok.inj found)
      exact .number digit read
    · contradiction
  simp only at found
  split at found
  · next colon =>
    obtain ⟨rfl, rfl⟩ := Prod.mk.inj (Except.ok.inj found)
    rw [colon.1]
    exact .field colon.2
  split at found
  · next starts =>
    obtain ⟨rfl, rfl⟩ := Prod.mk.inj (Except.ok.inj found)
    exact .word starts rest
  · contradiction

/-! ### Tokens -/

/-- Behind the characters that are taken stand those that are not. -/
theorem drop_length_takeWhile (p : Char → Bool) (cs : List Char) :
    cs.drop (cs.takeWhile p).length = cs.dropWhile p := by
  induction cs with
  | nil => rfl
  | cons c cs inductionHypothesis =>
    by_cases taken : p c = true
    · simp [taken, inductionHypothesis]
    · simp [taken]

def Lexeme.isComment : Lexeme → Bool
  | comment _ => true
  | _ => false

/-- Whether the characters behind a token end its line. A carriage return does not by itself. -/
def AtLineEnd (cs : List Char) : Prop := cs = [] ∨ ∃ rest, cs = '\n' :: rest

theorem atLineEnd_comment (rest : List Char) :
    AtLineEnd (rest.drop (rest.takeWhile (· != '\n')).length) := by
  rw [drop_length_takeWhile]
  cases shape : rest.dropWhile (· != '\n') with
  | nil => exact .inl rfl
  | cons d tail =>
    have stops := List.head?_dropWhile_not (· != '\n') rest
    rw [shape] at stops
    exact .inr ⟨tail, by simpa using stops⟩

/-- A lexeme that a scanner gives is clean, and a comment goes on to the end of its line. -/
theorem clean_lexemeAt {c : Char} {rest : List Char} {lexeme : Lexeme} {more : Nat}
    (found : lexemeAt c rest = .ok (lexeme, more)) :
    lexeme.Clean ∧ (lexeme.isComment = true → AtLineEnd (rest.drop more)) := by
  cases LexemeAt.of_lexemeAt found with
  | returnFeed | feed | symbol | text | number =>
    exact ⟨trivial, fun comment => by contradiction⟩
  | comment rest => exact ⟨trivial, fun _ => atLineEnd_comment rest⟩
  | field =>
    exact ⟨clean_field fun d member => continuesName_of_mem_takeWhile member,
      fun comment => by contradiction⟩
  | word starts =>
    refine ⟨clean_wordLexeme starts fun d member => continuesName_of_mem_takeWhile member, ?_⟩
    intro comment
    unfold wordLexeme at comment
    split at comment <;> contradiction

/-- Whether tokens are such as a scanner gives: names are clean, and behind a comment the line
ends. More is true of them, but no more is needed to read them. -/
def Scanned : List Token → Prop
  | [] => True
  | t :: rest =>
    t.lexeme.Clean ∧ (t.lexeme.isComment = true → (Grammar.front rest).lexeme.endsLine = true) ∧
      Scanned rest

/-- What is left of scanned tokens is such as a scanner gives. The line that a comment ends is
ended in what is left. -/
theorem Scanned.of_append {used rest : List Token} (scanned : Scanned (used ++ rest)) :
    Scanned rest := by
  induction used with
  | nil => exact scanned
  | cons t used inductionHypothesis => exact inductionHypothesis scanned.2.2

/-- Behind the first of scanned tokens the others are such as a scanner gives. -/
theorem Scanned.drop_one {ts : List Token} (scanned : Scanned ts) : Scanned (ts.drop 1) := by
  cases ts with
  | nil => trivial
  | cons t rest => exact scanned.2.2

theorem Scanned.endsLine_of_comment {ts : List Token} {text : String} (scanned : Scanned ts)
    (found : (Grammar.front ts).lexeme = .comment text) :
    (Grammar.front (ts.drop 1)).lexeme.endsLine = true := by
  cases ts with
  | nil => rfl
  | cons t rest =>
    have isComment : t.lexeme = .comment text := found
    exact scanned.2.1 (by rw [isComment]; rfl)

theorem Scanned.clean {ts : List Token} (scanned : Scanned ts) :
    (Grammar.front ts).lexeme.Clean := by
  cases ts with
  | nil => trivial
  | cons t rest => exact scanned.1

/-- The tokens of a text are such as a scanner gives. At the end of a line comes the token
of that end.

Proof: induction over the scan. A comment takes all characters of its line, so behind
it only the end of the line is left. -/
theorem scanned_scanFrom {file : String} {p : Position} {cs : List Char} {tokens : List Token}
    (found : scanFrom file p cs = .ok tokens) :
    Scanned tokens ∧ (AtLineEnd cs → (Grammar.front tokens).lexeme.endsLine = true) := by
  induction length : cs.length using Nat.strongRecOn generalizing p cs tokens with
  | ind n inductionHypothesis =>
    subst length
    unfold scanFrom at found
    split at found
    · obtain rfl := Except.ok.inj found
      exact ⟨⟨trivial, fun comment => by contradiction, trivial⟩, fun _ => rfl⟩
    · next c rest =>
      split at found
      · next gap =>
        constructor
        · exact (inductionHypothesis _ (by simp) found rfl).1
        · rintro (empty | ⟨tail, shape⟩)
          · contradiction
          · obtain ⟨rfl, -⟩ := List.cons.inj shape
            contradiction
      · split at found
        · contradiction
        · next lexeme more here =>
          split at found
          · next tokens later =>
            obtain rfl := Except.ok.inj found
            obtain ⟨clean, comment⟩ := clean_lexemeAt here
            have shorter : (rest.drop more).length < (c :: rest).length := by
              rw [List.length_drop, List.length_cons]
              omega
            obtain ⟨scanned, atEnd⟩ := inductionHypothesis _ shorter later rfl
            constructor
            · exact ⟨clean, fun isComment => atEnd (comment isComment), scanned⟩
            · rintro (empty | ⟨tail, shape⟩)
              · contradiction
              · obtain ⟨rfl, -⟩ := List.cons.inj shape
                rw [lexemeAt_feed] at here
                obtain ⟨rfl, -⟩ := Prod.mk.inj (Except.ok.inj here)
                rfl
          · contradiction

theorem scanned_scan {file text : String} {tokens : List Token}
    (found : scan file text = .ok tokens) : Scanned tokens := (scanned_scanFrom found).1

end YololChip
