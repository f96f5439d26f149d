import YololChip.Proofs.Lexemes
import YololChip.Proofs.NumeralGrammar

/-!
# What tokens cover

The tokens of a text cover it from its first character to its last. Each stands for characters of
its own, and takes as many as it can; one comes behind the other, and between them are blanks and
tabs and nothing else. Where a token is, is counted in the characters before it: the line feeds, and
what follows the last of them. So a symbol is beside the next token just if no character is between
them.

A text is refused at the first character behind its tokens and blanks at which no token can start.
It breaks off, and gives neither tokens nor an error, where behind its tokens and blanks stands a
numeral with more digits before its point than are read.
-/

namespace YololChip

/-! ### Places -/

namespace Position

/-- The position behind the characters that a text begins with: one line more than there are line
feeds in them, and one column more than there are characters behind the last of these. -/
def behind (before : List Char) : Position :=
  ⟨1 + before.count '\n', 1 + (before.reverse.takeWhile (· != '\n')).length⟩

theorem behind_concat (before : List Char) (c : Char) :
    behind (before ++ [c]) = (behind before).next c := by
  rw [behind, List.count_append, List.reverse_append, List.reverse_singleton,
    List.singleton_append, next]
  by_cases feed : c = '\n'
  · simp [feed, behind, Nat.add_assoc]
  · simp [feed, behind, Nat.add_comm]

/-- More characters move the position on, one after the other. So it can be counted piece by
piece. -/
theorem behind_append (before cs : List Char) :
    behind (before ++ cs) = (behind before).after cs := by
  induction cs generalizing before with
  | nil => rw [List.append_nil]; rfl
  | cons c rest inductionHypothesis =>
    rw [← List.singleton_append, ← List.append_assoc, inductionHypothesis, behind_concat]
    rfl

end Position

/-! ### Pieces -/

/-- A token with the characters that it stands for, and those between it and what comes before.
Nothing here says that the token is one of these characters; `Fits` does. -/
structure Piece where
  gap : List Char
  span : List Char
  token : Token

namespace Piece

def chars (p : Piece) : List Char := p.gap ++ p.span

/-- The characters of pieces in a row. Blanks behind the last piece belong to none of them. -/
def charsOf (pieces : List Piece) : List Char := pieces.flatMap chars

@[simp] theorem charsOf_cons (p : Piece) (rest : List Piece) :
    charsOf (p :: rest) = p.chars ++ charsOf rest :=
  List.flatMap_cons

/-- Whether a piece is one of a text, between characters before it and others behind it. Its token
stands for characters of its own, and for as many as it can; only blanks and tabs are before them;
and the token is numbered with their place. Line feeds are in the ends of lines, one in each. -/
structure Fits (before : List Char) (p : Piece) (behind : List Char) : Prop where
  gap : ∀ c ∈ p.gap, isGap c = true
  nonempty : p.span ≠ []
  stands : Stands p.span p.token.lexeme
  longest : ∀ span lexeme, Stands span lexeme → span <+: p.span ++ behind →
    span.length ≤ p.span.length
  place : (⟨p.token.line, p.token.column⟩ : Position) = .behind (before ++ p.gap)
  feeds : p.span.count '\n' = if p.token.lexeme = .newline then 1 else 0

/-- Whether pieces cover characters, up to what is left of them: they are these, one behind the
other, and each fits where it is. No character is in two pieces, and none is passed over. -/
structure Tile (before cs : List Char) (pieces : List Piece) (left : List Char) : Prop where
  text : cs = charsOf pieces ++ left
  each : ∀ first p rest, pieces = first ++ p :: rest →
    p.Fits (before ++ charsOf first) (charsOf rest ++ left)

variable {before cs left : List Char} {p : Piece} {pieces : List Piece}

theorem Tile.nil (before left : List Char) : Tile before left [] left where
  text := rfl
  each first p rest split := by
    have empty := congrArg List.length split
    simp at empty

/-- A piece that fits covers more characters, in front of others. -/
theorem Tile.cons (fits : p.Fits before cs) (tile : Tile (before ++ p.chars) cs pieces left) :
    Tile before (p.chars ++ cs) (p :: pieces) left where
  text := by rw [tile.text, charsOf_cons, List.append_assoc]
  each first q rest split := by
    cases first with
    | nil =>
      obtain ⟨rfl, rfl⟩ := List.cons.inj split
      rw [← tile.text]
      simpa [charsOf] using fits
    | cons r first =>
      obtain ⟨rfl, rfl⟩ := List.cons.inj split
      rw [charsOf_cons, ← List.append_assoc]
      exact tile.each first q rest rfl

theorem Tile.head (tile : Tile before cs (p :: pieces) left) :
    p.Fits before (charsOf pieces ++ left) := by
  simpa [charsOf] using tile.each [] p pieces rfl

theorem Tile.tail (tile : Tile before cs (p :: pieces) left) :
    Tile (before ++ p.chars) (charsOf pieces ++ left) pieces left where
  text := rfl
  each first q rest split := by
    have fits := tile.each (p :: first) q rest (congrArg (p :: ·) split)
    rwa [charsOf_cons, ← List.append_assoc] at fits

theorem gap_nil : ∀ c ∈ ([] : List Char), isGap c = true :=
  fun _ member => absurd member List.not_mem_nil

theorem noFeed_of_gap {gap : List Char} (blank : ∀ c ∈ gap, isGap c = true) : '\n' ∉ gap := by
  intro member
  have isGap := blank '\n' member
  contradiction

/-- There is one end of a line for each line feed.

Proof: induction over the pieces. -/
theorem Tile.count_newline (tile : Tile before cs pieces left) (blank : '\n' ∉ left) :
    pieces.countP (·.token.lexeme = .newline) = cs.count '\n' := by
  induction pieces generalizing before cs with
  | nil =>
    rw [tile.text]
    exact (List.count_eq_zero.mpr blank).symm
  | cons p rest inductionHypothesis =>
    have none : p.gap.count '\n' = 0 := List.count_eq_zero.mpr (noFeed_of_gap tile.head.gap)
    rw [tile.text, charsOf_cons, List.append_assoc, List.count_append, chars, List.count_append,
      none, tile.head.feeds, List.countP_cons, inductionHypothesis tile.tail]
    simp [Nat.add_comm]

end Piece

/-! ### Scanning -/

open Piece

/-- Whether tokens cover characters that stand behind others: they are those of pieces that cover
them, and one for the end of the text behind the last blanks. -/
structure Covered (before cs : List Char) (pieces : List Piece) (last : Piece) : Prop where
  tile : Tile before cs pieces last.gap
  blank : ∀ c ∈ last.gap, isGap c = true
  span : last.span = []
  finish : last.token.lexeme = .finish
  place : (⟨last.token.line, last.token.column⟩ : Position) = .behind (before ++ cs)

/-- Whether characters that stand behind others are refused: behind pieces that cover what is in
front, and behind blanks, is a character that is no blank and that begins nothing that stands for a
lexeme. It is the one that is reported, with its place. -/
structure Refused (file : String) (before cs : List Char) (pieces : List Piece) (gap : List Char)
    (rest : List Char) (error : ScanError) : Prop where
  tile : Tile before cs pieces (gap ++ error.character :: rest)
  blank : ∀ c ∈ gap, isGap c = true
  noGap : isGap error.character = false
  noToken : ∀ span lexeme, Stands span lexeme → ¬ span <+: error.character :: rest
  file : error.file = file
  place : (⟨error.line, error.column⟩ : Position) = .behind (before ++ charsOf pieces ++ gap)

/-- Whether scanning breaks off at characters that stand behind others: behind pieces that cover
what is in front, and behind blanks, is a numeral that has so many digits before its point, and
they are too many. It is all of the digits and points that are there. -/
structure BreaksOff (before cs : List Char) (pieces : List Piece) (gap : List Char) (n : Numeral)
    (rest : List Char) (digits : Nat) : Prop where
  tile : Tile before cs pieces (gap ++ (n.whole ++ n.tail ++ rest))
  blank : ∀ c ∈ gap, isGap c = true
  unsigned : n.negative = false
  count : n.whole.length = digits
  many : mostDigits < digits
  ends : ∀ d ∈ rest.head?, continuesNumber d = false

/-- What becomes of characters that stand behind others: tokens cover them, or they are refused, or
scanning breaks off at them. -/
def CoveredBy (file : String) (before cs : List Char) :
    Except (ReadFault ScanError) (List Token) → Prop
  | .ok tokens => ∃ pieces last, tokens = (pieces ++ [last]).map Piece.token ∧
      Covered before cs pieces last
  | .error (.refused error) => ∃ pieces gap rest, Refused file before cs pieces gap rest error
  | .error (.overlong digits) => ∃ pieces gap n rest, BreaksOff before cs pieces gap n rest digits

section

variable {file : String} {before gap rest : List Char} {c : Char}

/-- What is scanned at a character is a piece, behind the blanks that are before it. -/
theorem Piece.fits_of_lexemeAt (blank : ∀ c ∈ gap, isGap c = true) {lexeme : Lexeme} {more : Nat}
    (here : lexemeAt c rest = .ok (lexeme, more)) {p : Position}
    (place : p = .behind (before ++ gap)) :
    Fits before ⟨gap, c :: rest.take more, ⟨lexeme, p.line, p.column⟩⟩ (rest.drop more) where
  gap := blank
  nonempty := List.cons_ne_nil _ _
  stands := stands_lexemeAt here
  longest span other stands front := by
    rw [List.cons_append, List.take_append_drop] at front
    have within := (lexemeAt_of_stands stands front).2 lexeme more here
    rwa [List.length_cons, List.length_take_of_le (spans_lexemeAt here).within]
  place := place
  feeds := (stands_lexemeAt here).count_newline

/-- A piece in front of what tokens cover is covered with it. The last token keeps its place,
which is counted in all of the text. -/
theorem Covered.cons {cs : List Char} {p last : Piece} {pieces : List Piece}
    (fits : p.Fits before cs) (covered : Covered (before ++ p.chars) cs pieces last) :
    Covered before (p.chars ++ cs) (p :: pieces) last where
  tile := .cons fits covered.tile
  blank := covered.blank
  span := covered.span
  finish := covered.finish
  place := by rw [covered.place, List.append_assoc]

/-- A piece in front of what is refused has no part in that. -/
theorem Refused.cons {cs : List Char} {p : Piece} {pieces : List Piece} {error : ScanError}
    (fits : p.Fits before cs)
    (refused : Refused file (before ++ p.chars) cs pieces gap rest error) :
    Refused file before (p.chars ++ cs) (p :: pieces) gap rest error where
  tile := .cons fits refused.tile
  blank := refused.blank
  noGap := refused.noGap
  noToken := refused.noToken
  file := refused.file
  place := by rw [refused.place, charsOf_cons, ← List.append_assoc]

theorem BreaksOff.cons {cs : List Char} {p : Piece} {pieces : List Piece} {n : Numeral}
    {digits : Nat} (fits : p.Fits before cs)
    (broken : BreaksOff (before ++ p.chars) cs pieces gap n rest digits) :
    BreaksOff before (p.chars ++ cs) (p :: pieces) gap n rest digits where
  tile := .cons fits broken.tile
  blank := broken.blank
  unsigned := broken.unsigned
  count := broken.count
  many := broken.many
  ends := broken.ends

/-- Where scanning breaks off, the row of digits and points there is a numeral that is too long. -/
theorem breaksOff_of_lexemeAt (blank : ∀ c ∈ gap, isGap c = true) {digits : Nat}
    (here : lexemeAt c rest = .error (.overlong digits)) :
    ∃ n behind, BreaksOff before (gap ++ c :: rest) [] gap n behind digits := by
  obtain ⟨digit, longer⟩ := digits_of_lexemeAt here
  rcases Fixed.ofLiteral_or_long (rest.takeWhile continuesNumber) digit with
    ⟨value, found⟩ | ⟨n, unsigned, chars, many, counted⟩
  · cases longer.symm.trans found
  · obtain rfl := Except.error.inj (longer.symm.trans counted)
    have whole : n.whole ++ n.tail ++ rest.dropWhile continuesNumber = c :: rest := by
      rw [chars, List.cons_append, List.takeWhile_append_dropWhile]
    refine ⟨n, rest.dropWhile continuesNumber, ?_, blank, unsigned, rfl, many, ?_⟩
    · rw [whole]
      exact .nil before _
    · intro d member
      have stops := List.head?_dropWhile_not continuesNumber rest
      rw [Option.mem_def.mp member] at stops
      exact stops

/-- Characters are covered by the tokens that are scanned of them, or they are refused, or scanning
breaks off at them.

Proof: induction over the scan. The blanks before the next token are kept until it is found. -/
theorem coveredBy_scanFrom (file : String) {before gap : List Char}
    (blank : ∀ c ∈ gap, isGap c = true) {p : Position} (place : p = .behind (before ++ gap))
    (cs : List Char) : CoveredBy file before (gap ++ cs) (scanFrom file p cs) := by
  have split {gap rest : List Char} {c : Char} {more : Nat} :
      gap ++ c :: rest = (gap ++ c :: rest.take more) ++ rest.drop more := by
    rw [List.append_assoc, List.cons_append, List.take_append_drop]
  have moved {before gap span : List Char} {p : Position} (place : p = .behind (before ++ gap)) :
      p.after span = .behind (before ++ (gap ++ span) ++ []) := by
    rw [List.append_nil, ← List.append_assoc, Position.behind_append, place]
  induction p, cs using scanFrom.induct file generalizing before gap with
  | case1 p =>
    rw [scanFrom, List.append_nil]
    exact ⟨[], ⟨gap, [], ⟨.finish, p.line, p.column⟩⟩, rfl, .nil before gap, blank, rfl, rfl, place⟩
  | case2 p c rest isBlank inductionHypothesis =>
    rw [scanFrom, if_pos isBlank, List.append_cons]
    apply inductionHypothesis
    · intro d member
      rcases List.mem_append.mp member with earlier | last
      · exact blank d earlier
      · rw [List.mem_singleton.mp last]
        exact isBlank
    · rw [← List.append_assoc, Position.behind_concat, place]
  | case3 p c rest noGap fault stopped =>
    rw [scanFrom, if_neg noGap, stopped]
    cases fault with
    | refused =>
      refine ⟨[], gap, rest, .nil before _, blank, Bool.eq_false_iff.mpr noGap, ?_, rfl, ?_⟩
      · intro span lexeme stands front
        exact (lexemeAt_of_stands stands front).1 stopped
      · rw [charsOf, List.flatMap_nil, List.append_nil]
        exact place
    | overlong digits =>
      obtain ⟨n, behind, broken⟩ := breaksOff_of_lexemeAt blank stopped
      exact ⟨[], gap, n, behind, broken⟩
  | case4 p c rest noGap lexeme more here others behind inductionHypothesis =>
    have follows := inductionHypothesis gap_nil (moved place)
    rw [scanFrom, if_neg noGap, here, split]
    simp only [behind] at follows ⊢
    obtain ⟨pieces, last, rfl, covered⟩ := follows
    exact ⟨_ :: pieces, last, rfl, .cons (Piece.fits_of_lexemeAt blank here place) covered⟩
  | case5 p c rest noGap lexeme more here fault behind inductionHypothesis =>
    have follows := inductionHypothesis gap_nil (moved place)
    have fits := Piece.fits_of_lexemeAt blank here place
    rw [scanFrom, if_neg noGap, here, split]
    simp only [behind] at follows ⊢
    cases fault with
    | refused error =>
      obtain ⟨pieces, left, others, refused⟩ := follows
      exact ⟨_ :: pieces, left, others, .cons fits refused⟩
    | overlong digits =>
      obtain ⟨pieces, left, n, others, broken⟩ := follows
      exact ⟨_ :: pieces, left, n, others, .cons fits broken⟩

end

/-! ### Tokens beside each other -/

section

variable {before cs : List Char} {pieces first rest : List Piece} {p q last : Piece}

theorem Covered.fits_of_split (covered : Covered before cs pieces last)
    (split : pieces ++ [last] = first ++ p :: q :: rest) :
    ∃ behind, p.Fits (before ++ charsOf first) behind := by
  obtain ⟨init, x, shape⟩ : ∃ init x, q :: rest = init ++ [x] :=
    ⟨_, _, (List.dropLast_concat_getLast (List.cons_ne_nil q rest)).symm⟩
  rw [shape, ← List.cons_append, ← List.append_assoc] at split
  obtain ⟨parts, -⟩ := List.append_inj' split rfl
  exact ⟨_, covered.tile.each first p init parts⟩

/-- Every token is numbered with the place behind what comes before it, the last one too. -/
theorem Covered.place_of_split (covered : Covered before cs pieces last)
    (split : pieces ++ [last] = first ++ q :: rest) :
    (⟨q.token.line, q.token.column⟩ : Position) = .behind (before ++ charsOf first ++ q.gap) ∧
      ∀ c ∈ q.gap, isGap c = true := by
  cases rest with
  | nil =>
    obtain ⟨rfl, isLast⟩ := List.append_inj' split rfl
    obtain rfl := List.singleton_inj.mp isLast
    rw [List.append_assoc, ← covered.tile.text]
    exact ⟨covered.place, covered.blank⟩
  | cons r rest =>
    obtain ⟨behind, fits⟩ := covered.fits_of_split split
    exact ⟨fits.place, fits.gap⟩

/-- A symbol is beside the next token just if nothing is between them.

Proof: a symbol is one character, and neither it nor a blank ends a line. So the next token is in
the same line, one column behind the symbol and as many more as there are blanks. -/
theorem Covered.isBeside_iff (covered : Covered before cs pieces last)
    (split : pieces ++ [last] = first ++ p :: q :: rest) {s : Symbol}
    (isSymbol : p.token.lexeme = .symbol s) :
    p.token.isBeside q.token = true ↔ q.gap = [] := by
  obtain ⟨behind, fits⟩ := covered.fits_of_split split
  have one : p.span = [s.char] := (isSymbol ▸ fits.stands).eq_of_symbol
  have splitToo : pieces ++ [last] = (first ++ [p]) ++ q :: rest := by
    rw [split, List.append_assoc, List.singleton_append]
  obtain ⟨place, blank⟩ := covered.place_of_split splitToo
  have oneLine : ∀ c ∈ s.char :: q.gap, c ≠ '\n' := by
    intro c member
    rcases List.mem_cons.mp member with rfl | inGap
    · cases s <;> decide
    · rintro rfl
      exact noFeed_of_gap blank inGap
  have shape : before ++ charsOf (first ++ [p]) ++ q.gap =
      before ++ charsOf first ++ p.gap ++ s.char :: q.gap := by
    simp [charsOf, chars, one]
  rw [shape, Position.behind_append, ← fits.place, Position.after_of_oneLine _ oneLine] at place
  obtain ⟨line, column⟩ := Position.mk.inj place
  rw [Token.isBeside, line, column, List.length_cons, ← List.length_eq_zero_iff]
  simp

end

/-- Whether symbols are beside the tokens that nothing parts them from, and beside no others. It
is asked of symbols only, because only they are taken as pairs. -/
def GapsShow (pieces : List Piece) : Prop :=
  ∀ first p q rest s, pieces = first ++ p :: q :: rest → p.token.lexeme = .symbol s →
    (p.token.isBeside q.token = true ↔ q.gap = [])

/-- The tokens of a text cover it exactly. Either a text has tokens: then each but the last stands
for characters of its own, and for as many as it can; they come in order, with blanks and tabs
between them and nothing else, and each is numbered with the line and the column that its first
character is at; the last is the end of the text; there is one end of a line for each line feed, and
a symbol is beside the next token just if nothing is between them. Or the text is refused at the
first character, behind its tokens and blanks, that is no blank and begins no token; that character
is reported, with its place.

Or else scanning breaks off, and nothing is reported of the text: behind its tokens and blanks
stands a numeral with more digits before its point than are read of a whole number.

Proof: induction over the scan. -/
theorem scan_covers (file text : String) :
    (∃ pieces last, scan file text = .ok ((pieces ++ [last]).map Piece.token) ∧
      Covered [] text.toList pieces last ∧ GapsShow (pieces ++ [last]) ∧
      pieces.countP (·.token.lexeme = .newline) = text.toList.count '\n') ∨
    (∃ pieces gap rest error, scan file text = .error (.refused error) ∧
      Refused file [] text.toList pieces gap rest error) ∨
    ∃ pieces gap n rest digits, scan file text = .error (.overlong digits) ∧
      BreaksOff [] text.toList pieces gap n rest digits := by
  have coveredBy : CoveredBy file [] text.toList (scan file text) :=
    coveredBy_scanFrom file gap_nil rfl text.toList
  rcases scanned : scan file text with (error | digits) | tokens
  · rw [scanned] at coveredBy
    obtain ⟨pieces, gap, rest, refused⟩ := coveredBy
    exact .inr (.inl ⟨pieces, gap, rest, error, rfl, refused⟩)
  · rw [scanned] at coveredBy
    obtain ⟨pieces, gap, n, rest, broken⟩ := coveredBy
    exact .inr (.inr ⟨pieces, gap, n, rest, digits, rfl, broken⟩)
  · rw [scanned] at coveredBy
    obtain ⟨pieces, last, rfl, covered⟩ := coveredBy
    refine .inl ⟨pieces, last, rfl, covered, ?_, ?_⟩
    · intro first p q rest s split isSymbol
      exact covered.isBeside_iff split isSymbol
    · exact covered.tile.count_newline (noFeed_of_gap covered.blank)

/-- A text of one digit more than are read has no tokens, and no character of it is refused. -/
theorem scan_neither_long :
    ¬ ∀ file text : String, (∃ tokens, scan file text = .ok tokens) ∨
      ∃ error, scan file text = .error (.refused error) := by
  intro either
  have broken := scan_ones "" (Nat.lt_add_one mostDigits)
  rcases either "" (ones (mostDigits + 1)) with ⟨tokens, scanned⟩ | ⟨error, refused⟩
  · cases broken.symm.trans scanned
  · cases broken.symm.trans refused

end YololChip
