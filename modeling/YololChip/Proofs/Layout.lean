import YololChip.Proofs.Lexemes
import YololChip.Proofs.Lookahead

/-!
# Letter case and layout

Letter case counts in texts and comments only, and so does how many blanks and tabs there are. Two
texts may differ in these outside of texts and comments; but where there are blanks in one there are
some in the other, unless the text begins or ends there. They are then scanned with the same marks:
the same lexemes, and the same symbols side by side; or both are refused at the same character.
-/

namespace YololChip

/-! ### Texts that are laid out differently -/

/-- What part of a text a character is in. Only in code do letter case and layout not count. -/
inductive Region where
  | code
  | quoted
  | comment

/-- The part that a character leads to, before what stands behind it. A quote begins a text and
ends it, and so does the end of the line; two slashes begin a comment that the line ends. A
carriage return ends a text also where no line feed follows, but no comment. -/
def Region.next (r : Region) (c : Char) (behind : Option Char) : Region :=
  match r with
  | code => if c = '"' then quoted else if c = '/' ∧ behind = some '/' then comment else code
  | quoted => if c = '"' ∨ c = '\n' ∨ c = '\r' then code else quoted
  | comment => if c = '\n' then code else comment

/-- Whether two characters are one letter from a to z, in whatever case. Letters beyond these
are one only if they are the same character. -/
def SameLetter (c d : Char) : Prop :=
  c.isAlpha = true ∧ d.isAlpha = true ∧ c.toLower = d.toLower

instance (c d : Char) : Decidable (SameLetter c d) :=
  inferInstanceAs (Decidable (_ ∧ _ ∧ _))

/-- Whether characters are the same but for letter case and layout, from a part of a text on.
Outside of texts and comments letters may differ in case, and some blanks and tabs may stand in
for others, or also for none at the end. Inside a line some blank has to stay where one was,
because it may be what parts two tokens. -/
inductive Relaid : Region → List Char → List Char → Prop where
  | done (r : Region) : Relaid r [] []
  | same (r : Region) (c : Char) {cs ds : List Char}
      (behind : Relaid (r.next c cs.head?) cs ds) : Relaid r (c :: cs) (c :: ds)
  | letter {c d : Char} (sameLetter : SameLetter c d) {cs ds : List Char}
      (behind : Relaid .code cs ds) : Relaid .code (c :: cs) (d :: ds)
  | run {b b' : Char} {gap gap' : List Char} (blank : ∀ c ∈ b :: gap, isGap c = true)
      (blank' : ∀ c ∈ b' :: gap', isGap c = true) {cs ds : List Char}
      (behind : Relaid .code cs ds) : Relaid .code (b :: (gap ++ cs)) (b' :: (gap' ++ ds))
  | last {gap gap' : List Char} (blank : ∀ c ∈ gap, isGap c = true)
      (blank' : ∀ c ∈ gap', isGap c = true) : Relaid .code gap gap'

/-- Whether two texts are the same but for letter case and layout. Some blanks and tabs, or
none, may also stand in for others at their beginnings. The ends of lines count, also how they
are written. -/
def SameLayout (text other : String) : Prop :=
  ∃ gap gap' cs ds, text.toList = gap ++ cs ∧ other.toList = gap' ++ ds ∧
    (∀ c ∈ gap, isGap c = true) ∧ (∀ c ∈ gap', isGap c = true) ∧ Relaid .code cs ds

theorem Relaid.refl (r : Region) (cs : List Char) : Relaid r cs cs := by
  induction cs generalizing r with
  | nil => exact .done r
  | cons c cs inductionHypothesis => exact .same r c (inductionHypothesis _)

theorem SameLayout.refl (text : String) : SameLayout text text :=
  ⟨[], [], text.toList, text.toList, rfl, rfl, by simp, by simp, .refl .code _⟩

/-! ### Characters -/

theorem SameLetter.plain {c d : Char} (same : SameLetter c d) :
    startsName c = true ∧ startsName d = true := by
  simp [startsName, same.1, same.2.1]

/-- A character is no blank, and neither quote nor slash, if it has what none of these has. -/
theorem apart_of_holds {p : Char → Bool} {c : Char} (holds : p c = true)
    (others : [' ', '\t', '"', '/'].all (fun d => !p d) = true) :
    isGap c = false ∧ c ≠ '"' ∧ c ≠ '/' := by
  have differs : ∀ d ∈ [' ', '\t', '"', '/'], c ≠ d := by
    rintro d member rfl
    have none := List.all_eq_true.mp others c member
    simp [holds] at none
  refine ⟨?_, differs '"' (by simp), differs '/' (by simp)⟩
  simp [isGap, differs ' ' (by simp), differs '\t' (by simp)]

/-- Whether characters that something holds of are of one lexeme outside of texts, whatever the
case of letters is. It is what makes a run of such characters end at the same place in both
texts. -/
structure Caseless (p : Char → Bool) : Prop where
  outside : ∀ c, p c = true → isGap c = false ∧ c ≠ '"' ∧ c ≠ '/'
  letters : ∀ c d, SameLetter c d → p d = p c

theorem caseless_startsName : Caseless startsName where
  outside _ starts := apart_of_holds starts (by decide)
  letters c d same := by rw [same.plain.1, same.plain.2]

theorem caseless_continuesName : Caseless continuesName where
  outside _ continues := apart_of_holds continues (by decide)
  letters c d same := by
    simp [continuesName_of_startsName same.plain.1, continuesName_of_startsName same.plain.2]

theorem caseless_continuesNumber : Caseless continuesNumber where
  outside _ continues := apart_of_holds continues (by decide)
  letters c d same := by
    have noNumber {c : Char} (starts : startsName c = true) : continuesNumber c = false := by
      have noDigit := (startsName_only starts).2.2.2.2.2.1
      have noPoint : c ≠ '.' := by
        rintro rfl
        contradiction
      simp [continuesNumber, noDigit, noPoint]
    rw [noNumber same.plain.1, noNumber same.plain.2]

theorem not_isAlpha_of_isDigit {c : Char} (digit : c.isDigit = true) : c.isAlpha = false := by
  rw [Bool.eq_false_iff]
  intro isAlpha
  have starts : startsName c = true := by simp [startsName, isAlpha]
  rw [(startsName_only starts).2.2.2.2.2.1] at digit
  contradiction

theorem toLower_of_continuesNumber {c : Char} (number : continuesNumber c = true) :
    c.toLower = c := by
  simp only [continuesNumber, Bool.or_eq_true, decide_eq_true_eq] at number
  rcases number with digit | rfl
  · have noLetter : (c.isUpper || c.isLower) = false := not_isAlpha_of_isDigit digit
    have noUpper : c.isUpper = false := (Bool.or_eq_false_iff.mp noLetter).1
    apply toLower_of_isNameChar
    simp [isNameChar, continuesName, Char.isAlphanum, digit, noUpper]
  · rfl

/-- Numbers have no letters: one that is the same but for their case is the same. -/
theorem eq_of_map_toLower {cs ds : List Char} (numbers : ∀ c ∈ cs, continuesNumber c = true)
    (numbersToo : ∀ c ∈ ds, continuesNumber c = true)
    (same : ds.map Char.toLower = cs.map Char.toLower) : ds = cs := by
  have kept {cs : List Char} (numbers : ∀ c ∈ cs, continuesNumber c = true) :
      cs.map Char.toLower = cs := by
    rw [List.map_congr_left fun c member => toLower_of_continuesNumber (numbers c member),
      List.map_id']
  rw [← kept numbers, ← kept numbersToo, same]

/-- What stands behind the characters that are taken is not taken. So the next lexeme begins
where it should. -/
theorem stops_drop {p : Char → Bool} {cs : List Char} :
    ∀ c ∈ (cs.drop (cs.takeWhile p).length).head?, p c = false := by
  intro c isFirst
  have stops := List.head?_dropWhile_not p cs
  rwa [← drop_length_takeWhile, isFirst] at stops

/-- A character that is neither quote nor slash leads nowhere else. -/
theorem Region.next_code {c : Char} (noQuote : c ≠ '"') (noSlash : c ≠ '/') (behind : Option Char) :
    Region.code.next c behind = .code := by
  simp [Region.next, noQuote, noSlash]

/-! ### What goes together -/

namespace Relaid

variable {r : Region} {c : Char} {cs ds : List Char}

/-- A character that is neither blank nor letter is in front of both or of none. Only blanks can
be on one side and not on the other. -/
theorem head?_iff (relaid : Relaid r cs ds) (noGap : isGap c = false)
    (noLetter : c.isAlpha = false) : cs.head? = some c ↔ ds.head? = some c := by
  have blankFirst {b : Char} {gap : List Char} (blank : ∀ c ∈ b :: gap, isGap c = true) :
      b ≠ c := by
    rintro rfl
    rw [blank b List.mem_cons_self] at noGap
    contradiction
  have blankOnly {gap : List Char} (blank : ∀ c ∈ gap, isGap c = true) :
      gap.head? ≠ some c := by
    intro isFirst
    obtain ⟨tail, rfl⟩ := List.head?_eq_some_iff.mp isFirst
    exact blankFirst blank rfl
  cases relaid with
  | done | same => rfl
  | letter sameLetter =>
    have first : ∀ {d : Char}, d.isAlpha = true → d ≠ c := by
      rintro d isAlpha rfl
      rw [isAlpha] at noLetter
      contradiction
    simp [first sameLetter.1, first sameLetter.2.1]
  | run blank blank' => simp [blankFirst blank, blankFirst blank']
  | last blank blank' => simp [blankOnly blank, blankOnly blank']

theorem next_eq {s : Region} (relaid : Relaid s cs ds) (r : Region) (c : Char) :
    r.next c cs.head? = r.next c ds.head? := by
  have slash := relaid.head?_iff (c := '/') (by decide) (by decide)
  simp only [Region.next, slash]

theorem symm (relaid : Relaid r cs ds) : Relaid r ds cs := by
  induction relaid with
  | done r => exact .done r
  | same r c behind inductionHypothesis =>
    rw [behind.next_eq] at inductionHypothesis
    exact .same r c inductionHypothesis
  | letter sameLetter _ inductionHypothesis =>
    exact .letter ⟨sameLetter.2.1, sameLetter.1, sameLetter.2.2.symm⟩ inductionHypothesis
  | run blank blank' _ inductionHypothesis => exact .run blank' blank inductionHypothesis
  | last blank blank' => exact .last blank' blank

theorem verbatim (relaid : Relaid r (c :: cs) ds) (inside : r ≠ .code) :
    ∃ tail, ds = c :: tail ∧ Relaid (r.next c cs.head?) cs tail := by
  cases relaid with
  | same _ _ behind => exact ⟨_, rfl, behind⟩
  | letter | run | last => exact absurd rfl inside

/-- A character that is no blank goes together with itself, or with another case of the letter. -/
theorem front (relaid : Relaid .code (c :: cs) ds) (noGap : isGap c = false) :
    ∃ d tail, ds = d :: tail ∧
      (d = c ∧ Relaid (Region.code.next c cs.head?) cs tail ∨
        SameLetter c d ∧ Relaid .code cs tail) := by
  cases relaid with
  | same _ _ behind => exact ⟨c, _, rfl, .inl ⟨rfl, behind⟩⟩
  | letter sameLetter behind => exact ⟨_, _, rfl, .inr ⟨sameLetter, behind⟩⟩
  | run blank => simp [blank c List.mem_cons_self] at noGap
  | last blank => simp [blank c List.mem_cons_self] at noGap

/-- A character that is neither blank nor letter goes together with itself. -/
theorem front_same (relaid : Relaid .code (c :: cs) ds) (noGap : isGap c = false)
    (noLetter : c.isAlpha = false) :
    ∃ tail, ds = c :: tail ∧ Relaid (Region.code.next c cs.head?) cs tail := by
  obtain ⟨d, tail, rfl, ⟨rfl, behind⟩ | ⟨sameLetter, -⟩⟩ := relaid.front noGap
  · exact ⟨tail, rfl, behind⟩
  · rw [sameLetter.1] at noLetter
    contradiction

/-- In texts and comments the same characters are taken as long as something holds that does not
end the part. -/
theorem takeWhile_verbatim {p : Char → Bool} (stays : ∀ c behind, p c = true → r.next c behind = r)
    (inside : r ≠ .code) (relaid : Relaid r cs ds) :
    ds.takeWhile p = cs.takeWhile p ∧
      Relaid r (cs.drop (cs.takeWhile p).length) (ds.drop (cs.takeWhile p).length) := by
  induction cs generalizing ds with
  | nil =>
    cases relaid with
    | done => exact ⟨rfl, .done r⟩
    | last => exact absurd rfl inside
  | cons c cs inductionHypothesis =>
    obtain ⟨tail, rfl, behind⟩ := relaid.verbatim inside
    cases holds : p c with
    | true =>
      rw [stays c _ holds] at behind
      obtain ⟨same, rest⟩ := inductionHypothesis behind
      simp only [List.takeWhile_cons, holds, if_true, same, List.length_cons, List.drop_succ_cons]
      exact ⟨trivial, rest⟩
    | false =>
      simp only [List.takeWhile_cons, holds, Bool.false_eq_true, if_false, List.length_nil,
        List.drop_zero]
      exact ⟨trivial, .same r c behind⟩

variable {p : Char → Bool}

/-- A character that something holds of goes together with itself, or with another case of the
letter, and code is behind it. -/
theorem front_caseless (caseless : Caseless p) (relaid : Relaid .code (c :: cs) ds)
    (holds : p c = true) :
    ∃ d tail, ds = d :: tail ∧ p d = true ∧ d.toLower = c.toLower ∧ Relaid .code cs tail := by
  obtain ⟨noGap, noQuote, noSlash⟩ := caseless.outside c holds
  obtain ⟨d, tail, rfl, ⟨rfl, behind⟩ | ⟨sameLetter, behind⟩⟩ := relaid.front noGap
  · rw [Region.next_code noQuote noSlash] at behind
    exact ⟨d, tail, rfl, holds, rfl, behind⟩
  · exact ⟨d, tail, rfl, caseless.letters c d sameLetter ▸ holds, sameLetter.2.2.symm, behind⟩

/-- Where nothing is taken on one side, nothing is taken on the other. -/
theorem takeWhile_eq_nil (caseless : Caseless p) (relaid : Relaid .code cs ds)
    (nothing : cs.takeWhile p = []) : ds.takeWhile p = [] := by
  cases ds with
  | nil => rfl
  | cons d tail =>
    cases holds : p d with
    | false => simp [holds]
    | true =>
      obtain ⟨c, rest, rfl, holdsToo, -⟩ := relaid.symm.front_caseless caseless holds
      simp [holdsToo] at nothing

/-- Outside of texts and comments the same characters are taken but for the case of letters, as long
as something holds that does not depend on that.

Proof: induction over the characters of one side. -/
theorem takeWhile_code (caseless : Caseless p) (relaid : Relaid .code cs ds) :
    (ds.takeWhile p).map Char.toLower = (cs.takeWhile p).map Char.toLower ∧
      Relaid .code (cs.drop (cs.takeWhile p).length) (ds.drop (cs.takeWhile p).length) := by
  induction cs generalizing ds with
  | nil =>
    rw [takeWhile_eq_nil caseless relaid rfl]
    exact ⟨rfl, relaid⟩
  | cons c cs inductionHypothesis =>
    cases holds : p c with
    | false =>
      have nothing : (c :: cs).takeWhile p = [] := by simp [holds]
      rw [takeWhile_eq_nil caseless relaid nothing, nothing]
      exact ⟨rfl, relaid⟩
    | true =>
      obtain ⟨d, tail, rfl, holdsToo, lower, behind⟩ := relaid.front_caseless caseless holds
      obtain ⟨lowerRest, rest⟩ := inductionHypothesis behind
      simp only [List.takeWhile_cons, holds, holdsToo, if_true, List.map_cons, lower, lowerRest,
        List.length_cons, List.drop_succ_cons]
      exact ⟨trivial, rest⟩

/-- Behind a text or a comment that ends with its line, or with all that there is, is code. -/
theorem code_of_ends (relaid : Relaid r cs ds) (ends : ∀ c ∈ cs.head?, ∀ behind,
    r.next c behind = Region.code.next c behind) : Relaid .code cs ds := by
  cases relaid with
  | done => exact .done .code
  | same r c behind =>
    rw [ends c rfl] at behind
    exact .same .code c behind
  | letter sameLetter behind => exact .letter sameLetter behind
  | run blank blank' behind => exact .run blank blank' behind
  | last blank blank' => exact .last blank blank'

/-- A comment goes on as the same one, and code is behind it. Nothing in it may differ, not even
blanks. -/
theorem comment (relaid : Relaid .comment cs ds) :
    ds.takeWhile (· != '\n') = cs.takeWhile (· != '\n') ∧
      Relaid .code (cs.drop (cs.takeWhile (· != '\n')).length)
        (ds.drop (cs.takeWhile (· != '\n')).length) := by
  have stays : ∀ c behind, (c != '\n') = true → Region.comment.next c behind = .comment := by
    intro c behind noFeed
    simp [Region.next, bne_iff_ne.mp noFeed]
  obtain ⟨same, rest⟩ := relaid.takeWhile_verbatim stays (by simp)
  refine ⟨same, rest.code_of_ends ?_⟩
  intro c isFirst behind
  have feed := stops_drop c isFirst
  obtain rfl : c = '\n' := by simpa using feed
  simp [Region.next]

/-- A text goes on as the same one and is closed if the other is, and code is behind it. -/
theorem quoted (relaid : Relaid .quoted cs ds) {width closing : Nat}
    (taken : (cs.takeWhile continuesString).length = width)
    (closes : (if (cs.drop width).head? = some '"' then 1 else 0) = closing) :
    ds.takeWhile continuesString = cs.takeWhile continuesString ∧
      (if (ds.drop width).head? = some '"' then 1 else 0) = closing ∧
      Relaid .code (cs.drop (width + closing)) (ds.drop (width + closing)) := by
  have stays : ∀ c behind, continuesString c = true → Region.quoted.next c behind = .quoted := by
    intro c behind inside
    simp only [continuesString, Bool.and_eq_true, bne_iff_ne] at inside
    simp [Region.next, inside.1.1, inside.1.2, inside.2]
  obtain ⟨same, rest⟩ := relaid.takeWhile_verbatim stays (by simp)
  have stops : ∀ c ∈ (cs.drop (cs.takeWhile continuesString).length).head?,
      continuesString c = false := stops_drop
  rw [taken] at rest stops
  have heads := rest.head?_iff (c := '"') (by decide) (by decide)
  refine ⟨same, by simpa only [← heads] using closes, ?_⟩
  rw [← List.drop_drop, ← List.drop_drop, ← closes]
  generalize cs.drop width = front, ds.drop width = other at rest stops ⊢
  by_cases closed : front.head? = some '"'
  · obtain ⟨tail, rfl⟩ := List.head?_eq_some_iff.mp closed
    obtain ⟨tail', rfl, behind⟩ := rest.verbatim (by simp)
    rw [if_pos closed]
    exact behind
  · rw [if_neg closed]
    refine rest.code_of_ends ?_
    intro c isFirst behind
    have noQuote : c ≠ '"' := by
      rintro rfl
      exact closed isFirst
    have stop := stops c isFirst
    have ends : c = '\n' ∨ c = '\r' := by
      simp only [continuesString, Bool.and_eq_false_iff, bne_eq_false_iff_eq] at stop
      rcases stop with (quote | feed) | ret
      · exact absurd quote noQuote
      · exact .inl feed
      · exact .inr ret
    rcases ends with rfl | rfl <;> simp [Region.next]

/-- A number goes on as the same one, and code is behind it. No letter can be in it, so the
digits are the same. -/
theorem numbered (relaid : Relaid .code cs ds) :
    ds.takeWhile continuesNumber = cs.takeWhile continuesNumber ∧
      Relaid .code (cs.drop (cs.takeWhile continuesNumber).length)
        (ds.drop (cs.takeWhile continuesNumber).length) := by
  obtain ⟨lower, code⟩ := relaid.takeWhile_code caseless_continuesNumber
  refine ⟨eq_of_map_toLower ?_ ?_ lower, code⟩
  · exact List.all_eq_true.mp List.all_takeWhile
  · exact List.all_eq_true.mp List.all_takeWhile

/-- A name goes on as one with the same text, and code is behind it. Its text is in lower case,
whatever the letters were. -/
theorem named (relaid : Relaid .code cs ds) {d : Char} (first : d.toLower = c.toLower) :
    nameText (d :: ds.takeWhile continuesName) = nameText (c :: cs.takeWhile continuesName) ∧
      (ds.takeWhile continuesName).length = (cs.takeWhile continuesName).length ∧
      Relaid .code (cs.drop (cs.takeWhile continuesName).length)
        (ds.drop (cs.takeWhile continuesName).length) := by
  obtain ⟨lower, code⟩ := relaid.takeWhile_code caseless_continuesName
  have lengths := congrArg List.length lower
  rw [List.length_map, List.length_map] at lengths
  refine ⟨?_, lengths, code⟩
  rw [nameText, nameText, List.map_cons, List.map_cons, first, lower]

/-! ### Lexemes -/

/-- What is scanned at a character is scanned at the one that goes together with it, and what stands
behind goes together.

Proof: by the kind of lexeme that begins there. -/
theorem same_lexeme (relaid : Relaid .code (c :: cs) ds) (noGap : isGap c = false) {lexeme : Lexeme}
    {more : Nat} (found : lexemeAt c cs = .ok (lexeme, more)) :
    ∃ d tail, ds = d :: tail ∧ isGap d = false ∧
      lexemeAt d tail = .ok (lexeme, more) ∧
      Relaid .code (cs.drop more) (tail.drop more) := by
  cases LexemeAt.of_lexemeAt found with
  | returnFeed =>
    obtain ⟨_, rfl, behind⟩ := relaid.front_same noGap (by decide)
    obtain ⟨tail, rfl, code⟩ := Relaid.front_same behind (by decide) (by decide)
    exact ⟨_, _, rfl, noGap, lexemeAt_returnFeed tail, code⟩
  | feed =>
    obtain ⟨tail, rfl, code⟩ := relaid.front_same noGap (by decide)
    exact ⟨_, _, rfl, noGap, lexemeAt_feed tail, code⟩
  | comment =>
    obtain ⟨_, rfl, behind⟩ := relaid.front_same noGap (by decide)
    obtain ⟨tail, rfl, inside⟩ := behind.verbatim (by simp [Region.next])
    obtain ⟨same, code⟩ := Relaid.comment inside
    exact ⟨_, _, rfl, noGap, by rw [lexemeAt_slashes, same], code⟩
  | @symbol s _ noComment =>
    have noLetter : s.char.isAlpha = false := by cases s <;> decide
    have noQuote : s.char ≠ '"' := by cases s <;> decide
    obtain ⟨tail, rfl, behind⟩ := relaid.front_same noGap noLetter
    have code : Relaid .code cs tail := by
      simpa only [Region.next, noQuote, noComment, if_false] using behind
    have slash := code.head?_iff (c := '/') (by decide) (by decide)
    exact ⟨_, _, rfl, noGap, lexemeAt_symbol (by rwa [← slash]), code⟩
  | text =>
    obtain ⟨tail, rfl, inside⟩ := relaid.front_same noGap (by decide)
    obtain ⟨same, closes, code⟩ := Relaid.quoted inside rfl rfl
    exact ⟨_, _, rfl, noGap, by rw [lexemeAt_quote, same, closes], code⟩
  | number digit read =>
    obtain ⟨-, -, noSlash, noQuote, -⟩ := isDigit_only digit
    obtain ⟨tail, rfl, behind⟩ := relaid.front_same noGap (not_isAlpha_of_isDigit digit)
    rw [Region.next_code noQuote noSlash] at behind
    obtain ⟨same, code⟩ := behind.numbered
    exact ⟨_, _, rfl, noGap, by rw [lexemeAt_digit digit, same, read], code⟩
  | field inhabited =>
    obtain ⟨tail, rfl, behind⟩ := relaid.front_same noGap (by decide)
    rw [Region.next_code (by decide) (by decide)] at behind
    obtain ⟨same, lengths, code⟩ := behind.named (c := ':') rfl
    have inhabitedToo : tail.takeWhile continuesName ≠ [] := by
      rwa [← List.length_pos_iff, lengths, List.length_pos_iff]
    exact ⟨_, _, rfl, noGap, by rw [lexemeAt_colon inhabitedToo, lengths, same], code⟩
  | word starts =>
    obtain ⟨d, tail, rfl, startsToo, first, behind⟩ :=
      relaid.front_caseless caseless_startsName starts
    obtain ⟨same, lengths, code⟩ := behind.named first
    exact ⟨d, tail, rfl, (startsName_only startsToo).2.2.2.2.2.2,
      by rw [lexemeAt_startsName startsToo, lengths, same], code⟩

theorem long_lexeme (relaid : Relaid .code (c :: cs) ds) (noGap : isGap c = false) {digits : Nat}
    (broken : lexemeAt c cs = .error (.overlong digits)) :
    ∃ tail, ds = c :: tail ∧ lexemeAt c tail = .error (.overlong digits) := by
  obtain ⟨digit, longer⟩ := digits_of_lexemeAt broken
  obtain ⟨-, -, noSlash, noQuote, -⟩ := isDigit_only digit
  obtain ⟨tail, rfl, behind⟩ := relaid.front_same noGap (not_isAlpha_of_isDigit digit)
  rw [Region.next_code noQuote noSlash] at behind
  obtain ⟨same, -⟩ := behind.numbered
  exact ⟨tail, rfl, by rw [lexemeAt_digit digit, same, longer]⟩

/-- What begins no lexeme goes together with itself, and begins none there either, for the same
reason. -/
theorem no_lexeme (relaid : Relaid .code (c :: cs) ds) (noGap : isGap c = false)
    {fault : ReadFault Unit} (stopped : lexemeAt c cs = .error fault) :
    ∃ tail, ds = c :: tail ∧ lexemeAt c tail = .error fault := by
  cases fault with
  | overlong digits => exact relaid.long_lexeme noGap stopped
  | refused =>
    obtain ⟨d, tail, rfl, ⟨rfl, -⟩ | ⟨sameLetter, -⟩⟩ := relaid.front noGap
    · refine ⟨tail, rfl, ?_⟩
      match found : lexemeAt d tail with
      | .error (.refused ()) => rfl
      | .error (.overlong digits) =>
        obtain ⟨_, same, foundToo⟩ := relaid.symm.long_lexeme noGap found
        obtain ⟨-, rfl⟩ := List.cons.inj same
        cases stopped.symm.trans foundToo
      | .ok (lexeme, more) =>
        obtain ⟨_, _, same, -, foundToo, -⟩ := relaid.symm.same_lexeme noGap found
        obtain ⟨rfl, rfl⟩ := List.cons.inj same
        cases stopped.symm.trans foundToo
    · rw [lexemeAt_startsName sameLetter.plain.1] at stopped
      contradiction

/-- Where blanks come first on one side they come first on the other, unless nothing follows. -/
theorem gap_iff (relaid : Relaid .code cs ds) :
    (cs.takeWhile isGap = [] ↔ ds.takeWhile isGap = []) ∨ ∀ c ∈ cs, isGap c = true := by
  have letter {c : Char} (starts : startsName c = true) : isGap c = false :=
    (startsName_only starts).2.2.2.2.2.2
  cases relaid with
  | done => exact .inl Iff.rfl
  | same _ c => exact .inl (by cases gap : isGap c <;> simp [gap])
  | letter sameLetter => exact .inl (by simp [letter sameLetter.plain.1, letter sameLetter.plain.2])
  | run blank blank' =>
    exact .inl (by simp [blank _ List.mem_cons_self, blank' _ List.mem_cons_self])
  | last blank => exact .inr blank

end Relaid

/-! ### Tokens -/

section

variable {file : String} {p q : Position} {cs ds : List Char} {ts us : List Token}

theorem scanFrom_gap (file : String) (p : Position) {gap : List Char}
    (blank : ∀ c ∈ gap, isGap c = true) (cs : List Char) :
    scanFrom file p (gap ++ cs) = scanFrom file ⟨p.line, p.column + gap.length⟩ cs := by
  induction gap generalizing p with
  | nil => rfl
  | cons c gap inductionHypothesis =>
    have isBlank := blank c List.mem_cons_self
    have noFeed : c ≠ '\n' := by
      rintro rfl
      contradiction
    rw [List.cons_append, scanFrom, if_pos isBlank, Position.next, if_neg noFeed,
      inductionHypothesis _ fun d member => blank d (List.mem_cons_of_mem _ member),
      List.length_cons, Nat.add_assoc, Nat.add_comm 1]

/-- The first token stands behind the first blanks. It is the end if all are blanks. -/
theorem first_of_scanFrom (scanned : scanFrom file p cs = .ok ts) :
    ∃ lexeme rest, ts = ⟨lexeme, p.line, p.column + (cs.takeWhile isGap).length⟩ :: rest ∧
      ((∀ c ∈ cs, isGap c = true) → lexeme = .finish) := by
  have split := List.takeWhile_append_dropWhile (p := isGap) (l := cs)
  rw [← split, scanFrom_gap file p (List.all_eq_true.mp List.all_takeWhile)] at scanned
  have stops := List.head?_dropWhile_not isGap cs
  generalize behind : cs.dropWhile isGap = tail at scanned stops
  cases tail with
  | nil =>
    rw [scanFrom] at scanned
    exact ⟨.finish, [], (Except.ok.inj scanned).symm, fun _ => rfl⟩
  | cons c rest =>
    have noGap : ¬ isGap c = true := Bool.eq_false_iff.mp stops
    rw [scanFrom, if_neg noGap] at scanned
    split at scanned
    · contradiction
    · split at scanned
      · refine ⟨_, _, (Except.ok.inj scanned).symm, fun blank => absurd (blank c ?_) noGap⟩
        rw [← split, behind]
        exact List.mem_append_right _ List.mem_cons_self
      · contradiction

theorem behind_symbol {c : Char} {s : Symbol} {more : Nat}
    (found : lexemeAt c cs = .ok (.symbol s, more)) (p : Position) :
    cs.drop more = cs ∧ p.after (c :: cs.take more) = ⟨p.line, p.column + 1⟩ := by
  have one := (stands_lexemeAt found).eq_of_symbol
  obtain ⟨rfl, nothing⟩ := List.cons.inj one
  have noFeed : s.char ≠ '\n' := by cases s <;> decide
  have noMore : more = 0 := by
    have within := (spans_lexemeAt found).within
    have lengths := congrArg List.length nothing
    rwa [List.length_take_of_le within] at lengths
  rw [nothing, noMore]
  exact ⟨rfl, if_neg noFeed⟩

/-- A symbol is beside the symbol behind it on both sides or on none. A blank may be exchanged
for others, but not put where there was none. -/
theorem joins_of_relaid (relaid : Relaid .code cs ds) {s : Symbol}
    (scanned : scanFrom file ⟨p.line, p.column + 1⟩ cs = .ok ts)
    (scannedToo : scanFrom file ⟨q.line, q.column + 1⟩ ds = .ok us)
    (same : marksOf ts = marksOf us) :
    (⟨.symbol s, p.line, p.column⟩ : Token).joins ts =
      (⟨.symbol s, q.line, q.column⟩ : Token).joins us := by
  obtain ⟨lexeme, rest, rfl, ends⟩ := first_of_scanFrom scanned
  obtain ⟨other, rest', rfl, -⟩ := first_of_scanFrom scannedToo
  obtain ⟨sameFirst, -⟩ := List.cons.inj same
  obtain rfl : lexeme = other := congrArg Mark.lexeme sameFirst
  cases lexeme with
  | symbol =>
    obtain gaps | blank := relaid.gap_iff
    · rw [← List.length_eq_zero_iff, ← List.length_eq_zero_iff] at gaps
      rw [Bool.eq_iff_iff]
      simpa [Token.joins, Token.isBeside] using gaps
    · exact absurd (ends blank) (by simp)
  | _ => rfl

end

/-- Whether two results of scanning are the same but for places: tokens with the same marks, or
the same character that begins none, or a number with as many digits at which both break off.
Marks keep whether symbols stand side by side, which decides what they are read as. -/
inductive SameMarks :
    Except (ReadFault ScanError) (List Token) → Except (ReadFault ScanError) (List Token) →
      Prop where
  | tokens {ts us : List Token} (same : marksOf ts = marksOf us) : SameMarks (.ok ts) (.ok us)
  | refused {error error' : ScanError} (same : error.character = error'.character) :
    SameMarks (.error (.refused error)) (.error (.refused error'))
  | overlong (digits : Nat) : SameMarks (.error (.overlong digits)) (.error (.overlong digits))

/-- Where a token begins, what is scanned is the same but for places, if that holds of what is
scanned behind it. -/
theorem SameMarks.token {file : String} {c : Char} {cs ds : List Char}
    (relaid : Relaid .code (c :: cs) ds) (noGap : isGap c = false) (p q : Position)
    (behind : ∀ {rest tail : List Char}, rest.length ≤ cs.length → Relaid .code rest tail →
      ∀ p q, SameMarks (scanFrom file p rest) (scanFrom file q tail)) :
    SameMarks (scanFrom file p (c :: cs)) (scanFrom file q ds) := by
  cases found : lexemeAt c cs with
  | error fault =>
    obtain ⟨tail, rfl, stopped⟩ := relaid.no_lexeme noGap found
    rw [scanFrom, scanFrom]
    simp only [noGap, Bool.false_eq_true, if_false, found, stopped]
    cases fault with
    | refused => exact .refused rfl
    | overlong digits => exact .overlong digits
  | ok pair =>
    obtain ⟨lexeme, more⟩ := pair
    obtain ⟨d, tail, rfl, noGapToo, foundToo, code⟩ := relaid.same_lexeme noGap found
    have shorter : (cs.drop more).length ≤ cs.length := by
      rw [List.length_drop]
      exact Nat.sub_le _ _
    have later := behind shorter code (p.after (c :: cs.take more)) (q.after (d :: tail.take more))
    rw [scanFrom, scanFrom]
    simp only [noGap, noGapToo, Bool.false_eq_true, if_false, found, foundToo]
    generalize scanned : scanFrom file (p.after (c :: cs.take more)) (cs.drop more) = run,
      scannedToo : scanFrom file (q.after (d :: tail.take more)) (tail.drop more) = other at later ⊢
    cases later with
    | refused same => exact .refused same
    | overlong digits => exact .overlong digits
    | @tokens ts us same =>
      refine .tokens ?_
      rw [marksOf, marksOf, same]
      have joined : (⟨lexeme, p.line, p.column⟩ : Token).joins ts =
          (⟨lexeme, q.line, q.column⟩ : Token).joins us := by
        cases lexeme with
        | symbol s =>
          obtain ⟨rest, place⟩ := behind_symbol found p
          obtain ⟨restToo, placeToo⟩ := behind_symbol foundToo q
          rw [rest, place] at scanned
          rw [restToo, placeToo] at scannedToo
          rw [rest, restToo] at code
          exact joins_of_relaid code scanned scannedToo same
        | _ => cases ts <;> cases us <;> rfl
      rw [joined]

/-- From texts that are the same but for letter case and layout the same is scanned but for places.

Proof: induction over the length of one of them. Blanks are skipped on both sides, and a token takes
what goes together. -/
theorem sameMarks_scanFrom (file : String) {cs ds : List Char} (relaid : Relaid .code cs ds)
    (p q : Position) : SameMarks (scanFrom file p cs) (scanFrom file q ds) := by
  induction width : cs.length using Nat.strongRecOn generalizing cs ds p q with
  | ind width inductionHypothesis =>
    subst width
    cases relaid with
    | done =>
      rw [scanFrom, scanFrom]
      exact .tokens rfl
    | last blank blank' =>
      rw [← List.append_nil cs, ← List.append_nil ds, scanFrom_gap file p blank,
        scanFrom_gap file q blank', scanFrom, scanFrom]
      exact .tokens rfl
    | @run b b' gap gap' blank blank' rest tail code =>
      rw [← List.cons_append, ← List.cons_append, scanFrom_gap file p blank,
        scanFrom_gap file q blank']
      refine inductionHypothesis _ ?_ code _ _ rfl
      rw [List.length_cons, List.length_append]
      omega
    | @letter c d sameLetter rest tail code =>
      have noGap := (startsName_only sameLetter.plain.1).2.2.2.2.2.2
      refine .token (.letter sameLetter code) noGap p q ?_
      intro others tails shorter code p q
      exact inductionHypothesis _ (Nat.lt_succ_of_le shorter) code p q rfl
    | @same _ c rest tail code =>
      cases gap : isGap c with
      | true =>
        have noQuote : c ≠ '"' := by
          rintro rfl
          contradiction
        have noSlash : c ≠ '/' := by
          rintro rfl
          contradiction
        rw [Region.next_code noQuote noSlash] at code
        rw [scanFrom, if_pos gap, scanFrom, if_pos gap]
        exact inductionHypothesis _ (Nat.lt_succ_self _) code _ _ rfl
      | false =>
        refine .token (.same .code c code) gap p q ?_
        intro others tails shorter code p q
        exact inductionHypothesis _ (Nat.lt_succ_of_le shorter) code p q rfl

/-- Texts that are the same but for letter case and layout are scanned with the same marks, or
stopped at the same character or at as many digits. -/
theorem sameMarks_of_sameLayout (file : String) {text other : String}
    (same : SameLayout text other) : SameMarks (scan file text) (scan file other) := by
  obtain ⟨gap, gap', cs, ds, shape, shape', blank, blank', relaid⟩ := same
  rw [scan, scan, shape, shape', scanFrom_gap file _ blank, scanFrom_gap file _ blank']
  exact sameMarks_scanFrom file relaid _ _

end YololChip
