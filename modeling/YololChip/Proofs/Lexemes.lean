import YololChip.Proofs.PrintedLexemes
import YololChip.Proofs.Spans

/-!
# What characters stand for

Which characters stand for a lexeme, whatever is around them. The scanner takes such characters, and
as many as it can: no more of the text at that place stand for any lexeme. If a place is refused,
then nothing that begins there stands for one. If it breaks off there, then because the digits
that it takes for a number are too many, although fewer of them may stand for one.
-/

namespace YololChip

/-- Which characters stand for a lexeme. A text may be closed or not, and a line may end with a
carriage return before its feed; nothing stands for the end of a text. The relation does not say
where a lexeme ends in more characters: of several that fit, the longest is scanned. -/
inductive Stands : List Char → Lexeme → Prop where
  | feed : Stands ['\n'] .newline
  | returnFeed : Stands ['\r', '\n'] .newline
  | comment {body : List Char} (inLine : ∀ c ∈ body, (c != '\n') = true) :
    Stands ('/' :: '/' :: body) (.comment (String.ofList (withoutReturns body)))
  | symbol (s : Symbol) : Stands [s.char] (.symbol s)
  | openText {body : List Char} (inText : ∀ c ∈ body, continuesString c = true) :
    Stands ('"' :: body) (.text (String.ofList body))
  | text {body : List Char} (inText : ∀ c ∈ body, continuesString c = true) :
    Stands ('"' :: (body ++ ['"'])) (.text (String.ofList body))
  | number {c : Char} {more : List Char} (digit : c.isDigit = true)
      (inNumber : ∀ d ∈ more, continuesNumber d = true) {value : Fixed}
      (read : Fixed.ofLiteral (String.ofList (c :: more)) = .ok value) :
    Stands (c :: more) (.number value)
  | field {more : List Char} (named : more ≠ []) (inName : ∀ d ∈ more, continuesName d = true) :
    Stands (':' :: more) (.field (nameText (':' :: more)))
  | word {c : Char} {more : List Char} (starts : startsName c = true)
      (inName : ∀ d ∈ more, continuesName d = true) :
    Stands (c :: more) (wordLexeme (nameText (c :: more)))

theorem Stands.count_newline {span : List Char} {lexeme : Lexeme} (stands : Stands span lexeme) :
    span.count '\n' = if lexeme = .newline then 1 else 0 := by
  have none {p : Char → Bool} {cs : List Char} (stops : p '\n' = false)
      (holds : ∀ c ∈ cs, p c = true) : cs.count '\n' = 0 := by
    rw [List.count_eq_zero]
    intro member
    rw [holds _ member] at stops
    contradiction
  have first {c : Char} {cs : List Char} (differs : c ≠ '\n') :
      (c :: cs).count '\n' = cs.count '\n' := List.count_cons_of_ne differs
  cases stands with
  | feed | returnFeed => rfl
  | comment inLine => rw [first (by decide), first (by decide), none (by decide) inLine]; rfl
  | symbol s => cases s <;> rfl
  | openText inText => rw [first (by decide), none (by decide) inText]; rfl
  | text inText =>
    rw [first (by decide), List.count_append, none (by decide) inText]
    rfl
  | number digit inNumber =>
    rw [first (isDigit_only digit).2.1, none (by decide) inNumber]
    rfl
  | field _ inName => rw [first (by decide), none (by decide) inName]; rfl
  | word starts inName =>
    rw [first (startsName_only starts).2.1, none (by decide) inName]
    unfold wordLexeme
    split <;> rfl

theorem Stands.eq_of_symbol {span : List Char} {s : Symbol} (stands : Stands span (.symbol s)) :
    span = [s.char] := by
  generalize isSymbol : Lexeme.symbol s = lexeme at stands
  cases stands with
  | symbol other => rw [Lexeme.symbol.inj isSymbol]
  | word =>
    unfold wordLexeme at isSymbol
    split at isSymbol <;> contradiction
  | _ => contradiction

/-! ### What is scanned -/

theorem stands_lexemeAt {c : Char} {rest : List Char} {lexeme : Lexeme} {more : Nat}
    (found : lexemeAt c rest = .ok (lexeme, more)) : Stands (c :: rest.take more) lexeme := by
  have taken {p : Char → Bool} {cs : List Char} : ∀ d ∈ cs.takeWhile p, p d = true :=
    List.all_eq_true.mp List.all_takeWhile
  cases LexemeAt.of_lexemeAt found with
  | returnFeed => exact .returnFeed
  | feed => exact .feed
  | comment =>
    rw [List.take_succ_cons, take_length_takeWhile]
    exact .comment taken
  | symbol => exact .symbol _
  | text =>
    split
    · next closed =>
      obtain ⟨tail, shape⟩ := List.head?_eq_some_iff.mp closed
      rw [List.take_add, shape, take_length_takeWhile]
      exact .text taken
    · rw [Nat.add_zero, take_length_takeWhile]
      exact .openText taken
  | number digit read =>
    rw [take_length_takeWhile]
    exact .number digit taken read
  | field named =>
    rw [take_length_takeWhile]
    exact .field named taken
  | word starts =>
    rw [take_length_takeWhile]
    exact .word starts taken

/-- Characters at the front that something holds of are no more than those that are taken. -/
theorem length_le_takeWhile {p : Char → Bool} {cs body : List Char} (front : body <+: cs)
    (holds : ∀ c ∈ body, p c = true) : body.length ≤ (cs.takeWhile p).length := by
  obtain ⟨tail, rfl⟩ := front
  rw [List.takeWhile_append_of_pos holds, List.length_append]
  exact Nat.le_add_right _ _

/-- Where a text is refused nothing stands for a lexeme. Where one is found it takes all of what
stands for any. -/
theorem lexemeAt_of_stands {span rest : List Char} {c : Char} {lexeme : Lexeme}
    (stands : Stands span lexeme) (front : span <+: c :: rest) :
    lexemeAt c rest ≠ .error (.refused ()) ∧
      ∀ found more, lexemeAt c rest = .ok (found, more) → span.length ≤ more + 1 := by
  have of_found {found : Lexeme} {more : Nat} (here : lexemeAt c rest = .ok (found, more))
      (fits : span.length ≤ more + 1) : lexemeAt c rest ≠ .error (.refused ()) ∧
        ∀ found more, lexemeAt c rest = .ok (found, more) → span.length ≤ more + 1 := by
    rw [here]
    refine ⟨nofun, fun _ _ same => ?_⟩
    obtain ⟨rfl, rfl⟩ := Prod.mk.inj (Except.ok.inj same)
    exact fits
  cases stands with
  | feed =>
    obtain ⟨rfl, -⟩ := List.cons_prefix_cons.mp front
    exact of_found (lexemeAt_feed rest) (Nat.le_refl 1)
  | returnFeed =>
    obtain ⟨rfl, tail, rfl⟩ := List.cons_prefix_cons.mp front
    exact of_found (lexemeAt_returnFeed tail) (Nat.le_refl 2)
  | @comment body inLine =>
    obtain ⟨rfl, tail, rfl⟩ := List.cons_prefix_cons.mp front
    have fits := length_le_takeWhile (List.prefix_append body tail) inLine
    refine of_found (lexemeAt_slashes (body ++ tail)) ?_
    rw [List.length_cons, List.length_cons]
    exact Nat.succ_le_succ (Nat.succ_le_succ fits)
  | symbol s =>
    obtain ⟨rfl, -⟩ := List.cons_prefix_cons.mp front
    by_cases isComment : s.char = '/' ∧ rest.head? = some '/'
    · obtain ⟨tail, rfl⟩ := List.head?_eq_some_iff.mp isComment.2
      rw [isComment.1] at of_found ⊢
      exact of_found (lexemeAt_slashes tail) (by simp)
    · exact of_found (lexemeAt_symbol isComment) (Nat.le_refl 1)
  | openText inText =>
    obtain ⟨rfl, behind⟩ := List.cons_prefix_cons.mp front
    have fits := length_le_takeWhile behind inText
    exact of_found (lexemeAt_quote rest) (by rw [List.length_cons]; omega)
  | @text body inText =>
    obtain ⟨rfl, tail, rfl⟩ := List.cons_prefix_cons.mp front
    have whole : (body ++ '"' :: tail).takeWhile continuesString = body :=
      takeWhile_append_stop inText (by simp [continuesString])
    refine of_found (lexemeAt_quote _) ?_
    simp [whole]
  | @number d more digit inNumber =>
    obtain ⟨rfl, behind⟩ := List.cons_prefix_cons.mp front
    have here := lexemeAt_digit digit rest
    -- the scanner may take more digits than stand for the number, and then perhaps too many
    cases longer : Fixed.ofLiteral (String.ofList (d :: rest.takeWhile continuesNumber)) with
    | ok value =>
      simp only [longer] at here
      exact of_found here (Nat.succ_le_succ (length_le_takeWhile behind inNumber))
    | error digits =>
      simp only [longer] at here
      simp [here]
  | field named inName =>
    obtain ⟨rfl, behind⟩ := List.cons_prefix_cons.mp front
    have fits := length_le_takeWhile behind inName
    have namedToo : rest.takeWhile continuesName ≠ [] := by
      rw [← List.length_pos_iff] at named ⊢
      omega
    exact of_found (lexemeAt_colon namedToo) (Nat.succ_le_succ fits)
  | word starts inName =>
    obtain ⟨rfl, behind⟩ := List.cons_prefix_cons.mp front
    exact of_found (lexemeAt_startsName starts rest)
      (Nat.succ_le_succ (length_le_takeWhile behind inName))

/-- Where a text breaks off stands a row of digits and points that is read as no number, because
it has so many digits before its point. -/
theorem digits_of_lexemeAt {c : Char} {rest : List Char} {digits : Nat}
    (found : lexemeAt c rest = .error (.overlong digits)) :
    c.isDigit = true ∧
      Fixed.ofLiteral (String.ofList (c :: rest.takeWhile continuesNumber)) = .error digits := by
  by_cases digit : c.isDigit = true
  · have here := lexemeAt_digit digit rest
    rw [found] at here
    split at here
    · contradiction
    · next longer =>
      obtain rfl := ReadFault.overlong.inj (Except.error.inj here)
      exact ⟨digit, longer⟩
  · -- no other lexeme can have too many of anything
    unfold lexemeAt at found
    simp only [digit, Bool.false_eq_true, if_false] at found
    repeat' split at found
    all_goals simp at found

end YololChip
