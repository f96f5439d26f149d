import YololChip.Proofs.Marks
import YololChip.Source.Grammar

/-!
# Marks and the tokens that spell them

Tokens spell marks if they are the same lexemes in the same order, and stand side by side
where marks are joined. An `else` right before an `end` is the one token that a tree
leaves out, so the tokens that a parser took cover its marks: they spell them when
every such `else` is passed over.
-/

namespace YololChip

def Lexeme.endsLine : Lexeme → Bool
  | newline | finish => true
  | _ => false

/-- Whether tokens are those of the marks, and stand side by side where marks are joined. Where
they are not joined the tokens may stand side by side all the same. -/
inductive Spells : List Mark → List Token → Prop where
  | nil : Spells [] []
  | cons {m : Mark} {ms : List Mark} {t : Token} {ts : List Token} (same : t.lexeme = m.lexeme)
      (beside : m.joined = true → ∃ next, ts.head? = some next ∧ t.isBeside next = true)
      (rest : Spells ms ts) : Spells (m :: ms) (t :: ts)

/-- The tokens without the words that begin an else part without statements. The tree has no
place for such a part. -/
def withoutEmptyElse : List Token → List Token
  | [] => []
  | [t] => [t]
  | t :: next :: rest =>
    if t.lexeme = .keyword .elseWord ∧ next.lexeme = .keyword .endWord then
      withoutEmptyElse (next :: rest)
    else t :: withoutEmptyElse (next :: rest)

/-- Whether tokens of one line are those of the marks, but for words that begin an else
part without statements. A joined mark comes before a symbol, and an else part that has
left a mark is not empty. -/
inductive Covers : List Mark → List Token → Prop where
  | nil : Covers [] []
  | take {m : Mark} {ms : List Mark} {t : Token} {ts : List Token} (same : t.lexeme = m.lexeme)
      (inLine : m.lexeme.endsLine = false)
      (beside : m.joined = true → ∃ next symbol, ts.head? = some next ∧
        next.lexeme = .symbol symbol ∧ t.isBeside next = true)
      (filled : m.lexeme = .keyword .elseWord → ∃ next, ms.head? = some next ∧
        next.lexeme ≠ .keyword .endWord)
      (rest : Covers ms ts) : Covers (m :: ms) (t :: ts)
  | skip {ms : List Mark} {t next : Token} {ts : List Token}
      (isElse : t.lexeme = .keyword .elseWord) (isEnd : next.lexeme = .keyword .endWord)
      (rest : Covers ms (next :: ts)) : Covers ms (t :: next :: ts)

namespace Covers

theorem append {first second : List Mark} {before after : List Token}
    (left : Covers first before) (right : Covers second after) :
    Covers (first ++ second) (before ++ after) := by
  induction left with
  | nil => exact right
  | take same inLine beside filled _ inductionHypothesis =>
    rw [List.cons_append, List.cons_append]
    refine .take same inLine ?_ ?_ inductionHypothesis
    · intro joined
      obtain ⟨next, symbol, head, isSymbol, near⟩ := beside joined
      exact ⟨next, symbol, by rw [List.head?_append, head, Option.some_or], isSymbol, near⟩
    · intro isElse
      obtain ⟨next, head, other⟩ := filled isElse
      exact ⟨next, by rw [List.head?_append, head, Option.some_or], other⟩
  | skip isElse isEnd _ inductionHypothesis => exact .skip isElse isEnd inductionHypothesis

theorem inLine {ms : List Mark} {ts : List Token} (covers : Covers ms ts) :
    ∀ t ∈ ts, t.lexeme.endsLine = false := by
  induction covers with
  | nil => simp
  | take same inLine _ _ _ inductionHypothesis =>
    intro other member
    rcases List.mem_cons.mp member with rfl | later
    · rw [same, inLine]
    · exact inductionHypothesis other later
  | skip isElse _ _ inductionHypothesis =>
    intro other member
    rcases List.mem_cons.mp member with rfl | later
    · rw [isElse]
      rfl
    · exact inductionHypothesis other later

theorem length_le {ms : List Mark} {ts : List Token} (covers : Covers ms ts) :
    ms.length ≤ ts.length := by
  induction covers with
  | nil => exact Nat.le_refl _
  | take _ _ _ _ _ inductionHypothesis => exact Nat.succ_le_succ inductionHypothesis
  | skip _ _ _ inductionHypothesis => exact Nat.le_succ_of_le inductionHypothesis

theorem head_of_end {ms : List Mark} {t : Token} {ts : List Token} (covers : Covers ms (t :: ts))
    (isEnd : t.lexeme = .keyword .endWord) :
    ∃ m, ms.head? = some m ∧ m.lexeme = .keyword .endWord := by
  cases covers with
  | take same => exact ⟨_, rfl, same ▸ isEnd⟩
  | skip isElse => exact absurd (isElse.symm.trans isEnd) (by decide)

/-- Passing over the words that begin an empty else part keeps the first token, if a
symbol comes first. -/
theorem head?_withoutEmptyElse {ts : List Token} {next : Token} {symbol : Symbol}
    (head : ts.head? = some next) (isSymbol : next.lexeme = .symbol symbol) :
    (withoutEmptyElse ts).head? = some next := by
  match ts with
  | [t] => exact head
  | t :: second :: rest =>
    obtain rfl := Option.some.inj head
    rw [withoutEmptyElse, if_neg (by simp [isSymbol])]
    rfl

/-- Tokens that cover marks spell them, once the words that begin an empty else part are
passed over.

Proof: induction over the cover. A token that is taken is passed over only if it is an
`else` before an `end`; but then its mark stands before the mark of that `end`, and a
marked else part is not empty. -/
theorem spells {ms : List Mark} {ts : List Token} (covers : Covers ms ts) :
    Spells ms (withoutEmptyElse ts) := by
  induction covers with
  | nil => exact .nil
  | @take m ms t ts same _ beside filled rest inductionHypothesis =>
    match ts with
    | [] =>
      refine .cons same ?_ inductionHypothesis
      intro joined
      obtain ⟨next, symbol, head, _⟩ := beside joined
      contradiction
    | next :: ts =>
      have kept : ¬(t.lexeme = .keyword .elseWord ∧ next.lexeme = .keyword .endWord) := by
        rintro ⟨isElse, isEnd⟩
        obtain ⟨first, head, other⟩ := filled (same ▸ isElse)
        obtain ⟨found, headFound, foundEnd⟩ := rest.head_of_end isEnd
        rw [head] at headFound
        exact other (Option.some.inj headFound ▸ foundEnd)
      rw [withoutEmptyElse, if_neg kept]
      refine .cons same ?_ inductionHypothesis
      intro joined
      obtain ⟨near, symbol, head, isSymbol, isBeside⟩ := beside joined
      exact ⟨near, head?_withoutEmptyElse head isSymbol, isBeside⟩
  | skip isElse isEnd _ inductionHypothesis =>
    rw [withoutEmptyElse, if_pos ⟨isElse, isEnd⟩]
    exact inductionHypothesis

end Covers

/-- Whether the marks were taken off the front of some tokens, and what is left. The words of
else parts without statements may be among the tokens taken. -/
def Takes (ms : List Mark) (ts rest : List Token) : Prop :=
  ∃ used, ts = used ++ rest ∧ Covers ms used

namespace Takes

open Grammar

theorem nil (ts : List Token) : Takes [] ts ts := ⟨[], rfl, .nil⟩

/-- Taking marks and then more marks is taking both in a row. -/
theorem append {first second : List Mark} {ts between rest : List Token}
    (left : Takes first ts between) (right : Takes second between rest) :
    Takes (first ++ second) ts rest := by
  obtain ⟨before, rfl, coversFirst⟩ := left
  obtain ⟨after, rfl, coversSecond⟩ := right
  exact ⟨before ++ after, by rw [List.append_assoc], coversFirst.append coversSecond⟩

/-- Tokens are at least as many as the marks that are taken. -/
theorem length_le {ms : List Mark} {ts rest : List Token} (takes : Takes ms ts rest) :
    ms.length + rest.length ≤ ts.length := by
  obtain ⟨used, rfl, covers⟩ := takes
  have enough := covers.length_le
  rw [List.length_append]
  omega

theorem exists_of_front {ts : List Token} {lexeme : Lexeme} (found : (front ts).lexeme = lexeme)
    (inLine : lexeme.endsLine = false) : ∃ t rest, ts = t :: rest ∧ t.lexeme = lexeme := by
  cases ts with
  | nil =>
    rw [← found] at inLine
    contradiction
  | cons t rest => exact ⟨t, rest, rfl, found⟩

/-- A first token is taken as its lexeme. An else before an end is not taken alone. -/
theorem one {ts : List Token} {lexeme : Lexeme} (found : (front ts).lexeme = lexeme)
    (inLine : lexeme.endsLine = false) (noElse : lexeme ≠ .keyword .elseWord) :
    Takes [.apart lexeme] ts (ts.drop 1) := by
  obtain ⟨t, rest, rfl, same⟩ := exists_of_front found inLine
  refine ⟨[t], rfl, .take same inLine ?_ ?_ .nil⟩
  · intro joined
    contradiction
  · intro isElse
    exact absurd isElse noElse

theorem pair {ts : List Token} {first second : Symbol} (found : isPair first second ts = true) :
    Takes (Mark.pair first second) ts (ts.drop 2) := by
  match ts with
  | [] => contradiction
  | [_] => contradiction
  | a :: b :: rest =>
    simp only [isPair, Bool.and_eq_true, decide_eq_true_eq] at found
    obtain ⟨⟨isFirst, isSecond⟩, near⟩ := found
    refine ⟨[a, b], rfl, .take isFirst rfl ?_ ?_ (.take isSecond rfl ?_ ?_ .nil)⟩
    · intro _
      exact ⟨b, second, rfl, isSecond, near⟩
    · intro isElse
      contradiction
    · intro joined
      contradiction
    · intro isElse
      contradiction

/-- An else is taken with what follows it, unless that is the end. With the end behind it, it
would be passed over. -/
theorem elseWord {ts rest : List Token} {m : Mark} {ms : List Mark}
    (found : (front ts).lexeme = .keyword .elseWord) (filled : m.lexeme ≠ .keyword .endWord)
    (later : Takes (m :: ms) (ts.drop 1) rest) :
    Takes (.apart (.keyword .elseWord) :: m :: ms) ts rest := by
  obtain ⟨t, tail, rfl, same⟩ := exists_of_front found rfl
  obtain ⟨used, shape, covers⟩ := later
  refine ⟨t :: used, by rw [List.cons_append, ← shape, List.drop_one, List.tail_cons], ?_⟩
  refine .take same rfl ?_ ?_ covers
  · intro joined
    contradiction
  · intro _
    exact ⟨m, rfl, filled⟩

theorem skipElse {ts rest : List Token} (found : (front ts).lexeme = .keyword .elseWord)
    (isEnd : (front (ts.drop 1)).lexeme = .keyword .endWord)
    (later : Takes (Mark.word .endWord) (ts.drop 1) rest) : Takes (Mark.word .endWord) ts rest := by
  obtain ⟨t, tail, rfl, same⟩ := exists_of_front found rfl
  obtain ⟨used, shape, covers⟩ := later
  rw [List.drop_one, List.tail_cons] at shape isEnd
  have enough := covers.length_le
  match used with
  | [] => exact absurd enough (by simp [Mark.word])
  | next :: used =>
    refine ⟨t :: next :: used, congrArg (t :: ·) shape, .skip same ?_ covers⟩
    rw [shape] at isEnd
    exact isEnd

end Takes

end YololChip
