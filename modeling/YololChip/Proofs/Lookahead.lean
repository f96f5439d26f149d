import YololChip.Proofs.Marks
import YololChip.Source.Grammar

/-!
# What a parser sees ahead

A parser looks at the lexemes of tokens and at whether symbols stand side by side, which
are the marks of the tokens. So what it decides can be said of marks, and the marks
behind an expression tell at which level the expression may go on.
-/

namespace YololChip

namespace Mark

/-- The lexeme of the first mark; without marks the input is at its end. -/
def front (ms : List Mark) : Lexeme := (ms.head?.map lexeme).getD .finish

/-- Whether two symbols stand side by side at the front of some marks. The first has to be
joined to the second; with a blank between them they are two operators. -/
def isPair (first second : Symbol) : List Mark → Bool
  | a :: b :: _ => a.lexeme = .symbol first && b.lexeme = .symbol second && a.joined
  | _ => false

@[simp] theorem front_cons (m : Mark) (ms : List Mark) : front (m :: ms) = m.lexeme := rfl

@[simp] theorem lexeme_apart (lexeme : Lexeme) : (apart lexeme).lexeme = lexeme := rfl

@[simp] theorem front_pair (first second : Symbol) (ms : List Mark) :
    front (pair first second ++ ms) = .symbol first := rfl

@[simp] theorem length_pair (first second : Symbol) : (pair first second).length = 2 := rfl

theorem front_append {ms : List Mark} (inhabited : ms ≠ []) (rest : List Mark) :
    front (ms ++ rest) = front ms := by
  cases ms with
  | nil => exact absurd rfl inhabited
  | cons m ms => rfl

@[simp] theorem isPair_apart (first second : Symbol) (lexeme : Lexeme) (ms : List Mark) :
    isPair first second (apart lexeme :: ms) = false := by
  cases ms <;> simp [isPair, apart]

@[simp] theorem isPair_pair (first second a b : Symbol) (ms : List Mark) :
    isPair first second (pair a b ++ ms) = decide (a = first ∧ b = second) := by
  simp [isPair, pair, apart]

end Mark

/-- Whether a token is a symbol beside which another symbol stands. Other tokens join nothing,
for nothing depends on what stands beside them. -/
def Token.joins (t : Token) : List Token → Bool
  | [] => false
  | next :: _ =>
    match t.lexeme, next.lexeme with
    | .symbol _, .symbol _ => t.isBeside next
    | _, _ => false

/-- The marks of tokens. What is lost are the places, but for whether symbols stand side by
side. -/
def marksOf : List Token → List Mark
  | [] => []
  | t :: rest => ⟨t.lexeme, t.joins rest⟩ :: marksOf rest

@[simp] theorem length_marksOf (ts : List Token) : (marksOf ts).length = ts.length := by
  induction ts with
  | nil => rfl
  | cons t rest inductionHypothesis => simp [marksOf, inductionHypothesis]

theorem marksOf_drop (n : Nat) (ts : List Token) : marksOf (ts.drop n) = (marksOf ts).drop n := by
  induction ts generalizing n with
  | nil => simp [marksOf]
  | cons t rest inductionHypothesis =>
    cases n with
    | zero => rfl
    | succ n => simpa [marksOf] using inductionHypothesis n

theorem lexeme_front (ts : List Token) : (Grammar.front ts).lexeme = Mark.front (marksOf ts) := by
  cases ts <;> rfl

theorem isPair_marksOf (first second : Symbol) (ts : List Token) :
    Grammar.isPair first second ts = Mark.isPair first second (marksOf ts) := by
  match ts with
  | [] => rfl
  | [_] => rfl
  | a :: b :: rest =>
    rw [Bool.eq_iff_iff]
    simp only [Grammar.isPair, marksOf, Mark.isPair, Bool.and_eq_true, decide_eq_true_eq]
    apply and_congr_right
    rintro ⟨isFirst, isSecond⟩
    simp [Token.joins, isFirst, isSecond]

/-- The level at which an expression goes on with some marks behind it: that of the operator
with which they begin, and zero if they begin with none. A step sign goes on a variable, which
is the tightest of all; one equals sign by itself is the sign of an assignment and goes on
nothing. -/
def follow (ms : List Mark) : Nat :=
  match Mark.front ms with
  | .keyword .or => 1
  | .keyword .and => 2
  | .symbol .equals => if Mark.isPair .equals .equals ms then 3 else 0
  | .symbol .bang => if Mark.isPair .bang .equals ms then 3 else 8
  | .symbol .less | .symbol .greater => 4
  | .symbol .plus => if Mark.isPair .plus .plus ms then 10 else 5
  | .symbol .minus => if Mark.isPair .minus .minus ms then 10 else 5
  | .symbol .star | .symbol .slash | .symbol .percent => 6
  | .symbol .caret => 7
  | _ => 0

/-- An expression goes on at the level of the operator behind it. What the operator is followed
by does not matter, since its own marks settle the level. -/
@[simp] theorem follow_marks (op : BinaryOperator) (ms : List Mark) :
    follow (op.marks ++ ms) = op.level := by
  cases op <;> simp [follow, BinaryOperator.marks, BinaryOperator.level, Mark.single, Mark.word]

namespace Grammar

/-- Whether a matcher finds the operators of a level at the front of tokens with their marks,
and nothing where an expression of that level does not go on. Between the two it may find
anything: tighter operators have been taken before it is asked. -/
structure Decides (level : Nat) (found : Matcher) : Prop where
  finds : ∀ {ts : List Token} {op : BinaryOperator} {ms : List Mark}, op.level = level →
    marksOf ts = op.marks ++ ms → found ts = some (op, op.marks.length)
  stops : ∀ {ts : List Token}, follow (marksOf ts) < level → found ts = none

theorem decides_matchOr : Decides 1 matchOr where
  finds := by
    intro ts op ms isLevel marks
    cases op with
    | or => simp [matchOr, lexeme_front, marks, BinaryOperator.marks, Mark.word]
    | _ => contradiction
  stops := by
    intro ts below
    have noOr : Mark.front (marksOf ts) ≠ .keyword .or := by
      intro isOr
      simp [follow, isOr] at below
    simp [matchOr, lexeme_front, noOr]

theorem decides_matchAnd : Decides 2 matchAnd where
  finds := by
    intro ts op ms isLevel marks
    cases op with
    | and => simp [matchAnd, lexeme_front, marks, BinaryOperator.marks, Mark.word]
    | _ => contradiction
  stops := by
    intro ts below
    have noAnd : Mark.front (marksOf ts) ≠ .keyword .and := by
      intro isAnd
      simp [follow, isAnd] at below
    simp [matchAnd, lexeme_front, noAnd]

/-- Symbols that stand side by side begin with the first of them. -/
theorem front_of_isPair {first second : Symbol} {ms : List Mark}
    (isPair : Mark.isPair first second ms = true) : Mark.front ms = .symbol first := by
  match ms with
  | [] => contradiction
  | [_] => contradiction
  | a :: b :: rest =>
    simp only [Mark.isPair, Bool.and_eq_true, decide_eq_true_eq] at isPair
    exact isPair.1.1

theorem decides_matchEquality : Decides 3 matchEquality where
  finds := by
    intro ts op ms isLevel marks
    cases op with
    | equal | notEqual => simp [matchEquality, isPair_marksOf, marks, BinaryOperator.marks]
    | _ => contradiction
  stops := by
    intro ts below
    have noEqual : Mark.isPair .equals .equals (marksOf ts) = false := by
      rw [Bool.eq_false_iff]
      intro isPair
      simp [follow, front_of_isPair isPair, isPair] at below
    have noNotEqual : Mark.isPair .bang .equals (marksOf ts) = false := by
      rw [Bool.eq_false_iff]
      intro isPair
      simp [follow, front_of_isPair isPair, isPair] at below
    simp [matchEquality, isPair_marksOf, noEqual, noNotEqual]

theorem decides_matchComparison : Decides 4 matchComparison where
  finds := by
    intro ts op ms isLevel marks
    cases op with
    | less | greater | lessEqual | greaterEqual =>
      simp [matchComparison, isPair_marksOf, lexeme_front, marks, BinaryOperator.marks, Mark.single]
    | _ => contradiction
  stops := by
    intro ts below
    have noPair {first : Symbol} (noFirst : Mark.front (marksOf ts) ≠ .symbol first) :
        Mark.isPair first .equals (marksOf ts) = false := by
      rw [Bool.eq_false_iff]
      intro isPair
      exact noFirst (front_of_isPair isPair)
    have noLess : Mark.front (marksOf ts) ≠ .symbol .less := by
      intro isLess
      simp [follow, isLess] at below
    have noGreater : Mark.front (marksOf ts) ≠ .symbol .greater := by
      intro isGreater
      simp [follow, isGreater] at below
    unfold matchComparison
    rw [isPair_marksOf, isPair_marksOf, noPair noLess, noPair noGreater, lexeme_front,
      if_neg Bool.false_ne_true, if_neg Bool.false_ne_true]
    split
    · next isLess => exact absurd isLess noLess
    · next isGreater => exact absurd isGreater noGreater
    · rfl

theorem decides_matchSum : Decides 5 matchSum where
  finds := by
    intro ts op ms isLevel marks
    cases op with
    | add | sub => simp [matchSum, lexeme_front, marks, BinaryOperator.marks, Mark.single]
    | _ => contradiction
  stops := by
    intro ts below
    unfold matchSum
    rw [lexeme_front]
    split
    · next isPlus =>
      simp only [follow, isPlus] at below
      split at below <;> contradiction
    · next isMinus =>
      simp only [follow, isMinus] at below
      split at below <;> contradiction
    · rfl

theorem decides_matchProduct : Decides 6 matchProduct where
  finds := by
    intro ts op ms isLevel marks
    cases op with
    | mul | div | mod =>
      simp [matchProduct, lexeme_front, marks, BinaryOperator.marks, Mark.single]
    | _ => contradiction
  stops := by
    intro ts below
    unfold matchProduct
    rw [lexeme_front]
    split
    · next isStar => simp [follow, isStar] at below
    · next isSlash => simp [follow, isSlash] at below
    · next isPercent => simp [follow, isPercent] at below
    · rfl

end Grammar

end YololChip
