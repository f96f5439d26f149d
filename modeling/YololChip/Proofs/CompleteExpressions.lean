import YololChip.Proofs.Lookahead
import YololChip.Proofs.SoundExpressions

/-!
# What is written as an expression is read

Tokens whose marks are those of a leveled expression, with anything behind them that does
not make the expression go on, are read as that expression. So precedence and the joining
of symbols settle where every operand ends, and nothing is read in two ways.

Nesting is what the grammar counts: a group, a word or sign before an operand and a right
side of a power lead one level down; chains do not.
-/

namespace YololChip

namespace Expr

/-- How many levels down the grammar goes to read an expression. Chains of one level stay where
they are, however long they are; groups, the right sides of powers, and words or signs before an
operand go down one level each. -/
def nesting : Expr → Nat
  | number _ _ | text _ _ | var _ _ => 1
  | group _ inner => inner.nesting + 1
  | binary _ op left right =>
    max left.nesting (if op = .pow then right.nesting + 1 else right.nesting)
  | unary _ op operand => if op.isAfter then operand.nesting else operand.nesting + 1

/-- Whether the grammar reads an expression from its marks at a depth: no group is missing, its
variables are named as a scanner names them, and it does not nest deeper. -/
structure Readable (depth : Nat) (e : Expr) : Prop where
  leveled : e.Leveled
  settled : e.Settled
  shallow : e.nesting ≤ depth

theorem Readable.inner {depth : Nat} {loc : Option Location} {inner : Expr}
    (readable : (group loc inner).Readable (depth + 1)) : inner.Readable depth :=
  ⟨readable.leveled, readable.settled, Nat.le_of_succ_le_succ readable.shallow⟩

theorem Readable.left {depth : Nat} {loc : Option Location} {op : BinaryOperator}
    {left right : Expr} (readable : (binary loc op left right).Readable depth) :
    left.Readable depth :=
  ⟨readable.leveled.1, readable.settled.1, (Nat.max_le.mp readable.shallow).1⟩

theorem Readable.right {depth : Nat} {loc : Option Location} {op : BinaryOperator}
    {left right : Expr} (readable : (binary loc op left right).Readable depth) (noPow : op ≠ .pow) :
    right.Readable depth := by
  have shallow := (Nat.max_le.mp readable.shallow).2
  rw [if_neg noPow] at shallow
  exact ⟨readable.leveled.2.1, readable.settled.2, shallow⟩

theorem Readable.exponent {depth : Nat} {loc : Option Location} {left right : Expr}
    (readable : (binary loc .pow left right).Readable (depth + 1)) : right.Readable depth := by
  have shallow := (Nat.max_le.mp readable.shallow).2
  rw [if_pos rfl] at shallow
  exact ⟨readable.leveled.2.1, readable.settled.2, Nat.le_of_succ_le_succ shallow⟩

/-- What is behind a word or a sign is readable one level down. -/
theorem Readable.behind {depth : Nat} {loc : Option Location} {op : UnaryOperator}
    {operand : Expr} (readable : (unary loc op operand).Readable (depth + 1))
    (before : op.isAfter = false) : operand.Readable depth := by
  have shallow := readable.shallow
  rw [nesting, if_neg (by simp [before])] at shallow
  exact ⟨readable.leveled.1, readable.settled, Nat.le_of_succ_le_succ shallow⟩

theorem Readable.before {depth : Nat} {loc : Option Location} {op : UnaryOperator}
    {operand : Expr} (readable : (unary loc op operand).Readable depth)
    (after : op.isAfter = true) : operand.Readable depth := by
  have shallow := readable.shallow
  rw [nesting, if_pos after] at shallow
  exact ⟨readable.leveled.1, readable.settled, shallow⟩

/-- An expression that the grammar reads on its own: it is leveled, and nests no deeper than the
grammar goes. Nothing is asked of its names, which only matter once it is scanned. -/
structure Regular (e : Expr) : Prop where
  leveled : e.Leveled
  shallow : e.nesting ≤ Grammar.nestingLimit

end Expr

namespace Grammar

/-- Whether a parser reads an expression, but for locations, and leaves the given marks.
Locations are left out because tokens with the same marks may stand anywhere. -/
def Gives (parser : Parser Expr) (e : Expr) (ts : List Token) (behind : List Mark) : Prop :=
  ∃ read rest, parser ts = .ok (read, rest) ∧ read.bare = e.bare ∧ marksOf rest = behind

/-- Whether a parser reads every expression of a level from its marks, if what stands behind
them goes on at a looser level only. The last condition is needed: an operator of this level
behind the marks would become a part of the expression. -/
def Complete (level depth : Nat) (parser : Parser Expr) : Prop :=
  ∀ ⦃e : Expr⦄ ⦃ts : List Token⦄ ⦃behind : List Mark⦄, e.Readable depth → level ≤ e.level →
    marksOf ts = e.marks ++ behind → follow behind < level → Gives parser e ts behind

theorem marksOf_drop_append {ts : List Token} {ms rest : List Mark}
    (marks : marksOf ts = ms ++ rest) {n : Nat} (length : ms.length = n) :
    marksOf (ts.drop n) = rest := by
  rw [marksOf_drop, marks, ← length, List.drop_left]

/-! ### Chains -/

theorem length_marks_pos (op : BinaryOperator) : 0 < op.marks.length := by
  cases op <;> decide

/-- Whether an expression is read as the left operand of what stands behind it: the chain of a
level goes on with it, and there are enough operators to go. What an expression is made of is
read before, so this is what one link of a chain hands to the next. -/
def ChainGoesOn (sheet : Sheet) (operand : Parser Expr) (found : Matcher) (e : Expr)
    (ts : List Token) (behind : List Mark) : Prop :=
  ∃ read rest most, level sheet operand found ts = chain sheet operand found most read rest ∧
    read.bare = e.bare ∧ marksOf rest = behind ∧ rest.length ≤ most.length

/-- What is read as an operand is read as the first operand of a chain. No operator has been
taken yet. -/
theorem ChainGoesOn.first {sheet : Sheet} {operand : Parser Expr} {found : Matcher} {e : Expr}
    {ts : List Token} {behind : List Mark} (gives : Gives operand e ts behind) :
    ChainGoesOn sheet operand found e ts behind := by
  obtain ⟨read, rest, here, same, left⟩ := gives
  refine ⟨read, rest, rest, ?_, same, left, Nat.le_refl _⟩
  rw [level, here]

/-- A chain that goes on with a left operand goes on with what an operator makes of it and
of the right operand. The operator takes a token at least, so there are still enough
operators to go. -/
theorem ChainGoesOn.binary {sheet : Sheet} {operand : Parser Expr} {found : Matcher}
    {loc : Option Location} {op : BinaryOperator} {left right : Expr} {ts : List Token}
    {behind : List Mark}
    (goesOn : ChainGoesOn sheet operand found left ts (op.marks ++ (right.marks ++ behind)))
    (finds : ∀ {rest : List Token}, marksOf rest = op.marks ++ (right.marks ++ behind) →
      found rest = some (op, op.marks.length))
    (gives : ∀ {rest : List Token}, marksOf rest = right.marks ++ behind →
      Gives operand right rest behind) :
    ChainGoesOn sheet operand found (.binary loc op left right) ts behind := by
  obtain ⟨read, rest, most, here, same, marks, enough⟩ := goesOn
  obtain ⟨readRight, after, there, sameRight, marksRight⟩ := gives (marksOf_drop_append marks rfl)
  have size := congrArg List.length marks
  have sizeRight := congrArg List.length marksRight
  have positive := length_marks_pos op
  simp only [length_marksOf, List.length_append] at size sizeRight
  cases most with
  | nil =>
    rw [List.length_nil] at enough
    omega
  | cons t most =>
    rw [List.length_cons] at enough
    refine ⟨.binary (sheet.locate rest) op read readRight, after, most, ?_, ?_, marksRight, ?_⟩
    · rw [here, chain, finds marks]
      simp only
      rw [rightOperand_eq_ok.mpr there]
    · rw [Expr.bare, Expr.bare, same, sameRight]
    · omega

/-- An expression at the level of a chain is read as the left operand of what follows.

Proof: induction over the expression, along its left operands. A tighter expression is
the first operand of the chain, and the chain goes on from the left operand of every
other one. -/
theorem level_goesOn (sheet : Sheet) {operand : Parser Expr} {found : Matcher} {level depth : Nat}
    (complete : Complete (level + 1) depth operand) (decides : Decides level found)
    (isChain : level ≤ 6) {e : Expr} (readable : e.Readable depth) (tight : level ≤ e.level)
    {ts : List Token} {behind : List Mark} (marks : marksOf ts = e.marks ++ behind)
    (ahead : follow behind ≤ level) : ChainGoesOn sheet operand found e ts behind := by
  induction e generalizing behind with
  | number | text | var | group =>
    have tighter : level + 1 ≤ 10 := by omega
    exact .first (complete readable tighter marks (Nat.lt_succ_of_le ahead))
  | unary loc op operand =>
    have tighter : level + 1 ≤ (Expr.unary loc op operand).level := by
      cases op <;> simp [Expr.level, UnaryOperator.level] <;> omega
    exact .first (complete readable tighter marks (Nat.lt_succ_of_le ahead))
  | binary loc op left right leftHypothesis _ =>
    by_cases tighter : level + 1 ≤ (Expr.binary loc op left right).level
    · exact .first (complete readable tighter marks (Nat.lt_succ_of_le ahead))
    · have isLevel : op.level = level := by
        rw [Expr.level] at tight tighter
        omega
      have noPow : op ≠ .pow := by
        rintro rfl
        rw [← isLevel] at isChain
        contradiction
      obtain ⟨tightLeft, tightRight⟩ : op.level ≤ left.level ∧ op.level < right.level := by
        have fits := readable.leveled.2.2
        rwa [Expr.fitsBinary, if_neg noPow] at fits
      rw [Expr.marks, List.append_assoc, List.append_assoc] at marks
      have goesOn := leftHypothesis readable.left (isLevel ▸ tightLeft) marks
        (Nat.le_of_eq (by rw [follow_marks, isLevel]))
      apply goesOn.binary
      · intro rest marksRest
        exact decides.finds isLevel marksRest
      · intro rest marksRest
        exact complete (readable.right noPow) (isLevel ▸ tightRight) marksRest
          (Nat.lt_succ_of_le ahead)

/-- The operators of a level and their operands are read from their marks. What is left of an
operator may be of its own level, what is right of it not. -/
theorem complete_level {sheet : Sheet} {operand : Parser Expr} {found : Matcher} {level depth : Nat}
    (complete : Complete (level + 1) depth operand) (decides : Decides level found)
    (isChain : level ≤ 6) : Complete level depth (Grammar.level sheet operand found) := by
  intro e ts behind readable tight marks ahead
  obtain ⟨read, rest, most, here, same, left, _⟩ :=
    level_goesOn sheet complete decides isChain readable tight marks (Nat.le_of_lt ahead)
  refine ⟨read, rest, ?_, same, left⟩
  have stops : found rest = none := decides.stops (left ▸ ahead)
  rw [here]
  cases most with
  | nil => rfl
  | cons t most => rw [chain, stops]

/-! ### Operands -/

/-- Whether the parsers one level down read what is readable there. They are the three that a
level calls, for a group, for the right side of a power, and behind a word or a sign. -/
structure NestedComplete (depth : Nat) (nested : Nested) : Prop where
  expression : Complete 1 depth nested.expression
  power : Complete 7 depth nested.power
  signed : Complete 9 depth nested.signed

/-- Where an expression does not go on with a step, no step sign stands. A step sign would go on
with the variable before all else. -/
theorem isPair_of_follow {ms : List Mark} (ahead : follow ms < 10) :
    Mark.isPair .plus .plus ms = false ∧ Mark.isPair .minus .minus ms = false := by
  constructor
  · rw [Bool.eq_false_iff]
    intro isPair
    simp [follow, front_of_isPair isPair, isPair] at ahead
  · rw [Bool.eq_false_iff]
    intro isPair
    simp [follow, front_of_isPair isPair, isPair] at ahead

/-- A variable is read as a name with what stands behind it. The step is taken with the name,
before any operator is looked for. -/
theorem operand_of_variable (sheet : Sheet) (nested : Nested) {target : Variable}
    {ts : List Token} (settled : target.Settled) (found : (front ts).lexeme = target.lexeme) :
    operand sheet nested ts = stepped sheet target.name ts ∧
      Variable.named target.name = target := by
  constructor
  · unfold Variable.lexeme at found
    cases scope : target.scope with
    | chip =>
      rw [scope] at found
      simp [operand, found]
    | field =>
      rw [scope] at found
      simp [operand, found]
  · exact settled.2

/-- A variable is read, unless a step sign stands behind it. -/
theorem gives_variable {sheet : Sheet} {nested : Nested} {loc : Option Location}
    {target : Variable} {ts : List Token} {behind : List Mark} (settled : target.Settled)
    (marks : marksOf ts = .apart target.lexeme :: behind) (ahead : follow behind < 10) :
    Gives (operand sheet nested) (.var loc target) ts behind := by
  obtain ⟨here, named⟩ := operand_of_variable sheet nested settled
    (by rw [lexeme_front, marks]; rfl)
  have rest : marksOf (ts.drop 1) = behind := by rw [marksOf_drop, marks]; rfl
  obtain ⟨noIncrement, noDecrement⟩ := isPair_of_follow ahead
  refine ⟨.var (sheet.locate ts) target, ts.drop 1, ?_, rfl, rest⟩
  rw [here, stepped]
  simp only [isPair_marksOf, rest, noIncrement, noDecrement, named, Bool.false_eq_true, if_false]

theorem gives_step {sheet : Sheet} {nested : Nested} {loc place : Option Location}
    {op : UnaryOperator} {target : Variable} {ts : List Token} {behind : List Mark}
    (isStep : op = .postIncrement ∨ op = .postDecrement) (settled : target.Settled)
    (marks : marksOf ts = .apart target.lexeme :: (op.marks ++ behind)) :
    Gives (operand sheet nested) (.unary loc op (.var place target)) ts behind := by
  obtain ⟨here, named⟩ := operand_of_variable sheet nested settled
    (by rw [lexeme_front, marks]; rfl)
  have rest : marksOf (ts.drop 1) = op.marks ++ behind := by rw [marksOf_drop, marks]; rfl
  have after : marksOf ((ts.drop 1).drop 2) = behind :=
    marksOf_drop_append rest (by rcases isStep with rfl | rfl <;> rfl)
  refine ⟨.unary (sheet.locate ts) op (.var (sheet.locate ts) target), _, ?_, rfl, after⟩
  rw [here, stepped]
  simp only [isPair_marksOf, rest, named]
  rcases isStep with rfl | rfl <;> simp [UnaryOperator.marks]

theorem gives_group {sheet : Sheet} {nested : Nested} {loc : Option Location} {body : Expr}
    {ts : List Token} {behind : List Mark}
    (marks : marksOf ts = Mark.single .leftParen ++
      (body.marks ++ (Mark.single .rightParen ++ behind)))
    (inner : Gives nested.expression body (ts.drop 1) (Mark.single .rightParen ++ behind)) :
    Gives (operand sheet nested) (.group loc body) ts behind := by
  obtain ⟨read, rest, here, same, left⟩ := inner
  have opening : (front ts).lexeme = .symbol .leftParen := by rw [lexeme_front, marks]; rfl
  have closing : (front rest).lexeme = .symbol .rightParen := by rw [lexeme_front, left]; rfl
  refine ⟨.group (sheet.locate ts) read, rest.drop 1, ?_, by rw [Expr.bare, Expr.bare, same],
    marksOf_drop_append left rfl⟩
  simp only [operand, opening, here, closing, if_true]

theorem level_pos (op : BinaryOperator) : 1 ≤ op.level := by cases op <;> decide

theorem one_le_level (e : Expr) : 1 ≤ e.level := by
  cases e with
  | binary _ op => exact level_pos op
  | unary _ op => cases op <;> simp [Expr.level, UnaryOperator.level]
  | _ => simp [Expr.level]

/-- A number, a text, a variable or a group is read from its marks.

Proof: by the kinds of the tightest expressions. A step behind a variable belongs to the
variable, so none may stand behind one that is not stepped. -/
theorem complete_operand (sheet : Sheet) {nested : Nested} {depth : Nat}
    (inner : NestedComplete depth nested) : Complete 10 (depth + 1) (operand sheet nested) := by
  intro e ts behind readable tight marks ahead
  cases e with
  | number loc value =>
    have found : (front ts).lexeme = .number value := by rw [lexeme_front, marks]; rfl
    refine ⟨.number (sheet.locate ts) value, ts.drop 1, ?_, rfl, marksOf_drop_append marks rfl⟩
    simp only [operand, found]
  | text loc value =>
    have found : (front ts).lexeme = .text value := by rw [lexeme_front, marks]; rfl
    refine ⟨.text (sheet.locate ts) value, ts.drop 1, ?_, rfl, marksOf_drop_append marks rfl⟩
    simp only [operand, found]
  | var loc target => exact gives_variable readable.settled marks ahead
  | group loc body =>
    rw [Expr.marks, List.append_assoc, List.append_assoc] at marks
    exact gives_group marks (inner.expression readable.inner (one_le_level body)
      (marksOf_drop_append marks rfl) (by simp [follow, Mark.single]))
  | binary loc op => cases op <;> contradiction
  | unary loc op body =>
    have isStep : op = .postIncrement ∨ op = .postDecrement := by
      cases op with
      | postIncrement => exact .inl rfl
      | postDecrement => exact .inr rfl
      | _ => contradiction
    have isVariable : body.isVariable = true := by
      have fits := readable.leveled.2
      rcases isStep with rfl | rfl <;> exact fits
    cases body with
    | var place target =>
      apply gives_step isStep readable.settled
      rcases isStep with rfl | rfl <;> exact marks
    | _ => contradiction

/-! ### Signs -/

/-- The tightest expressions begin with no sign and no word. -/
theorem matchSign_of_tight {e : Expr} {ts : List Token} {behind : List Mark}
    (leveled : e.Leveled) (tight : 10 ≤ e.level) (marks : marksOf ts = e.marks ++ behind) :
    matchSign ts = none := by
  have ofVariable {target : Variable} {rest : List Mark}
      (shape : marksOf ts = .apart target.lexeme :: rest) : matchSign ts = none := by
    have found : (front ts).lexeme = target.lexeme := by rw [lexeme_front, shape]; rfl
    unfold Variable.lexeme at found
    cases scope : target.scope with
    | chip => simp [matchSign, found, scope]
    | field => simp [matchSign, found, scope]
  cases e with
  | number loc value =>
    have found : (front ts).lexeme = .number value := by rw [lexeme_front, marks]; rfl
    simp only [matchSign, found]
  | text loc value =>
    have found : (front ts).lexeme = .text value := by rw [lexeme_front, marks]; rfl
    simp only [matchSign, found]
  | var loc target => exact ofVariable marks
  | group loc body =>
    have found : (front ts).lexeme = .symbol .leftParen := by rw [lexeme_front, marks]; rfl
    simp only [matchSign, found]
  | binary loc op => cases op <;> contradiction
  | unary loc op body =>
    have isVariable : body.isVariable = true ∧ op.isAfter = true := by
      cases op with
      | postIncrement | postDecrement => exact ⟨leveled.2, rfl⟩
      | _ => contradiction
    cases body with
    | var place target =>
      rw [Expr.marks, if_pos isVariable.2, List.append_assoc] at marks
      exact ofVariable marks
    | _ => exact absurd isVariable.1 (by simp [Expr.isVariable])

theorem exists_marks_of_steppable {e : Expr}
    (steppable : e.isVariable = true ∨ e.isStepAfter = true) :
    ∃ (target : Variable) (rest : List Mark), e.marks = .apart target.lexeme :: rest := by
  cases e with
  | var loc target => exact ⟨target, [], rfl⟩
  | unary loc op body =>
    have isVariable : body.isVariable = true ∧ op.isAfter = true := by
      cases op with
      | postIncrement | postDecrement =>
        constructor
        · simpa [Expr.isVariable, Expr.isStepAfter] using steppable
        · rfl
      | _ => simp [Expr.isVariable, Expr.isStepAfter] at steppable
    cases body with
    | var place target => exact ⟨target, _, by rw [Expr.marks, if_pos isVariable.2]; rfl⟩
    | _ => exact absurd isVariable.1 (by simp [Expr.isVariable])
  | _ => simp [Expr.isVariable, Expr.isStepAfter] at steppable

theorem isStepBefore_of_steppable {sign : Symbol} {body : Expr} {ts : List Token}
    {behind : List Mark} (steppable : body.isVariable = true ∨ body.isStepAfter = true)
    (marks : marksOf ts = Mark.pair sign sign ++ (body.marks ++ behind)) :
    isStepBefore sign ts = true := by
  obtain ⟨target, rest, shape⟩ := exists_marks_of_steppable steppable
  have third : marksOf (ts.drop 2) = body.marks ++ behind := marksOf_drop_append marks rfl
  have isName : (front (ts.drop 2)).lexeme.nameOf?.isSome = true := by
    rw [lexeme_front, third, shape, List.cons_append, Mark.front_cons, Mark.lexeme_apart,
      target.nameOf?_lexeme]
    rfl
  rw [isStepBefore, isPair_marksOf, marks, Mark.isPair_pair, isName]
  simp

theorem matchSign_of_before {op : UnaryOperator} {body : Expr} {ts : List Token}
    {behind : List Mark} (before : op.isAfter = false) (fits : Expr.fitsUnary op body)
    (marks : marksOf ts = op.marks ++ (body.marks ++ behind)) :
    matchSign ts = some (op, op.marks.length) := by
  have word {k : Keyword} (isWord : op.marks = Mark.word k) (unary : k.unary? = some op) :
      matchSign ts = some (op, op.marks.length) := by
    have found : (front ts).lexeme = .keyword k := by rw [lexeme_front, marks, isWord]; rfl
    simp [matchSign, found, unary, isWord, Mark.word]
  cases op with
  | neg =>
    have found : (front ts).lexeme = .symbol .minus := by rw [lexeme_front, marks]; rfl
    have noStep : isStepBefore .minus ts = false := by
      rw [isStepBefore, isPair_marksOf, marks]
      simp [UnaryOperator.marks, Mark.single]
    simp [matchSign, found, noStep, UnaryOperator.marks, Mark.single]
  | preIncrement =>
    have found : (front ts).lexeme = .symbol .plus := by rw [lexeme_front, marks]; rfl
    simp [matchSign, found, isStepBefore_of_steppable fits marks, UnaryOperator.marks]
  | preDecrement =>
    have found : (front ts).lexeme = .symbol .minus := by rw [lexeme_front, marks]; rfl
    simp [matchSign, found, isStepBefore_of_steppable fits marks, UnaryOperator.marks]
  | postIncrement | postDecrement | factorial => contradiction
  | abs => exact word (k := .abs) rfl rfl
  | sqrt => exact word (k := .sqrt) rfl rfl
  | sin => exact word (k := .sin) rfl rfl
  | cos => exact word (k := .cos) rfl rfl
  | tan => exact word (k := .tan) rfl rfl
  | arcsin => exact word (k := .arcsin) rfl rfl
  | arccos => exact word (k := .arccos) rfl rfl
  | arctan => exact word (k := .arctan) rfl rfl
  | not => exact word (k := .not) rfl rfl

/-- An expression that holds together as tightly as a word or a sign is one behind such an
operator, or one of the tightest. -/
theorem before_or_tight {e : Expr} (tight : 9 ≤ e.level) :
    10 ≤ e.level ∨ ∃ loc op body, e = .unary loc op body ∧ op.isAfter = false := by
  cases e with
  | binary _ op => cases op <;> contradiction
  | unary loc op body =>
    cases op with
    | postIncrement | postDecrement => exact .inl (Nat.le_refl _)
    | factorial => contradiction
    | _ => exact .inr ⟨loc, _, body, rfl, rfl⟩
  | _ => exact .inl (Nat.le_refl _)

/-- What fits a word or a sign before it holds together as tightly. -/
theorem tight_of_fitsUnary {op : UnaryOperator} {body : Expr} (before : op.isAfter = false)
    (fits : Expr.fitsUnary op body) : 9 ≤ body.level := by
  have steppable (found : body.isVariable = true ∨ body.isStepAfter = true) : 9 ≤ body.level := by
    cases body with
    | binary => simp [Expr.isVariable, Expr.isStepAfter] at found
    | unary _ op =>
      cases op with
      | postIncrement | postDecrement => exact Nat.le_succ 9
      | _ => simp [Expr.isVariable, Expr.isStepAfter] at found
    | _ => exact Nat.le_succ 9
  cases op with
  | preIncrement | preDecrement => exact steppable fits
  | postIncrement | postDecrement | factorial => contradiction
  | _ => exact fits

/-- A word or a sign before an operand is read from its marks. -/
theorem complete_signed (sheet : Sheet) {nested : Nested} {depth : Nat}
    (inner : NestedComplete depth nested) : Complete 9 (depth + 1) (signed sheet nested) := by
  intro e ts behind readable tight marks ahead
  rcases before_or_tight tight with tighter | ⟨loc, op, body, rfl, before⟩
  · have noSign := matchSign_of_tight readable.leveled tighter marks
    obtain ⟨read, rest, here, same, left⟩ := complete_operand sheet inner readable
      tighter marks (Nat.lt_succ_of_lt ahead)
    refine ⟨read, rest, ?_, same, left⟩
    rw [signed, noSign]
    exact here
  · rw [Expr.marks, if_neg (by simp [before]), List.append_assoc] at marks
    have fits := readable.leveled.2
    obtain ⟨read, rest, here, same, left⟩ := inner.signed (readable.behind before)
      (tight_of_fitsUnary before fits) (marksOf_drop_append marks rfl) ahead
    refine ⟨.unary (sheet.locate ts) op read, rest, ?_, by rw [Expr.bare, Expr.bare, same], left⟩
    rw [signed, matchSign_of_before before fits marks]
    simp only [here]

/-! ### Powers -/

/-- Where an expression goes on at a looser level than factorials, none is taken. This is where
the looser levels take over. -/
theorem factorials_stop (sheet : Sheet) (e : Expr) {ts : List Token}
    (ahead : follow (marksOf ts) < 8) : factorials sheet e ts = (e, ts) := by
  cases ts with
  | nil => rfl
  | cons t rest =>
    rw [factorials, if_neg]
    rintro ⟨isBang, noPair⟩
    have found : Mark.front (marksOf (t :: rest)) = .symbol .bang := isBang
    rw [isPair_marksOf] at noPair
    simp [follow, found, noPair] at ahead

/-- Whether a base with factorial signs behind it is read as the operand of those that follow.
No sign is taken before its base is read in full. -/
def FactorialsGoOn (sheet : Sheet) (nested : Nested) (e : Expr) (ts : List Token)
    (behind : List Mark) : Prop :=
  ∃ base after read rest, signed sheet nested ts = .ok (base, after) ∧
    factorials sheet base after = factorials sheet read rest ∧
    read.bare = e.bare ∧ marksOf rest = behind

/-- What is read as an operand of a sign is a base without factorial signs. -/
theorem FactorialsGoOn.base {sheet : Sheet} {nested : Nested} {e : Expr} {ts : List Token}
    {behind : List Mark} (gives : Gives (signed sheet nested) e ts behind) :
    FactorialsGoOn sheet nested e ts behind := by
  obtain ⟨read, rest, here, same, left⟩ := gives
  exact ⟨read, rest, read, rest, here, rfl, same, left⟩

/-- A factorial sign that stands apart belongs to the base before it. Beside an equals sign it
is the beginning of another operator. -/
theorem FactorialsGoOn.sign {sheet : Sheet} {nested : Nested} {loc : Option Location}
    {body : Expr} {ts : List Token} {behind : List Mark}
    (goesOn : FactorialsGoOn sheet nested body ts (.apart (.symbol .bang) :: behind)) :
    FactorialsGoOn sheet nested (.unary loc .factorial body) ts behind := by
  obtain ⟨base, after, read, rest, here, goesOn, same, left⟩ := goesOn
  cases rest with
  | nil => contradiction
  | cons t rest =>
    have isBang : t.lexeme = .symbol .bang := by
      have found := lexeme_front (t :: rest)
      rw [left] at found
      exact found
    have noPair : isPair .bang .equals (t :: rest) = false := by
      rw [isPair_marksOf, left, Mark.isPair_apart]
    refine ⟨base, after, .unary (sheet.locate (t :: rest)) .factorial read, rest, here, ?_,
      by rw [Expr.bare, Expr.bare, same], (List.cons.inj left).2⟩
    rw [goesOn, factorials, if_pos ⟨isBang, noPair⟩]

/-- A base with factorial signs behind it is read as the operand of those that follow.

Proof: induction over the expression, along the operands of its signs. -/
theorem factorials_goOn (sheet : Sheet) {nested : Nested} {depth : Nat}
    (inner : NestedComplete depth nested) {e : Expr} (readable : e.Readable (depth + 1))
    (tight : 8 ≤ e.level) {ts : List Token} {behind : List Mark}
    (marks : marksOf ts = e.marks ++ behind) (ahead : follow behind ≤ 8) :
    FactorialsGoOn sheet nested e ts behind := by
  induction e generalizing behind with
  | number | text | var | group =>
    have tighter : 9 ≤ 10 := by decide
    exact .base (complete_signed sheet inner readable tighter marks (Nat.lt_succ_of_le ahead))
  | binary loc op => cases op <;> contradiction
  | unary loc op body inductionHypothesis =>
    by_cases isFactorial : op = .factorial
    · subst isFactorial
      have fits : 8 ≤ body.level := readable.leveled.2
      rw [Expr.marks, if_pos (by rfl), List.append_assoc] at marks
      exact .sign (inductionHypothesis (readable.before rfl) fits marks (by simp [follow]))
    · have tighter : 9 ≤ (Expr.unary loc op body).level := by
        cases op with
        | factorial => exact absurd rfl isFactorial
        | postIncrement | postDecrement => exact Nat.le_succ 9
        | _ => exact Nat.le_refl 9
      exact .base (complete_signed sheet inner readable tighter marks (Nat.lt_succ_of_le ahead))

/-- What holds together more tightly than a power is read with its factorial signs, if no more
of them follow. -/
theorem signed_factorials (sheet : Sheet) {nested : Nested} {depth : Nat}
    (inner : NestedComplete depth nested) {e : Expr} (readable : e.Readable (depth + 1))
    (tight : 8 ≤ e.level) {ts : List Token} {behind : List Mark}
    (marks : marksOf ts = e.marks ++ behind) (ahead : follow behind < 8) :
    ∃ base after read rest, signed sheet nested ts = .ok (base, after) ∧
      factorials sheet base after = (read, rest) ∧ read.bare = e.bare ∧
      marksOf rest = behind := by
  obtain ⟨base, after, read, rest, here, goesOn, same, left⟩ :=
    factorials_goOn sheet inner readable tight marks (Nat.le_of_lt ahead)
  rw [factorials_stop sheet read (left ▸ ahead)] at goesOn
  exact ⟨base, after, read, rest, here, goesOn, same, left⟩

/-- A power, or an expression that holds together more tightly, is read from its marks. -/
theorem complete_power (sheet : Sheet) {nested : Nested} {depth : Nat}
    (inner : NestedComplete depth nested) : Complete 7 (depth + 1) (power sheet nested) := by
  intro e ts behind readable tight marks ahead
  by_cases tighter : 8 ≤ e.level
  · obtain ⟨base, after, read, rest, here, goesOn, same, left⟩ :=
      signed_factorials sheet inner readable tighter marks (Nat.lt_succ_of_lt ahead)
    have noCaret : (front rest).lexeme ≠ .symbol .caret := by
      rw [lexeme_front, left]
      intro isCaret
      simp [follow, isCaret] at ahead
    refine ⟨read, rest, ?_, same, left⟩
    simp only [power, here, goesOn, if_neg noCaret]
  · cases e with
    | binary loc op left right =>
      have isPow : op = .pow := by
        cases op with
        | pow => rfl
        | _ => contradiction
      subst isPow
      obtain ⟨tightLeft, tightRight⟩ : 8 ≤ left.level ∧ 7 ≤ right.level := readable.leveled.2.2
      rw [Expr.marks, List.append_assoc, List.append_assoc] at marks
      obtain ⟨base, after, read, rest, here, goesOn, same, caret⟩ :=
        signed_factorials sheet inner readable.left tightLeft marks (by simp [BinaryOperator.level])
      have isCaret : (front rest).lexeme = .symbol .caret := by rw [lexeme_front, caret]; rfl
      obtain ⟨readRight, behindRight, there, sameRight, leftRight⟩ := inner.power
        readable.exponent tightRight (marksOf_drop_append caret rfl) ahead
      refine ⟨.binary (sheet.locate rest) .pow read readRight, behindRight, ?_,
        by rw [Expr.bare, Expr.bare, same, sameRight], leftRight⟩
      have operandRight : rightOperand nested.power .pow read (rest.drop 1) =
          .ok (readRight, behindRight) := rightOperand_eq_ok.mpr there
      simp only [power, here, goesOn, if_pos isCaret, operandRight]
    | unary loc op body =>
      refine absurd ?_ tighter
      cases op <;> simp [Expr.level, UnaryOperator.level]
    | _ => exact absurd (by simp [Expr.level]) tighter

/-! ### Expressions -/

theorem complete_expressionOver (sheet : Sheet) {nested : Nested} {depth : Nat}
    (inner : NestedComplete depth nested) :
    Complete 1 (depth + 1) (expressionOver sheet nested) := by
  have powers : Complete 7 (depth + 1) (power sheet nested) := complete_power sheet inner
  have product : Complete 6 (depth + 1) (level sheet _ matchProduct) :=
    complete_level powers decides_matchProduct (by decide)
  have sum : Complete 5 (depth + 1) (level sheet _ matchSum) :=
    complete_level product decides_matchSum (by decide)
  have comparison : Complete 4 (depth + 1) (level sheet _ matchComparison) :=
    complete_level sum decides_matchComparison (by decide)
  have equality : Complete 3 (depth + 1) (level sheet _ matchEquality) :=
    complete_level comparison decides_matchEquality (by decide)
  have conjunction : Complete 2 (depth + 1) (level sheet _ matchAnd) :=
    complete_level equality decides_matchAnd (by decide)
  exact complete_level conjunction decides_matchOr (by decide)

theorem nesting_pos (e : Expr) : 0 < e.nesting := by
  induction e with
  | number | text | var | group => exact Nat.succ_pos _
  | binary _ _ _ _ left _ => exact Nat.lt_of_lt_of_le left (Nat.le_max_left _ _)
  | unary _ op _ inductionHypothesis =>
    rw [Expr.nesting]
    by_cases after : op.isAfter = true
    · rw [if_pos after]
      exact inductionHypothesis
    · rw [if_neg after]
      exact Nat.succ_pos _

/-- What nests is read from its marks at every depth that it needs.

Proof: induction over the depth. At depth zero nothing is readable. -/
theorem nestedComplete (sheet : Sheet) (depth : Nat) :
    NestedComplete depth (nested sheet depth) := by
  induction depth with
  | zero =>
    have none {level : Nat} {parser : Parser Expr} : Complete level 0 parser := by
      intro e ts behind readable
      exact absurd readable.shallow (Nat.not_le.mpr (nesting_pos e))
    exact ⟨none, none, none⟩
  | succ depth inner =>
    exact ⟨complete_expressionOver sheet inner, complete_power sheet inner,
      complete_signed sheet inner⟩

theorem complete_expression (sheet : Sheet) : Complete 1 nestingLimit (expression sheet) :=
  (nestedComplete sheet nestingLimit).expression

end Grammar

end YololChip
