import YololChip.Proofs.Scanned
import YololChip.Source.Grammar

/-!
# What is read as an expression was written

A parser loses no token and invents none: the tokens that it takes are the marks of the
expression that it gives. And it groups by precedence alone: the expression is leveled.

Each parser has one lemma, which says this of the parser for all tokens and assumes it of
the parsers inside. The levels of chains share theirs. Depth ties the knot: what holds of
the parsers one level down holds of those above, and at no depth at all nothing is read.
-/

namespace YololChip.Grammar

/-- What is known of an expression that was read at a level: its marks were taken, and it holds
together at least as tightly as its level asks. So the tokens that were taken are known from the
expression, but for their places. -/
structure ReadsExpr (level : Nat) (e : Expr) (ts rest : List Token) : Prop where
  takes : Takes e.marks ts rest
  tight : level ≤ e.level
  leveled : e.Leveled
  settled : e.Settled

/-- What was read at a level was read at the next looser one. The levels hand on what they read
without an operator of their own. -/
theorem ReadsExpr.loosen {level : Nat} {e : Expr} {ts rest : List Token}
    (read : ReadsExpr (level + 1) e ts rest) : ReadsExpr level e ts rest :=
  { read with tight := Nat.le_of_succ_le read.tight }

/-- Whether a parser of expressions reads what was written. It may leave any tokens behind, and
may give up on tokens that another reading would take. -/
def Sound (level : Nat) (parser : Parser Expr) : Prop :=
  ∀ ⦃ts rest : List Token⦄ ⦃e : Expr⦄, Scanned ts → parser ts = .ok (e, rest) →
    ReadsExpr level e ts rest

/-- What is left when marks were taken is such as a scanner gives. -/
theorem scanned_of_takes {ms : List Mark} {ts rest : List Token} (takes : Takes ms ts rest)
    (scanned : Scanned ts) : Scanned rest := by
  obtain ⟨used, rfl, _⟩ := takes
  exact scanned.of_append

theorem sound_stop (level : Nat) (fault : ParseFault) : Sound level (stop fault) := by
  intro ts rest e _ read
  contradiction

/-! ### Chains -/

/-- Whether a matcher finds the operators of a level by their marks. A power is no operator of a
chain, since it leans to the right. -/
def Finds (level : Nat) (found : Matcher) : Prop :=
  ∀ ⦃ts : List Token⦄ ⦃op : BinaryOperator⦄ ⦃width : Nat⦄, found ts = some (op, width) →
    op.level = level ∧ op ≠ .pow ∧ Takes op.marks ts (ts.drop width)

theorem takes_word {ts : List Token} {k : Keyword} (found : (front ts).lexeme = .keyword k)
    (noElse : k ≠ .elseWord) : Takes (Mark.word k) ts (ts.drop 1) :=
  .one found rfl fun same => noElse (Lexeme.keyword.inj same)

theorem takes_single {ts : List Token} {s : Symbol} (found : (front ts).lexeme = .symbol s) :
    Takes (Mark.single s) ts (ts.drop 1) :=
  .one found rfl (by simp)

theorem finds_matchOr : Finds 1 matchOr := by
  intro ts op width found
  unfold matchOr at found
  split at found
  · next isOr =>
    obtain ⟨rfl, rfl⟩ := Prod.mk.inj (Option.some.inj found)
    exact ⟨rfl, by decide, takes_word isOr (by decide)⟩
  · contradiction

theorem finds_matchAnd : Finds 2 matchAnd := by
  intro ts op width found
  unfold matchAnd at found
  split at found
  · next isAnd =>
    obtain ⟨rfl, rfl⟩ := Prod.mk.inj (Option.some.inj found)
    exact ⟨rfl, by decide, takes_word isAnd (by decide)⟩
  · contradiction

theorem finds_matchEquality : Finds 3 matchEquality := by
  intro ts op width found
  unfold matchEquality at found
  split at found
  · next isPair =>
    obtain ⟨rfl, rfl⟩ := Prod.mk.inj (Option.some.inj found)
    exact ⟨rfl, by decide, .pair isPair⟩
  · split at found
    · next isPair =>
      obtain ⟨rfl, rfl⟩ := Prod.mk.inj (Option.some.inj found)
      exact ⟨rfl, by decide, .pair isPair⟩
    · contradiction

theorem finds_matchComparison : Finds 4 matchComparison := by
  intro ts op width found
  unfold matchComparison at found
  split at found
  · next isPair =>
    obtain ⟨rfl, rfl⟩ := Prod.mk.inj (Option.some.inj found)
    exact ⟨rfl, by decide, .pair isPair⟩
  · split at found
    · next isPair =>
      obtain ⟨rfl, rfl⟩ := Prod.mk.inj (Option.some.inj found)
      exact ⟨rfl, by decide, .pair isPair⟩
    · split at found
      · next isLess =>
        obtain ⟨rfl, rfl⟩ := Prod.mk.inj (Option.some.inj found)
        exact ⟨rfl, by decide, takes_single isLess⟩
      · next isGreater =>
        obtain ⟨rfl, rfl⟩ := Prod.mk.inj (Option.some.inj found)
        exact ⟨rfl, by decide, takes_single isGreater⟩
      · contradiction

theorem finds_matchSum : Finds 5 matchSum := by
  intro ts op width found
  unfold matchSum at found
  split at found
  · next isPlus =>
    obtain ⟨rfl, rfl⟩ := Prod.mk.inj (Option.some.inj found)
    exact ⟨rfl, by decide, takes_single isPlus⟩
  · next isMinus =>
    obtain ⟨rfl, rfl⟩ := Prod.mk.inj (Option.some.inj found)
    exact ⟨rfl, by decide, takes_single isMinus⟩
  · contradiction

theorem finds_matchProduct : Finds 6 matchProduct := by
  intro ts op width found
  unfold matchProduct at found
  split at found
  · next isStar =>
    obtain ⟨rfl, rfl⟩ := Prod.mk.inj (Option.some.inj found)
    exact ⟨rfl, by decide, takes_single isStar⟩
  · next isSlash =>
    obtain ⟨rfl, rfl⟩ := Prod.mk.inj (Option.some.inj found)
    exact ⟨rfl, by decide, takes_single isSlash⟩
  · next isPercent =>
    obtain ⟨rfl, rfl⟩ := Prod.mk.inj (Option.some.inj found)
    exact ⟨rfl, by decide, takes_single isPercent⟩
  · contradiction

theorem rightOperand_eq_ok {operand : Parser Expr} {op : BinaryOperator} {left : Expr}
    {ts : List Token} {read : Expr × List Token} :
    rightOperand operand op left ts = .ok read ↔ operand ts = .ok read := by
  unfold rightOperand
  constructor
  · intro found
    split at found
    · next here => rw [here, found]
    · split at found
      · split at found <;> contradiction
      · contradiction
  · intro found
    rw [found]

/-- A chain that may go on ends where no operator is found. Where one is found, its right operand
is read, and the chain goes on with the two as its left operand. -/
theorem chain_cons_eq_ok {sheet : Sheet} {operand : Parser Expr} {found : Matcher} {m : Token}
    {most ts rest : List Token} {left e : Expr} :
    chain sheet operand found (m :: most) left ts = .ok (e, rest) ↔
      (found ts = none ∧ e = left ∧ rest = ts) ∨
      ∃ op width right behind, found ts = some (op, width) ∧
        operand (ts.drop width) = .ok (right, behind) ∧
        chain sheet operand found most (.binary (sheet.locate ts) op left right) behind =
          .ok (e, rest) := by
  constructor
  · intro read
    unfold chain at read
    split at read
    · next none =>
      obtain ⟨rfl, rfl⟩ := Prod.mk.inj (Except.ok.inj read)
      exact .inl ⟨none, rfl, rfl⟩
    · next op width here =>
      split at read
      · contradiction
      · next right behind readRight =>
        exact .inr ⟨op, width, right, behind, here, rightOperand_eq_ok.mp readRight, read⟩
  · rintro (⟨none, rfl, rfl⟩ | ⟨op, width, right, behind, here, readRight, readLater⟩)
    · rw [chain, none]
    · rw [chain, here]
      simp only [rightOperand_eq_ok.mpr readRight, readLater]

/-- A chain is given up behind an operator only: at its right operand, or further on. -/
theorem chain_cons_eq_error {sheet : Sheet} {operand : Parser Expr} {found : Matcher} {m : Token}
    {most ts : List Token} {left : Expr} {stuck : Stuck} :
    chain sheet operand found (m :: most) left ts = .error stuck ↔
      ∃ op width, found ts = some (op, width) ∧
        (rightOperand operand op left (ts.drop width) = .error stuck ∨
        ∃ right behind, operand (ts.drop width) = .ok (right, behind) ∧
          chain sheet operand found most (.binary (sheet.locate ts) op left right) behind =
            .error stuck) := by
  constructor
  · intro failed
    unfold chain at failed
    split at failed
    · contradiction
    · next op width here =>
      split at failed
      · next stuckRight =>
        obtain rfl := Except.error.inj failed
        exact ⟨op, width, here, .inl stuckRight⟩
      · next right behind readRight =>
        exact ⟨op, width, here, .inr ⟨right, behind, rightOperand_eq_ok.mp readRight, failed⟩⟩
  · rintro ⟨op, width, here, stuckRight | ⟨right, behind, readRight, failed⟩⟩
    · rw [chain, here]
      simp only [stuckRight]
    · rw [chain, here]
      simp only [rightOperand_eq_ok.mpr readRight, failed]

/-- A level is read as its first operand and the chain behind that. -/
theorem level_eq_ok {sheet : Sheet} {operand : Parser Expr} {found : Matcher} {ts : List Token}
    {read : Expr × List Token} :
    level sheet operand found ts = .ok read ↔
      ∃ left behind, operand ts = .ok (left, behind) ∧
        chain sheet operand found behind left behind = .ok read := by
  constructor
  · intro found
    unfold level at found
    split at found
    · contradiction
    · next left behind readLeft => exact ⟨left, behind, readLeft, found⟩
  · rintro ⟨left, behind, readLeft, readChain⟩
    rw [level, readLeft]
    exact readChain

/-- A level is given up where its first operand is, or where the chain behind that is. -/
theorem level_eq_error {sheet : Sheet} {operand : Parser Expr} {found : Matcher}
    {ts : List Token} {stuck : Stuck} :
    level sheet operand found ts = .error stuck ↔
      operand ts = .error stuck ∨
      ∃ left behind, operand ts = .ok (left, behind) ∧
        chain sheet operand found behind left behind = .error stuck := by
  constructor
  · intro failed
    unfold level at failed
    split at failed
    · next stuckLeft =>
      obtain rfl := Except.error.inj failed
      exact .inl stuckLeft
    · next left behind readLeft => exact .inr ⟨left, behind, readLeft, failed⟩
  · rintro (stuckLeft | ⟨left, behind, readLeft, failed⟩)
    · rw [level, stuckLeft]
    · rw [level, readLeft]
      exact failed

/-- Two operands with an operator between them are read at the level of the operator.
Chains lean to the left, so the right operand is tighter. -/
theorem ReadsExpr.binary {level : Nat} {loc : Option Location} {op : BinaryOperator}
    {left right : Expr} {ts between behind rest : List Token}
    (readLeft : ReadsExpr level left ts between) (isLevel : op.level = level) (noPow : op ≠ .pow)
    (takesOp : Takes op.marks between behind)
    (readRight : ReadsExpr (level + 1) right behind rest) :
    ReadsExpr level (.binary loc op left right) ts rest where
  takes := (readLeft.takes.append takesOp).append readRight.takes
  tight := Nat.le_of_eq isLevel.symm
  leveled := by
    refine ⟨readLeft.leveled, readRight.leveled, ?_⟩
    rw [Expr.fitsBinary, if_neg noPow, isLevel]
    exact ⟨readLeft.tight, readRight.tight⟩
  settled := ⟨readLeft.settled, readRight.settled⟩

/-- A chain reads what was written: all that was taken before it stays taken.

Proof: induction over the operators that may follow. The expression so far is the left
operand of the next operator. -/
theorem reads_chain {sheet : Sheet} {operand : Parser Expr} {found : Matcher} {level : Nat}
    (operandSound : Sound (level + 1) operand) (finds : Finds level found)
    {start ts rest most : List Token} {left e : Expr} (scanned : Scanned start)
    (soFar : ReadsExpr level left start ts)
    (read : chain sheet operand found most left ts = .ok (e, rest)) :
    ReadsExpr level e start rest := by
  induction most generalizing left ts with
  | nil =>
    obtain ⟨rfl, rfl⟩ := Prod.mk.inj (Except.ok.inj read)
    exact soFar
  | cons _ most inductionHypothesis =>
    rcases chain_cons_eq_ok.mp read with
      ⟨_, rfl, rfl⟩ | ⟨op, width, right, behind, here, readRight, readLater⟩
    · exact soFar
    · obtain ⟨isLevel, noPow, takesOp⟩ := finds here
      have scannedBehind := scanned_of_takes takesOp (scanned_of_takes soFar.takes scanned)
      have rightRead := operandSound scannedBehind readRight
      exact inductionHypothesis (soFar.binary isLevel noPow takesOp rightRead) readLater

/-- The operators of a level and their operands are read as written. What is right of an
operator is tighter, so the chain leans to the left. -/
theorem sound_level {sheet : Sheet} {operand : Parser Expr} {found : Matcher} {level : Nat}
    (operandSound : Sound (level + 1) operand) (finds : Finds level found) :
    Sound level (Grammar.level sheet operand found) := by
  intro ts rest e scanned read
  obtain ⟨left, behind, readLeft, readChain⟩ := level_eq_ok.mp read
  have soFar := (operandSound scanned readLeft).loosen
  exact reads_chain operandSound finds scanned soFar readChain

/-! ### Operands -/

/-- A scanned name is the lexeme of the variable that it names, which is settled. The scope is
that of the lexeme, since the colon tells it. -/
theorem named_of_clean {lexeme : Lexeme} {name : String} (clean : lexeme.Clean)
    (found : lexeme.nameOf? = some name) :
    (Variable.named name).lexeme = lexeme ∧ (Variable.named name).Settled := by
  cases lexeme with
  | name n =>
    obtain rfl := Option.some.inj found
    obtain ⟨inhabited, lower, noField⟩ := clean
    refine ⟨?_, Variable.settled_named inhabited⟩
    simp [Variable.named, Variable.lexeme, lower, noField]
  | field n =>
    obtain rfl := Option.some.inj found
    obtain ⟨inhabited, lower, isField⟩ := clean
    refine ⟨?_, Variable.settled_named inhabited⟩
    simp [Variable.named, Variable.lexeme, lower, isField]
  | _ => contradiction

theorem plain_of_nameOf? {lexeme : Lexeme} {name : String} (found : lexeme.nameOf? = some name) :
    lexeme.endsLine = false ∧ lexeme ≠ .keyword .elseWord := by
  cases lexeme with
  | name | field => exact ⟨rfl, by simp⟩
  | _ => contradiction

/-- A scanned name at the front is taken as the variable that it names. -/
theorem reads_variable {ts : List Token} {name : String} (scanned : Scanned ts)
    (found : (front ts).lexeme.nameOf? = some name) (loc : Option Location) :
    ReadsExpr 10 (.var loc (Variable.named name)) ts (ts.drop 1) := by
  obtain ⟨same, settled⟩ := named_of_clean scanned.clean found
  obtain ⟨inLine, noElse⟩ := plain_of_nameOf? found
  refine ⟨?_, Nat.le_refl _, trivial, settled⟩
  rw [Expr.marks, same]
  exact .one rfl inLine noElse

/-- A variable is read with the step after it, if one follows. -/
theorem reads_stepped {sheet : Sheet} {ts rest : List Token} {name : String} {e : Expr}
    (scanned : Scanned ts) (found : (front ts).lexeme.nameOf? = some name)
    (read : stepped sheet name ts = .ok (e, rest)) : ReadsExpr 10 e ts rest := by
  have target := reads_variable scanned found (sheet.locate ts)
  unfold stepped at read
  simp only at read
  split at read
  · next isPair =>
    obtain ⟨rfl, rfl⟩ := Prod.mk.inj (Except.ok.inj read)
    exact ⟨target.takes.append (.pair isPair), Nat.le_refl _, ⟨trivial, rfl⟩, target.settled⟩
  · split at read
    · next isPair =>
      obtain ⟨rfl, rfl⟩ := Prod.mk.inj (Except.ok.inj read)
      exact ⟨target.takes.append (.pair isPair), Nat.le_refl _, ⟨trivial, rfl⟩, target.settled⟩
    · obtain ⟨rfl, rfl⟩ := Prod.mk.inj (Except.ok.inj read)
      exact target

/-- What an operand is read as and where it leaves off, a case for each token that may begin one.
A step behind a variable belongs to it. A group takes the sign that closes it. -/
inductive OperandAt (sheet : Sheet) (nested : Nested) (ts : List Token) :
    Expr → List Token → Prop where
  | number {value : Fixed} (found : (front ts).lexeme = .number value) :
    OperandAt sheet nested ts (.number (sheet.locate ts) value) (ts.drop 1)
  | text {value : String} (found : (front ts).lexeme = .text value) :
    OperandAt sheet nested ts (.text (sheet.locate ts) value) (ts.drop 1)
  | named {name : String} {e : Expr} {rest : List Token}
    (found : (front ts).lexeme.nameOf? = some name)
    (read : stepped sheet name ts = .ok (e, rest)) : OperandAt sheet nested ts e rest
  | group {body : Expr} {between : List Token} (opened : (front ts).lexeme = .symbol .leftParen)
    (read : nested.expression (ts.drop 1) = .ok (body, between))
    (closed : (front between).lexeme = .symbol .rightParen) :
    OperandAt sheet nested ts (.group (sheet.locate ts) body) (between.drop 1)

theorem OperandAt.of_operand {sheet : Sheet} {nested : Nested} {ts rest : List Token} {e : Expr}
    (found : operand sheet nested ts = .ok (e, rest)) : OperandAt sheet nested ts e rest := by
  unfold operand at found
  simp only at found
  split at found
  · next value isNumber =>
    obtain ⟨rfl, rfl⟩ := Prod.mk.inj (Except.ok.inj found)
    exact .number isNumber
  · next value isText =>
    obtain ⟨rfl, rfl⟩ := Prod.mk.inj (Except.ok.inj found)
    exact .text isText
  · next name isName => exact .named (by rw [isName]; rfl) found
  · next name isField => exact .named (by rw [isField]; rfl) found
  · next opened =>
    split at found
    · contradiction
    · next body between readBody =>
      split at found
      · next closed =>
        obtain ⟨rfl, rfl⟩ := Prod.mk.inj (Except.ok.inj found)
        exact .group opened readBody closed
      · contradiction
  · contradiction

/-- Whether the parsers one level down read what was written. -/
structure NestedSound (nested : Nested) : Prop where
  expression : Sound 1 nested.expression
  power : Sound 7 nested.power
  signed : Sound 9 nested.signed

/-- A number, a text, a variable or a group is read as written. -/
theorem sound_operand {sheet : Sheet} {nested : Nested} (inner : NestedSound nested) :
    Sound 10 (operand sheet nested) := by
  intro ts rest e scanned read
  cases OperandAt.of_operand read with
  | number found => exact ⟨.one found rfl (by simp), Nat.le_refl _, trivial, trivial⟩
  | text found => exact ⟨.one found rfl (by simp), Nat.le_refl _, trivial, trivial⟩
  | named found readName => exact reads_stepped scanned found readName
  | group opened readBody closed =>
    have takesLeft := takes_single opened
    have bodyRead := inner.expression (scanned_of_takes takesLeft scanned) readBody
    refine ⟨?_, Nat.le_refl _, bodyRead.leveled, bodyRead.settled⟩
    exact (takesLeft.append bodyRead.takes).append (takes_single closed)

/-! ### Signs -/

/-- A keyword before its operand is how its operator is written. -/
theorem marks_of_unary? {k : Keyword} {op : UnaryOperator} (found : k.unary? = some op) :
    op.marks = Mark.word k ∧ k ≠ .elseWord ∧ op.isAfter = false ∧ op.level = 9 ∧
      ∀ operand, 9 ≤ operand.level → Expr.fitsUnary op operand := by
  cases k with
  | goto | ifWord | thenWord | elseWord | endWord | and | or => contradiction
  | _ =>
    obtain rfl := Option.some.inj found
    exact ⟨rfl, by decide, rfl, rfl, fun _ tight => tight⟩

/-- An operand as tight as a sign, whose first mark is a name, is a variable, perhaps with
a step after it, or a factorial no more. -/
theorem variable_of_name {e : Expr} {m : Mark} {ms : List Mark} {name : String}
    (leveled : e.Leveled) (tight : 9 ≤ e.level) (shape : e.marks = m :: ms)
    (isName : m.lexeme.nameOf? = some name) : e.isVariable = true ∨ e.isStepAfter = true := by
  cases e with
  | number | text | group =>
    obtain ⟨rfl, -⟩ := List.cons.inj shape
    contradiction
  | var => exact .inl rfl
  | binary _ op =>
    rw [Expr.level] at tight
    cases op <;> contradiction
  | unary _ op operand =>
    cases op with
    | postIncrement | postDecrement => exact .inr leveled.2
    | factorial => contradiction
    | _ =>
      obtain ⟨rfl, -⟩ := List.cons.inj shape
      contradiction

/-- The first mark that is taken is the first token, unless that is an else. -/
theorem front_of_takes {m : Mark} {ms : List Mark} {ts rest : List Token}
    (takes : Takes (m :: ms) ts rest) (noElse : (front ts).lexeme ≠ .keyword .elseWord) :
    m.lexeme = (front ts).lexeme := by
  obtain ⟨used, rfl, covers⟩ := takes
  cases covers with
  | take same => exact same.symm
  | skip isElse => exact absurd isElse noElse

/-- Behind a step sign that a variable follows, an operand is one that can be stepped. -/
theorem steppable_of_isStepBefore {sign : Symbol} {ts rest : List Token} {e : Expr}
    (isStep : isStepBefore sign ts = true) (read : ReadsExpr 9 e (ts.drop 2) rest) :
    e.isVariable = true ∨ e.isStepAfter = true := by
  simp only [isStepBefore, Bool.and_eq_true] at isStep
  obtain ⟨name, isName⟩ := Option.isSome_iff_exists.mp isStep.2
  obtain ⟨m, ms, shape, _⟩ := e.exists_marks_cons
  have takes := read.takes
  rw [shape] at takes
  have same := front_of_takes takes (plain_of_nameOf? isName).2
  exact variable_of_name read.leveled read.tight shape (same ▸ isName)

/-- What is known of an operator that was found before its operand: its marks were taken,
and every operand that can be read behind it fits it. -/
structure FindsSign (op : UnaryOperator) (ts behind : List Token) : Prop where
  takes : Takes op.marks ts behind
  before : op.isAfter = false
  level : op.level = 9
  fits : ∀ {e : Expr} {rest : List Token}, ReadsExpr 9 e behind rest → Expr.fitsUnary op e

/-- The operators before an operand are found by their marks. The plus sign is none by itself. -/
theorem finds_matchSign {ts : List Token} {op : UnaryOperator} {width : Nat}
    (found : matchSign ts = some (op, width)) : FindsSign op ts (ts.drop width) := by
  unfold matchSign at found
  split at found
  · next k isKeyword =>
    obtain ⟨word, same, shape⟩ := Option.map_eq_some_iff.mp found
    obtain ⟨rfl, rfl⟩ := Prod.mk.inj shape
    obtain ⟨marks, noElse, before, level, fits⟩ := marks_of_unary? same
    exact ⟨marks ▸ takes_word isKeyword noElse, before, level, fun read => fits _ read.tight⟩
  · split at found
    · next isStep =>
      obtain ⟨rfl, rfl⟩ := Prod.mk.inj (Option.some.inj found)
      have isPair := (Bool.and_eq_true _ _ ▸ isStep : _ ∧ _).1
      exact ⟨.pair isPair, rfl, rfl, steppable_of_isStepBefore isStep⟩
    · contradiction
  · next isMinus =>
    split at found
    · next isStep =>
      obtain ⟨rfl, rfl⟩ := Prod.mk.inj (Option.some.inj found)
      have isPair := (Bool.and_eq_true _ _ ▸ isStep : _ ∧ _).1
      exact ⟨.pair isPair, rfl, rfl, steppable_of_isStepBefore isStep⟩
    · obtain ⟨rfl, rfl⟩ := Prod.mk.inj (Option.some.inj found)
      exact ⟨takes_single isMinus, rfl, rfl, fun read => read.tight⟩
  · contradiction

/-- An operand is read by itself where no sign stands before it. Behind a sign it is read one
level down, and the sign applies to it. -/
theorem signed_eq_ok {sheet : Sheet} {nested : Nested} {ts rest : List Token} {e : Expr} :
    signed sheet nested ts = .ok (e, rest) ↔
      (matchSign ts = none ∧ operand sheet nested ts = .ok (e, rest)) ∨
      ∃ op width body, matchSign ts = some (op, width) ∧
        nested.signed (ts.drop width) = .ok (body, rest) ∧
        e = .unary (sheet.locate ts) op body := by
  constructor
  · intro read
    unfold signed at read
    split at read
    · next noSign => exact .inl ⟨noSign, read⟩
    · next op width found =>
      split at read
      · contradiction
      · next body behind readBody =>
        obtain ⟨rfl, rfl⟩ := Prod.mk.inj (Except.ok.inj read)
        exact .inr ⟨op, width, body, found, readBody, rfl⟩
  · rintro (⟨noSign, read⟩ | ⟨op, width, body, found, readBody, rfl⟩)
    · simp only [signed, noSign, read]
    · simp only [signed, found, readBody]

theorem sound_signed {sheet : Sheet} {nested : Nested} (inner : NestedSound nested) :
    Sound 9 (signed sheet nested) := by
  intro ts rest e scanned read
  rcases signed_eq_ok.mp read with ⟨_, readOperand⟩ | ⟨op, width, body, found, readBody, rfl⟩
  · exact (sound_operand inner scanned readOperand).loosen
  · have sign := finds_matchSign found
    have bodyRead := inner.signed (scanned_of_takes sign.takes scanned) readBody
    refine ⟨?_, Nat.le_of_eq sign.level.symm, ⟨bodyRead.leveled, sign.fits bodyRead⟩,
      bodyRead.settled⟩
    rw [Expr.marks, if_neg (by simp [sign.before])]
    exact sign.takes.append bodyRead.takes

/-! ### Powers -/

/-- The factorial signs behind an operand are read as written. -/
theorem reads_factorials {sheet : Sheet} {start ts : List Token} {e : Expr}
    (soFar : ReadsExpr 8 e start ts) :
    ReadsExpr 8 (factorials sheet e ts).1 start (factorials sheet e ts).2 := by
  induction ts generalizing e with
  | nil => exact soFar
  | cons t rest inductionHypothesis =>
    rw [factorials]
    by_cases isBang : t.lexeme = .symbol .bang ∧ isPair .bang .equals (t :: rest) = false
    · rw [if_pos isBang]
      apply inductionHypothesis
      have sign : Takes (Mark.single .bang) (t :: rest) rest := takes_single isBang.1
      constructor
      · exact soFar.takes.append sign
      · exact Nat.le_refl _
      · exact ⟨soFar.leveled, soFar.tight⟩
      · exact soFar.settled
    · rw [if_neg isBang]
      exact soFar

/-- A base is read with its factorials. Without a caret behind them that is all; behind a caret
the exponent is read, one level down. -/
theorem power_eq_ok {sheet : Sheet} {nested : Nested} {ts rest : List Token} {e : Expr} :
    power sheet nested ts = .ok (e, rest) ↔
      ∃ base behind left between, signed sheet nested ts = .ok (base, behind) ∧
        factorials sheet base behind = (left, between) ∧
        (((front between).lexeme ≠ .symbol .caret ∧ e = left ∧ rest = between) ∨
        ∃ right, (front between).lexeme = .symbol .caret ∧
          nested.power (between.drop 1) = .ok (right, rest) ∧
          e = .binary (sheet.locate between) .pow left right) := by
  constructor
  · intro read
    unfold power at read
    split at read
    · contradiction
    · next base behind readBase =>
      refine ⟨base, behind, _, _, readBase, rfl, ?_⟩
      simp only at read
      split at read
      · next isCaret =>
        split at read
        · contradiction
        · next right after readRight =>
          obtain ⟨rfl, rfl⟩ := Prod.mk.inj (Except.ok.inj read)
          exact .inr ⟨right, isCaret, rightOperand_eq_ok.mp readRight, rfl⟩
      · next noCaret =>
        obtain ⟨rfl, rfl⟩ := Prod.mk.inj (Except.ok.inj read)
        exact .inl ⟨noCaret, rfl, rfl⟩
  · rintro ⟨base, behind, left, between, readBase, signs,
      ⟨noCaret, rfl, rfl⟩ | ⟨right, isCaret, readRight, rfl⟩⟩
    · simp only [power, readBase, signs, if_neg noCaret]
    · simp only [power, readBase, signs, if_pos isCaret, rightOperand_eq_ok.mpr readRight]

/-- A base with its factorials, and the power it is raised to, are read as written. -/
theorem sound_power {sheet : Sheet} {nested : Nested} (inner : NestedSound nested) :
    Sound 7 (power sheet nested) := by
  intro ts rest e scanned read
  obtain ⟨base, behind, left, between, readBase, signs, ends⟩ := power_eq_ok.mp read
  have soFar := (sound_signed inner scanned readBase).loosen
  have leftRead : ReadsExpr 8 (factorials sheet base behind).1 ts _ := reads_factorials soFar
  rw [signs] at leftRead
  rcases ends with ⟨_, rfl, rfl⟩ | ⟨right, isCaret, readRight, rfl⟩
  · exact leftRead.loosen
  · have sign : Takes (Mark.single .caret) between (between.drop 1) := takes_single isCaret
    have scannedBehind := scanned_of_takes sign (scanned_of_takes leftRead.takes scanned)
    have rightRead := inner.power scannedBehind readRight
    refine ⟨(leftRead.takes.append sign).append rightRead.takes, Nat.le_refl _, ?_,
      ⟨leftRead.settled, rightRead.settled⟩⟩
    refine ⟨leftRead.leveled, rightRead.leveled, ?_⟩
    rw [Expr.fitsBinary, if_pos rfl]
    exact ⟨leftRead.tight, rightRead.tight⟩

/-! ### Expressions -/

theorem sound_expressionOver {sheet : Sheet} {nested : Nested} (inner : NestedSound nested) :
    Sound 1 (expressionOver sheet nested) := by
  have powers : Sound 7 (power sheet nested) := sound_power inner
  have product : Sound 6 (level sheet _ matchProduct) := sound_level powers finds_matchProduct
  have sum : Sound 5 (level sheet _ matchSum) := sound_level product finds_matchSum
  have comparison : Sound 4 (level sheet _ matchComparison) := sound_level sum finds_matchComparison
  have equality : Sound 3 (level sheet _ matchEquality) :=
    sound_level comparison finds_matchEquality
  have conjunction : Sound 2 (level sheet _ matchAnd) := sound_level equality finds_matchAnd
  exact sound_level conjunction finds_matchOr

/-- What nests is read as written at every depth.

Proof: induction over the depth. At depth zero nothing is read. -/
theorem nestedSound (sheet : Sheet) (depth : Nat) : NestedSound (nested sheet depth) := by
  induction depth with
  | zero => exact ⟨sound_stop 1 .tooDeep, sound_stop 7 .tooDeep, sound_stop 9 .tooDeep⟩
  | succ depth inner => exact ⟨sound_expressionOver inner, sound_power inner, sound_signed inner⟩

theorem sound_expression (sheet : Sheet) : Sound 1 (expression sheet) :=
  (nestedSound sheet nestingLimit).expression

end YololChip.Grammar
