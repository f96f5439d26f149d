import YololChip.Proofs.Nodes
import YololChip.Proofs.Soundness

/-!
# Trees over tokens

A tree that is read lies over the tokens that were taken for it: every part of it over a row of
them, one row behind the other in the order in which the parts are written, and every node is
placed at a token of its own. That is the operator for an operator between two operands and for
a factorial sign, and the first token of all other nodes; a step behind a variable is placed at the
variable.

Marks tell which tokens a tree is read of. What is said here is more: which token each node is
placed at, and where it is among the tokens of the other nodes.
-/

namespace YololChip

/-! ### Rows of tokens -/

/-- The location of a token, as the sheet gives it to what begins there. -/
def Grammar.Sheet.place (sheet : Sheet) (t : Token) : Option Location := sheet.locate [t]

theorem Grammar.Sheet.locate_cons (sheet : Sheet) (t : Token) (rest : List Token) :
    sheet.locate (t :: rest) = sheet.place t := rfl

theorem Covers.spells_of_noEnd {ms : List Mark} {ts : List Token} (covers : Covers ms ts)
    (noEnd : ∀ m ∈ ms, m.lexeme ≠ .keyword .endWord) : Spells ms ts := by
  induction covers with
  | nil => exact .nil
  | take same _ beside _ _ inductionHypothesis =>
    refine .cons same ?_ (inductionHypothesis fun m member =>
      noEnd m (List.mem_cons_of_mem _ member))
    intro joined
    obtain ⟨next, _, head, _, near⟩ := beside joined
    exact ⟨next, head, near⟩
  | skip _ isEnd rest _ =>
    obtain ⟨m, head, lexeme⟩ := rest.head_of_end isEnd
    exact absurd lexeme (noEnd m (List.mem_of_mem_head? head))

/-- Marks that are taken are spelled by the tokens at the front, if there are any and none of them
ends a block. -/
theorem Takes.exists_spelled {m : Mark} {ms : List Mark} {ts rest : List Token}
    (takes : Takes (m :: ms) ts rest)
    (noEnd : ∀ n ∈ m :: ms, n.lexeme ≠ .keyword .endWord) :
    ∃ t more, ts = t :: (more ++ rest) ∧ Spells (m :: ms) (t :: more) := by
  obtain ⟨used, rfl, covers⟩ := takes
  have spells := covers.spells_of_noEnd noEnd
  cases spells with
  | @cons _ _ t more same beside rest => exact ⟨t, more, rfl, .cons same beside rest⟩

/-- An operator between two operands has marks, and none of them ends a block. -/
theorem BinaryOperator.exists_marks (op : BinaryOperator) :
    ∃ m ms, op.marks = m :: ms ∧ ∀ n ∈ m :: ms, n.lexeme ≠ .keyword .endWord := by
  cases op <;> exact ⟨_, _, rfl, by decide⟩

/-- An operator on one operand has marks, and none of them ends a block. -/
theorem UnaryOperator.exists_marks (op : UnaryOperator) :
    ∃ m ms, op.marks = m :: ms ∧ ∀ n ∈ m :: ms, n.lexeme ≠ .keyword .endWord := by
  cases op <;> exact ⟨_, _, rfl, by decide⟩

/-- An assignment operator has marks, and none of them ends a block. -/
theorem AssignOperator.exists_marks (op : AssignOperator) :
    ∃ m ms, op.marks = m :: ms ∧ ∀ n ∈ m :: ms, n.lexeme ≠ .keyword .endWord := by
  cases op <;> exact ⟨_, _, rfl, by decide⟩

/-! ### Expressions -/

/-- Whether an expression lies over tokens, with each node placed at its own. The tokens of an
expression are those of its parts with its own between them, so every token is that of one node. -/
inductive Expr.Over (place : Token → Option Location) : Expr → List Token → Prop where
  | number {t : Token} {value : Fixed} (same : t.lexeme = .number value) :
    Over place (.number (place t) value) [t]
  | text {t : Token} {value : String} (same : t.lexeme = .text value) :
    Over place (.text (place t) value) [t]
  | var {t : Token} {target : Variable} (same : t.lexeme = target.lexeme) :
    Over place (.var (place t) target) [t]
  | group {opening closing : Token} {inner : Expr} {ts : List Token}
    (opens : opening.lexeme = .symbol .leftParen) (closes : closing.lexeme = .symbol .rightParen)
    (lies : Over place inner ts) :
    Over place (.group (place opening) inner) (opening :: (ts ++ [closing]))
  | binary {op : BinaryOperator} {left right : Expr} {t : Token} {before more behind : List Token}
    (leftOver : Over place left before) (spells : Spells op.marks (t :: more))
    (rightOver : Over place right behind) :
    Over place (.binary (place t) op left right) (before ++ (t :: more ++ behind))
  | before {op : UnaryOperator} {operand : Expr} {t : Token} {more behind : List Token}
    (isBefore : op.isAfter = false) (spells : Spells op.marks (t :: more))
    (lies : Over place operand behind) :
    Over place (.unary (place t) op operand) (t :: more ++ behind)
  | factorial {operand : Expr} {t : Token} {before : List Token} (lies : Over place operand before)
    (isBang : t.lexeme = .symbol .bang) :
    Over place (.unary (place t) .factorial operand) (before ++ [t])
  | step {op : UnaryOperator} {t : Token} {target : Variable} {more : List Token}
    (isStep : op = .postIncrement ∨ op = .postDecrement) (same : t.lexeme = target.lexeme)
    (spells : Spells op.marks more) :
    Over place (.unary (place t) op (.var (place t) target)) (t :: more)

theorem Expr.Over.ne_nil {place : Token → Option Location} {e : Expr} {ts : List Token}
    (lies : e.Over place ts) : ts ≠ [] := by
  cases lies <;> simp

namespace Grammar

variable {sheet : Sheet}

/-- Whether an expression lies over the tokens that were taken off the front of others. What is
left may be anything. -/
def Lies (sheet : Sheet) (e : Expr) (ts rest : List Token) : Prop :=
  ∃ used, ts = used ++ rest ∧ e.Over sheet.place used

/-- Whether what a parser of expressions reads lies over the tokens that it takes. -/
def Lays (sheet : Sheet) (parser : Parser Expr) : Prop :=
  ∀ ⦃ts rest : List Token⦄ ⦃e : Expr⦄, Scanned ts → parser ts = .ok (e, rest) → Lies sheet e ts rest

/-- Whether the parsers one level down lay what they read over their tokens. -/
structure NestedLays (sheet : Sheet) (nested : Nested) : Prop where
  expression : Lays sheet nested.expression
  power : Lays sheet nested.power
  signed : Lays sheet nested.signed

/-- What is left behind an expression is such as a scanner gives. -/
theorem Lies.scanned {e : Expr} {ts rest : List Token} (lies : Lies sheet e ts rest)
    (scanned : Scanned ts) : Scanned rest := by
  obtain ⟨used, rfl, _⟩ := lies
  exact scanned.of_append

/-- Two operands with an operator between them lie over the tokens of all three. The operator
has the place of its first token. -/
theorem Lies.binary {op : BinaryOperator} {left right : Expr} {start ts behind rest : List Token}
    (leftLies : Lies sheet left start ts) (takes : Takes op.marks ts behind)
    (rightLies : Lies sheet right behind rest) :
    Lies sheet (.binary (sheet.locate ts) op left right) start rest := by
  obtain ⟨before, rfl, leftOver⟩ := leftLies
  obtain ⟨m, ms, shape, noEnd⟩ := op.exists_marks
  obtain ⟨t, more, rfl, spells⟩ := (shape ▸ takes).exists_spelled noEnd
  obtain ⟨after, rfl, rightOver⟩ := rightLies
  rw [sheet.locate_cons]
  exact ⟨before ++ (t :: more ++ after), by simp, .binary leftOver (shape ▸ spells) rightOver⟩

/-- A chain lies over the tokens of what is before it and of its operators and operands.

Proof: induction over the operators that may follow. -/
theorem lies_chain {operand : Parser Expr} {found : Matcher} {level : Nat}
    (operandLays : Lays sheet operand) (finds : Finds level found)
    {start ts rest most : List Token} {left e : Expr} (scanned : Scanned start)
    (soFar : Lies sheet left start ts)
    (read : chain sheet operand found most left ts = .ok (e, rest)) : Lies sheet e start rest := by
  induction most generalizing left ts with
  | nil =>
    obtain ⟨rfl, rfl⟩ := Prod.mk.inj (Except.ok.inj read)
    exact soFar
  | cons _ most inductionHypothesis =>
    rcases chain_cons_eq_ok.mp read with
      ⟨_, rfl, rfl⟩ | ⟨op, width, right, behind, here, readRight, readLater⟩
    · exact soFar
    · obtain ⟨_, _, takesOp⟩ := finds here
      have scannedBehind := scanned_of_takes takesOp (soFar.scanned scanned)
      have rightLies := operandLays scannedBehind readRight
      exact inductionHypothesis (soFar.binary takesOp rightLies) readLater

/-- The operators of a level and their operands lie over their tokens. -/
theorem lays_level {operand : Parser Expr} {found : Matcher} {level : Nat}
    (operandLays : Lays sheet operand) (finds : Finds level found) :
    Lays sheet (Grammar.level sheet operand found) := by
  intro ts rest e scanned read
  obtain ⟨left, behind, readLeft, readChain⟩ := level_eq_ok.mp read
  exact lies_chain operandLays finds scanned (operandLays scanned readLeft) readChain

/-- A variable with the step behind it, if one follows, lies over its tokens. The step is placed
at the variable and not at its sign. -/
theorem lies_stepped {ts rest : List Token} {name : String} {e : Expr} (scanned : Scanned ts)
    (found : (front ts).lexeme.nameOf? = some name)
    (read : stepped sheet name ts = .ok (e, rest)) : Lies sheet e ts rest := by
  obtain ⟨same, _⟩ := named_of_clean scanned.clean found
  obtain ⟨t, more, rfl, lexeme⟩ := Takes.exists_of_front rfl (plain_of_nameOf? found).1
  have ofStep {op : UnaryOperator} (isStep : op = .postIncrement ∨ op = .postDecrement)
      (takes : Takes op.marks more (more.drop 2)) :
      Lies sheet (.unary (sheet.place t) op (.var (sheet.place t) (.named name))) (t :: more)
        (more.drop 2) := by
    obtain ⟨m, ms, shape, noEnd⟩ := op.exists_marks
    obtain ⟨used, split, covers⟩ := takes
    refine ⟨t :: used, by rw [List.cons_append, ← split], .step isStep same.symm ?_⟩
    exact covers.spells_of_noEnd (shape ▸ noEnd)
  unfold stepped at read
  simp only [List.drop_succ_cons, List.drop_zero] at read
  split at read
  · next isPair =>
    obtain ⟨rfl, rfl⟩ := Prod.mk.inj (Except.ok.inj read)
    exact ofStep (.inl rfl) (.pair isPair)
  · split at read
    · next isPair =>
      obtain ⟨rfl, rfl⟩ := Prod.mk.inj (Except.ok.inj read)
      exact ofStep (.inr rfl) (.pair isPair)
    · obtain ⟨rfl, rfl⟩ := Prod.mk.inj (Except.ok.inj read)
      exact ⟨[t], rfl, .var same.symm⟩

/-- A number, a text, a variable or a group lies over its tokens. -/
theorem lays_operand {nested : Nested} (inner : NestedLays sheet nested) :
    Lays sheet (operand sheet nested) := by
  intro ts rest e scanned read
  cases OperandAt.of_operand read with
  | number found =>
    obtain ⟨t, more, rfl, same⟩ := Takes.exists_of_front found rfl
    exact ⟨[t], rfl, .number same⟩
  | text found =>
    obtain ⟨t, more, rfl, same⟩ := Takes.exists_of_front found rfl
    exact ⟨[t], rfl, .text same⟩
  | named found readName => exact lies_stepped scanned found readName
  | group opened readBody closed =>
    obtain ⟨opening, more, rfl, opens⟩ := Takes.exists_of_front opened rfl
    obtain ⟨used, rfl, lies⟩ := inner.expression scanned.drop_one readBody
    obtain ⟨closing, others, rfl, closes⟩ := Takes.exists_of_front closed rfl
    exact ⟨opening :: (used ++ [closing]), by simp, .group opens closes lies⟩

/-- An operand with a word or a sign before it lies over its tokens. -/
theorem lays_signed {nested : Nested} (inner : NestedLays sheet nested) :
    Lays sheet (signed sheet nested) := by
  intro ts rest e scanned read
  rcases signed_eq_ok.mp read with ⟨_, readOperand⟩ | ⟨op, width, body, found, readBody, rfl⟩
  · exact lays_operand inner scanned readOperand
  · have sign := finds_matchSign found
    have bodyLies := inner.signed (scanned_of_takes sign.takes scanned) readBody
    obtain ⟨used, behindSign, lies⟩ := bodyLies
    obtain ⟨m, ms, shape, noEnd⟩ := op.exists_marks
    obtain ⟨t, more, whole, spells⟩ := (shape ▸ sign.takes).exists_spelled noEnd
    have located : sheet.locate ts = sheet.place t := by rw [whole, sheet.locate_cons]
    rw [located]
    refine ⟨t :: more ++ used, ?_, .before sign.before (shape ▸ spells) lies⟩
    rw [whole, behindSign]
    simp

/-- The factorial signs behind an operand are placed at their own tokens. Each is placed behind
all that it is applied to. -/
theorem lies_factorials {start ts : List Token} {e : Expr} (soFar : Lies sheet e start ts) :
    Lies sheet (factorials sheet e ts).1 start (factorials sheet e ts).2 := by
  induction ts generalizing e with
  | nil => exact soFar
  | cons t rest inductionHypothesis =>
    rw [factorials]
    by_cases isBang : t.lexeme = .symbol .bang ∧ isPair .bang .equals (t :: rest) = false
    · rw [if_pos isBang]
      apply inductionHypothesis
      obtain ⟨used, rfl, lies⟩ := soFar
      exact ⟨used ++ [t], by simp, .factorial lies isBang.1⟩
    · rw [if_neg isBang]
      exact soFar

/-- A base with its factorials, and the power it is raised to, lie over their tokens. -/
theorem lays_power {nested : Nested} (inner : NestedLays sheet nested) :
    Lays sheet (power sheet nested) := by
  intro ts rest e scanned read
  obtain ⟨base, behind, left, between, readBase, signs, ends⟩ := power_eq_ok.mp read
  have leftLies := lies_factorials (lays_signed inner scanned readBase)
  rw [signs] at leftLies
  rcases ends with ⟨_, rfl, rfl⟩ | ⟨right, isCaret, readRight, rfl⟩
  · exact leftLies
  · have sign : Takes BinaryOperator.pow.marks between (between.drop 1) := takes_single isCaret
    have scannedBehind := scanned_of_takes sign (leftLies.scanned scanned)
    exact leftLies.binary sign (inner.power scannedBehind readRight)

theorem lays_expressionOver {nested : Nested} (inner : NestedLays sheet nested) :
    Lays sheet (expressionOver sheet nested) := by
  have product := lays_level (lays_power inner) finds_matchProduct
  have sum := lays_level product finds_matchSum
  have comparison := lays_level sum finds_matchComparison
  have equality := lays_level comparison finds_matchEquality
  exact lays_level (lays_level equality finds_matchAnd) finds_matchOr

/-- What nests lies over its tokens at every depth.

Proof: induction over the depth. At depth zero nothing is read. -/
theorem nestedLays (sheet : Sheet) (depth : Nat) : NestedLays sheet (nested sheet depth) := by
  induction depth with
  | zero =>
    have nothing : Lays sheet (stop .tooDeep) := by
      intro ts rest e _ read
      contradiction
    exact ⟨nothing, nothing, nothing⟩
  | succ depth inner => exact ⟨lays_expressionOver inner, lays_power inner, lays_signed inner⟩

theorem lays_expression (sheet : Sheet) : Lays sheet (expression sheet) :=
  (nestedLays sheet nestingLimit).expression

end Grammar

/-! ### Statements -/

namespace Stmt

mutual

/-- Whether a statement lies over tokens, with each node placed at its own. An assignment and
its target are both placed at the variable. -/
inductive Over (place : Token → Option Location) : Stmt → List Token → Prop where
  | comment {t : Token} {text : String} (same : t.lexeme = .comment text) :
    Over place (.comment (place t) text) [t]
  | jump {t : Token} {target : Expr} {ts : List Token} (isGoto : t.lexeme = .keyword .goto)
    (lies : target.Over place ts) : Over place (.jump (place t) target) (t :: ts)
  | assign {t : Token} {target : Variable} {op : AssignOperator} {value : Expr}
    {sign ts : List Token} (same : t.lexeme = target.lexeme) (spells : Spells op.marks sign)
    (lies : value.Over place ts) :
    Over place (.assign (place t) (.var (place t) target) op value) (t :: (sign ++ ts))
  | expression {t : Token} {value : Expr} {ts : List Token} (lies : value.Over place (t :: ts)) :
    Over place (.expression (place t) value) (t :: ts)
  | branch {ifWord thenWord endWord : Token} {condition : Expr} {body : List Stmt}
    {otherwise : Option (List Stmt)} {ts inBody inElse : List Token}
    (isIf : ifWord.lexeme = .keyword .ifWord) (isThen : thenWord.lexeme = .keyword .thenWord)
    (isEnd : endWord.lexeme = .keyword .endWord) (lies : condition.Over place ts)
    (bodyOver : OverAll place body inBody) (elseOver : OverElse place otherwise inElse) :
    Over place (.branch (place ifWord) condition body otherwise)
      (ifWord :: (ts ++ thenWord :: (inBody ++ (inElse ++ [endWord]))))

/-- Whether a block lies over tokens: each statement over its own, one behind the other. -/
inductive OverAll (place : Token → Option Location) : List Stmt → List Token → Prop where
  | nil : OverAll place [] []
  | cons {s : Stmt} {rest : List Stmt} {ts others : List Token} (lies : Over place s ts)
    (restOver : OverAll place rest others) : OverAll place (s :: rest) (ts ++ others)

/-- Whether an else part lies over tokens, with the word before it. One without statements counts
as absent. -/
inductive OverElse (place : Token → Option Location) :
    Option (List Stmt) → List Token → Prop where
  | absent : OverElse place none []
  | empty {t : Token} (isElse : t.lexeme = .keyword .elseWord) : OverElse place none [t]
  | filled {t : Token} {block : List Stmt} {ts : List Token}
    (isElse : t.lexeme = .keyword .elseWord) (lies : OverAll place block ts) :
    OverElse place (some block) (t :: ts)

end

end Stmt

namespace Grammar

variable {sheet : Sheet}

/-- Whether what a parser of statements reads lies over the tokens that it takes. -/
def LaysStmt (sheet : Sheet) (parser : Parser Stmt) : Prop :=
  ∀ ⦃ts rest : List Token⦄ ⦃s : Stmt⦄, Scanned ts → parser ts = .ok (s, rest) →
    ∃ used, ts = used ++ rest ∧ s.Over sheet.place used

/-- Whether what a parser of blocks reads lies over the tokens that it takes. -/
def LaysBlock (sheet : Sheet) (parser : Parser (List Stmt)) : Prop :=
  ∀ ⦃ts rest : List Token⦄ ⦃block : List Stmt⦄, Scanned ts → parser ts = .ok (block, rest) →
    ∃ used, ts = used ++ rest ∧ Stmt.OverAll sheet.place block used

/-- A block lies over its tokens if its statements do.

Proof: induction over the statements that there may be at most. -/
theorem over_block {statement : Parser Stmt} {inside : Bool} (lays : LaysStmt sheet statement)
    {most ts rest : List Token} {read : List Stmt} (scanned : Scanned ts)
    (found : block statement inside most ts = .ok (read, rest)) :
    ∃ used, ts = used ++ rest ∧ Stmt.OverAll sheet.place read used := by
  induction most generalizing ts read with
  | nil =>
    obtain ⟨rfl, rfl⟩ := Prod.mk.inj (Except.ok.inj found)
    exact ⟨[], rfl, .nil⟩
  | cons _ most inductionHypothesis =>
    rcases block_cons_eq_ok.mp found with
      ⟨_, rfl, rfl⟩ | ⟨first, between, others, _, readFirst, readOthers, rfl⟩
    · exact ⟨[], rfl, .nil⟩
    · obtain ⟨used, rfl, lies⟩ := lays scanned readFirst
      obtain ⟨usedRest, rfl, restOver⟩ := inductionHypothesis scanned.of_append readOthers
      exact ⟨used ++ usedRest, by rw [List.append_assoc], .cons lies restOver⟩

/-- What follows the body of an if statement lies over its tokens, the word of the end last. -/
theorem over_closeBranch {inner : Parser (List Stmt)} (innerLays : LaysBlock sheet inner)
    {loc : Option Location} {condition : Expr} {body : List Stmt} {ts rest : List Token} {s : Stmt}
    (scanned : Scanned ts) (read : closeBranch inner loc condition body ts = .ok (s, rest)) :
    ∃ otherwise used endWord, s = .branch loc condition body otherwise ∧
      ts = used ++ [endWord] ++ rest ∧ Stmt.OverElse sheet.place otherwise used ∧
      endWord.lexeme = .keyword .endWord := by
  rcases closeBranch_eq_ok.mp read with
    ⟨closed, rfl, rfl⟩ | ⟨block, between, found, readElse, closed, rfl, rfl⟩
  · obtain ⟨endWord, others, rfl, isEnd⟩ := Takes.exists_of_front closed rfl
    exact ⟨_, [], endWord, rfl, rfl, .absent, isEnd⟩
  · obtain ⟨elseWord, more, rfl, isElse⟩ := Takes.exists_of_front found rfl
    obtain ⟨used, rfl, lies⟩ := innerLays scanned.drop_one readElse
    obtain ⟨endWord, others, rfl, isEnd⟩ := Takes.exists_of_front closed rfl
    cases lies with
    | nil => exact ⟨_, [elseWord], endWord, rfl, rfl, .empty isElse, isEnd⟩
    | cons lies restOver =>
      exact ⟨_, elseWord :: _, endWord, rfl, by simp, .filled isElse (.cons lies restOver), isEnd⟩

theorem over_branch {inner : Parser (List Stmt)} (innerLays : LaysBlock sheet inner)
    {ts rest : List Token} {s : Stmt} (scanned : Scanned ts)
    (found : (front ts).lexeme = .keyword .ifWord)
    (read : branch sheet inner ts = .ok (s, rest)) :
    ∃ used, ts = used ++ rest ∧ s.Over sheet.place used := by
  obtain ⟨ifWord, more, rfl, isIf⟩ := Takes.exists_of_front found rfl
  obtain ⟨condition, behind, body, between, readCondition, opened, readBody, close⟩ :=
    branch_eq_ok.mp read
  obtain ⟨inCondition, rfl, lies⟩ := lays_expression sheet scanned.drop_one readCondition
  obtain ⟨thenWord, others, rfl, isThen⟩ := Takes.exists_of_front opened rfl
  have scannedThen : Scanned (inCondition ++ thenWord :: others) := scanned.drop_one
  have scannedBody : Scanned others := scannedThen.of_append.drop_one
  obtain ⟨inBody, rfl, bodyOver⟩ := innerLays scannedBody readBody
  obtain ⟨otherwise, inElse, endWord, rfl, rfl, elseOver, isEnd⟩ :=
    over_closeBranch innerLays scannedBody.of_append close
  exact ⟨ifWord :: (inCondition ++ thenWord :: (inBody ++ (inElse ++ [endWord]))), by simp,
    .branch isIf isThen isEnd lies bodyOver elseOver⟩

theorem laysStmt_statement {inner : Parser (List Stmt)} (innerLays : LaysBlock sheet inner) :
    LaysStmt sheet (statement sheet inner) := by
  intro ts rest s scanned read
  cases StatementAt.of_statement read with
  | comment found =>
    obtain ⟨t, more, rfl, same⟩ := Takes.exists_of_front found rfl
    exact ⟨[t], rfl, .comment same⟩
  | jump found readTarget =>
    obtain ⟨t, more, rfl, isGoto⟩ := Takes.exists_of_front found rfl
    obtain ⟨used, rfl, lies⟩ := lays_expression sheet scanned.drop_one readTarget
    exact ⟨t :: used, rfl, .jump isGoto lies⟩
  | branch found readBranch => exact over_branch innerLays scanned found readBranch
  | @assign name op width value _ found isAssign readValue =>
    obtain ⟨t, more, rfl, _⟩ := Takes.exists_of_front rfl (plain_of_nameOf? found).1
    obtain ⟨same, _⟩ := named_of_clean scanned.clean found
    have takes := takes_matchAssign isAssign
    rw [List.drop_drop] at takes
    obtain ⟨used, behindSign, lies⟩ :=
      lays_expression sheet (scanned_of_takes takes scanned.drop_one) readValue
    obtain ⟨m, ms, shape, noEnd⟩ := op.exists_marks
    obtain ⟨sign, whole, covers⟩ := takes
    have spells := covers.spells_of_noEnd (shape ▸ noEnd)
    refine ⟨t :: (sign ++ used), ?_, .assign same.symm spells lies⟩
    rw [List.cons_append, List.append_assoc, ← behindSign]
    exact congrArg (t :: ·) whole
  | expression _ readValue =>
    obtain ⟨used, rfl, lies⟩ := lays_expression sheet scanned readValue
    obtain ⟨t, more, rfl⟩ := List.exists_cons_of_ne_nil lies.ne_nil
    exact ⟨t :: more, rfl, .expression lies⟩

/-- A block inside an if statement lies over its tokens, at every depth.

Proof: induction over the depth. At depth zero only a block without statements is read. -/
theorem laysBlock_innerBlock (sheet : Sheet) (depth : Nat) :
    LaysBlock sheet (innerBlock sheet depth) := by
  induction depth with
  | zero =>
    intro ts rest read scanned found
    refine over_block ?_ scanned found
    intro ts rest s _ read
    contradiction
  | succ depth inductionHypothesis =>
    intro ts rest read scanned found
    exact over_block (laysStmt_statement inductionHypothesis) scanned found

theorem laysBlock_statements (sheet : Sheet) : LaysBlock sheet (statements sheet) := by
  intro ts rest read scanned found
  exact over_block (laysStmt_statement (laysBlock_innerBlock sheet nestingLimit)) scanned found

end Grammar

end YololChip
