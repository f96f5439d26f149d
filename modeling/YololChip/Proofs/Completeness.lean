import YololChip.Proofs.CompleteExpressions
import YololChip.Proofs.Soundness

/-!
# What is written as a line is read

Tokens whose marks are those of regular statements are read as those statements. Where
a statement ends is settled by what can stand behind it: nothing goes on with an expression
there, unless a sign begins the next statement, and nothing there can be taken for an
assignment. An if statement leads one level down, as groups do in expressions.
-/

namespace YololChip

namespace Stmt

/-- Whether a statement ends in an expression, which a sign behind it would go on with. Comments
and if statements end in something that closes them. -/
def endsOpen : Stmt → Bool
  | jump _ _ | assign _ _ _ _ | expression _ _ => true
  | _ => false

/-- Whether a statement is an expression that begins with a sign. Such a sign would be an
operator behind an open expression, so only the first mark is asked for. -/
def beginsSigned : Stmt → Bool
  | expression _ value =>
    Mark.front value.marks = .symbol .plus || Mark.front value.marks = .symbol .minus
  | _ => false

/-- Whether the first of some statements is no expression that a sign begins, if the statement
before them ends in an expression. Nothing parts statements in the language but their own first
marks. -/
def Parted (s : Stmt) (rest : List Stmt) : Prop :=
  s.endsOpen = true → ∀ next ∈ rest.head?, next.beginsSigned = false

mutual

/-- Whether the grammar reads a statement from its marks, if statements may nest to a depth
inside it: its expressions are regular, variables are assigned to, an else part has statements,
and no statement can be taken for a part of the one before it. Each of these is needed, for
without it the same marks are read as another statement or as none. -/
def Regular (depth : Nat) : Stmt → Prop
  | comment _ _ => True
  | branch _ condition body otherwise =>
    condition.Regular ∧ 0 < depth ∧ RegularAll (depth - 1) body ∧
      RegularElse (depth - 1) otherwise
  | jump _ target => target.Regular
  | assign _ target _ value => target.isVariable = true ∧ value.Regular
  | expression _ value => value.Regular

/-- Whether the grammar reads a block from its marks: each statement, and each parted from those
behind it. -/
def RegularAll (depth : Nat) : List Stmt → Prop
  | [] => True
  | statement :: rest => statement.Regular depth ∧ statement.Parted rest ∧ RegularAll depth rest

/-- Whether the grammar reads an else part from its marks. An empty one writes a word that
reading takes for no else part at all. -/
def RegularElse (depth : Nat) : Option (List Stmt) → Prop
  | none => True
  | some block => block ≠ [] ∧ RegularAll depth block

end

end Stmt

namespace Grammar

/-! ### What stands between statements -/

/-- Whether a lexeme goes on with no expression and begins no assignment. Of the symbols only an
opening parenthesis counts, because a closing one never stands behind a statement; of the words
all do but the two that connect expressions. -/
def separates : Lexeme → Bool
  | .symbol s => s = .leftParen
  | .keyword k => k != .and && k != .or
  | _ => true

theorem follow_of_separates {ms : List Mark} (separated : separates (Mark.front ms) = true) :
    follow ms = 0 := by
  unfold follow
  split <;> first | rfl | (next found => rw [found] at separated; contradiction)

/-- Whether an assignment operator stands at the front of some marks. Two equals signs side by
side compare, and a sign before one assigns only if nothing is between them. -/
def assigns (ms : List Mark) : Bool :=
  match Mark.front ms with
  | .symbol .equals => !Mark.isPair .equals .equals ms
  | .symbol s => (compound? s).isSome && Mark.isPair s .equals ms
  | _ => false

theorem assigns_of_separates {ms : List Mark} (separated : separates (Mark.front ms) = true) :
    assigns ms = false := by
  unfold assigns
  split
  · next found =>
    rw [found] at separated
    contradiction
  · next s _ found =>
    rw [found] at separated
    have isParen : s = .leftParen := of_decide_eq_true separated
    rw [isParen]
    rfl
  · rfl

theorem matchAssign_of_not_assigns {ts : List Token} (none : assigns (marksOf ts) = false) :
    matchAssign ts = .none := by
  cases ts with
  | nil => rfl
  | cons t rest =>
    have front : Mark.front (marksOf (t :: rest)) = t.lexeme := rfl
    unfold assigns at none
    unfold matchAssign
    simp only [isPair_marksOf]
    rw [front] at none
    cases found : t.lexeme with
    | symbol s =>
      rw [found] at none
      cases s with
      | equals =>
        have isPair : Mark.isPair .equals .equals (marksOf (t :: rest)) = true := by
          simpa using none
        exact if_pos isPair
      | plus | minus | star | slash | percent | caret =>
        have noPair : Mark.isPair _ .equals (marksOf (t :: rest)) = false := none
        simp only [compound?, noPair, Bool.false_eq_true, if_false]
      | _ => rfl
    | _ => rfl

theorem assigns_binary (op : BinaryOperator) (ms : List Mark) :
    assigns (op.marks ++ ms) = false := by
  cases op <;> simp [assigns, BinaryOperator.marks, Mark.single, Mark.word, compound?]

theorem assigns_after {op : UnaryOperator} (after : op.isAfter = true) (ms : List Mark) :
    assigns (op.marks ++ ms) = false := by
  cases op with
  | postIncrement | postDecrement | factorial =>
    simp [assigns, UnaryOperator.marks, Mark.single, compound?]
  | _ => contradiction

/-- Behind the name with which an expression begins stands no assignment, if none stands
behind the expression.

Proof: induction over the expression. Behind the name stands an operator, or what stands
behind the expression. -/
theorem assigns_tail {e : Expr} {name : String} (isName : (Mark.front e.marks).nameOf? = some name)
    {behind : List Mark} (none : assigns behind = false) :
    assigns ((e.marks ++ behind).drop 1) = false := by
  induction e generalizing behind with
  | number | text | group => contradiction
  | var => exact none
  | binary _ op left right leftHypothesis _ =>
    obtain ⟨m, ms, shape, _⟩ := left.exists_marks_cons
    have first : (Mark.front left.marks).nameOf? = some name := by
      rwa [Expr.marks, List.append_assoc, Mark.front_append (by simp [shape])] at isName
    rw [Expr.marks, List.append_assoc, List.append_assoc]
    exact leftHypothesis first (assigns_binary op _)
  | unary _ op body inductionHypothesis =>
    by_cases after : op.isAfter = true
    · obtain ⟨m, ms, shape, _⟩ := body.exists_marks_cons
      have first : (Mark.front body.marks).nameOf? = some name := by
        rwa [Expr.marks, if_pos after, Mark.front_append (by simp [shape])] at isName
      rw [Expr.marks, if_pos after, List.append_assoc]
      exact inductionHypothesis first (assigns_after after _)
    · rw [Expr.marks, if_neg after] at isName
      cases op with
      | postIncrement | postDecrement | factorial => exact absurd rfl after
      | _ => contradiction

/-! ### Statements -/

/-- Whether every lexeme of some marks is one that a scanner can give. Marks of a tree may hold
others, such as a name with a blank in it. -/
def Clean (ms : List Mark) : Prop := ∀ m ∈ ms, m.lexeme.Clean

theorem clean_append {first second : List Mark} :
    Clean (first ++ second) ↔ Clean first ∧ Clean second := by
  simp only [Clean, List.mem_append]
  constructor
  · intro clean
    constructor
    · intro m member
      exact clean m (.inl member)
    · intro m member
      exact clean m (.inr member)
  · rintro ⟨cleanFirst, cleanSecond⟩ m (member | member)
    · exact cleanFirst m member
    · exact cleanSecond m member

theorem settled_of_clean {target : Variable} (clean : target.lexeme.Clean) : target.Settled := by
  obtain ⟨name, scope⟩ := target
  cases scope with
  | chip =>
    obtain ⟨inhabited, lower, noField⟩ := clean
    exact (Variable.settled_iff _).mpr ⟨inhabited, lower, by simp [noField]⟩
  | field =>
    obtain ⟨inhabited, lower, isField⟩ := clean
    exact (Variable.settled_iff _).mpr ⟨inhabited, lower, by simp [isField]⟩

/-- The variables of an expression are settled if its marks are clean. -/
theorem settled_of_clean_marks {e : Expr} (clean : Clean e.marks) : e.Settled := by
  induction e with
  | number | text => trivial
  | var loc target => exact settled_of_clean (clean _ (List.mem_singleton.mpr rfl))
  | group loc inner inductionHypothesis =>
    rw [Expr.marks, clean_append, clean_append] at clean
    exact inductionHypothesis clean.1.2
  | binary loc op left right leftHypothesis rightHypothesis =>
    rw [Expr.marks, clean_append, clean_append] at clean
    exact ⟨leftHypothesis clean.1.1, rightHypothesis clean.2⟩
  | unary loc op operand inductionHypothesis =>
    rw [Expr.marks] at clean
    split at clean
    · exact inductionHypothesis (clean_append.mp clean).1
    · exact inductionHypothesis (clean_append.mp clean).2

/-- A regular expression is read from its clean marks, if what stands behind it
separates. -/
theorem gives_expression (sheet : Sheet) {e : Expr} (regular : e.Regular) (clean : Clean e.marks)
    {ts : List Token} {behind : List Mark} (marks : marksOf ts = e.marks ++ behind)
    (separated : separates (Mark.front behind) = true) : Gives (expression sheet) e ts behind :=
  complete_expression sheet ⟨regular.leveled, settled_of_clean_marks clean, regular.shallow⟩
    (one_le_level e) marks (by rw [follow_of_separates separated]; decide)

/-- Whether a parser reads a statement, but for locations, and leaves the given marks. Comments
do not count as locations and are the same. -/
def GivesStmt (parser : Parser Stmt) (s : Stmt) (ts : List Token) (behind : List Mark) : Prop :=
  ∃ read rest, parser ts = .ok (read, rest) ∧ read.bare = s.bare ∧ marksOf rest = behind

/-- Whether a parser reads a block, but for locations, and leaves the given marks. The block is
read up to what ends it, which stays with the marks. -/
def GivesBlock (parser : Parser (List Stmt)) (block : List Stmt) (ts : List Token)
    (behind : List Mark) : Prop :=
  ∃ read rest, parser ts = .ok (read, rest) ∧ Stmt.bareAll read = Stmt.bareAll block ∧
    marksOf rest = behind

/-- Whether a block inside an if statement ends at a lexeme. The end of the line is not among
them: there the if statement lacks its end. -/
def closesBranch (lexeme : Lexeme) : Prop :=
  lexeme = .keyword .elseWord ∨ lexeme = .keyword .endWord

/-- Whether a parser reads the blocks that may stand one level down. They end at a word that
closes a branch, and there has to be a level left. -/
def BlockComplete (depth : Nat) (inner : Parser (List Stmt)) : Prop :=
  ∀ ⦃block : List Stmt⦄ ⦃ts : List Token⦄ ⦃behind : List Mark⦄, 0 < depth →
    Stmt.RegularAll (depth - 1) block → Clean (Stmt.marksAll block) →
    marksOf ts = Stmt.marksAll block ++ behind → closesBranch (Mark.front behind) →
    GivesBlock inner block ts behind

/-- An expression is read as a statement where no assignment begins. The two begin alike, so the
sign behind the name decides. -/
theorem statement_plain {sheet : Sheet} {inner : Parser (List Stmt)} {ts : List Token}
    (begins : (front ts).lexeme.beginsExpr = true)
    (none : (front ts).lexeme.nameOf? ≠ .none → matchAssign (ts.drop 1) = .none) :
    statement sheet inner ts = plain sheet ts := by
  unfold statement
  simp only
  split
  · next found =>
    rw [found] at begins
    contradiction
  · next found =>
    rw [found] at begins
    contradiction
  · next found =>
    rw [found] at begins
    contradiction
  · split
    · next name op width found isAssign =>
      rw [none (by rw [found]; exact Option.some_ne_none name)] at isAssign
      contradiction
    · rfl

theorem gives_plain {sheet : Sheet} {inner : Parser (List Stmt)} {loc : Option Location}
    {value : Expr} (regular : value.Regular) (clean : Clean value.marks) {ts : List Token}
    {behind : List Mark} (marks : marksOf ts = value.marks ++ behind)
    (separated : separates (Mark.front behind) = true) :
    GivesStmt (statement sheet inner) (.expression loc value) ts behind := by
  obtain ⟨m, ms, shape, begins⟩ := value.exists_marks_cons
  have first : (front ts).lexeme = Mark.front value.marks := by
    rw [lexeme_front, marks, Mark.front_append (by simp [shape])]
  have isPlain : statement sheet inner ts = plain sheet ts := by
    apply statement_plain
    · rw [first, shape]
      exact begins
    · intro isName
      obtain ⟨name, found⟩ := Option.ne_none_iff_exists'.mp isName
      apply matchAssign_of_not_assigns
      rw [marksOf_drop, marks]
      exact assigns_tail (first ▸ found) (assigns_of_separates separated)
  obtain ⟨read, rest, here, same, left⟩ := gives_expression sheet regular clean marks separated
  refine ⟨.expression (sheet.locate ts) read, rest, ?_, by rw [Stmt.bare, Stmt.bare, same], left⟩
  rw [isPlain, plain, here]

theorem matchAssign_of_marks {op : AssignOperator} {ts : List Token} {ms : List Mark}
    (marks : marksOf ts = op.marks ++ ms) : matchAssign ts = some (op, op.marks.length) := by
  match ts with
  | [] => cases op <;> contradiction
  | t :: rest =>
    have isFirst : t.lexeme = Mark.front (op.marks ++ ms) := by rw [← marks]; rfl
    cases op with
    | assign =>
      have found : t.lexeme = .symbol .equals := isFirst
      simp [matchAssign, found, isPair_marksOf, marks, AssignOperator.marks, Mark.single]
    | add =>
      have found : t.lexeme = .symbol .plus := isFirst
      simp [matchAssign, found, isPair_marksOf, marks, AssignOperator.marks, compound?]
    | sub =>
      have found : t.lexeme = .symbol .minus := isFirst
      simp [matchAssign, found, isPair_marksOf, marks, AssignOperator.marks, compound?]
    | mul =>
      have found : t.lexeme = .symbol .star := isFirst
      simp [matchAssign, found, isPair_marksOf, marks, AssignOperator.marks, compound?]
    | div =>
      have found : t.lexeme = .symbol .slash := isFirst
      simp [matchAssign, found, isPair_marksOf, marks, AssignOperator.marks, compound?]
    | mod =>
      have found : t.lexeme = .symbol .percent := isFirst
      simp [matchAssign, found, isPair_marksOf, marks, AssignOperator.marks, compound?]
    | pow =>
      have found : t.lexeme = .symbol .caret := isFirst
      simp [matchAssign, found, isPair_marksOf, marks, AssignOperator.marks, compound?]

theorem statement_assign {sheet : Sheet} {inner : Parser (List Stmt)} {ts rest : List Token}
    {name : String} {op : AssignOperator} {width : Nat} {value : Expr}
    (isName : (front ts).lexeme.nameOf? = some name)
    (isAssign : matchAssign (ts.drop 1) = some (op, width))
    (read : expression sheet (ts.drop (1 + width)) = .ok (value, rest)) :
    statement sheet inner ts =
      .ok (.assign (sheet.locate ts) (.var (sheet.locate ts) (Variable.named name)) op value,
        rest) := by
  unfold statement
  simp only
  split
  · next found =>
    rw [found] at isName
    contradiction
  · next found =>
    rw [found] at isName
    contradiction
  · next found =>
    rw [found] at isName
    contradiction
  · rw [isName, isAssign]
    simp only [read]

theorem gives_assign {sheet : Sheet} {inner : Parser (List Stmt)} {loc place : Option Location}
    {target : Variable} {op : AssignOperator} {value : Expr} (regular : value.Regular)
    (cleanTarget : target.lexeme.Clean) (clean : Clean value.marks) {ts : List Token}
    {behind : List Mark}
    (marks : marksOf ts = .apart target.lexeme :: (op.marks ++ (value.marks ++ behind)))
    (separated : separates (Mark.front behind) = true) :
    GivesStmt (statement sheet inner) (.assign loc (.var place target) op value) ts behind := by
  have isName : (front ts).lexeme.nameOf? = some target.name := by
    rw [lexeme_front, marks]
    exact target.nameOf?_lexeme
  have opMarks : marksOf (ts.drop 1) = op.marks ++ (value.marks ++ behind) := by
    rw [marksOf_drop, marks]
    rfl
  have valueMarks : marksOf (ts.drop (1 + op.marks.length)) = value.marks ++ behind := by
    rw [← List.drop_drop]
    exact marksOf_drop_append opMarks rfl
  obtain ⟨read, rest, here, same, left⟩ := gives_expression sheet regular clean valueMarks separated
  refine ⟨_, rest, statement_assign isName (matchAssign_of_marks opMarks) here, ?_, left⟩
  rw [(settled_of_clean cleanTarget).2, Stmt.bare, Stmt.bare, Expr.bare, Expr.bare, same]

theorem gives_jump {sheet : Sheet} {inner : Parser (List Stmt)} {loc : Option Location}
    {target : Expr} (regular : target.Regular) (clean : Clean target.marks) {ts : List Token}
    {behind : List Mark} (marks : marksOf ts = Mark.word .goto ++ (target.marks ++ behind))
    (separated : separates (Mark.front behind) = true) :
    GivesStmt (statement sheet inner) (.jump loc target) ts behind := by
  have isGoto : (front ts).lexeme = .keyword .goto := by rw [lexeme_front, marks]; rfl
  have targetMarks : marksOf (ts.drop 1) = target.marks ++ behind := marksOf_drop_append marks rfl
  obtain ⟨read, rest, here, same, left⟩ :=
    gives_expression sheet regular clean targetMarks separated
  refine ⟨.jump (sheet.locate ts) read, rest, ?_, by rw [Stmt.bare, Stmt.bare, same], left⟩
  simp only [statement, isGoto]
  rw [here]

/-- The end of a regular if statement is read from its marks. -/
theorem gives_closeBranch {inner : Parser (List Stmt)} {depth : Nat}
    (complete : BlockComplete depth inner) (deep : 0 < depth) (loc : Option Location)
    (condition : Expr) (body : List Stmt) {otherwise : Option (List Stmt)}
    (regular : Stmt.RegularElse (depth - 1) otherwise) (clean : Clean (Stmt.marksElse otherwise))
    {ts : List Token} {behind : List Mark}
    (marks : marksOf ts = Stmt.marksElse otherwise ++ (Mark.word .endWord ++ behind)) :
    ∃ read rest, closeBranch inner loc condition body ts =
        .ok (.branch loc condition body read, rest) ∧
      Stmt.bareElse read = Stmt.bareElse otherwise ∧ marksOf rest = behind := by
  cases otherwise with
  | none =>
    have isEnd : (front ts).lexeme = .keyword .endWord := by rw [lexeme_front, marks]; rfl
    have left : marksOf (ts.drop 1) = behind := by rw [marksOf_drop, marks]; rfl
    refine ⟨none, ts.drop 1, ?_, rfl, left⟩
    simp [closeBranch, isEnd]
  | some block =>
    rw [Stmt.marksElse, List.append_assoc] at marks
    have isElse : (front ts).lexeme = .keyword .elseWord := by rw [lexeme_front, marks]; rfl
    have blockMarks : marksOf (ts.drop 1) = _ := marksOf_drop_append marks rfl
    obtain ⟨read, rest, here, same, left⟩ := complete deep regular.2 (clean_append.mp clean).2
      blockMarks (.inr rfl)
    have isEnd : (front rest).lexeme = .keyword .endWord := by rw [lexeme_front, left]; rfl
    have inhabited : read.isEmpty = false := by
      cases read with
      | nil =>
        cases block with
        | nil => exact absurd rfl regular.1
        | cons s others => simp [Stmt.bareAll] at same
      | cons s others => rfl
    refine ⟨some read, rest.drop 1, ?_, congrArg some same, marksOf_drop_append left rfl⟩
    simp only [closeBranch, isElse, here, isEnd, inhabited, Bool.false_eq_true, if_false, if_true]
    simp

theorem gives_branch {sheet : Sheet} {inner : Parser (List Stmt)} {depth : Nat}
    (complete : BlockComplete depth inner) {loc : Option Location} {condition : Expr}
    {body : List Stmt} {otherwise : Option (List Stmt)}
    (regular : (Stmt.branch loc condition body otherwise).Regular depth)
    (clean : Clean (Stmt.branch loc condition body otherwise).marks) {ts : List Token}
    {behind : List Mark}
    (marks : marksOf ts = (Stmt.branch loc condition body otherwise).marks ++ behind) :
    GivesStmt (statement sheet inner) (.branch loc condition body otherwise) ts behind := by
  obtain ⟨regularCondition, deep, regularBody, regularElse⟩ := regular
  simp only [Stmt.marks, clean_append] at clean
  obtain ⟨⟨⟨⟨⟨_, cleanCondition⟩, _⟩, cleanBody⟩, cleanElse⟩, _⟩ := clean
  simp only [Stmt.marks, List.append_assoc] at marks
  have isIf : (front ts).lexeme = .keyword .ifWord := by rw [lexeme_front, marks]; rfl
  have conditionMarks : marksOf (ts.drop 1) = _ := marksOf_drop_append marks rfl
  obtain ⟨read, rest, here, same, thenMarks⟩ :=
    gives_expression sheet regularCondition cleanCondition conditionMarks rfl
  have isThen : (front rest).lexeme = .keyword .thenWord := by rw [lexeme_front, thenMarks]; rfl
  have bodyMarks : marksOf (rest.drop 1) = _ := marksOf_drop_append thenMarks rfl
  have closes : closesBranch
      (Mark.front (Stmt.marksElse otherwise ++ (Mark.word .endWord ++ behind))) := by
    cases otherwise with
    | none => exact .inr rfl
    | some block => exact .inl rfl
  obtain ⟨readBody, between, there, sameBody, elseMarks⟩ :=
    complete deep regularBody cleanBody bodyMarks closes
  obtain ⟨readElse, after, close, sameElse, left⟩ :=
    gives_closeBranch complete deep (sheet.locate ts) read readBody regularElse cleanElse elseMarks
  refine ⟨.branch (sheet.locate ts) read readBody readElse, after, ?_, ?_, left⟩
  · simp only [statement, isIf]
    simp only [branch, here, isThen, if_true, there]
    exact close
  · rw [Stmt.bare, Stmt.bare, same, sameBody, sameElse]

theorem gives_comment {sheet : Sheet} {inner : Parser (List Stmt)} {loc : Option Location}
    {text : String} {ts : List Token} {behind : List Mark}
    (marks : marksOf ts = .apart (.comment text) :: behind) :
    GivesStmt (statement sheet inner) (.comment loc text) ts behind := by
  have found : (front ts).lexeme = .comment text := by rw [lexeme_front, marks]; rfl
  refine ⟨.comment (sheet.locate ts) text, ts.drop 1, ?_, rfl, by rw [marksOf_drop, marks]; rfl⟩
  simp only [statement, found]

/-- A regular statement is read from its clean marks. What stands behind it must separate, if
the statement ends in an expression. -/
theorem gives_statement (sheet : Sheet) {inner : Parser (List Stmt)} {depth : Nat}
    (complete : BlockComplete depth inner) {s : Stmt} (regular : s.Regular depth)
    (clean : Clean s.marks) {ts : List Token} {behind : List Mark}
    (marks : marksOf ts = s.marks ++ behind)
    (separated : s.endsOpen = true → separates (Mark.front behind) = true) :
    GivesStmt (statement sheet inner) s ts behind := by
  cases s with
  | comment => exact gives_comment marks
  | branch => exact gives_branch complete regular clean marks
  | jump loc target =>
    rw [Stmt.marks, List.append_assoc] at marks
    exact gives_jump regular (clean_append.mp clean).2 marks (separated rfl)
  | assign loc target op value =>
    cases target with
    | var place target =>
      simp only [Stmt.marks, clean_append] at clean
      rw [Stmt.marks, List.append_assoc, List.append_assoc] at marks
      have cleanTarget : target.lexeme.Clean := clean.1.1 _ (List.mem_singleton.mpr rfl)
      exact gives_assign regular.2 cleanTarget clean.2 marks (separated rfl)
    | _ => exact absurd regular.1 (by simp [Expr.isVariable])
  | expression => exact gives_plain regular clean marks (separated rfl)

/-! ### Blocks -/

/-- Whether a block ends at a lexeme. The two words do so only inside of an if statement;
outside they begin no statement either and are refused. -/
def closesBlock (inside : Bool) (lexeme : Lexeme) : Bool :=
  lexeme.endsLine || inside && (lexeme = .keyword .elseWord || lexeme = .keyword .endWord)

theorem endsBlock_eq (inside : Bool) (ts : List Token) :
    endsBlock inside ts = closesBlock inside (front ts).lexeme := by
  unfold endsBlock closesBlock
  cases (front ts).lexeme with
  | keyword k => cases k <;> simp [Lexeme.endsLine]
  | _ => simp [Lexeme.endsLine]

theorem separates_of_closesBlock {inside : Bool} {lexeme : Lexeme}
    (closes : closesBlock inside lexeme = true) : separates lexeme = true := by
  cases lexeme with
  | keyword k => cases k <;> simp_all [closesBlock, Lexeme.endsLine, separates]
  | symbol => simp [closesBlock, Lexeme.endsLine] at closes
  | _ => rfl

theorem not_closesBlock_of_beginsStmt {inside : Bool} {lexeme : Lexeme}
    (begins : lexeme.beginsStmt = true) : closesBlock inside lexeme = false := by
  obtain ⟨noNewline, noFinish, noElse, noEnd⟩ := Lexeme.not_endsBlock_of_beginsStmt begins
  have inLine : lexeme.endsLine = false := by
    cases lexeme with
    | newline => exact absurd rfl noNewline
    | finish => exact absurd rfl noFinish
    | _ => rfl
  simp [closesBlock, inLine, noElse, noEnd]

/-- A statement that no sign begins stands apart from the expression before it. -/
theorem separates_of_beginsStmt {lexeme : Lexeme} (begins : lexeme.beginsStmt = true)
    (noPlus : lexeme ≠ .symbol .plus) (noMinus : lexeme ≠ .symbol .minus) :
    separates lexeme = true := by
  cases lexeme with
  | symbol s =>
    cases s with
    | plus => exact absurd rfl noPlus
    | minus => exact absurd rfl noMinus
    | leftParen => rfl
    | _ => contradiction
  | keyword k =>
    cases k with
    | and | or => contradiction
    | _ => rfl
  | _ => rfl

/-- What stands behind a statement separates it from the statements that follow, if they are
parted from it and the block ends behind them. -/
theorem separates_of_parted {inside : Bool} {depth : Nat} {s : Stmt} {rest : List Stmt}
    {behind : List Mark} (regular : Stmt.RegularAll depth rest) (parted : s.Parted rest)
    (closes : closesBlock inside (Mark.front behind) = true) (isOpen : s.endsOpen = true) :
    separates (Mark.front (Stmt.marksAll rest ++ behind)) = true := by
  cases rest with
  | nil => exact separates_of_closesBlock closes
  | cons next others =>
    obtain ⟨m, ms, shape, begins⟩ := next.exists_marks_cons
    have first : Mark.front (Stmt.marksAll (next :: others) ++ behind) = m.lexeme := by
      rw [Stmt.marksAll, shape]
      rfl
    have unsigned : next.beginsSigned = false := parted isOpen next rfl
    have notSign (sign : Symbol) (isSign : sign = .plus ∨ sign = .minus) :
        m.lexeme ≠ .symbol sign := by
      intro found
      cases next with
      | expression loc value =>
        have same : Mark.front value.marks = .symbol sign := by
          rw [← found, show value.marks = m :: ms from shape, Mark.front_cons]
        rcases isSign with rfl | rfl <;> simp [Stmt.beginsSigned, same] at unsigned
      | assign loc target op value =>
        cases target with
        | var place target =>
          have same : m.lexeme = target.lexeme := by rw [← (List.cons.inj shape).1]; rfl
          have name := target.nameOf?_lexeme
          rw [← same, found] at name
          contradiction
        | _ => exact absurd regular.1.1 (by simp [Expr.isVariable])
      | _ =>
        rw [← (List.cons.inj shape).1] at found
        contradiction
    rw [first]
    exact separates_of_beginsStmt begins (notSign _ (.inl rfl)) (notSign _ (.inr rfl))

/-- A regular block is read from its clean marks.

Proof: induction over the statements. Each takes a token at least, so there are
statements enough to go by. -/
theorem gives_block {sheet : Sheet} {inner : Parser (List Stmt)} {depth : Nat} {inside : Bool}
    (complete : BlockComplete depth inner) {read : List Stmt}
    (regular : Stmt.RegularAll depth read) (clean : Clean (Stmt.marksAll read))
    {most ts : List Token} (enough : ts.length ≤ most.length) {behind : List Mark}
    (marks : marksOf ts = Stmt.marksAll read ++ behind)
    (closes : closesBlock inside (Mark.front behind) = true) :
    GivesBlock (block (statement sheet inner) inside most) read ts behind := by
  induction read generalizing most ts with
  | nil =>
    have ends : endsBlock inside ts = true := by
      rw [endsBlock_eq, lexeme_front, marks]
      exact closes
    exact ⟨[], ts, block_of_endsBlock ends, rfl, marks⟩
  | cons s rest inductionHypothesis =>
    obtain ⟨regularFirst, parted, regularRest⟩ := regular
    obtain ⟨cleanFirst, cleanRest⟩ := clean_append.mp clean
    obtain ⟨m, ms, shape, begins⟩ := s.exists_marks_cons
    rw [Stmt.marksAll, List.append_assoc] at marks
    have goesOn : endsBlock inside ts = false := by
      rw [endsBlock_eq, lexeme_front, marks, shape]
      exact not_closesBlock_of_beginsStmt begins
    obtain ⟨first, between, here, same, restMarks⟩ := gives_statement sheet complete
      regularFirst cleanFirst marks fun isOpen =>
        separates_of_parted regularRest parted closes isOpen
    have size := congrArg List.length marks
    have sizeRest := congrArg List.length restMarks
    simp only [length_marksOf, List.length_append, shape, List.length_cons] at size sizeRest
    cases most with
    | nil =>
      rw [List.length_nil] at enough
      omega
    | cons t most =>
      rw [List.length_cons] at enough
      obtain ⟨others, after, there, sameRest, left⟩ := inductionHypothesis regularRest cleanRest
        (show between.length ≤ most.length by omega) restMarks
      refine ⟨first :: others, after, ?_, by rw [Stmt.bareAll, Stmt.bareAll, same, sameRest], left⟩
      simp only [block, goesOn, Bool.false_eq_true, if_false, here, there]

/-- Blocks inside if statements are read at every depth that they need. What they need is one
level more than the deepest statement in them. -/
theorem blockComplete_innerBlock (sheet : Sheet) (depth : Nat) :
    BlockComplete depth (innerBlock sheet depth) := by
  induction depth with
  | zero =>
    intro read ts behind deep
    contradiction
  | succ depth inner =>
    intro read ts behind _ regular clean marks closes
    apply gives_block inner regular clean (Nat.le_refl _) marks
    rcases closes with isElse | isEnd
    · rw [isElse]
      rfl
    · rw [isEnd]
      rfl

/-- The statements of a line are read from their clean marks, if they are regular and the
line ends behind them. -/
theorem gives_statements (sheet : Sheet) {read : List Stmt}
    (regular : Stmt.RegularAll nestingLimit read) (clean : Clean (Stmt.marksAll read))
    {ts : List Token} {behind : List Mark} (marks : marksOf ts = Stmt.marksAll read ++ behind)
    (atEnd : (Mark.front behind).endsLine = true) :
    GivesBlock (statements sheet) read ts behind :=
  gives_block (blockComplete_innerBlock sheet nestingLimit) regular clean (Nat.le_refl _) marks
    (by rw [closesBlock, atEnd, Bool.true_or])

end Grammar

end YololChip
