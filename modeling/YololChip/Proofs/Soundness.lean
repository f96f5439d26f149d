import YololChip.Proofs.SoundExpressions
import YololChip.Source.Program

/-!
# What is read as a line was written

Statements are read from their marks as expressions are, and no token is lost but a word
that begins an else part without statements. A comment is the last token of its line, so
none stands inside a statement and one at most behind all others, and a line that was
read can be carried by a document.
-/

namespace YololChip.Grammar

/-! ### Statements -/

/-- What is known of a statement that was read: a document can carry it, or it is a comment and
its line ends. Its marks are the tokens that were taken, but for an else part without
statements. -/
structure ReadsStmt (s : Stmt) (ts rest : List Token) : Prop where
  takes : Takes s.marks ts rest
  leveled : s.Leveled
  kept : s.Portable ∨
    (∃ loc text, s = .comment loc text) ∧ (front rest).lexeme.endsLine = true

/-- What is known of a block that was read: it is code, and perhaps a comment, behind which its
line ends. It was read as far as it goes: what is left begins with what ends a block. -/
structure ReadsBlock (inside : Bool) (block : List Stmt) (ts rest : List Token) : Prop where
  takes : Takes (Stmt.marksAll block) ts rest
  leveled : Stmt.LeveledAll block
  kept : ∃ code closing text, Stmt.PortableAll code ∧ Stmt.Closing closing text ∧
    block = code ++ closing ∧ (closing ≠ [] → (front rest).lexeme.endsLine = true)
  ends : endsBlock inside rest = true

/-- Whether a parser of statements reads what was written. -/
def StmtSound (parser : Parser Stmt) : Prop :=
  ∀ ⦃ts rest : List Token⦄ ⦃s : Stmt⦄, Scanned ts → parser ts = .ok (s, rest) →
    ReadsStmt s ts rest

/-- Whether a parser of blocks reads what was written. -/
def BlockSound (inside : Bool) (parser : Parser (List Stmt)) : Prop :=
  ∀ ⦃ts rest : List Token⦄ ⦃block : List Stmt⦄, Scanned ts → parser ts = .ok (block, rest) →
    ReadsBlock inside block ts rest

theorem endsBlock_of_endsLine {inside : Bool} {ts : List Token}
    (atEnd : (front ts).lexeme.endsLine = true) : endsBlock inside ts = true := by
  unfold endsBlock
  split
  · rfl
  · rfl
  · next found =>
    rw [found] at atEnd
    contradiction
  · next found =>
    rw [found] at atEnd
    contradiction
  · next noNewline noFinish _ _ =>
    unfold Lexeme.endsLine at atEnd
    split at atEnd
    · next found => exact absurd found noNewline
    · next found => exact absurd found noFinish
    · contradiction

theorem block_of_endsBlock {statement : Parser Stmt} {inside : Bool} {most ts : List Token}
    (ends : endsBlock inside ts = true) : block statement inside most ts = .ok ([], ts) := by
  cases most with
  | nil => rfl
  | cons t most => rw [block, if_pos ends]

/-- A block that may go on has no statement where it ends. Where it does not end, a statement is
read and the others behind it. -/
theorem block_cons_eq_ok {statement : Parser Stmt} {inside : Bool} {m : Token}
    {most ts rest : List Token} {read : List Stmt} :
    block statement inside (m :: most) ts = .ok (read, rest) ↔
      (endsBlock inside ts = true ∧ read = [] ∧ rest = ts) ∨
      ∃ first between others, endsBlock inside ts = false ∧
        statement ts = .ok (first, between) ∧
        block statement inside most between = .ok (others, rest) ∧ read = first :: others := by
  constructor
  · intro found
    unfold block at found
    split at found
    · next ends =>
      obtain ⟨rfl, rfl⟩ := Prod.mk.inj (Except.ok.inj found)
      exact .inl ⟨ends, rfl, rfl⟩
    · next goesOn =>
      split at found
      · contradiction
      · next first between readFirst =>
        split at found
        · contradiction
        · next others behind readOthers =>
          obtain ⟨rfl, rfl⟩ := Prod.mk.inj (Except.ok.inj found)
          exact .inr ⟨first, between, others, Bool.eq_false_iff.mpr goesOn, readFirst, readOthers,
            rfl⟩
  · rintro (⟨ends, rfl, rfl⟩ | ⟨first, between, others, goesOn, readFirst, readOthers, rfl⟩)
    · rw [block, if_pos ends]
    · simp only [block, goesOn, Bool.false_eq_true, if_false, readFirst, readOthers]

/-- A block is given up at one of its statements. -/
theorem block_cons_eq_error {statement : Parser Stmt} {inside : Bool} {m : Token}
    {most ts : List Token} {stuck : Stuck} :
    block statement inside (m :: most) ts = .error stuck ↔
      endsBlock inside ts = false ∧
      (statement ts = .error stuck ∨
      ∃ first between, statement ts = .ok (first, between) ∧
        block statement inside most between = .error stuck) := by
  constructor
  · intro failed
    unfold block at failed
    split at failed
    · contradiction
    · next goesOn =>
      have goesOn := Bool.eq_false_iff.mpr goesOn
      split at failed
      · next stuckFirst =>
        obtain rfl := Except.error.inj failed
        exact ⟨goesOn, .inl stuckFirst⟩
      · next first between readFirst =>
        split at failed
        · next stuckLater =>
          obtain rfl := Except.error.inj failed
          exact ⟨goesOn, .inr ⟨first, between, readFirst, stuckLater⟩⟩
        · contradiction
  · rintro ⟨goesOn, stuckFirst | ⟨first, between, readFirst, stuckLater⟩⟩
    · simp only [block, goesOn, Bool.false_eq_true, if_false, stuckFirst]
    · simp only [block, goesOn, Bool.false_eq_true, if_false, readFirst, stuckLater]

theorem ReadsBlock.empty {inside : Bool} {ts : List Token} (ends : endsBlock inside ts = true) :
    ReadsBlock inside [] ts ts :=
  ⟨.nil ts, trivial, ⟨[], [], "", trivial, .absent, rfl, fun filled => absurd rfl filled⟩, ends⟩

/-- A statement and the block behind it are read in a row. Behind a comment there is no
other statement. -/
theorem ReadsBlock.cons {inside : Bool} {s : Stmt} {others : List Stmt}
    {ts between rest : List Token} (first : ReadsStmt s ts between)
    (later : ReadsBlock inside others between rest)
    (alone : (front between).lexeme.endsLine = true → others = [] ∧ rest = between) :
    ReadsBlock inside (s :: others) ts rest where
  takes := first.takes.append later.takes
  leveled := ⟨first.leveled, later.leveled⟩
  kept := by
    rcases first.kept with portable | ⟨⟨loc, text, rfl⟩, atEnd⟩
    · obtain ⟨code, closing, text, portableCode, closed, rfl, filled⟩ := later.kept
      exact ⟨s :: code, closing, text, ⟨portable, portableCode⟩, closed, rfl, filled⟩
    · obtain ⟨rfl, rfl⟩ := alone atEnd
      exact ⟨[], _, text, trivial, .comment loc text, rfl, fun _ => atEnd⟩
  ends := later.ends

/-- A block is read as written.

Proof: induction over the statements that there may be at most. A statement takes a
token at least, so the list to go by does not end before the block does. -/
theorem reads_block {statement : Parser Stmt} {inside : Bool} (sound : StmtSound statement)
    {most ts rest : List Token} {read : List Stmt} (enough : ts.length ≤ most.length)
    (scanned : Scanned ts) (found : block statement inside most ts = .ok (read, rest)) :
    ReadsBlock inside read ts rest := by
  induction most generalizing ts read with
  | nil =>
    obtain rfl := List.eq_nil_of_length_eq_zero (Nat.le_zero.mp enough)
    obtain ⟨rfl, rfl⟩ := Prod.mk.inj (Except.ok.inj found)
    exact .empty rfl
  | cons _ most inductionHypothesis =>
    rcases block_cons_eq_ok.mp found with
      ⟨ends, rfl, rfl⟩ | ⟨first, between, others, _, readFirst, readOthers, rfl⟩
    · exact .empty ends
    · have firstRead := sound scanned readFirst
      obtain ⟨m, ms, shape, _⟩ := first.exists_marks_cons
      have shorter := firstRead.takes.length_le
      rw [shape, List.length_cons] at shorter
      rw [List.length_cons] at enough
      have later := inductionHypothesis (by omega)
        (scanned_of_takes firstRead.takes scanned) readOthers
      refine .cons firstRead later ?_
      intro atEnd
      rw [block_of_endsBlock (endsBlock_of_endsLine atEnd)] at readOthers
      obtain ⟨none, same⟩ := Prod.mk.inj (Except.ok.inj readOthers)
      exact ⟨none.symm, same.symm⟩

theorem eq_of_takes_nil {ts rest : List Token} (takes : Takes [] ts rest) : rest = ts := by
  obtain ⟨used, rfl, covers⟩ := takes
  cases covers with
  | nil => rfl
  | skip _ isEnd later =>
    obtain ⟨m, head, _⟩ := later.head_of_end isEnd
    contradiction

/-- A block inside an if statement that is read up to its else or its end is portable. -/
theorem ReadsBlock.portable {inside : Bool} {block : List Stmt} {ts rest : List Token}
    (read : ReadsBlock inside block ts rest) (goesOn : (front rest).lexeme.endsLine = false) :
    Stmt.PortableAll block := by
  obtain ⟨code, closing, text, portable, closed, rfl, filled⟩ := read.kept
  cases closed with
  | absent => rwa [List.append_nil]
  | comment =>
    rw [filled (List.cons_ne_nil _ _)] at goesOn
    contradiction

/-- What is known of the end of an if statement that was read: its else part, if it has one, and
the word that ends it were taken. -/
structure ReadsClose (otherwise : Option (List Stmt)) (ts rest : List Token) : Prop where
  takes : Takes (Stmt.marksElse otherwise ++ Mark.word .endWord) ts rest
  leveled : Stmt.LeveledElse otherwise
  portable : Stmt.PortableElse otherwise
  goesOn : (front ts).lexeme.endsLine = false

/-- An else part is taken with the end behind it. Without statements it leaves no mark. -/
theorem takes_else {block : List Stmt} {ts between : List Token}
    (isElse : (front ts).lexeme = .keyword .elseWord)
    (takes : Takes (Stmt.marksAll block) (ts.drop 1) between)
    (isEnd : (front between).lexeme = .keyword .endWord) :
    Takes (Stmt.marksElse (if block.isEmpty then none else some block) ++ Mark.word .endWord) ts
      (between.drop 1) := by
  have closed := takes_word isEnd (by decide)
  cases block with
  | nil =>
    obtain rfl := eq_of_takes_nil takes
    exact .skipElse isElse isEnd closed
  | cons s others =>
    obtain ⟨m, ms, shape, begins⟩ := s.exists_marks_cons
    have noEnd := (Lexeme.not_endsBlock_of_beginsStmt begins).2.2.2
    have later := takes.append closed
    rw [Stmt.marksAll, shape, List.cons_append, List.cons_append] at later
    have taken := Takes.elseWord isElse noEnd later
    simpa [Stmt.marksElse, Stmt.marksAll, Mark.word, shape] using taken

theorem ReadsClose.of_else {block : List Stmt} {ts between : List Token}
    (isElse : (front ts).lexeme = .keyword .elseWord)
    (read : ReadsBlock true block (ts.drop 1) between)
    (isEnd : (front between).lexeme = .keyword .endWord) :
    ReadsClose (if block.isEmpty then none else some block) ts (between.drop 1) := by
  have goesOn : (front ts).lexeme.endsLine = false := by rw [isElse]; rfl
  have takes := takes_else isElse read.takes isEnd
  cases block with
  | nil => exact ⟨takes, trivial, trivial, goesOn⟩
  | cons s others =>
    have portable := read.portable (by rw [isEnd]; rfl)
    exact ⟨takes, read.leveled, ⟨List.cons_ne_nil _ _, portable⟩, goesOn⟩

/-- What follows the body of an if statement is its end, or an else part with the end behind it. -/
theorem closeBranch_eq_ok {inner : Parser (List Stmt)} {loc : Option Location} {condition : Expr}
    {body : List Stmt} {ts rest : List Token} {s : Stmt} :
    closeBranch inner loc condition body ts = .ok (s, rest) ↔
      ((front ts).lexeme = .keyword .endWord ∧ s = .branch loc condition body none ∧
        rest = ts.drop 1) ∨
      ∃ block between, (front ts).lexeme = .keyword .elseWord ∧
        inner (ts.drop 1) = .ok (block, between) ∧
        (front between).lexeme = .keyword .endWord ∧
        s = .branch loc condition body (if block.isEmpty then none else some block) ∧
        rest = between.drop 1 := by
  constructor
  · intro read
    unfold closeBranch at read
    simp only at read
    split at read
    · next isElse =>
      split at read
      · contradiction
      · next block between readElse =>
        split at read
        · contradiction
        · split at read
          · next isEnd =>
            obtain ⟨rfl, rfl⟩ := Prod.mk.inj (Except.ok.inj read)
            exact .inr ⟨block, between, isElse, readElse, isEnd, rfl, rfl⟩
          · contradiction
    · split at read
      · next isEnd =>
        obtain ⟨rfl, rfl⟩ := Prod.mk.inj (Except.ok.inj read)
        exact .inl ⟨isEnd, rfl, rfl⟩
      · contradiction
  · rintro (⟨isEnd, rfl, rfl⟩ | ⟨block, between, isElse, readElse, isEnd, rfl, rfl⟩)
    · simp [closeBranch, isEnd]
    · simp only [closeBranch, if_pos isElse, readElse]
      simp [isEnd]

/-- An if statement is read as its condition, the word behind it, its body, and what follows. -/
theorem branch_eq_ok {sheet : Sheet} {inner : Parser (List Stmt)} {ts : List Token}
    {read : Stmt × List Token} :
    branch sheet inner ts = .ok read ↔
      ∃ condition behind body between, expression sheet (ts.drop 1) = .ok (condition, behind) ∧
        (front behind).lexeme = .keyword .thenWord ∧
        inner (behind.drop 1) = .ok (body, between) ∧
        closeBranch inner (sheet.locate ts) condition body between = .ok read := by
  constructor
  · intro found
    unfold branch at found
    split at found
    · contradiction
    · next condition behind readCondition =>
      split at found
      · next isThen =>
        split at found
        · contradiction
        · next body between readBody =>
          exact ⟨condition, behind, body, between, readCondition, isThen, readBody, found⟩
      · contradiction
  · rintro ⟨condition, behind, body, between, readCondition, isThen, readBody, close⟩
    simp only [branch, readCondition, if_pos isThen, readBody, close]

theorem plain_eq_ok {sheet : Sheet} {ts rest : List Token} {s : Stmt} :
    plain sheet ts = .ok (s, rest) ↔
      ∃ value, expression sheet ts = .ok (value, rest) ∧
        s = .expression (sheet.locate ts) value := by
  constructor
  · intro read
    unfold plain at read
    split at read
    · contradiction
    · next value behind readValue =>
      obtain ⟨rfl, rfl⟩ := Prod.mk.inj (Except.ok.inj read)
      exact ⟨value, readValue, rfl⟩
  · rintro ⟨value, readValue, rfl⟩
    simp only [plain, readValue]

/-- What follows the body of an if statement is read as written. An else part without statements
leaves no trace in the tree. -/
theorem reads_closeBranch {inner : Parser (List Stmt)} (innerSound : BlockSound true inner)
    {loc : Option Location} {condition : Expr} {body : List Stmt} {ts rest : List Token} {s : Stmt}
    (scanned : Scanned ts) (read : closeBranch inner loc condition body ts = .ok (s, rest)) :
    ∃ otherwise, s = .branch loc condition body otherwise ∧ ReadsClose otherwise ts rest := by
  rcases closeBranch_eq_ok.mp read with
    ⟨isEnd, rfl, rfl⟩ | ⟨block, between, isElse, readElse, isEnd, rfl, rfl⟩
  · refine ⟨none, rfl, takes_word isEnd (by decide), trivial, trivial, ?_⟩
    rw [isEnd]
    rfl
  · exact ⟨_, rfl, .of_else isElse (innerSound scanned.drop_one readElse) isEnd⟩

theorem reads_branch {sheet : Sheet} {inner : Parser (List Stmt)}
    (innerSound : BlockSound true inner)
    {ts rest : List Token} {s : Stmt} (scanned : Scanned ts)
    (isIf : (front ts).lexeme = .keyword .ifWord) (read : branch sheet inner ts = .ok (s, rest)) :
    ReadsStmt s ts rest := by
  obtain ⟨condition, behind, body, between, readCondition, isThen, readBody, close⟩ :=
    branch_eq_ok.mp read
  have conditionRead := sound_expression sheet scanned.drop_one readCondition
  have scannedBehind := scanned_of_takes conditionRead.takes scanned.drop_one
  have bodyRead := innerSound scannedBehind.drop_one readBody
  have scannedBetween := scanned_of_takes bodyRead.takes scannedBehind.drop_one
  obtain ⟨otherwise, rfl, closeRead⟩ := reads_closeBranch innerSound scannedBetween close
  refine ⟨?_, ⟨conditionRead.leveled, bodyRead.leveled, closeRead.leveled⟩,
    .inl ⟨conditionRead.settled, bodyRead.portable closeRead.goesOn, closeRead.portable⟩⟩
  have opening := (takes_word isIf (by decide)).append conditionRead.takes
  have body := (opening.append (takes_word isThen (by decide))).append bodyRead.takes
  rw [Stmt.marks, List.append_assoc]
  exact body.append closeRead.takes

theorem takes_matchAssign {ts : List Token} {op : AssignOperator} {width : Nat}
    (found : matchAssign ts = some (op, width)) : Takes op.marks ts (ts.drop width) := by
  unfold matchAssign at found
  split at found
  · next first rest =>
    split at found
    · next isEquals =>
      split at found
      · contradiction
      · obtain ⟨rfl, rfl⟩ := Prod.mk.inj (Option.some.inj found)
        have sign : Takes (Mark.single .equals) (first :: rest) ((first :: rest).drop 1) :=
          takes_single isEquals
        exact sign
    · next s _ _ =>
      split at found
      · contradiction
      · next operator isCompound =>
        split at found
        · next isPair =>
          obtain ⟨rfl, rfl⟩ := Prod.mk.inj (Option.some.inj found)
          have marks : operator.marks = Mark.pair s .equals := by
            cases s <;> first | contradiction | (obtain rfl := Option.some.inj isCompound; rfl)
          rw [marks]
          exact .pair isPair
        · contradiction
    · contradiction
  · contradiction

/-- What a statement is read as and where it leaves off, a case for each way in which one begins.
An expression stands where nothing else begins, so not where a variable is assigned to. -/
inductive StatementAt (sheet : Sheet) (inner : Parser (List Stmt)) (ts : List Token) :
    Stmt → List Token → Prop where
  | comment {text : String} (found : (front ts).lexeme = .comment text) :
    StatementAt sheet inner ts (.comment (sheet.locate ts) text) (ts.drop 1)
  | jump {target : Expr} {rest : List Token} (found : (front ts).lexeme = .keyword .goto)
    (read : expression sheet (ts.drop 1) = .ok (target, rest)) :
    StatementAt sheet inner ts (.jump (sheet.locate ts) target) rest
  | branch {s : Stmt} {rest : List Token} (found : (front ts).lexeme = .keyword .ifWord)
    (read : branch sheet inner ts = .ok (s, rest)) : StatementAt sheet inner ts s rest
  | assign {name : String} {op : AssignOperator} {width : Nat} {value : Expr} {rest : List Token}
    (found : (front ts).lexeme.nameOf? = some name)
    (isAssign : matchAssign (ts.drop 1) = some (op, width))
    (read : expression sheet (ts.drop (1 + width)) = .ok (value, rest)) :
    StatementAt sheet inner ts (.assign (sheet.locate ts)
      (.var (sheet.locate ts) (Variable.named name)) op value) rest
  | expression {value : Expr} {rest : List Token}
    (noAssign : ∀ name op width, (front ts).lexeme.nameOf? = some name →
      matchAssign (ts.drop 1) ≠ some (op, width))
    (read : expression sheet ts = .ok (value, rest)) :
    StatementAt sheet inner ts (.expression (sheet.locate ts) value) rest

theorem StatementAt.of_statement {sheet : Sheet} {inner : Parser (List Stmt)}
    {ts rest : List Token} {s : Stmt} (read : statement sheet inner ts = .ok (s, rest)) :
    StatementAt sheet inner ts s rest := by
  unfold statement at read
  simp only at read
  split at read
  · next text found =>
    obtain ⟨rfl, rfl⟩ := Prod.mk.inj (Except.ok.inj read)
    exact .comment found
  · next found =>
    split at read
    · contradiction
    · next target behind readTarget =>
      obtain ⟨rfl, rfl⟩ := Prod.mk.inj (Except.ok.inj read)
      exact .jump found readTarget
  · next found => exact .branch found read
  · split at read
    · next name op width found isAssign =>
      split at read
      · contradiction
      · next value behind readValue =>
        obtain ⟨rfl, rfl⟩ := Prod.mk.inj (Except.ok.inj read)
        exact .assign found isAssign readValue
    · next noAssign =>
      obtain ⟨value, readValue, rfl⟩ := plain_eq_ok.mp read
      exact .expression noAssign readValue

theorem stmtSound_statement {sheet : Sheet} {inner : Parser (List Stmt)}
    (innerSound : BlockSound true inner) : StmtSound (statement sheet inner) := by
  intro ts rest s scanned read
  cases StatementAt.of_statement read with
  | @comment text found =>
    refine ⟨.one found rfl (by simp), trivial, .inr ⟨⟨_, text, rfl⟩, ?_⟩⟩
    exact scanned.endsLine_of_comment found
  | jump found readTarget =>
    have targetRead := sound_expression sheet scanned.drop_one readTarget
    exact ⟨(takes_word found (by decide)).append targetRead.takes, targetRead.leveled,
      .inl targetRead.settled⟩
  | branch found readBranch => exact reads_branch innerSound scanned found readBranch
  | assign found isAssign readValue =>
    have target := reads_variable scanned found (sheet.locate ts)
    have takesOp := takes_matchAssign isAssign
    rw [List.drop_drop] at takesOp
    have valueRead := sound_expression sheet (scanned_of_takes takesOp scanned.drop_one) readValue
    exact ⟨(target.takes.append takesOp).append valueRead.takes,
      ⟨trivial, valueRead.leveled⟩, .inl ⟨target.settled, valueRead.settled⟩⟩
  | expression _ readValue =>
    have valueRead := sound_expression sheet scanned readValue
    exact ⟨valueRead.takes, valueRead.leveled, .inl valueRead.settled⟩

/-- A block inside an if statement is read as written at every depth. Without a level left it
reads nothing. -/
theorem blockSound_innerBlock (sheet : Sheet) (depth : Nat) :
    BlockSound true (innerBlock sheet depth) := by
  induction depth with
  | zero =>
    have nothing : StmtSound (stop .tooDeep) := by
      intro ts rest s _ read
      contradiction
    intro ts rest block scanned read
    exact reads_block nothing (Nat.le_refl _) scanned read
  | succ depth inner =>
    intro ts rest block scanned read
    exact reads_block (stmtSound_statement inner) (Nat.le_refl _) scanned read

theorem blockSound_statements (sheet : Sheet) : BlockSound false (statements sheet) := by
  intro ts rest block scanned read
  exact reads_block (stmtSound_statement (blockSound_innerBlock sheet nestingLimit))
    (Nat.le_refl _) scanned read

end YololChip.Grammar

namespace YololChip

/-! ### Lines -/

/-- The tokens of a line up to its end. Those behind it belong to no line that is read. -/
def Token.untilLineEnd (tokens : List Token) : List Token :=
  tokens.takeWhile fun t => !t.lexeme.endsLine

/-- The statements of a line that is read, with the tokens of its text. -/
theorem Line.reads_of_parse {text file : String} {number : Int} {line : Line}
    (read : Line.parse text file number = .ok line) :
    ∃ tokens rest, scan file text = .ok tokens ∧
      Grammar.ReadsBlock false line.statements tokens rest ∧ line.number = number := by
  unfold Line.parse at read
  split at read
  · contradiction
  · next tokens scanned =>
    split at read
    · contradiction
    · next found parsed =>
      obtain rfl := Except.ok.inj read
      unfold Line.ofTokens at parsed
      split at parsed
      · contradiction
      · next statements rest readStatements =>
        obtain rfl := Except.ok.inj parsed
        exact ⟨tokens, rest, scanned,
          Grammar.blockSound_statements _ (scanned_scan scanned) readStatements, rfl⟩

/-- The tokens that are taken before a line ends are those up to its end. No token that is taken
ends the line itself. -/
theorem Takes.untilLineEnd {ms : List Mark} {tokens rest : List Token}
    (takes : Takes ms tokens rest) (atEnd : (Grammar.front rest).lexeme.endsLine = true) :
    Covers ms (Token.untilLineEnd tokens) := by
  obtain ⟨used, rfl, covers⟩ := takes
  have whole : Token.untilLineEnd (used ++ rest) = used := by
    rw [Token.untilLineEnd, List.takeWhile_append_of_pos]
    · cases rest with
      | nil => simp
      | cons t rest =>
        have stops : t.lexeme.endsLine = true := atEnd
        simp [stops]
    · intro t member
      simp [covers.inLine t member]
  rw [whole]
  exact covers

/-- A line that is read is the tokens of its text up to the end of the line: they are the
marks of its statements, one by one and in their order, with symbols side by side where
they make one operator. Only a word that begins an else part without statements leaves
no mark. And every expression is leveled, so it is grouped by precedence alone.

Proof: every parser takes the marks of what it reads, and stops where the line ends. -/
theorem Line.parse_spells {text file : String} {number : Int} {line : Line}
    (read : Line.parse text file number = .ok line) :
    ∃ tokens, scan file text = .ok tokens ∧
      Spells (Stmt.marksAll line.statements) (withoutEmptyElse (Token.untilLineEnd tokens)) ∧
      Stmt.LeveledAll line.statements := by
  obtain ⟨tokens, rest, scanned, reads, _⟩ := Line.reads_of_parse read
  have atEnd : (Grammar.front rest).lexeme.endsLine = true := by
    have ends := reads.ends
    unfold Grammar.endsBlock at ends
    split at ends
    · next found => rw [found]; rfl
    · next found => rw [found]; rfl
    · contradiction
    · contradiction
    · contradiction
  exact ⟨tokens, scanned, (reads.takes.untilLineEnd atEnd).spells, reads.leveled⟩

/-- A step, powers, an else part without statements and a comment are spelled by their line. -/
theorem Line.parse_spells_branch :
    ∃ line, Line.parse "if a then b=3!^2 else end c=a---:d // t" "" 1 = .ok line ∧
      ∃ tokens, scan "" "if a then b=3!^2 else end c=a---:d // t" = .ok tokens ∧
        Spells (Stmt.marksAll line.statements) (withoutEmptyElse (Token.untilLineEnd tokens)) ∧
        Stmt.LeveledAll line.statements := by
  obtain ⟨line, read, _⟩ := exists_ok_of_any
    (x := Line.parse "if a then b=3!^2 else end c=a---:d // t" "" 1) (f := fun _ => true)
    (by decide +kernel)
  exact ⟨line, read, Line.parse_spells read⟩

theorem Line.portable_of_parse {text file : String} {number : Int} {line : Line}
    (read : Line.parse text file number = .ok line) : line.Portable ∧ line.number = number := by
  obtain ⟨tokens, rest, _, reads, same⟩ := Line.reads_of_parse read
  obtain ⟨code, closing, comment, portable, closed, shape, _⟩ := reads.kept
  exact ⟨⟨code, closing, comment, portable, closed, shape⟩, same⟩

end YololChip
