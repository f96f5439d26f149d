import YololChip.Proofs.Soundness
import YololChip.Proofs.StuckExpressions

/-!
# What is left of a line that cannot be read

Statements account for their faults as expressions do. An if statement without its end is
kept as far as it goes: the tokens from its first word up to the place would spell it if
an end stood behind them. An else part without statements leaves nothing behind, as it
does in an if statement that is read.

So every error of a line is about the tokens right before the token that it names.
-/

namespace YololChip.Grammar

/-! ### If statements without an end -/

/-- Whether the marks of an if statement were taken off the front of some tokens, but for the
end, which would be covered by any end that stood there. The end itself was not found, so it is
among the marks and not among the tokens. -/
def TakesOpen (ms : List Mark) (ts rest : List Token) : Prop :=
  ∃ used, ts = used ++ rest ∧ ∀ closing : Token, closing.lexeme = .keyword .endWord →
    Covers ms (used ++ [closing])

/-- Marks may be taken before those of an if statement that is not closed. They are then a part
of what is not closed. -/
theorem TakesOpen.behind {first second : List Mark} {ts between rest : List Token}
    (later : TakesOpen second between rest) (takes : Takes first ts between) :
    TakesOpen (first ++ second) ts rest := by
  obtain ⟨before, rfl, coversFirst⟩ := takes
  obtain ⟨after, rfl, coversSecond⟩ := later
  refine ⟨before ++ after, (List.append_assoc _ _ _).symm, ?_⟩
  intro closing isEnd
  rw [List.append_assoc]
  exact coversFirst.append (coversSecond closing isEnd)

theorem takesOpen_none (ts : List Token) :
    TakesOpen (Stmt.marksElse none ++ Mark.word .endWord) ts ts := by
  refine ⟨[], rfl, fun closing isEnd => .take isEnd rfl ?_ ?_ .nil⟩
  · intro joined
    contradiction
  · intro isElse
    contradiction

/-- An else part is taken although the end behind it is missing. It may be without statements,
and then leaves no mark. -/
theorem takesOpen_else {block : List Stmt} {ts between : List Token}
    (isElse : (front ts).lexeme = .keyword .elseWord)
    (takes : Takes (Stmt.marksAll block) (ts.drop 1) between) :
    TakesOpen (Stmt.marksElse (if block.isEmpty then none else some block) ++
      Mark.word .endWord) ts between := by
  obtain ⟨first, tail, rfl, same⟩ := Takes.exists_of_front isElse rfl
  obtain ⟨used, shape, covers⟩ := takes
  refine ⟨first :: used, congrArg (first :: ·) shape, ?_⟩
  intro closing isEnd
  have opens : (front (first :: used ++ [closing])).lexeme = .keyword .elseWord := same
  have closed : Takes (Stmt.marksAll block) ((first :: used ++ [closing]).drop 1) [closing] :=
    ⟨used, rfl, covers⟩
  have whole : Takes (Stmt.marksElse (if block.isEmpty then none else some block) ++
      Mark.word .endWord) (first :: used ++ [closing]) [] := takes_else opens closed isEnd
  obtain ⟨all, shape, covers⟩ := whole
  rwa [shape, List.append_nil]

/-- Where a block inside an if statement ends, but neither by an else nor by an end, the line
ends. -/
theorem endsLine_of_endsBlock {ts : List Token} (ends : endsBlock true ts = true)
    (noElse : (front ts).lexeme ≠ .keyword .elseWord)
    (noEnd : (front ts).lexeme ≠ .keyword .endWord) : (front ts).lexeme.endsLine = true := by
  unfold endsBlock at ends
  split at ends
  · next found => rw [found]; rfl
  · next found => rw [found]; rfl
  · next found => exact absurd found noElse
  · next found => exact absurd found noEnd
  · contradiction

section Branches

variable {inner : Parser (List Stmt)} {condition : Expr} {body : List Stmt}

/-- The marks of an if statement up to the end of its body. Behind them an else part may stand,
or the end. -/
def openingMarks (condition : Expr) (body : List Stmt) : List Mark :=
  Mark.word .ifWord ++ condition.marks ++ Mark.word .thenWord ++ Stmt.marksAll body

/-- An if statement whose body was read, and that goes on with an else part but for its end,
is what its tokens are read as. -/
theorem exists_isOfOpen (loc : Option Location) {otherwise : Option (List Stmt)}
    {start ts rest : List Token} (opening : Takes (openingMarks condition body) start ts)
    (leveled : condition.Leveled ∧ Stmt.LeveledAll body)
    (later : TakesOpen (Stmt.marksElse otherwise ++ Mark.word .endWord) ts rest)
    (laterLeveled : Stmt.LeveledElse otherwise) :
    ∃ run, start = run ++ rest ∧ (∀ t ∈ run, t.lexeme.endsLine = false) ∧
      (Stmt.branch loc condition body otherwise).IsOfOpen run := by
  obtain ⟨run, shape, covers⟩ := later.behind opening
  rw [← List.append_assoc] at covers
  refine ⟨run, shape, ?_, ⟨⟨loc, condition, body, otherwise, rfl⟩, ?_, ?_⟩⟩
  · have inLine := (covers ⟨.keyword .endWord, 1, 1⟩ rfl).inLine
    exact (List.forall_mem_append.mp inLine).1
  · intro closing isEnd
    exact (covers closing isEnd).spells
  · exact ⟨leveled.1, leveled.2, laterLeveled⟩

/-- What follows the body of an if statement, if it cannot be read, accounts for its fault. -/
theorem accounted_closeBranch (sound : BlockSound true inner) (stops : StopsWell inner)
    {loc : Option Location} {start ts : List Token} {stuck : Stuck} (scanned : Scanned ts)
    (opening : Takes (openingMarks condition body) start ts)
    (leveled : condition.Leveled ∧ Stmt.LeveledAll body) (ends : endsBlock true ts = true)
    (failed : closeBranch inner loc condition body ts = .error stuck)
    (shallow : stuck.fault ≠ .tooDeep) : Accounted start stuck := by
  unfold closeBranch at failed
  simp only at failed
  split at failed
  · next isElse =>
    split at failed
    · next stuckInside =>
      obtain rfl := Except.error.inj failed
      have later := stops scanned.drop_one stuckInside shallow
      exact (later.behindFront isElse rfl).behind opening
    · next block behind readElse =>
      have blockRead := sound scanned.drop_one readElse
      have blockLeveled : Stmt.LeveledElse (if block.isEmpty then none else some block) := by
        cases block with
        | nil => trivial
        | cons => exact blockRead.leveled
      obtain ⟨run, shape, inLine, read⟩ := exists_isOfOpen loc opening leveled
        (takesOpen_else isElse blockRead.takes) blockLeveled
      split at failed
      · next isSecond =>
        obtain rfl := Except.error.inj failed
        exact ⟨run, shape, inLine, .repeatedElse [] read isSecond⟩
      · next noSecond =>
        split at failed
        · contradiction
        · next noEnd =>
          obtain rfl := Except.error.inj failed
          have atEnd := endsLine_of_endsBlock blockRead.ends noSecond noEnd
          exact ⟨run, shape, inLine, .missingEnd [] read atEnd⟩
  · next noElse =>
    split at failed
    · contradiction
    · next noEnd =>
      obtain rfl := Except.error.inj failed
      obtain ⟨run, shape, inLine, read⟩ :=
        exists_isOfOpen loc opening leveled (takesOpen_none ts) trivial
      exact ⟨run, shape, inLine, .missingEnd [] read (endsLine_of_endsBlock ends noElse noEnd)⟩

/-- An if statement that cannot be read accounts for its fault. Its condition, its blocks or the
words between them are to blame. -/
theorem accounted_branch {sheet : Sheet} (sound : BlockSound true inner)
    (stops : StopsWell inner) {ts : List Token} {stuck : Stuck} (scanned : Scanned ts)
    (isIf : (front ts).lexeme = .keyword .ifWord) (failed : branch sheet inner ts = .error stuck)
    (shallow : stuck.fault ≠ .tooDeep) : Accounted ts stuck := by
  unfold branch at failed
  split at failed
  · next stuckCondition =>
    obtain rfl := Except.error.inj failed
    exact (stopsWell_expression sheet scanned.drop_one stuckCondition shallow).behindFront isIf rfl
  · next condition behind readCondition =>
    have conditionRead := sound_expression sheet scanned.drop_one readCondition
    have scannedBehind := scanned_of_takes conditionRead.takes scanned.drop_one
    split at failed
    · next isThen =>
      have opening := ((takes_word isIf (by decide)).append conditionRead.takes).append
        (takes_word isThen (by decide))
      split at failed
      · next stuckBody =>
        obtain rfl := Except.error.inj failed
        exact (stops scannedBehind.drop_one stuckBody shallow).behind opening
      · next body between readBody =>
        have bodyRead := sound scannedBehind.drop_one readBody
        have scannedBetween := scanned_of_takes bodyRead.takes scannedBehind.drop_one
        exact accounted_closeBranch sound stops scannedBetween (opening.append bodyRead.takes)
          ⟨conditionRead.leveled, bodyRead.leveled⟩ bodyRead.ends failed shallow
    · next noThen =>
      obtain rfl := Except.error.inj failed
      obtain ⟨first, run, shape, same, inLine, read⟩ := conditionRead.exists_opening isIf rfl
      exact ⟨first :: run, shape, inLine, .missingThen [] same read noThen⟩

end Branches

/-! ### Statements and blocks -/

/-- A statement that cannot be read accounts for its fault. -/
theorem stopsWell_statement {sheet : Sheet} {inner : Parser (List Stmt)}
    (sound : BlockSound true inner) (stops : StopsWell inner) :
    StopsWell (statement sheet inner) := by
  intro ts stuck scanned failed shallow
  unfold statement at failed
  simp only at failed
  split at failed
  · contradiction
  · next isGoto =>
    split at failed
    · next stuckTarget =>
      obtain rfl := Except.error.inj failed
      have later := stopsWell_expression sheet scanned.drop_one stuckTarget shallow
      exact later.behindFront isGoto rfl
    · contradiction
  · next isIf => exact accounted_branch sound stops scanned isIf failed shallow
  · split at failed
    · next name op width found isAssign =>
      split at failed
      · next stuckValue =>
        obtain rfl := Except.error.inj failed
        have takesOp := takes_matchAssign isAssign
        rw [List.drop_drop] at takesOp
        have scannedBehind := scanned_of_takes takesOp scanned.drop_one
        have later := stopsWell_expression sheet scannedBehind stuckValue shallow
        exact (later.behind takesOp).behindFront rfl (plain_of_nameOf? found).1
      · contradiction
    · unfold plain at failed
      split at failed
      · next stuckValue =>
        obtain rfl := Except.error.inj failed
        exact stopsWell_expression sheet scanned stuckValue shallow
      · contradiction

/-- A block that cannot be read to its end accounts for its fault.

Proof: induction over the statements that there may be at most. The statements before the
one that is stuck were taken. -/
theorem accounted_block {statement : Parser Stmt} {inside : Bool} (sound : StmtSound statement)
    (stops : StopsWell statement) {most ts : List Token} {stuck : Stuck} (scanned : Scanned ts)
    (failed : block statement inside most ts = .error stuck)
    (shallow : stuck.fault ≠ .tooDeep) : Accounted ts stuck := by
  induction most generalizing ts with
  | nil => contradiction
  | cons _ most inductionHypothesis =>
    obtain ⟨_, stuckFirst | ⟨first, between, readFirst, stuckLater⟩⟩ :=
      block_cons_eq_error.mp failed
    · exact stops scanned stuckFirst shallow
    · have firstRead := sound scanned readFirst
      have later := inductionHypothesis (scanned_of_takes firstRead.takes scanned) stuckLater
      exact later.behind firstRead.takes

/-- A block inside an if statement accounts for its fault at every depth.

Proof: induction over the depth. At depth zero every statement nests too deeply. -/
theorem stopsWell_innerBlock (sheet : Sheet) (depth : Nat) :
    StopsWell (innerBlock sheet depth) := by
  induction depth with
  | zero =>
    have nothing : StmtSound (stop .tooDeep) := by
      intro ts rest s _ read
      contradiction
    intro ts stuck scanned failed shallow
    exact accounted_block nothing stopsWell_tooDeep scanned failed shallow
  | succ depth inductionHypothesis =>
    intro ts stuck scanned failed shallow
    have sound := blockSound_innerBlock sheet depth
    exact accounted_block (stmtSound_statement sound)
      (stopsWell_statement sound inductionHypothesis) scanned failed shallow

/-- The statements of a line, if they cannot be read, account for their fault. -/
theorem stopsWell_statements (sheet : Sheet) : StopsWell (statements sheet) := by
  intro ts stuck scanned failed shallow
  have sound := blockSound_innerBlock sheet nestingLimit
  exact accounted_block (stmtSound_statement sound)
    (stopsWell_statement sound (stopsWell_innerBlock sheet nestingLimit)) scanned failed shallow

end YololChip.Grammar

namespace YololChip

/-! ### Lines -/

/-- Among the tokens of a text is the token of its end.

Proof: induction over the scan, which ends with the characters. -/
theorem exists_finish_of_scanFrom {file : String} {p : Position} {cs : List Char}
    {tokens : List Token} (found : scanFrom file p cs = .ok tokens) :
    ∃ t ∈ tokens, t.lexeme = .finish := by
  fun_induction scanFrom file p cs generalizing tokens with
  | case1 p =>
    obtain rfl := Except.ok.inj found
    exact ⟨_, .head _, rfl⟩
  | case2 p c rest gap inductionHypothesis => exact inductionHypothesis found
  | case3 => contradiction
  | case4 p c rest noGap lexeme more here later scanned inductionHypothesis =>
    obtain rfl := Except.ok.inj found
    obtain ⟨t, member, isFinish⟩ := inductionHypothesis scanned
    exact ⟨t, .tail _ member, isFinish⟩
  | case5 => contradiction

/-- An error without a fragment shows where no expression begins. All other faults keep what was
read before. -/
theorem Grammar.Blames.startsExpr_of_fragment? {fault : ParseFault} {before here : List Token}
    (blames : Grammar.Blames fault before here) (bare : fault.fragment? = none) :
    Grammar.startsExpr here = false := by
  cases blames with
  | unexpected blank => exact blank
  | _ => contradiction

/-- A line that cannot be read, though its text has tokens, has statements that cannot be
read. -/
theorem Line.stuck_of_parse {text file : String} {number : Int} {error : ParseError}
    (failed : Line.parse text file number = .error (.refused (.parse error))) :
    ∃ tokens sheet stuck, scan file text = .ok tokens ∧
      Grammar.statements sheet tokens = .error stuck ∧ stuck.error = error := by
  unfold Line.parse at failed
  split at failed
  · next fault stopped =>
    -- a fault of the scan stays one of the scan, whether the text is refused or breaks off
    cases fault <;> exact absurd (Except.error.inj failed) (by simp [ReadFault.map])
  · next tokens scanned =>
    split at failed
    · next found unparsed =>
      obtain rfl := SourceError.parse.inj (ReadFault.refused.inj (Except.error.inj failed))
      unfold Line.ofTokens at unparsed
      split at unparsed
      · next stuck here => exact ⟨tokens, _, stuck, scanned, here, Except.error.inj unparsed⟩
      · contradiction
    · contradiction

/-- A line that cannot be read, though its text has tokens, is stuck at one of them, unless it
nests too deeply. The tokens right before that one spell the fragment that the error
keeps, to the last token: up to an operator without right operand, which is right before
it, behind an open parenthesis that is not closed, behind an if without its then, or
from an if without its end. Without a fragment no expression begins there.

Proof: every parser gives up at a place that accounts for its fault, and none passes the
end of its line, so there is a token at that place. -/
theorem Line.parse_blames {text file : String} {number : Int} {error : ParseError}
    (failed : Line.parse text file number = .error (.refused (.parse error)))
    (shallow : error.fault ≠ .tooDeep) :
    ∃ (tokens : List Token) (i : Nat) (t : Token), scan file text = .ok tokens ∧
      tokens[i]? = some t ∧ error.token = some t ∧
      Grammar.Blames error.fault (tokens.take i) (tokens.drop i) ∧
      (error.fault.fragment? = none → Grammar.startsExpr (tokens.drop i) = false ∧
        ∀ (e : Expr) (run : List Token), run <+: tokens.drop i → ¬ e.IsOf run) := by
  obtain ⟨tokens, sheet, stuck, scanned, here, rfl⟩ := Line.stuck_of_parse failed
  obtain ⟨before, rfl, inLine, blames⟩ :=
    Grammar.stopsWell_statements sheet (scanned_scan scanned) here shallow
  obtain ⟨last, member, isFinish⟩ := exists_finish_of_scanFrom scanned
  cases place : stuck.rest with
  | nil =>
    rw [place, List.append_nil] at member
    have passed := inLine last member
    rw [isFinish] at passed
    contradiction
  | cons t rest =>
    have named : stuck.error.token = some t := by rw [Grammar.Stuck.error, place]; rfl
    rw [place] at scanned blames
    refine ⟨before ++ t :: rest, before.length, t, scanned, ?_, named, ?_, ?_⟩
    · rw [List.getElem?_append_right (Nat.le_refl _), Nat.sub_self]
      rfl
    · rw [List.take_left, List.drop_left]
      exact blames
    · rw [List.drop_left]
      intro bare
      have blank := blames.startsExpr_of_fragment? bare
      exact ⟨blank, fun e run stands => Grammar.not_isOf_of_blank blank stands e⟩

/-- Of many operators that wait for their right operands the innermost one is to blame. -/
theorem Line.parse_blames_innermost :
    ∃ error, Line.parse "if a then x=1+2*(c-b^" "" 1 = .error (.refused (.parse error)) ∧
      error.fault ≠ .tooDeep ∧
      error.fault = .missingOperand .pow (.var (some ⟨"", 1, 20, "if a then x=1+2*(c-b^"⟩)
        (Variable.named "b")) ∧
      ∃ (tokens : List Token) (i : Nat) (t : Token),
        scan "" "if a then x=1+2*(c-b^" = .ok tokens ∧
        tokens[i]? = some t ∧ error.token = some t ∧
        Grammar.Blames error.fault (tokens.take i) (tokens.drop i) ∧
        (error.fault.fragment? = none → Grammar.startsExpr (tokens.drop i) = false ∧
          ∀ (e : Expr) (run : List Token), run <+: tokens.drop i → ¬ e.IsOf run) := by
  obtain ⟨error, failed, same⟩ := exists_error_of_any
    (x := Line.parse "if a then x=1+2*(c-b^" "" 1)
    (f := fun error => error = .refused (.parse ⟨.missingOperand .pow
      (.var (some ⟨"", 1, 20, "if a then x=1+2*(c-b^"⟩) (Variable.named "b")),
      some ⟨.finish, 1, 22⟩⟩))
    (by decide +kernel)
  obtain rfl := of_decide_eq_true same
  exact ⟨_, failed, ParseFault.noConfusion, rfl, Line.parse_blames failed ParseFault.noConfusion⟩

end YololChip
