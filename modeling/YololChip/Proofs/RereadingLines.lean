import YololChip.Proofs.Completeness
import YololChip.Proofs.LineViews
import YololChip.Proofs.Rereading

/-!
# What is read of a line again before other tokens

Statements are read again as expressions are, before all tokens that go on no more than those that
were behind them. A block is read again before all tokens at which a block ends. An assignment is
found where it was, and none where none was, since one looks no further ahead for it than for an
operator.
-/

namespace YololChip.Grammar

/-! ### Assignments -/

/-- A symbol with which an operator of a compound assignment begins goes on with something. -/
theorem goesOn_of_compound? {s : Symbol} {op : AssignOperator} (found : compound? s = some op) :
    (Lexeme.symbol s).breaks = false := by
  cases s <;> first | rfl | contradiction

/-- No assignment operator is found just where an equals sign at the front is one of two, and no
operator of a compound assignment stands in front of one. -/
theorem matchAssign_eq_none {ts : List Token} : matchAssign ts = none ↔
    ((front ts).lexeme = .symbol .equals → isPair .equals .equals ts = true) ∧
      ∀ s op, compound? s = some op → isPair s .equals ts = false := by
  constructor
  · intro none
    constructor
    · intro isEquals
      obtain ⟨t, more, rfl, same⟩ := Takes.exists_of_front isEquals rfl
      rw [← Bool.not_eq_false]
      intro noPair
      simp [matchAssign, same, noPair] at none
    · intro s op isCompound
      rw [Bool.eq_false_iff]
      intro pair
      obtain ⟨t, more, rfl, same⟩ := Takes.exists_of_front (front_of_pair pair) rfl
      cases s <;> first
        | contradiction
        | simp [matchAssign, same, compound?, pair] at none
  · rintro ⟨noAssign, noCompound⟩
    cases ts with
    | nil => rfl
    | cons t more =>
      cases same : t.lexeme with
      | symbol s =>
        by_cases isEquals : s = .equals
        · subst isEquals
          simp [matchAssign, same, noAssign same]
        · cases isCompound : compound? s with
          | none => simp [matchAssign, same, isCompound]
          | some op => simp [matchAssign, same, isCompound, noCompound s op isCompound]
      | _ => simp [matchAssign, same]

/-- Where no assignment operator was found none is found among tokens that go on no more. -/
theorem Resumes.noAssign {ts us : List Token} (resumes : Resumes ts us)
    (none : matchAssign ts = none) : matchAssign us = .none := by
  obtain ⟨noAssign, noCompound⟩ := matchAssign_eq_none.mp none
  refine matchAssign_eq_none.mpr ⟨fun isEquals => ?_, fun s op isCompound => ?_⟩
  · have pair := noAssign (resumes.front_eq rfl isEquals)
    cases resumes with
    | new breaks =>
      rw [isEquals] at breaks
      contradiction
    | one _ noEqual =>
      rw [noEqual] at pair
      contradiction
    | two => exact pair
  · exact resumes.isPair_eq (goesOn_of_compound? isCompound) rfl (noCompound s op isCompound)

/-- Nor is one found behind the first token of an expression. -/
theorem Resumes.noAssignBehind {used ts us : List Token} (resumes : Resumes ts us)
    (tokens : ExprTokens used) (none : matchAssign ((used ++ ts).drop 1) = none) :
    matchAssign ((used ++ us).drop 1) = .none := by
  match used with
  | [] => exact absurd rfl tokens.starts.ne_nil
  | [_] => exact resumes.noAssign none
  | [a, b] =>
    obtain ⟨_, noCompound⟩ := matchAssign_eq_none.mp none
    refine matchAssign_eq_none.mpr ⟨fun isEquals => ?_, fun s op isCompound => ?_⟩
    · exact absurd isEquals (tokens.second a b rfl)
    · exact resumes.isPair_cons b rfl (noCompound s op isCompound)
  | _ :: _ :: _ :: _ => exact Resumes.two.noAssign none

theorem again_matchAssign {ts : List Token} {op : AssignOperator} {width : Nat}
    (here : matchAssign ts = some (op, width)) :
    ∃ sign rest, ts = sign ++ rest ∧ sign.length = width ∧
      ∀ us, Resumes rest us → matchAssign (sign ++ us) = some (op, width) := by
  rw [View.matchAssign_front] at here
  split at here
  · next isEquals =>
    obtain ⟨t, more, rfl, same⟩ := Takes.exists_of_front isEquals rfl
    split at here
    · contradiction
    · next noPair =>
      obtain ⟨rfl, rfl⟩ := Prod.mk.inj (Option.some.inj here)
      refine ⟨[t], more, rfl, rfl, fun us resumes => ?_⟩
      have noPairToo := resumes.isPair_cons t rfl (Bool.eq_false_iff.mpr noPair)
      simp [matchAssign, same, noPairToo]
  · next s noEquals isSymbol =>
    split at here
    · contradiction
    · next operator isCompound =>
      split at here
      · next pair =>
        obtain ⟨rfl, rfl⟩ := Prod.mk.inj (Option.some.inj here)
        have again : Again matchAssign operator 2 ts := .pair pair fun us pairToo isFirst => by
          rw [View.matchAssign_front, isFirst]
          cases s <;> first | contradiction | simp [isCompound, pairToo]
        obtain ⟨sign, rest, split, width, _, _, finds⟩ := again
        exact ⟨sign, rest, split, width, finds⟩
      · contradiction
  · contradiction

/-! ### Statements -/

/-- Whether a parser of statements reads again what it reads, before all tokens that go on no
more. The tokens of a statement begin with one that begins a statement, so there is one. -/
def SteadyStmt (parser : Parser Stmt) : Prop :=
  ∀ ⦃ts rest : List Token⦄ ⦃s : Stmt⦄, parser ts = .ok (s, rest) →
    ∃ used, ts = used ++ rest ∧ Starts Lexeme.beginsStmt used ∧ Rereads parser used s rest

/-- What is known of a parser of the blocks inside if statements: where a block ends an empty one is
read, and a block is read again before all tokens at which one ends. -/
structure SteadyBlock (parser : Parser (List Stmt)) : Prop where
  empty : ∀ ⦃us : List Token⦄, endsBlock true us = true → parser us = .ok ([], us)
  again : ∀ ⦃ts rest : List Token⦄ ⦃read : List Stmt⦄, parser ts = .ok (read, rest) →
    ∃ used, ts = used ++ rest ∧
      ∀ ⦃us : List Token⦄, endsBlock true us = true → parser (used ++ us) = .ok (read, us)

theorem breaks_of_endsBlock {inside : Bool} {us : List Token} (ends : endsBlock inside us = true) :
    (front us).lexeme.breaks = true := by
  unfold endsBlock at ends
  split at ends
  · next found => rw [found]; rfl
  · next found => rw [found]; rfl
  · next found => rw [found]; rfl
  · next found => rw [found]; rfl
  · contradiction

theorem Starts.not_endsBlock {used : List Token} (starts : Starts Lexeme.beginsStmt used)
    (inside : Bool) (us : List Token) : endsBlock inside (used ++ us) = false := by
  obtain ⟨t, more, rfl, begins⟩ := starts
  rw [endsBlock_eq]
  exact not_closesBlock_of_beginsStmt begins

section

variable {sheet : Sheet} {inner : Parser (List Stmt)}

/-! ### If statements -/

/-- At the word of its end an if statement is read without an else part. The tree has none then. -/
theorem closeBranch_of_end {loc : Option Location} {condition : Expr} {body : List Stmt}
    {endWord : Token} (isEnd : endWord.lexeme = .keyword .endWord) (us : List Token) :
    closeBranch inner loc condition body (endWord :: us) =
      .ok (.branch loc condition body none, us) :=
  closeBranch_eq_ok.mpr (.inl ⟨isEnd, rfl, rfl⟩)

/-- At the word that begins an else part it is read with what is behind, up to its end. -/
theorem closeBranch_of_else {loc : Option Location} {condition : Expr} {body block : List Stmt}
    {elseWord endWord : Token} {us behind : List Token}
    (isElse : elseWord.lexeme = .keyword .elseWord) (isEnd : endWord.lexeme = .keyword .endWord)
    (read : inner us = .ok (block, endWord :: behind)) :
    closeBranch inner loc condition body (elseWord :: us) =
      .ok (.branch loc condition body (if block.isEmpty then none else some block), behind) :=
  closeBranch_eq_ok.mpr (.inr ⟨block, endWord :: behind, isElse, read, isEnd, rfl, rfl⟩)

theorem statement_branch {ifWord thenWord : Token} {us vs ws behind : List Token}
    {condition : Expr} {body : List Stmt} {s : Stmt} (isIf : ifWord.lexeme = .keyword .ifWord)
    (isThen : thenWord.lexeme = .keyword .thenWord)
    (readCondition : expression sheet us = .ok (condition, thenWord :: vs))
    (readBody : inner vs = .ok (body, ws))
    (close : closeBranch inner (sheet.locate [ifWord]) condition body ws = .ok (s, behind)) :
    statement sheet inner (ifWord :: us) = .ok (s, behind) := by
  have whole : branch sheet inner (ifWord :: us) = .ok (s, behind) :=
    branch_eq_ok.mpr ⟨condition, thenWord :: vs, body, ws, readCondition, isThen, readBody, close⟩
  unfold statement
  simp only [show (front (ifWord :: us)).lexeme = _ from isIf]
  exact whole

theorem endsBlock_of_word {t : Token} (ends : t.lexeme = .keyword .elseWord ∨
    t.lexeme = .keyword .endWord) (us : List Token) : endsBlock true (t :: us) = true := by
  rcases ends with isElse | isEnd
  · simp [endsBlock, front, isElse]
  · simp [endsBlock, front, isEnd]

/-- What follows the body of an if statement is read again, whatever is behind. The body ends
there. -/
theorem again_closeBranch (steady : SteadyBlock inner) {loc : Option Location}
    {condition : Expr} {body : List Stmt} {ts rest : List Token} {s : Stmt}
    (read : closeBranch inner loc condition body ts = .ok (s, rest)) :
    ∃ used, ts = used ++ rest ∧ ∀ us, endsBlock true (used ++ us) = true ∧
      closeBranch inner loc condition body (used ++ us) = .ok (s, us) := by
  rcases closeBranch_eq_ok.mp read with
    ⟨closed, rfl, rfl⟩ | ⟨block, between, found, readElse, closed, rfl, rfl⟩
  · obtain ⟨endWord, others, rfl, isEnd⟩ := Takes.exists_of_front closed rfl
    exact ⟨[endWord], rfl, fun us =>
      ⟨endsBlock_of_word (.inr isEnd) us, closeBranch_of_end isEnd us⟩⟩
  · obtain ⟨elseWord, more, rfl, isElse⟩ := Takes.exists_of_front found rfl
    obtain ⟨endWord, others, rfl, isEnd⟩ := Takes.exists_of_front closed rfl
    obtain ⟨used, shape, again⟩ := steady.again readElse
    refine ⟨elseWord :: (used ++ [endWord]), ?_, fun us => ⟨?_, ?_⟩⟩
    · rw [List.cons_append, List.append_assoc]
      exact congrArg (elseWord :: ·) shape
    · exact endsBlock_of_word (.inl isElse) _
    · have readToo := again (endsBlock_of_word (.inr isEnd) us)
      rw [List.cons_append, List.append_assoc]
      exact closeBranch_of_else isElse isEnd readToo

theorem again_branch (steady : SteadyBlock inner) {ifWord : Token} {ts rest : List Token}
    {s : Stmt} (isIf : ifWord.lexeme = .keyword .ifWord)
    (read : branch sheet inner (ifWord :: ts) = .ok (s, rest)) :
    ∃ used, ts = used ++ rest ∧
      ∀ us, statement sheet inner (ifWord :: (used ++ us)) = .ok (s, us) := by
  obtain ⟨condition, behind, body, between, readCondition, found, readBody, readClose⟩ :=
    branch_eq_ok.mp read
  rw [List.drop_succ_cons, List.drop_zero] at readCondition
  obtain ⟨inCondition, rfl, _, rereads⟩ := steady_expression sheet readCondition
  obtain ⟨thenWord, others, rfl, isThen⟩ := Takes.exists_of_front found rfl
  obtain ⟨inBody, shape, again⟩ := steady.again readBody
  obtain rfl : others = inBody ++ between := shape
  obtain ⟨inClose, rfl, close⟩ := again_closeBranch steady readClose
  refine ⟨inCondition ++ thenWord :: (inBody ++ inClose), by simp, fun us => ?_⟩
  obtain ⟨ends, closeToo⟩ := close us
  have shape : inCondition ++ thenWord :: (inBody ++ inClose) ++ us =
    inCondition ++ thenWord :: (inBody ++ (inClose ++ us)) := by simp
  rw [shape]
  have readToo := rereads (.new (breaks_cons isThen rfl (inBody ++ (inClose ++ us))))
  exact statement_branch isIf isThen readToo (again ends) closeToo

/-! ### Statements and blocks -/

/-- Where an expression was taken for a statement it is again. -/
theorem statement_plain_again {used ts us : List Token} (tokens : ExprTokens used)
    (resumes : Resumes ts us)
    (noAssign : ∀ name op width, (front (used ++ ts)).lexeme.nameOf? = some name →
      matchAssign ((used ++ ts).drop 1) ≠ some (op, width)) :
    statement sheet inner (used ++ us) = plain sheet (used ++ us) := by
  have sameFront : front (used ++ us) = front (used ++ ts) := by
    rw [front_append tokens.starts.ne_nil, front_append tokens.starts.ne_nil]
  apply statement_plain
  · obtain ⟨t, others, rfl, begins⟩ := tokens.starts
    exact begins
  · intro isName
    rw [sameFront] at isName
    obtain ⟨name, named⟩ := Option.ne_none_iff_exists'.mp isName
    apply resumes.noAssignBehind tokens
    cases isAssign : matchAssign ((used ++ ts).drop 1) with
    | none => rfl
    | some found => exact absurd isAssign (noAssign name found.1 found.2 named)

/-- Behind a variable and an assignment operator the value is read. How the two are parted does
not depend on the value. -/
theorem statement_assign_parts {t : Token} {sign us rest : List Token} {name : String}
    {op : AssignOperator} {value : Expr} (isName : t.lexeme.nameOf? = some name)
    (isAssign : matchAssign (sign ++ us) = some (op, sign.length))
    (read : expression sheet us = .ok (value, rest)) :
    statement sheet inner (t :: (sign ++ us)) =
      .ok (.assign (sheet.locate [t]) (.var (sheet.locate [t]) (Variable.named name)) op value,
        rest) := by
  refine statement_assign (show (front (t :: (sign ++ us))).lexeme.nameOf? = _ from isName)
    isAssign ?_
  rw [Nat.add_comm, List.drop_succ_cons, List.drop_left]
  exact read

theorem steady_statement (steady : SteadyBlock inner) :
    SteadyStmt (statement sheet inner) := by
  intro ts rest s read
  cases StatementAt.of_statement read with
  | comment found =>
    obtain ⟨t, more, rfl, same⟩ := Takes.exists_of_front found rfl
    refine ⟨[t], rfl, ⟨t, [], rfl, by rw [same]; rfl⟩, fun us _ => ?_⟩
    simp [statement, front, same, Sheet.locate]
  | jump found readTarget =>
    obtain ⟨t, more, rfl, isGoto⟩ := Takes.exists_of_front found rfl
    rw [List.drop_succ_cons, List.drop_zero] at readTarget
    obtain ⟨used, rfl, _, rereads⟩ := steady_expression sheet readTarget
    refine ⟨t :: used, rfl, ⟨t, used, rfl, by rw [isGoto]; rfl⟩, fun us resumes => ?_⟩
    simp [statement, front, isGoto, Sheet.locate, rereads resumes]
  | branch found readBranch =>
    obtain ⟨t, more, rfl, isIf⟩ := Takes.exists_of_front found rfl
    obtain ⟨used, rfl, again⟩ := again_branch steady isIf readBranch
    exact ⟨t :: used, rfl, ⟨t, used, rfl, by rw [isIf]; rfl⟩, fun us _ => again us⟩
  | assign found isAssign readValue =>
    obtain ⟨t, more, rfl, _⟩ := Takes.exists_of_front rfl (plain_of_nameOf? found).1
    obtain ⟨sign, between, shape, rfl, finds⟩ := again_matchAssign isAssign
    obtain rfl : more = sign ++ between := shape
    rw [Nat.add_comm, List.drop_succ_cons, List.drop_left] at readValue
    obtain ⟨used, rfl, tokens, rereads⟩ := steady_expression sheet readValue
    refine ⟨t :: (sign ++ used), by simp, ⟨t, _, rfl, ?_⟩, fun us resumes => ?_⟩
    · exact Lexeme.beginsStmt_of_beginsExpr (beginsExpr_of_nameOf? found)
    · rw [List.cons_append, List.append_assoc]
      have isAssignToo := finds _ (resumes.behindWhole tokens.noHalf)
      exact statement_assign_parts found isAssignToo (rereads resumes)
  | expression noAssign readValue =>
    obtain ⟨used, rfl, tokens, rereads⟩ := steady_expression sheet readValue
    refine ⟨used, rfl, tokens.starts.stmt, fun us resumes => ?_⟩
    have inhabited := tokens.starts.ne_nil
    rw [statement_plain_again tokens resumes noAssign, plain, rereads resumes,
      locate_append sheet inhabited, locate_append sheet inhabited]

theorem block_of_statement {statement : Parser Stmt} {inside : Bool} {used us rest : List Token}
    {first : Stmt} {others : List Stmt} (starts : Starts Lexeme.beginsStmt used)
    (readFirst : statement (used ++ us) = .ok (first, us)) {most : List Token} (some : most ≠ [])
    (readOthers : block statement inside most.tail us = .ok (others, rest)) :
    block statement inside most (used ++ us) = .ok (first :: others, rest) := by
  cases most with
  | nil => exact absurd rfl some
  | cons m most =>
    rw [List.tail_cons] at readOthers
    rw [block, starts.not_endsBlock inside us, if_neg Bool.false_ne_true]
    simp only [readFirst, readOthers]

/-- A block is read again, with as many tokens to go by as there are.

Proof: induction over the statements that may follow. Each is read again before the others, since
those begin with a statement, or are none and nothing goes on there. -/
theorem again_block {statement : Parser Stmt} {inside : Bool} (steady : SteadyStmt statement)
    {most ts rest : List Token} {read : List Stmt} (enough : ts.length ≤ most.length)
    (found : block statement inside most ts = .ok (read, rest)) :
    ∃ used, ts = used ++ rest ∧ (used = [] ∨ Starts Lexeme.beginsStmt used) ∧
      ∀ ⦃us most' : List Token⦄, endsBlock inside us = true → (used ++ us).length ≤ most'.length →
        block statement inside most' (used ++ us) = .ok (read, us) := by
  induction most generalizing ts read with
  | nil =>
    obtain rfl := List.eq_nil_of_length_eq_zero (Nat.le_zero.mp enough)
    obtain ⟨rfl, rfl⟩ := Prod.mk.inj (Except.ok.inj found)
    exact ⟨[], rfl, .inl rfl, fun us most' ends _ => block_of_endsBlock ends⟩
  | cons _ most inductionHypothesis =>
    rcases block_cons_eq_ok.mp found with
      ⟨_, rfl, rfl⟩ | ⟨first, between, others, _, readFirst, readOthers, rfl⟩
    · exact ⟨[], rfl, .inl rfl, fun us most' ends _ => block_of_endsBlock ends⟩
    · obtain ⟨used, rfl, starts, rereads⟩ := steady readFirst
      obtain ⟨usedLater, rfl, startsLater, later⟩ :=
        inductionHypothesis (enough_tail starts.ne_nil enough).2 readOthers
      refine ⟨used ++ usedLater, by simp, .inr (starts.append usedLater), ?_⟩
      intro us most' ends enough'
      have noHalf : NoHalf usedLater := by
        rcases startsLater with rfl | startsLater
        · exact noHalf_of_length (by simp)
        · exact startsLater.noHalf
      have resumes : Resumes (usedLater ++ rest) (usedLater ++ us) :=
        .behindWhole noHalf (.new (breaks_of_endsBlock ends))
      rw [List.append_assoc] at enough' ⊢
      obtain ⟨someMost, enoughLater⟩ := enough_tail starts.ne_nil enough'
      exact block_of_statement starts (rereads resumes) someMost (later ends enoughLater)

/-- A block inside an if statement is read again at every depth.

Proof: induction over the depth. At depth zero only a block without statements is read. -/
theorem steadyBlock_innerBlock (sheet : Sheet) (depth : Nat) :
    SteadyBlock (innerBlock sheet depth) := by
  have ofStatement {statement : Parser Stmt} (steady : SteadyStmt statement) :
      SteadyBlock fun ts => block statement true ts ts := by
    constructor
    · intro us ends
      exact block_of_endsBlock ends
    · intro ts rest read found
      obtain ⟨used, split, _, again⟩ := again_block steady (Nat.le_refl _) found
      exact ⟨used, split, fun us ends => again ends (Nat.le_refl _)⟩
  induction depth with
  | zero =>
    refine ofStatement ?_
    intro ts rest s read
    contradiction
  | succ depth inductionHypothesis => exact ofStatement (steady_statement inductionHypothesis)

end

end YololChip.Grammar
