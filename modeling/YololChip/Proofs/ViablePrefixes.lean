import YololChip.Proofs.Mending
import YololChip.Proofs.PartialTrees
import YololChip.Proofs.RereadingLines
import YololChip.Proofs.Spans

/-!
# No error is late

Where a line is given up, the tokens before the place are the beginning of a line that is read: the
fault shows at the first token with which it could not go on. What is put in the place of the rest
is what the innermost part lacks, and then what the parts around it do, up to the word that ends the
outermost if statement.
-/

namespace YololChip.Grammar

/-! ### Tokens that are put behind those of statements -/

/-- Whether tokens can be put behind others, with which they begin as a statement does. There
may be none behind which they are put. -/
structure FillsStmt (before more : List Token) : Prop extends Filling more where
  starts : Starts Lexeme.beginsStmt (before ++ more)

/-- Whether tokens that are put behind others make up with them what a parser reads, before all
tokens that pass a check. The check is that for what may come behind: the end of a block, or
what breaks off an expression. -/
structure Repairs {α : Type} (parser : Parser α) (ends : List Token → Bool)
    (before more : List Token) : Prop extends FillsStmt before more where
  reads : ∀ ⦃us : List Token⦄, ends us = true →
    ∃ read, parser (before ++ (more ++ us)) = .ok (read, us)

/-- Whether a parser gives up nowhere but where what is before can be made up to something that
it reads, unless something nests too deeply. What is before stays as it is, token by token. -/
def Repairable {α : Type} (parser : Parser α) (ends : List Token → Bool) : Prop :=
  ∀ ⦃ts : List Token⦄ ⦃stuck : Stuck⦄, parser ts = .error stuck → stuck.fault ≠ .tooDeep →
    ∃ before more, ts = before ++ stuck.rest ∧ Repairs parser ends before more

/-- What begins as a statement does is no half of an operator, and tokens can be put behind it. -/
theorem FillsStmt.fills {before more : List Token} (fills : FillsStmt before more) :
    Fills before more where
  toFilling := fills.toFilling
  noHalf := by
    obtain ⟨t, others, shape, begins⟩ := fills.starts
    refine noHalf_of_head fun u isFirst => ?_
    cases before with
    | nil => contradiction
    | cons b before =>
      obtain rfl := Option.some.inj isFirst
      obtain ⟨rfl, _⟩ := List.cons.inj shape
      exact begins

/-! ### If statements -/

/-- The word that ends an if statement, where it is missing. -/
def missingEnd : Token := filler (.keyword .endWord)

theorem filling_missingEnd : Filling [missingEnd] := .one rfl rfl

theorem endsBlock_missingEnd (us : List Token) : endsBlock true (missingEnd :: us) = true := rfl

section

variable {sheet : Sheet} {inner : Parser (List Stmt)}

/-- The place at which an if statement is given up behind its body can be filled. The body ends
where it did. -/
theorem repairs_closeBranch (steady : SteadyBlock inner)
    (repairable : Repairable inner (endsBlock true)) {loc : Option Location} {condition : Expr}
    {body : List Stmt} {ts : List Token} {stuck : Stuck}
    (failed : closeBranch inner loc condition body ts = .error stuck)
    (shallow : stuck.fault ≠ .tooDeep) :
    ∃ before more, ts = before ++ stuck.rest ∧ Filling more ∧ ∀ us,
      endsBlock true (before ++ (more ++ us)) = true ∧
      ∃ s, closeBranch inner loc condition body (before ++ (more ++ us)) = .ok (s, us) := by
  unfold closeBranch at failed
  simp only at failed
  split at failed
  · next found =>
    obtain ⟨elseWord, inside, rfl, isElse⟩ := Takes.exists_of_front found rfl
    rw [List.drop_succ_cons, List.drop_zero] at failed
    split at failed
    · next stuckInside =>
      obtain rfl := Except.error.inj failed
      obtain ⟨before, more, rfl, repairs⟩ := repairable stuckInside shallow
      refine ⟨elseWord :: before, more ++ [missingEnd], rfl,
        repairs.toFilling.append filling_missingEnd, fun us => ⟨?_, ?_⟩⟩
      · exact endsBlock_of_word (.inl isElse) _
      · obtain ⟨block, read⟩ := repairs.reads (endsBlock_missingEnd us)
        rw [List.append_assoc]
        exact ⟨_, closeBranch_of_else isElse rfl read⟩
    · next block between readElse =>
      obtain ⟨used, rfl, again⟩ := steady.again readElse
      -- A second else and a missing end are found at the same place, behind the else part.
      have place : stuck.rest = between := by
        split at failed
        · rw [← Except.error.inj failed]
        · split at failed
          · contradiction
          · rw [← Except.error.inj failed]
      rw [place]
      refine ⟨elseWord :: used, [missingEnd], rfl, filling_missingEnd, fun us => ⟨?_, ?_⟩⟩
      · exact endsBlock_of_word (.inl isElse) _
      · exact ⟨_, closeBranch_of_else isElse rfl (again (endsBlock_missingEnd us))⟩
  · split at failed
    · contradiction
    · obtain rfl := Except.error.inj failed
      exact ⟨[], [missingEnd], rfl, filling_missingEnd, fun us =>
        ⟨endsBlock_missingEnd us, _, closeBranch_of_end rfl us⟩⟩

/-- The place at which an if statement is given up can be filled, whatever is behind. -/
theorem repairs_branch (steady : SteadyBlock inner)
    (repairable : Repairable inner (endsBlock true)) {ifWord : Token} {ts : List Token}
    {stuck : Stuck} (isIf : ifWord.lexeme = .keyword .ifWord)
    (failed : branch sheet inner (ifWord :: ts) = .error stuck)
    (shallow : stuck.fault ≠ .tooDeep) :
    ∃ before more, ts = before ++ stuck.rest ∧ Filling more ∧
      ∀ us, ∃ s, statement sheet inner (ifWord :: (before ++ (more ++ us))) = .ok (s, us) := by
  let thenWord : Token := filler (.keyword .thenWord)
  have filling : Filling [thenWord, missingEnd] :=
    (Filling.one rfl rfl).append filling_missingEnd
  have empty (us : List Token) : inner (missingEnd :: us) = .ok ([], missingEnd :: us) :=
    steady.empty (endsBlock_missingEnd us)
  unfold branch at failed
  rw [List.drop_succ_cons, List.drop_zero] at failed
  split at failed
  · next stuckCondition =>
    obtain rfl := Except.error.inj failed
    obtain ⟨before, more, rfl, mends⟩ :=
      (completes_expression sheet).mendable stuckCondition shallow
    refine ⟨before, more ++ [thenWord, missingEnd], rfl, mends.toFilling.append filling,
      fun us => ?_⟩
    obtain ⟨condition, read⟩ := @mends.reads (thenWord :: missingEnd :: us) rfl
    rw [List.append_assoc]
    exact ⟨_, statement_branch isIf rfl read (empty us) (closeBranch_of_end rfl us)⟩
  · next condition behind readCondition =>
    obtain ⟨inCondition, rfl, _, rereads⟩ := steady_expression sheet readCondition
    split at failed
    · next found =>
      obtain ⟨thenToo, others, rfl, isThen⟩ := Takes.exists_of_front found rfl
      rw [List.drop_succ_cons, List.drop_zero] at failed
      have readsCondition (us : List Token) :
          expression sheet (inCondition ++ thenToo :: us) = .ok (condition, thenToo :: us) :=
        rereads (.new (breaks_cons isThen rfl us))
      split at failed
      · next stuckBody =>
        obtain rfl := Except.error.inj failed
        obtain ⟨before, more, rfl, repairs⟩ := repairable stuckBody shallow
        refine ⟨inCondition ++ thenToo :: before, more ++ [missingEnd], by simp,
          repairs.toFilling.append filling_missingEnd, fun us => ?_⟩
        obtain ⟨body, read⟩ := repairs.reads (endsBlock_missingEnd us)
        rw [List.append_assoc, List.append_assoc]
        exact ⟨_, statement_branch isIf isThen (readsCondition _) read (closeBranch_of_end rfl us)⟩
      · next body between readBody =>
        obtain ⟨inBody, rfl, again⟩ := steady.again readBody
        obtain ⟨before, more, rfl, filling, close⟩ :=
          repairs_closeBranch steady repairable failed shallow
        refine ⟨inCondition ++ thenToo :: (inBody ++ before), more, by simp, filling, fun us => ?_⟩
        obtain ⟨ends, s, closed⟩ := close us
        have shape : inCondition ++ thenToo :: (inBody ++ before) ++ (more ++ us) =
          inCondition ++ thenToo :: (inBody ++ (before ++ (more ++ us))) := by simp
        rw [shape]
        exact ⟨s, statement_branch isIf isThen (readsCondition _) (again ends) closed⟩
    · obtain rfl := Except.error.inj failed
      refine ⟨inCondition, [thenWord, missingEnd], rfl, filling, fun us => ?_⟩
      have read := @rereads (thenWord :: missingEnd :: us) (.new rfl)
      exact ⟨_, statement_branch isIf rfl read (empty us) (closeBranch_of_end rfl us)⟩

/-! ### Statements and blocks -/

/-- What is made up to an expression begins as a statement does. If nothing was there before,
what is put there begins it. -/
theorem Mends.starts {parser : Parser Expr} {before more rest : List Token}
    (mends : Mends parser before more rest) : Starts Lexeme.beginsStmt (before ++ more) := by
  rcases mends.tokens with tokens | ⟨rfl, rfl, _⟩
  · exact tokens.starts.stmt.append more
  · exact ⟨_, [], rfl, rfl⟩

/-- The place at which the value of an assignment is given up can be filled. The variable and
the operator before it stay. -/
theorem repairs_assign {t : Token} {name : String} {op : AssignOperator} {sign rest : List Token}
    {stuck : Stuck} (isName : t.lexeme.nameOf? = some name)
    (finds : ∀ us, Resumes rest us → matchAssign (sign ++ us) = some (op, sign.length))
    (failed : expression sheet rest = .error stuck) (shallow : stuck.fault ≠ .tooDeep) :
    ∃ before more, t :: (sign ++ rest) = before ++ stuck.rest ∧
      Repairs (statement sheet inner) (fun us => (front us).lexeme.breaks) before more := by
  obtain ⟨before, more, rfl, mends⟩ := (completes_expression sheet).mendable failed shallow
  have begins := Lexeme.beginsStmt_of_beginsExpr (beginsExpr_of_nameOf? isName)
  refine ⟨t :: (sign ++ before), more, by simp,
    ⟨mends.toFilling, ⟨t, _, rfl, begins⟩⟩, fun us breaks => ?_⟩
  obtain ⟨value, read⟩ := mends.reads breaks
  rw [List.cons_append, List.append_assoc]
  exact ⟨_, statement_assign_parts isName (finds _ (mends.resumes breaks _)) read⟩

/-- The place at which a statement that is an expression is given up can be filled. No assignment
begins there in front of other tokens either. -/
theorem repairs_plain {ts : List Token} {stuck : Stuck}
    (noAssign : ∀ name op width, (front ts).lexeme.nameOf? = some name →
      matchAssign (ts.drop 1) ≠ some (op, width))
    (failed : plain sheet ts = .error stuck) (shallow : stuck.fault ≠ .tooDeep) :
    ∃ before more, ts = before ++ stuck.rest ∧
      Repairs (statement sheet inner) (fun us => (front us).lexeme.breaks) before more := by
  unfold plain at failed
  split at failed
  · next stuckValue =>
    obtain rfl := Except.error.inj failed
    obtain ⟨before, more, rfl, mends⟩ :=
      (completes_expression sheet).mendable stuckValue shallow
    refine ⟨before, more, rfl, ⟨mends.toFilling, mends.starts⟩, fun us breaks => ?_⟩
    obtain ⟨value, read⟩ := mends.reads breaks
    have isPlain : statement sheet inner (before ++ (more ++ us)) =
        plain sheet (before ++ (more ++ us)) := by
      rcases mends.tokens with tokens | ⟨rfl, rfl, _⟩
      · exact statement_plain_again tokens (.new (breaks_append mends.breaks breaks)) noAssign
      · exact statement_plain rfl fun isName => absurd rfl isName
    refine ⟨.expression (sheet.locate (before ++ (more ++ us))) value, ?_⟩
    rw [isPlain, plain, read]
  · contradiction

/-- The place at which a statement is given up can be filled, before all tokens with which nothing
goes on. -/
theorem repairable_statement (steady : SteadyBlock inner)
    (repairable : Repairable inner (endsBlock true)) :
    Repairable (statement sheet inner) fun us => (front us).lexeme.breaks := by
  intro ts stuck failed shallow
  unfold statement at failed
  simp only at failed
  split at failed
  · contradiction
  · next found =>
    obtain ⟨t, others, rfl, isGoto⟩ := Takes.exists_of_front found rfl
    rw [List.drop_succ_cons, List.drop_zero] at failed
    split at failed
    · next stuckTarget =>
      obtain rfl := Except.error.inj failed
      obtain ⟨before, more, rfl, mends⟩ :=
        (completes_expression sheet).mendable stuckTarget shallow
      refine ⟨t :: before, more, rfl,
        ⟨mends.toFilling, ⟨t, _, rfl, by rw [isGoto]; rfl⟩⟩, fun us breaks => ?_⟩
      obtain ⟨target, read⟩ := mends.reads breaks
      refine ⟨.jump (sheet.locate [t]) target, ?_⟩
      simp [statement, front, isGoto, Sheet.locate, read]
    · contradiction
  · next found =>
    obtain ⟨t, others, rfl, isIf⟩ := Takes.exists_of_front found rfl
    obtain ⟨before, more, rfl, filling, reads⟩ :=
      repairs_branch steady repairable isIf failed shallow
    exact ⟨t :: before, more, rfl, ⟨filling, ⟨t, _, rfl, by rw [isIf]; rfl⟩⟩, fun us _ => reads us⟩
  · split at failed
    · next name op width found isAssign =>
      obtain ⟨t, others, rfl, _⟩ := Takes.exists_of_front rfl (plain_of_nameOf? found).1
      obtain ⟨sign, between, shape, rfl, finds⟩ := again_matchAssign isAssign
      obtain rfl : others = sign ++ between := shape
      rw [Nat.add_comm, List.drop_succ_cons, List.drop_left] at failed
      split at failed
      · next stuckValue =>
        obtain rfl := Except.error.inj failed
        exact repairs_assign found finds stuckValue shallow
      · contradiction
    · next noAssign => exact repairs_plain noAssign failed shallow

/-- The place at which a block is given up can be filled, whatever tokens there are to go by.

Proof: induction over the statements that may follow. Those before the place are read again. -/
theorem repairs_block {statement : Parser Stmt} {inside : Bool} (steady : SteadyStmt statement)
    (repairable : Repairable statement fun us => (front us).lexeme.breaks) {most ts : List Token}
    {stuck : Stuck} (failed : block statement inside most ts = .error stuck)
    (shallow : stuck.fault ≠ .tooDeep) :
    ∃ before more, ts = before ++ stuck.rest ∧ FillsStmt before more ∧
      ∀ ⦃us most' : List Token⦄, endsBlock inside us = true →
        (before ++ (more ++ us)).length ≤ most'.length →
        ∃ read, block statement inside most' (before ++ (more ++ us)) = .ok (read, us) := by
  induction most generalizing ts with
  | nil => contradiction
  | cons _ most inductionHypothesis =>
    obtain ⟨_, stuckFirst | ⟨first, between, readFirst, stuckLater⟩⟩ :=
      block_cons_eq_error.mp failed
    · obtain ⟨before, more, rfl, repairs⟩ := repairable stuckFirst shallow
      refine ⟨before, more, rfl, repairs.toFillsStmt, fun us most' ends enough => ?_⟩
      obtain ⟨first, readFirst⟩ := repairs.reads (breaks_of_endsBlock ends)
      rw [← List.append_assoc] at readFirst enough ⊢
      obtain ⟨someMost, _⟩ := enough_tail repairs.starts.ne_nil enough
      exact ⟨[first], block_of_statement repairs.starts readFirst someMost
        (block_of_endsBlock ends)⟩
    · obtain ⟨used, rfl, starts, rereads⟩ := steady readFirst
      obtain ⟨before, more, rfl, fills, later⟩ := inductionHypothesis stuckLater
      refine ⟨used ++ before, more, by simp, ⟨fills.toFilling, ?_⟩, ?_⟩
      · rw [List.append_assoc]
        exact starts.append (before ++ more)
      intro us most' ends enough
      rw [List.append_assoc] at enough ⊢
      obtain ⟨someMost, enoughLater⟩ := enough_tail starts.ne_nil enough
      obtain ⟨others, readOthers⟩ := later ends enoughLater
      have readFirst := rereads (fills.fills.resumes (breaks_of_endsBlock ends) _)
      exact ⟨first :: others, block_of_statement starts readFirst someMost readOthers⟩

/-- The place at which a block is given up can be filled, before all tokens at which it ends. -/
theorem repairable_block {statement : Parser Stmt} (steady : SteadyStmt statement)
    (repairable : Repairable statement fun us => (front us).lexeme.breaks) (inside : Bool) :
    Repairable (fun ts => block statement inside ts ts) (endsBlock inside) := by
  intro ts stuck failed shallow
  obtain ⟨before, more, split, fills, reads⟩ := repairs_block steady repairable failed shallow
  exact ⟨before, more, split, fills, fun us ends => reads ends (Nat.le_refl _)⟩

/-- The place at which a block inside an if statement is given up can be filled, at every depth.

Proof: induction over the depth. At depth zero every statement nests too deeply. -/
theorem repairable_innerBlock (sheet : Sheet) (depth : Nat) :
    Repairable (innerBlock sheet depth) (endsBlock true) := by
  induction depth with
  | zero =>
    refine repairable_block ?_ ?_ true
    · intro ts rest s read
      contradiction
    · intro ts stuck failed shallow
      obtain rfl := Except.error.inj failed
      exact absurd rfl shallow
  | succ depth inductionHypothesis =>
    have steady := steadyBlock_innerBlock sheet depth
    exact repairable_block (steady_statement steady)
      (repairable_statement steady inductionHypothesis) true

/-- The place at which the statements of a line are given up can be filled, before its end. -/
theorem repairable_statements (sheet : Sheet) :
    Repairable (statements sheet) (endsBlock false) := by
  have steady := steadyBlock_innerBlock sheet nestingLimit
  exact repairable_block (steady_statement steady)
    (repairable_statement steady (repairable_innerBlock sheet nestingLimit)) false

end

end YololChip.Grammar

namespace YololChip

/-! ### Lines -/

/-- Whether tokens are the beginning of a line that is read: with other tokens behind them and the
end of the text behind these. None of them ends the line, so all of them are read. -/
def Line.Viable (sheet : Grammar.Sheet) (before : List Token) : Prop :=
  ∃ more last line, (∀ t ∈ before ++ more, t.lexeme.endsLine = false) ∧ last.lexeme = .finish ∧
    Line.ofTokens sheet (before ++ more ++ [last]) = .ok line

/-- Where the statements of a line are given up, unless they nest too deeply, the tokens before are
the beginning of a line that is read. -/
theorem Grammar.viable_of_stuck {sheet : Grammar.Sheet} {tokens : List Token}
    {stuck : Grammar.Stuck} (scanned : Scanned tokens)
    (failed : Grammar.statements sheet tokens = .error stuck) (shallow : stuck.fault ≠ .tooDeep) :
    ∃ before, tokens = before ++ stuck.rest ∧ (∀ t ∈ before, t.lexeme.endsLine = false) ∧
      Line.Viable sheet before := by
  obtain ⟨before, split, inLine, _⟩ :=
    Grammar.stopsWell_statements sheet scanned failed shallow
  obtain ⟨beforeToo, more, splitToo, repairs⟩ :=
    Grammar.repairable_statements sheet failed shallow
  obtain rfl := List.append_cancel_right (split.symm.trans splitToo)
  refine ⟨before, split, inLine, ?_⟩
  obtain ⟨read, reads⟩ := @repairs.reads [Grammar.filler .finish] rfl
  rw [← List.append_assoc] at reads
  have accepted : ∃ line,
      Line.ofTokens sheet (before ++ more ++ [Grammar.filler .finish]) = .ok line := by
    rw [Line.ofTokens, reads]
    exact ⟨_, rfl⟩
  obtain ⟨line, accepted⟩ := accepted
  exact ⟨more, Grammar.filler .finish, line,
    List.forall_mem_append.mpr ⟨inLine, repairs.inLine⟩, rfl, accepted⟩

/-- No error of a line is late. If a line cannot be read of the tokens of a text, and not because
it nests too deeply, then the error names one of them, and those before it are the beginning of a
line that is read: there are other tokens in the place of the rest with which they make up one.

Proof: where the statements are given up, what is before them is read again in front of what the
innermost part lacks and then the parts around it. -/
theorem Line.viable_of_error {file text : String} {tokens : List Token} {sheet : Grammar.Sheet}
    {error : ParseError} (scanned : scan file text = .ok tokens)
    (failed : Line.ofTokens sheet tokens = .error error) (shallow : error.fault ≠ .tooDeep) :
    ∃ i t, tokens[i]? = some t ∧ error.token = some t ∧ (∀ j, tokens[j]? = some t → j = i) ∧
      Line.Viable sheet (tokens.take i) := by
  unfold Line.ofTokens at failed
  split at failed
  · next stuck here =>
    obtain rfl := Except.error.inj failed
    obtain ⟨before, split, inLine, viable⟩ :=
      Grammar.viable_of_stuck (scanned_scan scanned) here shallow
    obtain ⟨last, member, isFinish⟩ := exists_finish_of_scanFrom scanned
    have unique := nodup_of_scan scanned
    cases place : stuck.rest with
    | nil =>
      rw [split, place, List.append_nil] at member
      have passed := inLine last member
      rw [isFinish] at passed
      contradiction
    | cons t rest =>
      rw [place] at split
      subst split
      have stands : (before ++ t :: rest)[before.length]? = some t := by
        rw [List.getElem?_append_right (Nat.le_refl _), Nat.sub_self]
        rfl
      refine ⟨before.length, t, stands, ?_, fun j standsToo => ?_, ?_⟩
      · rw [Grammar.Stuck.error, place]
        rfl
      · have inRange := (List.getElem?_eq_some_iff.mp standsToo).1
        exact (List.getElem?_inj inRange unique).mp (standsToo.trans stands.symm)
      · rwa [List.take_left]
  · contradiction

/-- An operand, the end of a group and those of two if statements are missing where the error is. -/
theorem Line.viable_of_error_nested :
    ∃ tokens error, scan "" "if a then if b! then x=1+2*(c-b^ end" = .ok tokens ∧
      Line.ofTokens ⟨"", [], 1⟩ tokens = .error error ∧ error.fault ≠ .tooDeep ∧
      error.token = some ⟨.keyword .endWord, 1, 34⟩ ∧
      ∃ i t, tokens[i]? = some t ∧ error.token = some t ∧ (∀ j, tokens[j]? = some t → j = i) ∧
        Line.Viable ⟨"", [], 1⟩ (tokens.take i) := by
  obtain ⟨tokens, scanned, checked⟩ := exists_ok_of_any
    (x := scan "" "if a then if b! then x=1+2*(c-b^ end")
    (f := fun tokens => match Line.ofTokens ⟨"", [], 1⟩ tokens with
      | .ok _ => false
      | .error e => decide (e.fault ≠ .tooDeep ∧ e.token = some ⟨.keyword .endWord, 1, 34⟩))
    (by decide +kernel)
  cases failed : Line.ofTokens ⟨"", [], 1⟩ tokens with
  | ok line =>
    rw [failed] at checked
    contradiction
  | error error =>
    rw [failed] at checked
    obtain ⟨shallow, named⟩ := of_decide_eq_true checked
    exact ⟨tokens, error, scanned, failed, shallow, named,
      Line.viable_of_error scanned failed shallow⟩

end YololChip
