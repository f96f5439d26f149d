import YololChip.Proofs.Soundness
import YololChip.Proofs.Views

/-!
# Lines that parsers see alike

What parsers of expressions see alike they read alike, and so do the parsers of statements, of
blocks and of lines.
-/

namespace YololChip.Grammar.View

variable {v : View} {ts us : List Token}

/-! ### Trees -/

/-- A statement that holds expressions but no block agrees if they do. -/
theorem SameStmt.simple {s s' : Stmt} (bare : s.bare = s'.bare) (alone : s.within = [s])
    (located : v.place s.loc) (held : ∀ e ∈ s.own, e.Placed v.place) : v.SameStmt s s' where
  bare := bare
  placed := by
    intro t member
    rw [alone, List.mem_singleton] at member
    rw [member]
    exact ⟨located, held⟩

theorem SameBlock.nil : v.SameBlock [] [] := ⟨rfl, fun _ member => absurd member List.not_mem_nil⟩

theorem SameBlock.cons {s s' : Stmt} {others others' : List Stmt} (first : v.SameStmt s s')
    (later : v.SameBlock others others') : v.SameBlock (s :: others) (s' :: others') where
  bare := by rw [Stmt.bareAll, Stmt.bareAll, first.bare, later.bare]
  placed := by
    intro t member
    rcases List.mem_append.mp member with inFirst | inLater
    · exact first.placed t inFirst
    · exact later.placed t inLater

/-- Whether two else parts are one but for their locations, and the first sits where it should.
An absent one and one without statements are told apart. -/
structure SameElse (v : View) (otherwise otherwise' : Option (List Stmt)) : Prop where
  bare : Stmt.bareElse otherwise = Stmt.bareElse otherwise'
  placed : ∀ t ∈ Stmt.withinElse otherwise, t.Sits v.place

theorem SameElse.none : v.SameElse .none .none :=
  ⟨rfl, fun _ member => absurd member List.not_mem_nil⟩

/-- An else part without statements counts as absent on both sides. The word that begins such a
part is passed over. -/
theorem SameElse.of_block {block block' : List Stmt} (same : v.SameBlock block block') :
    v.SameElse (if block.isEmpty then .none else some block)
      (if block'.isEmpty then .none else some block') := by
  have bare := same.bare
  cases block with
  | nil =>
    cases block' with
    | nil => exact .none
    | cons => simp [Stmt.bareAll] at bare
  | cons =>
    cases block' with
    | nil => simp [Stmt.bareAll] at bare
    | cons => exact ⟨congrArg some bare, same.placed⟩

/-- An if statement agrees if its condition and its blocks do. -/
theorem SameStmt.branch {loc loc' : Option Location} {condition condition' : Expr}
    {body body' : List Stmt} {otherwise otherwise' : Option (List Stmt)} (located : v.place loc)
    (sameCondition : v.SameExpr condition condition') (sameBody : v.SameBlock body body')
    (sameElse : v.SameElse otherwise otherwise') :
    v.SameStmt (.branch loc condition body otherwise)
      (.branch loc' condition' body' otherwise') where
  bare := by
    rw [Stmt.bare, Stmt.bare, sameCondition.bare, sameBody.bare, sameElse.bare]
  placed := by
    intro t member
    simp only [Stmt.within, List.mem_cons, List.mem_append] at member
    rcases member with rfl | inBody | inElse
    · refine ⟨located, fun held member => ?_⟩
      rw [List.mem_singleton.mp member]
      exact sameCondition.placed
    · exact sameBody.placed t inBody
    · exact sameElse.placed t inElse

/-! ### Blocks -/

theorem endsBlock_eq (sees : v.Sees ts us) (inside : Bool) :
    endsBlock inside us = endsBlock inside ts := by
  rcases v.settles (v.front sees) with same | ⟨atEnd, atEnd'⟩
  · simp only [endsBlock, same]
  · rw [endsBlock_of_endsLine atEnd, endsBlock_of_endsLine atEnd']

/-- Blocks are read alike if their statements are, whatever tokens there are to go by on each
side.

Proof: induction over the statements that there may be at most. Each takes a token at least. -/
theorem agree_block {statement statement' : Parser Stmt} {inside : Bool}
    (respects : v.Respects v.SameStmt 0 statement statement') {most most' : List Token}
    (sees : v.Sees ts us) (enough : ts.length ≤ most.length) (enough' : us.length ≤ most'.length) :
    v.Agree v.SameBlock (ts.length + 1) (block statement inside most ts)
      (block statement' inside most' us) := by
  induction most generalizing most' ts us with
  | nil =>
    obtain rfl := List.eq_nil_of_length_eq_zero (Nat.le_zero.mp enough)
    have ends : endsBlock inside us = true := endsBlock_eq sees inside
    rw [block_of_endsBlock ends]
    exact .read .nil sees (Nat.lt_succ_self _)
  | cons _ most inductionHypothesis =>
    by_cases ends : endsBlock inside ts = true
    · have ends' : endsBlock inside us = true := by rw [endsBlock_eq sees, ends]
      rw [block_of_endsBlock ends, block_of_endsBlock ends']
      exact .read .nil sees (Nat.lt_succ_self _)
    · have ends' : ¬endsBlock inside us = true := by rwa [endsBlock_eq sees]
      cases most' with
      | nil =>
        obtain rfl := List.eq_nil_of_length_eq_zero (Nat.le_zero.mp enough')
        exact absurd rfl ends'
      | cons _ most' =>
        have agree := respects sees
        rw [block, block, if_neg ends, if_neg ends']
        generalize statement ts = read, statement' us = read' at agree ⊢
        cases agree with
        | stuck faults seesRest => exact .stuck faults seesRest
        | @read s s' rest rest' first seesRest shorter =>
          have lengths := v.length sees
          have lengthsRest := v.length seesRest
          simp only [List.length_cons] at enough enough'
          have later := inductionHypothesis seesRest (show rest.length ≤ most.length by omega)
            (show rest'.length ≤ most'.length by omega)
          dsimp only
          generalize block statement inside most rest = read,
            block statement' inside most' rest' = read' at later ⊢
          cases later with
          | stuck faults seesRest => exact .stuck faults seesRest
          | read others seesLast shorterLast => exact .read (.cons first others) seesLast (by omega)

/-! ### Statements -/

theorem agree_close {read read' : Stmt} {bound : Nat} (same : v.SameStmt read read')
    (sees : v.Sees ts us) (shorter : ts.length ≤ bound) :
    v.Agree v.SameStmt bound
      (if (Grammar.front ts).lexeme = .keyword .endWord then .ok (read, ts.drop 1)
        else stop (.missingEnd read) ts)
      (if (Grammar.front us).lexeme = .keyword .endWord then .ok (read', us.drop 1)
        else stop (.missingEnd read') us) := by
  rw [ite_front sees rfl]
  by_cases ends : (Grammar.front ts).lexeme = .keyword .endWord
  · rw [if_pos ends, if_pos ends]
    have inLine : (Grammar.front ts).lexeme.endsLine = false := by rw [ends]; rfl
    have taken := length_drop_one inLine
    exact .read same (v.goesOn sees inLine) (by omega)
  · rw [if_neg ends, if_neg ends]
    exact .stuck (.missingEnd same) sees

/-- What follows the body of an if statement is read alike. -/
theorem agree_closeBranch {inner inner' : Parser (List Stmt)}
    (respects : v.Respects v.SameBlock 1 inner inner') {loc loc' : Option Location}
    {condition condition' : Expr} {body body' : List Stmt} {bound : Nat} (located : v.place loc)
    (sameCondition : v.SameExpr condition condition') (sameBody : v.SameBlock body body')
    (sees : v.Sees ts us) (shorter : ts.length ≤ bound) :
    v.Agree v.SameStmt bound (closeBranch inner loc condition body ts)
      (closeBranch inner' loc' condition' body' us) := by
  unfold closeBranch
  dsimp only
  rw [ite_front sees rfl]
  by_cases isElse : (Grammar.front ts).lexeme = .keyword .elseWord
  · rw [if_pos isElse, if_pos isElse]
    have inLine : (Grammar.front ts).lexeme.endsLine = false := by rw [isElse]; rfl
    have taken := length_drop_one inLine
    have agree := respects (v.goesOn sees inLine)
    generalize inner (ts.drop 1) = read, inner' (us.drop 1) = read' at agree ⊢
    cases agree with
    | stuck faults seesRest => exact .stuck faults seesRest
    | @read statements statements' rest rest' sameStatements seesRest shorterRest =>
      have sameElse := SameElse.of_block sameStatements
      dsimp only
      rw [ite_front seesRest rfl]
      by_cases repeated : (Grammar.front rest).lexeme = .keyword .elseWord
      · rw [if_pos repeated, if_pos repeated]
        exact .stuck (.repeatedElse (.branch located sameCondition sameBody sameElse)) seesRest
      · rw [if_neg repeated, if_neg repeated]
        exact agree_close (.branch located sameCondition sameBody sameElse) seesRest (by omega)
  · rw [if_neg isElse, if_neg isElse]
    exact agree_close (.branch located sameCondition sameBody .none) sees shorter

theorem agree_branch {inner inner' : Parser (List Stmt)}
    (respects : v.Respects v.SameBlock 1 inner inner') (sees : v.Sees ts us)
    (isIf : (Grammar.front ts).lexeme = .keyword .ifWord) :
    v.Agree v.SameStmt (ts.length + 0) (branch v.sheet inner ts) (branch v.other inner' us) := by
  have inLine : (Grammar.front ts).lexeme.endsLine = false := by rw [isIf]; rfl
  have taken := length_drop_one inLine
  have agree := respects_expression v (v.goesOn sees inLine)
  unfold branch
  generalize expression v.sheet (ts.drop 1) = read,
    expression v.other (us.drop 1) = read' at agree ⊢
  cases agree with
  | stuck faults seesRest => exact .stuck faults seesRest
  | @read condition condition' rest rest' sameCondition seesRest shorterRest =>
    dsimp only
    rw [ite_front seesRest rfl]
    by_cases isThen : (Grammar.front rest).lexeme = .keyword .thenWord
    · rw [if_pos isThen, if_pos isThen]
      have agree := respects (goesOn_of_front seesRest isThen rfl)
      generalize inner (rest.drop 1) = read, inner' (rest'.drop 1) = read' at agree ⊢
      cases agree with
      | stuck faults seesBody => exact .stuck faults seesBody
      | read sameBody seesBody shorterBody =>
        rw [List.length_drop] at shorterBody
        exact agree_closeBranch respects (v.located sees) sameCondition sameBody seesBody (by omega)
    · rw [if_neg isThen, if_neg isThen]
      exact .stuck (.missingThen sameCondition) seesRest

theorem respects_plain : v.Respects v.SameStmt 0 (plain v.sheet) (plain v.other) := by
  intro ts us sees
  have agree := respects_expression v sees
  unfold plain
  generalize expression v.sheet ts = read, expression v.other us = read' at agree ⊢
  cases agree with
  | stuck faults seesRest => exact .stuck faults seesRest
  | read same seesRest shorter =>
    refine .read (.simple ?_ rfl (v.located sees) ?_) seesRest shorter
    · rw [Stmt.bare, Stmt.bare, same.bare]
    · intro e member
      rw [List.mem_singleton.mp member]
      exact same.placed

theorem matchAssign_front (ts : List Token) : matchAssign ts =
    match (Grammar.front ts).lexeme with
    | .symbol .equals => if isPair .equals .equals ts then none else some (.assign, 1)
    | .symbol s =>
      match compound? s with
      | none => none
      | some op => if isPair s .equals ts then some (op, 2) else none
    | _ => none := by
  cases ts with
  | nil => rfl
  | cons t rest => rfl

theorem matchAssign_eq (sees : v.Sees ts us) : matchAssign us = matchAssign ts := by
  rw [matchAssign_front, matchAssign_front]
  rcases v.settles (v.front sees) with same | ⟨atEnd, atEnd'⟩
  · simp only [same, v.pairs sees]
  · rcases Lexeme.endsLine_iff.mp atEnd with isEnd | isEnd <;>
      rcases Lexeme.endsLine_iff.mp atEnd' with isEnd' | isEnd' <;> rw [isEnd, isEnd']

/-- A statement with a target and a value agrees if the value does. -/
theorem SameStmt.assign {loc loc' target target' : Option Location} {name : Variable}
    {op : AssignOperator} {value value' : Expr} (located : v.place loc)
    (placed : v.place target) (same : v.SameExpr value value') :
    v.SameStmt (.assign loc (.var target name) op value)
      (.assign loc' (.var target' name) op value') := by
  refine .simple ?_ rfl located ?_
  · rw [Stmt.bare, Stmt.bare, same.bare, Expr.bare, Expr.bare]
  · intro e member
    simp only [Stmt.own, List.mem_cons, List.not_mem_nil, or_false] at member
    rcases member with rfl | rfl
    · intro n inTarget
      rw [List.mem_singleton.mp inTarget]
      exact placed
    · exact same.placed

/-- At the end of a line no statement begins but an expression, and that is missing. -/
theorem statement_of_endsLine {sheet : Sheet} {inner : Parser (List Stmt)}
    (atEnd : (Grammar.front ts).lexeme.endsLine = true) :
    statement sheet inner ts = plain sheet ts := by
  rcases Lexeme.endsLine_iff.mp atEnd with isEnd | isEnd
  · simp [statement, isEnd, Lexeme.nameOf?]
  · simp [statement, isEnd, Lexeme.nameOf?]

/-- Statements are read alike if the blocks inside them are. What an if statement holds is read
one level down. -/
theorem respects_statement {inner inner' : Parser (List Stmt)}
    (respects : v.Respects v.SameBlock 1 inner inner') :
    v.Respects v.SameStmt 0 (statement v.sheet inner) (statement v.other inner') := by
  intro ts us sees
  by_cases atEnd : (Grammar.front ts).lexeme.endsLine = true
  · have atEnd' : (Grammar.front us).lexeme.endsLine = true := by rw [endsLine_eq sees, atEnd]
    rw [statement_of_endsLine atEnd, statement_of_endsLine atEnd']
    exact respects_plain sees
  · have inLine := Bool.eq_false_iff.mpr atEnd
    have behind := v.goesOn sees inLine
    have taken := length_drop_one inLine
    unfold statement
    simp only [lexeme_eq sees inLine, matchAssign_eq behind]
    split
    · refine .read (.simple rfl rfl (v.located sees) ?_) behind (by omega)
      exact fun e member => absurd member List.not_mem_nil
    · have agree := respects_expression v behind
      generalize expression v.sheet (ts.drop 1) = read,
        expression v.other (us.drop 1) = read' at agree ⊢
      cases agree with
      | stuck faults seesRest => exact .stuck faults seesRest
      | read sameTarget seesRest shorter =>
        refine .read (.simple ?_ rfl (v.located sees) ?_) seesRest (by omega)
        · rw [Stmt.bare, Stmt.bare, sameTarget.bare]
        · intro e member
          rw [List.mem_singleton.mp member]
          exact sameTarget.placed
    · next isIf => exact agree_branch respects sees isIf
    · split
      · next name op width _ found =>
        have takes := takes_matchAssign found
        have value := past_takes behind takes
        have shorterValue := length_drop_of_takes takes op.marks_ne_nil
        rw [List.drop_drop, List.drop_drop] at value
        rw [List.drop_drop] at shorterValue
        have agree := respects_expression v value
        generalize expression v.sheet (ts.drop (1 + width)) = read,
          expression v.other (us.drop (1 + width)) = read' at agree ⊢
        cases agree with
        | stuck faults seesRest => exact .stuck faults seesRest
        | read sameValue seesRest shorter =>
          exact .read (.assign (v.located sees) (v.located sees) sameValue) seesRest (by omega)
      · exact respects_plain sees

/-- Blocks inside if statements are read alike at every depth.

Proof: induction over the depth. At depth zero both give up at every statement. -/
theorem respects_innerBlock (v : View) (depth : Nat) :
    v.Respects v.SameBlock 1 (innerBlock v.sheet depth) (innerBlock v.other depth) := by
  induction depth with
  | zero =>
    intro ts us sees
    exact agree_block respects_tooDeep sees (Nat.le_refl _) (Nat.le_refl _)
  | succ depth inner =>
    intro ts us sees
    exact agree_block (respects_statement inner) sees (Nat.le_refl _) (Nat.le_refl _)

theorem respects_statements (v : View) :
    v.Respects v.SameBlock 1 (statements v.sheet) (statements v.other) := by
  intro ts us sees
  exact agree_block (respects_statement (respects_innerBlock v nestingLimit)) sees (Nat.le_refl _)
    (Nat.le_refl _)

end YololChip.Grammar.View
