import YololChip.Proofs.Nodes
import YololChip.Proofs.Lookahead
import YololChip.Proofs.SoundExpressions

/-!
# What parsers see alike they read alike

A parser looks at the first lexeme and at which symbols stand side by side, and never past the
end of the line. So two rows of tokens that show it the same are read as the same expression,
but for locations, or given up at the same place, and what is known of the places that it sees
is known of all locations in what it reads.

A `View` is two rows side by side, and each parser has one lemma, which assumes of the parsers
inside that they agree. The two sides may go by different numbers of tokens, because one row
may have more of them behind the end of the line.
-/

namespace YololChip

/-- Whether something holds of the locations of all expressions in an expression. -/
def Expr.Placed (place : Option Location → Prop) (e : Expr) : Prop := ∀ n ∈ e.nodes, place n.loc

/-- Whether something holds of the locations of a statement and of all expressions that it holds
by itself. Statements inside of it are not asked. -/
def Stmt.Sits (place : Option Location → Prop) (s : Stmt) : Prop :=
  place s.loc ∧ ∀ held ∈ s.own, held.Placed place

/-- An operator between two operands is written with a mark at least. -/
theorem BinaryOperator.marks_ne_nil (op : BinaryOperator) : op.marks ≠ [] := by
  cases op <;> simp [marks, Mark.word, Mark.single, Mark.pair]

/-- An operator on one operand is written with a mark at least. -/
theorem UnaryOperator.marks_ne_nil (op : UnaryOperator) : op.marks ≠ [] := by
  cases op <;> simp [marks, Mark.word, Mark.single, Mark.pair]

/-- An assignment operator is written with a mark at least. -/
theorem AssignOperator.marks_ne_nil (op : AssignOperator) : op.marks ≠ [] := by
  cases op <;> simp [marks, Mark.single, Mark.pair]

theorem Lexeme.endsLine_iff {lexeme : Lexeme} :
    lexeme.endsLine = true ↔ lexeme = .newline ∨ lexeme = .finish := by
  cases lexeme <;> simp [Lexeme.endsLine]

theorem Lexeme.nameOf?_of_endsLine {lexeme : Lexeme} (atEnd : lexeme.endsLine = true) :
    lexeme.nameOf? = none := by
  rcases Lexeme.endsLine_iff.mp atEnd with rfl | rfl
  · rfl
  · rfl

namespace Grammar

/-- Two ways of seeing the tokens of a line, one beside the other, that no parser can tell
apart: how the rows of tokens go together, which first lexemes count as one, and what is known
of the places on the first of the two sheets. Past the end of the line nothing need be known.
What respects every view is proved of the parsers once, and each use is another view. -/
structure View where
  sheet : Sheet
  other : Sheet
  Sees : List Token → List Token → Prop
  alike : Lexeme → Lexeme → Prop
  place : Option Location → Prop
  gap : Nat
  front : ∀ {ts us : List Token}, Sees ts us → alike (front ts).lexeme (front us).lexeme
  settles : ∀ {a b : Lexeme}, alike a b → b = a ∨ a.endsLine = true ∧ b.endsLine = true
  pairs : ∀ {ts us : List Token}, Sees ts us → ∀ first second : Symbol,
    isPair first second us = isPair first second ts
  goesOn : ∀ {ts us : List Token}, Sees ts us → (Grammar.front ts).lexeme.endsLine = false →
    Sees (ts.drop 1) (us.drop 1)
  length : ∀ {ts us : List Token}, Sees ts us → ts.length = us.length + gap
  located : ∀ {ts us : List Token}, Sees ts us → place (sheet.locate ts)

namespace View

/-- Whether two expressions are one but for their locations, and the first sits where it should. -/
structure SameExpr (v : View) (e e' : Expr) : Prop where
  bare : e.bare = e'.bare
  placed : e.Placed v.place

/-- Whether two statements are one but for their locations, and the first sits where it should. -/
structure SameStmt (v : View) (s s' : Stmt) : Prop where
  bare : s.bare = s'.bare
  placed : ∀ t ∈ s.within, t.Sits v.place

/-- Whether two blocks are one but for their locations, and the first sits where it should. -/
structure SameBlock (v : View) (block block' : List Stmt) : Prop where
  bare : Stmt.bareAll block = Stmt.bareAll block'
  placed : Stmt.Throughout (Stmt.Sits v.place) block

/-- Whether two faults are one but for the locations in what had been read, and but for which of
the lexemes that count as one was there. -/
inductive SameFault (v : View) : ParseFault → ParseFault → Prop where
  | unexpected {a b : Lexeme} (same : v.alike a b) : SameFault v (.unexpected a) (.unexpected b)
  | missingOperand (op : BinaryOperator) {e e' : Expr} (same : v.SameExpr e e') :
      SameFault v (.missingOperand op e) (.missingOperand op e')
  | unclosedGroup {e e' : Expr} (same : v.SameExpr e e') :
      SameFault v (.unclosedGroup e) (.unclosedGroup e')
  | missingThen {e e' : Expr} (same : v.SameExpr e e') :
      SameFault v (.missingThen e) (.missingThen e')
  | repeatedElse {s s' : Stmt} (same : v.SameStmt s s') :
      SameFault v (.repeatedElse s) (.repeatedElse s')
  | missingEnd {s s' : Stmt} (same : v.SameStmt s s') :
      SameFault v (.missingEnd s) (.missingEnd s')
  | tooDeep : SameFault v .tooDeep .tooDeep

variable {α β : Type}

/-- Whether two results of parsers agree: both read the same and leave fewer tokens than the
bound, or both give up in the same way at the same place. -/
inductive Agree (v : View) (same : α → α → Prop) (bound : Nat) :
    Except Stuck (α × List Token) → Except Stuck (α × List Token) → Prop where
  | read {a b : α} {rest rest' : List Token} (tree : same a b) (sees : v.Sees rest rest')
      (shorter : rest.length < bound) : Agree v same bound (.ok (a, rest)) (.ok (b, rest'))
  | stuck {fault fault' : ParseFault} {rest rest' : List Token} (faults : v.SameFault fault fault')
      (sees : v.Sees rest rest') :
      Agree v same bound (.error ⟨fault, rest⟩) (.error ⟨fault', rest'⟩)

/-- Whether two parsers agree on all tokens that are seen alike. What is read takes a token at
least, but for as many tokens as a bound allows; with a bound of one it may take none. -/
def Respects (v : View) (same : α → α → Prop) (slack : Nat) (parser other : Parser α) : Prop :=
  ∀ ⦃ts us : List Token⦄, v.Sees ts us → v.Agree same (ts.length + slack) (parser ts) (other us)

variable {v : View} {ts us : List Token}

theorem lexeme_eq (sees : v.Sees ts us) (inLine : (Grammar.front ts).lexeme.endsLine = false) :
    (Grammar.front us).lexeme = (Grammar.front ts).lexeme := by
  rcases v.settles (v.front sees) with same | ⟨atEnd, _⟩
  · exact same
  · rw [inLine] at atEnd
    contradiction

theorem endsLine_eq (sees : v.Sees ts us) :
    (Grammar.front us).lexeme.endsLine = (Grammar.front ts).lexeme.endsLine := by
  rcases v.settles (v.front sees) with same | ⟨atEnd, atEnd'⟩
  · rw [same]
  · rw [atEnd, atEnd']

/-- A lexeme that ends no line is at the front of both or of none. Lexemes that differ count as
one only where both end a line. -/
theorem front_iff (sees : v.Sees ts us) {lexeme : Lexeme} (inLine : lexeme.endsLine = false) :
    (Grammar.front us).lexeme = lexeme ↔ (Grammar.front ts).lexeme = lexeme := by
  constructor
  · rintro rfl
    exact (lexeme_eq sees (by rw [← endsLine_eq sees, inLine])).symm
  · rintro rfl
    exact lexeme_eq sees inLine

/-- What depends on whether a lexeme is at the front that ends no line is decided alike. -/
theorem ite_front (sees : v.Sees ts us) {lexeme : Lexeme} (inLine : lexeme.endsLine = false)
    (a b : α) : (if (Grammar.front us).lexeme = lexeme then a else b) =
      if (Grammar.front ts).lexeme = lexeme then a else b := by
  simp only [front_iff sees inLine]

theorem length_drop_one (inLine : (Grammar.front ts).lexeme.endsLine = false) :
    (ts.drop 1).length + 1 = ts.length := by
  cases ts with
  | nil => contradiction
  | cons t rest => simp

/-- Past a token with a lexeme that ends no line both go on. The rows of tokens stay seen alike. -/
theorem goesOn_of_front (sees : v.Sees ts us) {lexeme : Lexeme}
    (found : (Grammar.front ts).lexeme = lexeme) (inLine : lexeme.endsLine = false) :
    v.Sees (ts.drop 1) (us.drop 1) :=
  v.goesOn sees (by rw [found, inLine])

theorem past {used rest : List Token} (sees : v.Sees (used ++ rest) us)
    (inLine : ∀ t ∈ used, t.lexeme.endsLine = false) : v.Sees rest (us.drop used.length) := by
  induction used generalizing us with
  | nil => exact sees
  | cons t used inductionHypothesis =>
    have first := v.goesOn sees (inLine t List.mem_cons_self)
    have later := inductionHypothesis first fun t member => inLine t (List.mem_cons_of_mem _ member)
    rwa [List.drop_drop, Nat.add_comm] at later

/-- Past the marks that were taken both go on, and something was taken if there was a mark. -/
theorem past_takes {ms : List Mark} {width : Nat} (sees : v.Sees ts us)
    (takes : Takes ms ts (ts.drop width)) : v.Sees (ts.drop width) (us.drop width) := by
  obtain ⟨used, shape, covers⟩ := takes
  have later : v.Sees (ts.drop width) (us.drop used.length) :=
    past (shape ▸ sees) covers.inLine
  have lengths := congrArg List.length shape
  simp only [List.length_append, List.length_drop] at lengths
  have shorter := v.length sees
  by_cases within : width ≤ ts.length
  · have same : used.length = width := by omega
    rwa [same] at later
  · rw [List.drop_eq_nil_of_le (show us.length ≤ used.length by omega)] at later
    rwa [List.drop_eq_nil_of_le (show us.length ≤ width by omega)]

/-! ### Chains -/

/-- Whether a matcher looks at nothing but the first lexeme and which symbols stand side by
side. It finds the same wherever the tokens stand. -/
def Looks {ω : Type} (found : List Token → Option ω) : Prop :=
  ∀ ⦃ts us : List Token⦄, (Grammar.front us).lexeme = (Grammar.front ts).lexeme →
    (∀ first second, isPair first second us = isPair first second ts) → found us = found ts

/-- The matcher of the loosest level looks ahead no further. -/
theorem looks_matchOr : Looks matchOr := by
  intro ts us same _
  simp only [matchOr, same]

theorem looks_matchAnd : Looks matchAnd := by
  intro ts us same _
  simp only [matchAnd, same]

theorem looks_matchEquality : Looks matchEquality := by
  intro ts us _ pairs
  simp only [matchEquality, pairs]

theorem looks_matchComparison : Looks matchComparison := by
  intro ts us same pairs
  simp only [matchComparison, same, pairs]

theorem looks_matchSum : Looks matchSum := by
  intro ts us same _
  simp only [matchSum, same]

theorem looks_matchProduct : Looks matchProduct := by
  intro ts us same _
  simp only [matchProduct, same]

/-- Whether a matcher finds the operators of a level, and looks ahead no further than it must.
The six matchers of the grammar are so. -/
structure Matches (level : Nat) (found : Matcher) : Prop where
  positive : 0 < level
  decides : Decides level found
  finds : Finds level found
  looks : Looks found

theorem follow_of_endsLine (atEnd : (Grammar.front ts).lexeme.endsLine = true) :
    follow (marksOf ts) = 0 := by
  rw [lexeme_front] at atEnd
  rcases Lexeme.endsLine_iff.mp atEnd with isEnd | isEnd
  · simp [follow, isEnd]
  · simp [follow, isEnd]

theorem matches_matchOr : Matches 1 matchOr :=
  ⟨by decide, decides_matchOr, finds_matchOr, looks_matchOr⟩

theorem matches_matchAnd : Matches 2 matchAnd :=
  ⟨by decide, decides_matchAnd, finds_matchAnd, looks_matchAnd⟩

theorem matches_matchEquality : Matches 3 matchEquality :=
  ⟨by decide, decides_matchEquality, finds_matchEquality, looks_matchEquality⟩

theorem matches_matchComparison : Matches 4 matchComparison :=
  ⟨by decide, decides_matchComparison, finds_matchComparison, looks_matchComparison⟩

theorem matches_matchSum : Matches 5 matchSum :=
  ⟨by decide, decides_matchSum, finds_matchSum, looks_matchSum⟩

theorem matches_matchProduct : Matches 6 matchProduct :=
  ⟨by decide, decides_matchProduct, finds_matchProduct, looks_matchProduct⟩

theorem found_eq {level : Nat} {found : Matcher} (fits : Matches level found)
    (sees : v.Sees ts us) : found us = found ts := by
  rcases v.settles (v.front sees) with same | ⟨atEnd, atEnd'⟩
  · exact fits.looks same (v.pairs sees)
  · have here : follow (marksOf ts) < level := by
      rw [follow_of_endsLine atEnd]
      exact fits.positive
    have there : follow (marksOf us) < level := by
      rw [follow_of_endsLine atEnd']
      exact fits.positive
    rw [fits.decides.stops here, fits.decides.stops there]

theorem length_drop_of_takes {ms : List Mark} {width : Nat} (takes : Takes ms ts (ts.drop width))
    (inhabited : ms ≠ []) : (ts.drop width).length < ts.length := by
  have shorter := takes.length_le
  have positive := List.length_pos_iff.mpr inhabited
  omega

/-- The right operands of an operator agree if the operands do. -/
theorem respects_rightOperand {operand operand' : Parser Expr} (op : BinaryOperator)
    {left left' : Expr} (respects : v.Respects v.SameExpr 0 operand operand')
    (same : v.SameExpr left left') :
    v.Respects v.SameExpr 0 (rightOperand operand op left) (rightOperand operand' op left') := by
  intro ts us sees
  have agree := respects sees
  unfold rightOperand
  generalize operand ts = read, operand' us = read' at agree ⊢
  cases agree with
  | read tree seesRest shorter => exact .read tree seesRest shorter
  | @stuck fault fault' rest rest' faults seesRest =>
    have agree :
        v.Agree v.SameExpr (ts.length + 0) (.error ⟨fault, rest⟩) (.error ⟨fault', rest'⟩) :=
      .stuck faults seesRest
    cases faults with
    | unexpected =>
      have lengths := v.length sees
      have lengthsRest := v.length seesRest
      by_cases stays : rest.length = ts.length
      · have stays' : rest'.length = us.length := by omega
        simp only [if_pos stays, if_pos stays']
        exact .stuck (.missingOperand op same) seesRest
      · have goes : rest'.length ≠ us.length := by omega
        simp only [if_neg stays, if_neg goes]
        exact agree
    | _ => exact agree

theorem SameExpr.binary {left left' right right' : Expr} {loc loc' : Option Location}
    (op : BinaryOperator) (located : v.place loc) (first : v.SameExpr left left')
    (second : v.SameExpr right right') :
    v.SameExpr (.binary loc op left right) (.binary loc' op left' right') where
  bare := by rw [Expr.bare, Expr.bare, first.bare, second.bare]
  placed := by
    intro n member
    simp only [Expr.nodes, List.mem_cons, List.mem_append] at member
    rcases member with rfl | inLeft | inRight
    · exact located
    · exact first.placed n inLeft
    · exact second.placed n inRight

/-- An operand that agrees makes an expression that agrees. -/
theorem SameExpr.unary {operand operand' : Expr} {loc loc' : Option Location}
    (op : UnaryOperator) (located : v.place loc) (inner : v.SameExpr operand operand') :
    v.SameExpr (.unary loc op operand) (.unary loc' op operand') where
  bare := by rw [Expr.bare, Expr.bare, inner.bare]
  placed := by
    intro n member
    rcases List.mem_cons.mp member with rfl | inside
    · exact located
    · exact inner.placed n inside

/-- The inside of a group that agrees makes a group that agrees. -/
theorem SameExpr.group {inside inside' : Expr} {loc loc' : Option Location}
    (located : v.place loc) (inner : v.SameExpr inside inside') :
    v.SameExpr (.group loc inside) (.group loc' inside') where
  bare := by rw [Expr.bare, Expr.bare, inner.bare]
  placed := by
    intro n member
    rcases List.mem_cons.mp member with rfl | inside
    · exact located
    · exact inner.placed n inside

/-- Expressions that hold no other agree if they are one but for their locations. Such an
expression is placed where its token is. -/
theorem SameExpr.leaf {e e' : Expr} (bare : e.bare = e'.bare) (alone : e.nodes = [e])
    (located : v.place e.loc) : v.SameExpr e e' where
  bare := bare
  placed := by
    intro n member
    rw [alone, List.mem_singleton] at member
    rw [member]
    exact located

theorem Matches.found_nil {level : Nat} {found : Matcher} (fits : Matches level found) :
    found [] = none := fits.decides.stops fits.positive

/-- Chains agree if their operands do, whatever tokens there are to go by on each side.

Proof: induction over the operators that may follow on the first side. Each takes a token at
least on both sides, so neither runs out of them before the other. -/
theorem agree_chain {level : Nat} {found : Matcher} {operand operand' : Parser Expr}
    (fits : Matches level found) (respects : v.Respects v.SameExpr 0 operand operand')
    {most most' : List Token} {left left' : Expr} {bound : Nat} (sees : v.Sees ts us)
    (enough : ts.length ≤ most.length) (enough' : us.length ≤ most'.length)
    (same : v.SameExpr left left') (shorter : ts.length < bound) :
    v.Agree v.SameExpr bound (chain v.sheet operand found most left ts)
      (chain v.other operand' found most' left' us) := by
  induction most generalizing most' left left' ts us with
  | nil =>
    obtain rfl := List.eq_nil_of_length_eq_zero (Nat.le_zero.mp enough)
    have nothing : found us = none := by rw [found_eq fits sees, fits.found_nil]
    cases most' with
    | nil => exact .read same sees shorter
    | cons _ most' =>
      simp only [chain, nothing]
      exact .read same sees shorter
  | cons _ most inductionHypothesis =>
    have lengths := v.length sees
    cases most' with
    | nil =>
      obtain rfl := List.eq_nil_of_length_eq_zero (Nat.le_zero.mp enough')
      have nothing : found ts = none := by rw [← found_eq fits sees, fits.found_nil]
      simp only [chain, nothing]
      exact .read same sees shorter
    | cons _ most' =>
      unfold chain
      rw [found_eq fits sees]
      cases here : found ts with
      | none => exact .read same sees shorter
      | some operator =>
        obtain ⟨op, width⟩ := operator
        obtain ⟨_, _, takes⟩ := fits.finds here
        have behind := past_takes sees takes
        have taken := length_drop_of_takes takes op.marks_ne_nil
        have agree := respects_rightOperand op respects same behind
        dsimp only
        generalize rightOperand operand op left (ts.drop width) = read,
          rightOperand operand' op left' (us.drop width) = read' at agree ⊢
        cases agree with
        | stuck faults seesRest => exact .stuck faults seesRest
        | read sameRight seesRest shorterRest =>
          have lengthsRest := v.length seesRest
          simp only [List.length_cons] at enough enough'
          apply inductionHypothesis seesRest
          · omega
          · omega
          · exact .binary op (v.located sees) same sameRight
          · omega

/-- Operands with the operators of a level between them agree if the operands do. The operators
are found alike, because matchers look no further than they must. -/
theorem respects_level {level : Nat} {found : Matcher} {operand operand' : Parser Expr}
    (fits : Matches level found) (respects : v.Respects v.SameExpr 0 operand operand') :
    v.Respects v.SameExpr 0 (Grammar.level v.sheet operand found)
      (Grammar.level v.other operand' found) := by
  intro ts us sees
  have agree := respects sees
  unfold Grammar.level
  generalize operand ts = read, operand' us = read' at agree ⊢
  cases agree with
  | stuck faults seesRest => exact .stuck faults seesRest
  | read same seesRest shorter =>
    exact agree_chain fits respects seesRest (Nat.le_refl _) (Nat.le_refl _) same shorter

/-! ### Operands and signs -/

/-- Factorial signs are read one by one, as long as one is at the front. What is behind the last
one is left on both sides. -/
theorem factorials_eq (sheet : Sheet) (e : Expr) (ts : List Token) :
    factorials sheet e ts =
      if (Grammar.front ts).lexeme = .symbol .bang ∧ isPair .bang .equals ts = false then
        factorials sheet (.unary (sheet.locate ts) .factorial e) (ts.drop 1)
      else (e, ts) := by
  cases ts with
  | nil => simp [factorials, Grammar.front]
  | cons t rest => rfl

/-- The factorial signs behind an operand are read alike.

Proof: induction over the tokens on the first side. -/
theorem factorials_agree {e e' : Expr} (same : v.SameExpr e e') (sees : v.Sees ts us) :
    v.SameExpr (factorials v.sheet e ts).1 (factorials v.other e' us).1 ∧
      v.Sees (factorials v.sheet e ts).2 (factorials v.other e' us).2 ∧
      (factorials v.sheet e ts).2.length ≤ ts.length := by
  induction ts generalizing us e e' with
  | nil =>
    have noBang : (Grammar.front us).lexeme ≠ .symbol .bang := by
      rw [ne_eq, front_iff sees rfl]
      simp [Grammar.front]
    rw [factorials_eq _ _ us, if_neg fun isBang => noBang isBang.1]
    exact ⟨same, sees, Nat.le_refl _⟩
  | cons t rest inductionHypothesis =>
    rw [factorials_eq, factorials_eq _ _ us, v.pairs sees]
    have bangs := and_congr_left fun _ : isPair .bang .equals (t :: rest) = false =>
      front_iff sees (show (Lexeme.symbol .bang).endsLine = false from rfl)
    by_cases isBang : (Grammar.front (t :: rest)).lexeme = .symbol .bang ∧
        isPair .bang .equals (t :: rest) = false
    · rw [if_pos isBang, if_pos (bangs.mpr isBang)]
      have behind := goesOn_of_front sees isBang.1 rfl
      obtain ⟨sameLater, seesLater, shorter⟩ :=
        inductionHypothesis (.unary .factorial (v.located sees) same) behind
      exact ⟨sameLater, seesLater, Nat.le_succ_of_le shorter⟩
    · rw [if_neg isBang, if_neg fun isBang' => isBang (bangs.mp isBang')]
      exact ⟨same, sees, Nat.le_refl _⟩

theorem past_pair {first second : Symbol} (sees : v.Sees ts us)
    (isPair : isPair first second ts = true) : v.Sees (ts.drop 2) (us.drop 2) :=
  past_takes sees (.pair isPair)

/-- A name at the front is read alike, with the step after it. -/
theorem agree_stepped {name : String} (sees : v.Sees ts us)
    (inLine : (Grammar.front ts).lexeme.endsLine = false) :
    v.Agree v.SameExpr (ts.length + 0) (stepped v.sheet name ts) (stepped v.other name us) := by
  have behind := v.goesOn sees inLine
  have shorter := length_drop_one inLine
  have target : v.SameExpr (.var (v.sheet.locate ts) (Variable.named name))
      (.var (v.other.locate us) (Variable.named name)) := .leaf rfl rfl (v.located sees)
  unfold stepped
  simp only [v.pairs behind]
  by_cases up : isPair .plus .plus (ts.drop 1) = true
  · rw [if_pos up, if_pos up]
    refine .read (.unary _ (v.located sees) target) (past_pair behind up) ?_
    rw [List.length_drop]
    omega
  · rw [if_neg up, if_neg up]
    by_cases down : isPair .minus .minus (ts.drop 1) = true
    · rw [if_pos down, if_pos down]
      refine .read (.unary _ (v.located sees) target) (past_pair behind down) ?_
      rw [List.length_drop]
      omega
    · rw [if_neg down, if_neg down]
      exact .read target behind (by omega)

structure SameNested (v : View) (nested nested' : Nested) : Prop where
  expression : v.Respects v.SameExpr 0 nested.expression nested'.expression
  power : v.Respects v.SameExpr 0 nested.power nested'.power
  signed : v.Respects v.SameExpr 0 nested.signed nested'.signed

/-- A token inside the line that is an expression by itself is read alike. -/
theorem agree_leaf {e e' : Expr} (sees : v.Sees ts us)
    (inLine : (Grammar.front ts).lexeme.endsLine = false) (bare : e.bare = e'.bare)
    (alone : e.nodes = [e]) (here : e.loc = v.sheet.locate ts) :
    v.Agree v.SameExpr (ts.length + 0) (.ok (e, ts.drop 1)) (.ok (e', us.drop 1)) := by
  have shorter := length_drop_one inLine
  exact .read (.leaf bare alone (here ▸ v.located sees)) (v.goesOn sees inLine) (by omega)

theorem operand_of_endsLine {sheet : Sheet} {nested : Nested}
    (atEnd : (Grammar.front ts).lexeme.endsLine = true) :
    operand sheet nested ts = .error ⟨.unexpected (Grammar.front ts).lexeme, ts⟩ := by
  rcases Lexeme.endsLine_iff.mp atEnd with isEnd | isEnd
  · simp [operand, isEnd, stop]
  · simp [operand, isEnd, stop]

theorem respects_operand {nested nested' : Nested} (inner : v.SameNested nested nested') :
    v.Respects v.SameExpr 0 (operand v.sheet nested) (operand v.other nested') := by
  intro ts us sees
  rcases v.settles (v.front sees) with same | ⟨atEnd, atEnd'⟩
  · unfold operand
    simp only [same]
    split
    · next found => exact agree_leaf sees (by rw [found]; rfl) rfl rfl rfl
    · next found => exact agree_leaf sees (by rw [found]; rfl) rfl rfl rfl
    · next found => exact agree_stepped sees (by rw [found]; rfl)
    · next found => exact agree_stepped sees (by rw [found]; rfl)
    · next found =>
      have inLine : (Grammar.front ts).lexeme.endsLine = false := by rw [found]; rfl
      have shorter := length_drop_one inLine
      have agree := inner.expression (v.goesOn sees inLine)
      generalize nested.expression (ts.drop 1) = read,
        nested'.expression (us.drop 1) = read' at agree ⊢
      cases agree with
      | stuck faults seesRest => exact .stuck faults seesRest
      | @read inside inside' rest rest' sameInside seesRest shorterRest =>
        dsimp only
        rw [ite_front seesRest rfl]
        by_cases closed : (Grammar.front rest).lexeme = .symbol .rightParen
        · rw [if_pos closed, if_pos closed]
          refine .read (.group (v.located sees) sameInside) (goesOn_of_front seesRest closed rfl) ?_
          rw [List.length_drop]
          omega
        · rw [if_neg closed, if_neg closed]
          exact .stuck (.unclosedGroup sameInside) seesRest
    · next lexeme => exact .stuck (.unexpected (by simpa [same] using v.front sees)) sees
  · have alike := v.front sees
    rw [operand_of_endsLine atEnd, operand_of_endsLine atEnd']
    exact .stuck (.unexpected alike) sees

theorem nameOf?_eq (sees : v.Sees ts us) :
    (Grammar.front us).lexeme.nameOf? = (Grammar.front ts).lexeme.nameOf? := by
  rcases v.settles (v.front sees) with same | ⟨atEnd, atEnd'⟩
  · rw [same]
  · rw [Lexeme.nameOf?_of_endsLine atEnd, Lexeme.nameOf?_of_endsLine atEnd']

theorem isStepBefore_eq (sees : v.Sees ts us) (sign : Symbol) :
    isStepBefore sign us = isStepBefore sign ts := by
  unfold isStepBefore
  rw [v.pairs sees]
  by_cases isPair : isPair sign sign ts = true
  · rw [nameOf?_eq (past_pair sees isPair)]
  · rw [Bool.eq_false_iff.mpr isPair, Bool.false_and, Bool.false_and]

theorem matchSign_of_endsLine (atEnd : (Grammar.front ts).lexeme.endsLine = true) :
    matchSign ts = none := by
  rcases Lexeme.endsLine_iff.mp atEnd with isEnd | isEnd
  · simp [matchSign, isEnd]
  · simp [matchSign, isEnd]

theorem matchSign_eq (sees : v.Sees ts us) : matchSign us = matchSign ts := by
  rcases v.settles (v.front sees) with same | ⟨atEnd, atEnd'⟩
  · simp only [matchSign, same, isStepBefore_eq sees]
  · rw [matchSign_of_endsLine atEnd, matchSign_of_endsLine atEnd']

/-- Operands with words and signs before them are read alike. -/
theorem respects_signed {nested nested' : Nested} (inner : v.SameNested nested nested') :
    v.Respects v.SameExpr 0 (signed v.sheet nested) (signed v.other nested') := by
  intro ts us sees
  unfold signed
  rw [matchSign_eq sees]
  cases found : matchSign ts with
  | none => exact respects_operand inner sees
  | some sign =>
    obtain ⟨op, width⟩ := sign
    have takes := (finds_matchSign found).takes
    have behind := past_takes sees takes
    have taken := length_drop_of_takes takes op.marks_ne_nil
    have agree := inner.signed behind
    dsimp only
    generalize nested.signed (ts.drop width) = read,
      nested'.signed (us.drop width) = read' at agree ⊢
    cases agree with
    | stuck faults seesRest => exact .stuck faults seesRest
    | read same seesRest shorter =>
      exact .read (.unary op (v.located sees) same) seesRest (by omega)

theorem respects_power {nested nested' : Nested} (inner : v.SameNested nested nested') :
    v.Respects v.SameExpr 0 (power v.sheet nested) (power v.other nested') := by
  intro ts us sees
  have agree := respects_signed inner sees
  unfold power
  generalize signed v.sheet nested ts = read, signed v.other nested' us = read' at agree ⊢
  cases agree with
  | stuck faults seesRest => exact .stuck faults seesRest
  | @read base base' rest rest' sameBase seesRest shorter =>
    obtain ⟨same, seesLeft, shorterLeft⟩ := factorials_agree sameBase seesRest
    dsimp only
    rw [ite_front seesLeft rfl]
    by_cases raised : (Grammar.front (factorials v.sheet base rest).2).lexeme = .symbol .caret
    · rw [if_pos raised, if_pos raised]
      have behind := goesOn_of_front seesLeft raised rfl
      have agree := respects_rightOperand .pow inner.power same behind
      generalize rightOperand nested.power .pow (factorials v.sheet base rest).1 _ = read,
        rightOperand nested'.power .pow (factorials v.other base' rest').1 _ = read' at agree ⊢
      cases agree with
      | stuck faults seesAfter => exact .stuck faults seesAfter
      | read sameRight seesAfter shorterRight =>
        refine .read (.binary .pow (v.located seesLeft) same sameRight) seesAfter ?_
        rw [List.length_drop] at shorterRight
        omega
    · rw [if_neg raised, if_neg raised]
      exact .read same seesLeft (by omega)

theorem respects_expressionOver {nested nested' : Nested} (inner : v.SameNested nested nested') :
    v.Respects v.SameExpr 0 (expressionOver v.sheet nested) (expressionOver v.other nested') := by
  unfold expressionOver
  apply respects_level matches_matchOr
  apply respects_level matches_matchAnd
  apply respects_level matches_matchEquality
  apply respects_level matches_matchComparison
  apply respects_level matches_matchSum
  apply respects_level matches_matchProduct
  exact respects_power inner

theorem respects_tooDeep {same : α → α → Prop} {slack : Nat} :
    v.Respects same slack (stop .tooDeep) (stop .tooDeep) := by
  intro ts us sees
  exact .stuck .tooDeep sees

/-- What nests is read alike at every depth.

Proof: induction over the depth. At depth zero both give up. -/
theorem sameNested (v : View) (depth : Nat) :
    v.SameNested (nested v.sheet depth) (nested v.other depth) := by
  induction depth with
  | zero => exact ⟨respects_tooDeep, respects_tooDeep, respects_tooDeep⟩
  | succ depth inner =>
    exact ⟨respects_expressionOver inner, respects_power inner, respects_signed inner⟩

theorem respects_expression (v : View) :
    v.Respects v.SameExpr 0 (expression v.sheet) (expression v.other) :=
  (sameNested v nestingLimit).expression

end View
end Grammar
end YololChip
