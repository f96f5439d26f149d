import YololChip.Proofs.Rereading
import YololChip.Proofs.StuckExpressions

/-!
# What an expression lacks that cannot be read

Where a parser of expressions gives up, the tokens before the place are the beginning of an
expression: with a few tokens behind them in the place of the rest, one is read. Where no operand
begins a number is put, and a group that is not closed is closed.

The fault is found by the innermost parser. Those around it read again what they had read, since
nothing goes on with the tokens that are put there, and have what they lacked.
-/

namespace YololChip.Grammar

/-! ### Tokens that are put at a place -/

/-- A token that is put where something is missing. Its place is of no account, for it stands
beside nothing. -/
def filler (lexeme : Lexeme) : Token := ⟨lexeme, 1, 1⟩

/-- Whether tokens can be put at a place: nothing goes on with them, and none ends the line.
What is read before them is then read as it was. -/
structure Filling (more : List Token) : Prop where
  breaks : (front more).lexeme.breaks = true
  inLine : ∀ m ∈ more, m.lexeme.endsLine = false

/-- Nothing goes on with tokens with which something goes on nowhere in front. -/
theorem breaks_append {more us : List Token} (first : (front more).lexeme.breaks = true)
    (later : (front us).lexeme.breaks = true) : (front (more ++ us)).lexeme.breaks = true := by
  cases more with
  | nil => exact later
  | cons m more => exact first

/-- One token can be put at a place if nothing goes on with it there, and it ends no line. -/
theorem Filling.one {lexeme : Lexeme} (breaks : lexeme.breaks = true)
    (inLine : lexeme.endsLine = false) : Filling [filler lexeme] :=
  ⟨breaks, List.forall_mem_singleton.mpr inLine⟩

theorem Filling.append {more others : List Token} (first : Filling more)
    (later : Filling others) : Filling (more ++ others) :=
  ⟨breaks_append first.breaks later.breaks, List.forall_mem_append.mpr ⟨first.inLine, later.inLine⟩⟩

/-- Whether tokens can be put behind others, which are no half of an operator. Behind a half of
one they might make up the whole. -/
structure Fills (before more : List Token) : Prop extends Filling more where
  noHalf : NoHalf before

/-- What is put behind tokens goes on no more than what was there. Parsers that read the earlier
parts read them again before it. -/
theorem Fills.resumes {before more us : List Token} (fills : Fills before more)
    (breaks : (front us).lexeme.breaks = true) (rest : List Token) :
    Resumes (before ++ rest) (before ++ (more ++ us)) :=
  .behindWhole fills.noHalf (.new (breaks_append fills.breaks breaks))

/-- Whether tokens that are put behind others make up an expression with them, in place of those
at which a parser gave up. What comes behind may be anything that breaks off an expression. If
there is nothing before, a number is put there, and what the parser gave up at is no name. -/
structure Mends (parser : Parser Expr) (before more rest : List Token) : Prop extends
    Fills before more where
  tokens : ExprTokens before ∨
    before = [] ∧ more = [filler (.number .zero)] ∧ (front rest).lexeme.nameOf? = none
  reads : ∀ ⦃us : List Token⦄, (front us).lexeme.breaks = true →
    ∃ e, parser (before ++ (more ++ us)) = .ok (e, us)

/-- Whether a parser gives up nowhere but where what is before can be made up to an expression,
unless something nests too deeply. Then no more tokens help. -/
def Mendable (parser : Parser Expr) : Prop :=
  ∀ ⦃ts : List Token⦄ ⦃stuck : Stuck⦄, parser ts = .error stuck → stuck.fault ≠ .tooDeep →
    ∃ before more, ts = before ++ stuck.rest ∧ Mends parser before more stuck.rest

/-- Whether the parsers one level down give up nowhere else. It is what the induction over the
depth hands on. -/
structure NestedMendable (nested : Nested) : Prop where
  expression : Mendable nested.expression
  power : Mendable nested.power
  signed : Mendable nested.signed

/-- Tokens that begin as an expression does are made up to one by what makes them be read. -/
theorem Mends.of_tokens {parser : Parser Expr} {before more rest : List Token}
    (tokens : ExprTokens before) (filling : Filling more)
    (reads : ∀ ⦃us : List Token⦄, (front us).lexeme.breaks = true →
      ∃ e, parser (before ++ (more ++ us)) = .ok (e, us)) : Mends parser before more rest :=
  ⟨⟨filling, tokens.noHalf⟩, .inl tokens, reads⟩

theorem Mends.noEquals {parser : Parser Expr} {before more rest : List Token}
    (mends : Mends parser before more rest) :
    ∀ t, before = [t] → t.lexeme ≠ .symbol .equals :=
  fun t single => (mends.noHalf t single).2

/-- Where everything nests too deeply nothing else is given up. -/
theorem mendable_tooDeep : Mendable (stop .tooDeep) := by
  intro ts stuck failed shallow
  obtain rfl := Except.error.inj failed
  exact absurd rfl shallow

section

variable {sheet : Sheet} {nested : Nested}

/-! ### Operands -/

/-- The place at which an operand is given up can be filled: by a number where none begins, and by
what the inside of a group lacks and the end of the group. -/
theorem mendable_operand (steady : NestedSteady nested) (mendable : NestedMendable nested) :
    Mendable (operand sheet nested) := by
  intro ts stuck failed shallow
  have closes : (filler (.symbol .rightParen)).lexeme = .symbol .rightParen := rfl
  unfold operand at failed
  simp only at failed
  split at failed
  · contradiction
  · contradiction
  · exact absurd failed (stepped_ne_error _ _)
  · exact absurd failed (stepped_ne_error _ _)
  · next found =>
    obtain ⟨opening, inside, rfl, opens⟩ := Takes.exists_of_front found rfl
    have first : ExprTokens [opening] := .of_first (by rw [opens]; rfl)
    split at failed
    · next stuckInside =>
      obtain rfl := Except.error.inj failed
      obtain ⟨before, more, shape, mends⟩ := mendable.expression stuckInside shallow
      refine ⟨[opening] ++ before, more ++ [filler (.symbol .rightParen)],
        congrArg (opening :: ·) shape,
        .of_tokens (first.append mends.noEquals) (mends.toFilling.append (.one rfl rfl)) ?_⟩
      intro us _
      obtain ⟨e, readInside⟩ := @mends.reads (filler (.symbol .rightParen) :: us) rfl
      refine ⟨.group (sheet.locate [opening]) e, ?_⟩
      rw [List.append_assoc, List.append_assoc]
      exact operand_of_group opens closes readInside
    · next body behind readBody =>
      obtain ⟨used, shape, tokens, rereads⟩ := steady.expression readBody
      split at failed
      · contradiction
      · obtain rfl := Except.error.inj failed
        refine ⟨[opening] ++ used, [filler (.symbol .rightParen)],
          congrArg (opening :: ·) shape,
          .of_tokens (first.append tokens.noEquals) (.one rfl rfl) ?_⟩
        intro us _
        have readInside := @rereads (filler (.symbol .rightParen) :: us) (.new rfl)
        exact ⟨_, operand_of_group opens closes readInside⟩
  · next noNumber noText noName noField noGroup =>
    obtain rfl := Except.error.inj failed
    have noName : (front ts).lexeme.nameOf? = none := by
      cases found : (front ts).lexeme with
      | name name => exact absurd found (noName name)
      | field name => exact absurd found (noField name)
      | _ => rfl
    refine ⟨[], [filler (.number .zero)], rfl, ?_⟩
    exact {
      toFilling := .one rfl rfl
      noHalf := noHalf_of_length (by simp)
      tokens := .inr ⟨rfl, rfl, noName⟩
      reads := fun us _ => ⟨_, rfl⟩ }

/-! ### Signs and powers -/

/-- The place at which an operand with words and signs before it is given up can be filled. -/
theorem mendable_signed (steady : NestedSteady nested) (mendable : NestedMendable nested) :
    Mendable (signed sheet nested) := by
  intro ts stuck failed shallow
  unfold signed at failed
  split at failed
  · obtain ⟨before, more, rfl, mends⟩ := mendable_operand steady mendable failed shallow
    refine ⟨before, more, rfl, { mends with reads := fun us breaks => ?_ }⟩
    obtain ⟨e, read⟩ := mends.reads breaks
    refine ⟨e, ?_⟩
    rw [signed, matchSign_of_operand read]
    exact read
  · next op width here =>
    obtain ⟨sign, between, rfl, rfl, inhabited, begins, again⟩ := again_matchSign here
    rw [List.drop_left] at failed
    split at failed
    · next stuckInside =>
      obtain rfl := Except.error.inj failed
      obtain ⟨before, more, rfl, mends⟩ := mendable.signed stuckInside shallow
      have whole : ExprTokens (sign ++ before) :=
        (ExprTokens.of_all inhabited begins).append mends.noEquals
      refine ⟨sign ++ before, more, by simp, .of_tokens whole mends.toFilling ?_⟩
      intro us breaks
      obtain ⟨e, readInside⟩ := mends.reads breaks
      have hereToo := again (before ++ (more ++ us)) (mends.resumes breaks _) fun named => by
        rcases mends.tokens with tokens | ⟨rfl, _, noName⟩
        · obtain ⟨t, others, rfl, _⟩ := tokens.starts
          rfl
        · exact absurd noName named
      refine ⟨.unary (sheet.locate (sign ++ (before ++ (more ++ us)))) op e, ?_⟩
      rw [List.append_assoc]
      exact signed_of_matchSign hereToo (by rw [List.drop_left]; exact readInside)
    · contradiction

/-- The fault of a right operand is one of the operand, at the same place. If the operand has
not begun, the fault is that it is missing. -/
theorem rightOperand_eq_error {operand : Parser Expr} {op : BinaryOperator} {left : Expr}
    {ts : List Token} {stuck : Stuck} (failed : rightOperand operand op left ts = .error stuck)
    (shallow : stuck.fault ≠ .tooDeep) :
    ∃ inner, operand ts = .error inner ∧ inner.rest = stuck.rest ∧ inner.fault ≠ .tooDeep := by
  unfold rightOperand at failed
  split at failed
  · contradiction
  · next inner here =>
    refine ⟨inner, here, ?_⟩
    split at failed
    · next lexeme isUnexpected =>
      have shallowInner : inner.fault ≠ .tooDeep := by
        rw [isUnexpected]
        exact ParseFault.noConfusion
      split at failed
      · obtain rfl := Except.error.inj failed
        exact ⟨rfl, shallowInner⟩
      · obtain rfl := Except.error.inj failed
        exact ⟨rfl, shallowInner⟩
    · obtain rfl := Except.error.inj failed
      exact ⟨rfl, shallow⟩

theorem factorials_of_breaks {us : List Token} (breaks : (front us).lexeme.breaks = true)
    (e : Expr) : factorials sheet e us = (e, us) := by
  rw [View.factorials_eq]
  refine if_neg fun isBang => ?_
  rw [isBang.1] at breaks
  contradiction

theorem mendable_power (steady : NestedSteady nested) (mendable : NestedMendable nested) :
    Mendable (power sheet nested) := by
  intro ts stuck failed shallow
  unfold power at failed
  split at failed
  · next stuckBase =>
    obtain rfl := Except.error.inj failed
    obtain ⟨before, more, rfl, mends⟩ := mendable_signed steady mendable stuckBase shallow
    refine ⟨before, more, rfl, { mends with reads := fun us breaks => ?_ }⟩
    obtain ⟨e, readBase⟩ := mends.reads breaks
    refine ⟨e, power_of_base readBase (factorials_of_breaks breaks e) fun isCaret => ?_⟩
    rw [isCaret] at breaks
    contradiction
  · next base behind readBase =>
    simp only at failed
    obtain ⟨used, rfl, tokens, again⟩ := rereads_base steady readBase rfl
    split at failed
    · next isCaret =>
      obtain ⟨caret, inside, shape, same⟩ := Takes.exists_of_front isCaret rfl
      rw [shape] at failed again ⊢
      split at failed
      · next stuckRight =>
        obtain rfl := Except.error.inj failed
        obtain ⟨inner, stuckInside, place, shallowInner⟩ := rightOperand_eq_error stuckRight shallow
        obtain ⟨before, more, split, mends⟩ := mendable.power stuckInside shallowInner
        rw [place] at split mends
        obtain rfl : inside = before ++ _ := split
        have noHalf : NoHalf [caret] := by
          rintro _ ⟨⟩
          simp [same]
        refine ⟨used ++ caret :: before, more, by simp,
          .of_tokens (tokens.append ?_) mends.toFilling ?_⟩
        · intro t single
          obtain ⟨rfl, _⟩ := List.cons.inj single
          simp [same]
        · intro us breaks
          obtain ⟨e, readRight⟩ := mends.reads breaks
          obtain ⟨between, readBaseToo, signs⟩ := again (caret :: (before ++ (more ++ us)))
            ((mends.resumes breaks _).behindWhole noHalf)
          refine ⟨.binary (sheet.locate [caret]) .pow (factorials sheet base behind).1 e, ?_⟩
          rw [List.append_assoc]
          exact power_of_exponent readBaseToo signs same readRight
      · contradiction
    · contradiction

/-! ### Chains -/

variable {operand : Parser Expr} {found : Matcher}

/-- The place at which a chain is given up can be filled, whatever tokens there are to go by.

Proof: induction over the operators that may follow. The last of them is before the place and what
its operand lacks behind; the operands before it are read again. -/
theorem mends_chain (steady : Steady operand) (mendable : Mendable operand) (peeks : Peeks found)
    {most ts : List Token} {left : Expr} {stuck : Stuck}
    (failed : chain sheet operand found most left ts = .error stuck)
    (shallow : stuck.fault ≠ .tooDeep) :
    ∃ before more, ts = before ++ stuck.rest ∧ before ≠ [] ∧ Fills before more ∧
      ∀ ⦃us most' : List Token⦄, (front us).lexeme.breaks = true →
        (before ++ (more ++ us)).length ≤ most'.length →
        ∃ e, chain sheet operand found most' left (before ++ (more ++ us)) = .ok (e, us) := by
  induction most generalizing left ts with
  | nil => contradiction
  | cons _ most inductionHypothesis =>
    obtain ⟨op, width, here, givenUp⟩ := chain_cons_eq_error.mp failed
    obtain ⟨sign, between, rfl, rfl, inhabited, whole, again⟩ := peeks.again here
    rw [List.drop_left] at givenUp
    rcases givenUp with stuckRight | ⟨right, behind, readRight, failedLater⟩
    · obtain ⟨inner, stuckInside, place, shallowInner⟩ := rightOperand_eq_error stuckRight shallow
      obtain ⟨before, more, split, mends⟩ := mendable stuckInside shallowInner
      rw [place] at split mends
      subst split
      refine ⟨sign ++ before, more, by simp, by simp [inhabited],
        ⟨mends.toFilling, whole.append inhabited before⟩, ?_⟩
      intro us most' breaks enough
      obtain ⟨e, readRight⟩ := mends.reads breaks
      have hereToo := again _ (mends.resumes breaks _)
      rw [List.append_assoc] at enough ⊢
      obtain ⟨someMost, _⟩ := enough_tail inhabited enough
      rw [chain_of_some hereToo (by rwa [List.drop_left]) someMost]
      exact ⟨_, chain_of_none (peeks.stops (.new breaks) peeks.nothing) _ _⟩
    · obtain ⟨used, rfl, tokens, rereads⟩ := steady readRight
      obtain ⟨before, more, rfl, some, fills, later⟩ := inductionHypothesis failedLater
      have someBefore : sign ++ used ≠ [] := List.append_ne_nil_of_left_ne_nil inhabited _
      have notOne : (sign ++ used ++ before).length ≠ 1 := by
        have someSign := List.length_pos_iff.mpr inhabited
        have someRight := List.length_pos_iff.mpr tokens.starts.ne_nil
        simp only [List.length_append]
        omega
      refine ⟨sign ++ used ++ before, more, by simp, by simp [inhabited],
        ⟨fills.toFilling, noHalf_of_length notOne⟩, ?_⟩
      intro us most' breaks enough
      rw [List.append_assoc] at enough ⊢
      obtain ⟨someMost, enoughLater⟩ := enough_tail someBefore enough
      rw [List.append_assoc, chain_again inhabited again tokens rereads
        (fills.resumes breaks _) someMost, ← locate_append sheet inhabited _]
      exact later breaks enoughLater

/-- The place at which the operands of a level with the operators between them are given up can be
filled. -/
theorem mendable_level (steady : Steady operand) (mendable : Mendable operand)
    (peeks : Peeks found) : Mendable (level sheet operand found) := by
  intro ts stuck failed shallow
  rcases level_eq_error.mp failed with stuckLeft | ⟨left, behind, readLeft, failedLater⟩
  · obtain ⟨before, more, rfl, mends⟩ := mendable stuckLeft shallow
    refine ⟨before, more, rfl, { mends with reads := fun us breaks => ?_ }⟩
    obtain ⟨e, readLeft⟩ := mends.reads breaks
    have noSign : found us = none := peeks.stops (.new breaks) peeks.nothing
    exact ⟨e, level_eq_ok.mpr ⟨e, us, readLeft, chain_of_none noSign us e⟩⟩
  · obtain ⟨used, rfl, tokens, rereads⟩ := steady readLeft
    obtain ⟨before, more, rfl, some, fills, later⟩ :=
      mends_chain steady mendable peeks failedLater shallow
    have noEquals := fun t single => (fills.noHalf t single).2
    refine ⟨used ++ before, more, by simp,
      .of_tokens (tokens.append noEquals) fills.toFilling fun us breaks => ?_⟩
    obtain ⟨e, readChain⟩ := later breaks (Nat.le_refl (before ++ (more ++ us)).length)
    rw [List.append_assoc]
    exact ⟨e, level_eq_ok.mpr ⟨left, _, rereads (fills.resumes breaks _), readChain⟩⟩

/-! ### Expressions -/

/-- What is known of a parser of expressions: it reads again what it reads, and the place at which
it gives up can be filled. -/
structure Completes (parser : Parser Expr) : Prop where
  steady : Steady parser
  mendable : Mendable parser

/-- So it is with the operators of a level between operands of which this is known. -/
theorem Completes.level (completes : Completes operand) (peeks : Peeks found) :
    Completes (Grammar.level sheet operand found) :=
  ⟨steady_level completes.steady peeks, mendable_level completes.steady completes.mendable peeks⟩

/-- The place at which an expression of any level is given up can be filled. -/
theorem completes_expressionOver (steady : NestedSteady nested)
    (mendable : NestedMendable nested) : Completes (expressionOver sheet nested) := by
  have powers : Completes (power sheet nested) :=
    ⟨steady_power steady, mendable_power steady mendable⟩
  have product : Completes (level sheet _ matchProduct) := powers.level peeks_matchProduct
  have sum : Completes (level sheet _ matchSum) := product.level peeks_matchSum
  have comparison : Completes (level sheet _ matchComparison) := sum.level peeks_matchComparison
  have equality : Completes (level sheet _ matchEquality) := comparison.level peeks_matchEquality
  exact (equality.level peeks_matchAnd).level peeks_matchOr

/-- The place at which what nests is given up can be filled at every depth.

Proof: induction over the depth. At depth zero everything nests too deeply. -/
theorem nestedMendable (sheet : Sheet) (depth : Nat) :
    NestedMendable (Grammar.nested sheet depth) := by
  induction depth with
  | zero => exact ⟨mendable_tooDeep, mendable_tooDeep, mendable_tooDeep⟩
  | succ depth inner =>
    have steady := nestedSteady sheet depth
    exact ⟨(completes_expressionOver steady inner).mendable, mendable_power steady inner,
      mendable_signed steady inner⟩

/-- The place at which an expression is given up can be filled. A number is enough for an
operand that is missing, and a parenthesis for each open group. -/
theorem completes_expression (sheet : Sheet) : Completes (expression sheet) :=
  ⟨(nestedSteady sheet nestingLimit).expression, (nestedMendable sheet nestingLimit).expression⟩

end

end YololChip.Grammar
