import YololChip.Proofs.Resumption

/-!
# What is read again before other tokens

What a parser of expressions takes off the front of tokens it takes again if other tokens are behind
that go on no more than the old ones.

Each parser has one lemma, which assumes the same of the parsers inside. Behind the tokens of a
first part are those of a second: if the second is read again before other tokens, so is the first
before the second.
-/

namespace YololChip.Grammar

/-! ### Chains -/

/-- Whether a parser reads something of tokens, whatever tokens are behind them that go on no
more than some do. The tree and its locations are the same each time. -/
def Rereads {α : Type} (parser : Parser α) (used : List Token) (read : α) (rest : List Token) :
    Prop :=
  ∀ ⦃us : List Token⦄, Resumes rest us → parser (used ++ us) = .ok (read, us)

/-- Whether the first of tokens, of which there is one at least, is among those with which something
begins. -/
def Starts (begins : Lexeme → Bool) (used : List Token) : Prop :=
  ∃ t more, used = t :: more ∧ begins t.lexeme = true

theorem Starts.append {begins : Lexeme → Bool} {used : List Token} (starts : Starts begins used)
    (more : List Token) : Starts begins (used ++ more) := by
  obtain ⟨t, others, rfl, first⟩ := starts
  exact ⟨t, others ++ more, rfl, first⟩

theorem Starts.ne_nil {begins : Lexeme → Bool} {used : List Token} (starts : Starts begins used) :
    used ≠ [] := by
  obtain ⟨t, more, rfl, _⟩ := starts
  exact List.cons_ne_nil t more

/-- Tokens that begin as a statement does are no half of an operator. Neither half of an
operator begins a statement. -/
theorem noHalf_of_head {used : List Token}
    (begins : ∀ t ∈ used.head?, t.lexeme.beginsStmt = true) : NoHalf used := by
  rintro t rfl
  have first := begins t rfl
  constructor
  · intro isBang
    rw [isBang] at first
    contradiction
  · intro isEquals
    rw [isEquals] at first
    contradiction

theorem Starts.noHalf {used : List Token} (starts : Starts Lexeme.beginsStmt used) :
    NoHalf used := by
  obtain ⟨t, more, rfl, first⟩ := starts
  exact noHalf_of_head fun u isFirst => Option.some.inj isFirst ▸ first

/-- What begins as an expression does begins as a statement does. -/
theorem Starts.stmt {used : List Token} (starts : Starts Lexeme.beginsExpr used) :
    Starts Lexeme.beginsStmt used := by
  obtain ⟨t, more, rfl, first⟩ := starts
  exact ⟨t, more, rfl, Lexeme.beginsStmt_of_beginsExpr first⟩

/-- Whether tokens begin as an expression does, and are no variable with the sign of an
assignment behind it. The second is what keeps a statement from being taken for an assignment. -/
structure ExprTokens (used : List Token) : Prop where
  starts : Starts Lexeme.beginsExpr used
  second : ∀ a b, used = [a, b] → b.lexeme ≠ .symbol .equals

namespace ExprTokens

theorem ne_equals {t : Token} (begins : t.lexeme.beginsExpr = true) :
    t.lexeme ≠ .symbol .equals := by
  intro isEquals
  rw [isEquals] at begins
  contradiction

/-- Tokens begin as an expression does if each of them can begin one. -/
theorem of_all {used : List Token} (inhabited : used ≠ [])
    (begins : ∀ t ∈ used, t.lexeme.beginsExpr = true) : ExprTokens used where
  starts := by
    obtain ⟨t, more, rfl⟩ := List.exists_cons_of_ne_nil inhabited
    exact ⟨t, more, rfl, begins t List.mem_cons_self⟩
  second := by
    rintro a b rfl
    exact ne_equals (begins b (by simp))

/-- One token begins as an expression does if it can begin one. -/
theorem of_first {t : Token} (begins : t.lexeme.beginsExpr = true) : ExprTokens [t] :=
  of_all (List.cons_ne_nil _ _) (List.forall_mem_singleton.mpr begins)

/-- With more tokens behind them they begin as an expression does, if these are not just an equals
sign. -/
theorem append {used more : List Token} (tokens : ExprTokens used)
    (noEquals : ∀ t, more = [t] → t.lexeme ≠ .symbol .equals) : ExprTokens (used ++ more) where
  starts := tokens.starts.append more
  second := by
    intro a b both
    obtain ⟨t, others, rfl, _⟩ := tokens.starts
    obtain ⟨rfl, later⟩ := List.cons.inj both
    cases others with
    | nil => exact noEquals b later
    | cons u others =>
      obtain ⟨rfl, none⟩ := List.cons.inj later
      obtain ⟨rfl, _⟩ := List.append_eq_nil_iff.mp none
      exact tokens.second t u rfl

theorem noEquals {used : List Token} (tokens : ExprTokens used) :
    ∀ t, used = [t] → t.lexeme ≠ .symbol .equals := by
  rintro t rfl
  obtain ⟨u, more, single, begins⟩ := tokens.starts
  obtain ⟨rfl, _⟩ := List.cons.inj single
  exact ne_equals begins

theorem noHalf {used : List Token} (tokens : ExprTokens used) : NoHalf used :=
  tokens.starts.stmt.noHalf

end ExprTokens

/-- Whether a parser of expressions reads again what it reads, before all tokens that go on no
more. What it takes begins as an expression does, so it takes something. -/
def Steady (parser : Parser Expr) : Prop :=
  ∀ ⦃ts rest : List Token⦄ ⦃e : Expr⦄, parser ts = .ok (e, rest) →
    ∃ used, ts = used ++ rest ∧ ExprTokens used ∧ Rereads parser used e rest

/-- As many tokens to go by as there are, but for one, are enough for those behind some of them. -/
theorem enough_tail {used us most : List Token} (some : used ≠ [])
    (enough : (used ++ us).length ≤ most.length) : most ≠ [] ∧ us.length ≤ most.tail.length := by
  have positive := List.length_pos_iff.mpr some
  rw [List.length_append] at enough
  constructor
  · exact List.length_pos_iff.mp (by omega)
  · rw [List.length_tail]
    omega

section Chains

variable {sheet : Sheet} {operand : Parser Expr} {found : Matcher}

/-- A chain ends where no operator is found, however many there might be. -/
theorem chain_of_none {ts : List Token} (none : found ts = none) (most : List Token) (left : Expr) :
    chain sheet operand found most left ts = .ok (left, ts) := by
  cases most with
  | nil => rfl
  | cons => rw [chain, none]

/-- A chain goes on behind an operator and its right operand. It has then one operator less to
go. -/
theorem chain_of_some {ts behind : List Token} {op : BinaryOperator} {width : Nat} {right : Expr}
    (here : found ts = some (op, width)) (readRight : operand (ts.drop width) = .ok (right, behind))
    {most : List Token} (some : most ≠ []) (left : Expr) :
    chain sheet operand found most left ts =
      chain sheet operand found most.tail (.binary (sheet.locate ts) op left right) behind := by
  cases most with
  | nil => exact absurd rfl some
  | cons m most =>
    rw [chain, here]
    simp only [rightOperand_eq_ok.mpr readRight, List.tail_cons]

/-- A chain goes on in the same way before other tokens, if the operator and its operand are found
again. -/
theorem chain_again {sign usedRight behind us : List Token} {op : BinaryOperator} {right : Expr}
    (inhabited : sign ≠ [])
    (again : ∀ us, Resumes (usedRight ++ behind) us → found (sign ++ us) = some (op, sign.length))
    (tokens : ExprTokens usedRight) (rereads : Rereads operand usedRight right behind)
    (resumes : Resumes behind us) {most : List Token} (some : most ≠ []) (left : Expr) :
    chain sheet operand found most left (sign ++ (usedRight ++ us)) =
      chain sheet operand found most.tail (.binary (sheet.locate sign) op left right) us := by
  have here := again _ (resumes.behindWhole tokens.noHalf)
  have readRight := rereads resumes
  rw [chain_of_some here (by rwa [List.drop_left]) some, locate_append sheet inhabited]

/-- A chain is read again, with as many tokens to go by as there are.

Proof: induction over the operators that may follow. Each right operand is read again before what
was behind it, since that begins with an operator and another operand or is what the chain left. -/
theorem rereads_chain (steady : Steady operand) (peeks : Peeks found) {most ts rest : List Token}
    {left e : Expr} (enough : ts.length ≤ most.length)
    (read : chain sheet operand found most left ts = .ok (e, rest)) :
    ∃ used, ts = used ++ rest ∧ used.length ≠ 1 ∧
      ∀ ⦃us most' : List Token⦄, Resumes rest us → (used ++ us).length ≤ most'.length →
        chain sheet operand found most' left (used ++ us) = .ok (e, us) := by
  induction most generalizing left ts with
  | nil =>
    obtain rfl := List.eq_nil_of_length_eq_zero (Nat.le_zero.mp enough)
    obtain ⟨rfl, rfl⟩ := Prod.mk.inj (Except.ok.inj read)
    exact ⟨[], rfl, by simp, fun us most' resumes _ =>
      chain_of_none (peeks.stops resumes peeks.nothing) most' left⟩
  | cons _ most inductionHypothesis =>
    rcases chain_cons_eq_ok.mp read with
      ⟨none, rfl, rfl⟩ | ⟨op, width, right, behind, here, readRight, readLater⟩
    · exact ⟨[], rfl, by simp, fun us most' resumes _ =>
        chain_of_none (peeks.stops resumes none) most' e⟩
    · obtain ⟨sign, between, rfl, rfl, inhabited, _, again⟩ := peeks.again here
      rw [List.drop_left] at readRight
      obtain ⟨usedRight, rfl, tokens, rereads⟩ := steady readRight
      have some : sign ++ usedRight ≠ [] := List.append_ne_nil_of_left_ne_nil inhabited _
      rw [← List.append_assoc] at enough
      obtain ⟨usedLater, rfl, notOne, later⟩ :=
        inductionHypothesis (enough_tail some enough).2 readLater
      refine ⟨sign ++ usedRight ++ usedLater, by simp, ?_, ?_⟩
      · have someSign := List.length_pos_iff.mpr inhabited
        have someRight := List.length_pos_iff.mpr tokens.starts.ne_nil
        simp only [List.length_append]
        omega
      · intro us most' resumes enough'
        have resumesLater : Resumes (usedLater ++ rest) (usedLater ++ us) :=
          resumes.behindWhole (noHalf_of_length notOne)
        rw [List.append_assoc] at enough' ⊢
        obtain ⟨someMost, enoughLater⟩ := enough_tail some enough'
        rw [List.append_assoc, chain_again inhabited again tokens rereads resumesLater someMost,
          ← locate_append sheet inhabited _]
        exact later resumes enoughLater

/-- Operands with the operators of a level between them are read again. -/
theorem steady_level (steady : Steady operand) (peeks : Peeks found) :
    Steady (level sheet operand found) := by
  intro ts rest e read
  obtain ⟨left, behind, readLeft, readChain⟩ := level_eq_ok.mp read
  obtain ⟨used, rfl, tokens, rereads⟩ := steady readLeft
  obtain ⟨usedLater, rfl, notOne, later⟩ := rereads_chain steady peeks (Nat.le_refl _) readChain
  have noEquals : ∀ t, usedLater = [t] → t.lexeme ≠ .symbol .equals :=
    fun t single => absurd (congrArg List.length single) notOne
  refine ⟨used ++ usedLater, by simp, tokens.append noEquals, fun us resumes => ?_⟩
  have resumesLater : Resumes (usedLater ++ rest) (usedLater ++ us) :=
    resumes.behindWhole (noHalf_of_length notOne)
  rw [List.append_assoc]
  exact level_eq_ok.mpr ⟨_, _, rereads resumesLater, later resumes (Nat.le_refl _)⟩

end Chains

/-! ### Operands -/

/-- Whether the parsers one level down read again what they read. -/
structure NestedSteady (nested : Nested) : Prop where
  expression : Steady nested.expression
  power : Steady nested.power
  signed : Steady nested.signed

section Operands

variable {sheet : Sheet} {nested : Nested}

theorem beginsExpr_of_nameOf? {lexeme : Lexeme} {name : String}
    (found : lexeme.nameOf? = some name) : lexeme.beginsExpr = true := by
  cases lexeme with
  | name | field => rfl
  | _ => contradiction

/-- A variable with or without the step behind it is read again. Whether a step follows is seen
at the tokens behind the name. -/
theorem rereads_stepped {name : String} {t : Token} {more rest : List Token} {e : Expr}
    (read : stepped sheet name (t :: more) = .ok (e, rest)) :
    ∃ others, more = others ++ rest ∧ others.length ≠ 1 ∧
      Rereads (stepped sheet name) (t :: others) e rest := by
  have stepAgain {sign : Symbol} (pair : isPair sign sign more = true) :
      ∃ a b behind, more = a :: b :: behind ∧ ∀ us, isPair sign sign (a :: b :: us) = true := by
    match more with
    | [] | [_] => contradiction
    | a :: b :: behind => exact ⟨a, b, behind, rfl, fun us => pair⟩
  unfold stepped at read
  simp only [List.drop_succ_cons, List.drop_zero] at read
  split at read
  · next pair =>
    obtain ⟨rfl, rfl⟩ := Prod.mk.inj (Except.ok.inj read)
    obtain ⟨a, b, behind, rfl, again⟩ := stepAgain pair
    exact ⟨[a, b], rfl, by simp, fun us _ => if_pos (again us)⟩
  · next noPlus =>
    split at read
    · next pair =>
      obtain ⟨rfl, rfl⟩ := Prod.mk.inj (Except.ok.inj read)
      obtain ⟨a, b, behind, rfl, again⟩ := stepAgain pair
      exact ⟨[a, b], rfl, by simp, fun us _ => (if_neg noPlus).trans (if_pos (again us))⟩
    · next noMinus =>
      obtain ⟨rfl, rfl⟩ := Prod.mk.inj (Except.ok.inj read)
      refine ⟨[], rfl, by simp, fun us resumes => ?_⟩
      have noPlusToo := resumes.isPair_eq rfl rfl (Bool.eq_false_iff.mpr noPlus)
      have noMinusToo := resumes.isPair_eq rfl rfl (Bool.eq_false_iff.mpr noMinus)
      exact (if_neg (Bool.eq_false_iff.mp noPlusToo)).trans
        (if_neg (Bool.eq_false_iff.mp noMinusToo))

theorem operand_of_nameOf? {t : Token} {name : String} (found : t.lexeme.nameOf? = some name)
    (us : List Token) : operand sheet nested (t :: us) = stepped sheet name (t :: us) := by
  unfold operand
  rw [show (front (t :: us)).lexeme = t.lexeme from rfl]
  cases same : t.lexeme with
  | name other | field other =>
    rw [same] at found
    obtain rfl := Option.some.inj found
    rfl
  | _ =>
    rw [same] at found
    contradiction

/-- At an open parenthesis a group is read, if an expression is read behind it that is closed. -/
theorem operand_of_group {opening closing : Token} {us behind : List Token} {body : Expr}
    (opens : opening.lexeme = .symbol .leftParen) (closes : closing.lexeme = .symbol .rightParen)
    (read : nested.expression us = .ok (body, closing :: behind)) :
    operand sheet nested (opening :: us) =
      .ok (.group (sheet.locate [opening]) body, behind) := by
  unfold operand
  rw [show (front (opening :: us)).lexeme = _ from opens]
  simp only [List.drop_succ_cons, List.drop_zero, read]
  exact if_pos closes

theorem steady_operand (inner : NestedSteady nested) : Steady (operand sheet nested) := by
  intro ts rest e read
  cases OperandAt.of_operand read with
  | number found =>
    obtain ⟨t, more, rfl, same⟩ := Takes.exists_of_front found rfl
    refine ⟨[t], rfl, .of_first (by rw [same]; rfl), fun us _ => ?_⟩
    simp [operand, front, same, Sheet.locate]
  | text found =>
    obtain ⟨t, more, rfl, same⟩ := Takes.exists_of_front found rfl
    refine ⟨[t], rfl, .of_first (by rw [same]; rfl), fun us _ => ?_⟩
    simp [operand, front, same, Sheet.locate]
  | named found readName =>
    obtain ⟨t, more, rfl, _⟩ := Takes.exists_of_front rfl (plain_of_nameOf? found).1
    obtain ⟨others, rfl, notOne, rereads⟩ := rereads_stepped readName
    have first : ExprTokens [t] := .of_first (beginsExpr_of_nameOf? found)
    refine ⟨[t] ++ others, rfl, first.append fun u single => ?_, fun us resumes => ?_⟩
    · exact absurd (congrArg List.length single) notOne
    · rw [List.append_assoc, List.singleton_append, operand_of_nameOf? (t := t) found]
      exact rereads resumes
  | group opened readBody closed =>
    obtain ⟨opening, more, rfl, opens⟩ := Takes.exists_of_front opened rfl
    obtain ⟨used, shape, tokens, rereads⟩ := inner.expression readBody
    obtain ⟨closing, others, rfl, closes⟩ := Takes.exists_of_front closed rfl
    have first : ExprTokens [opening] := .of_first (by rw [opens]; rfl)
    refine ⟨[opening] ++ (used ++ [closing]), ?_, first.append fun t single => ?_, ?_⟩
    · rw [List.append_assoc, List.append_assoc]
      exact congrArg (opening :: ·) shape
    · have short := congrArg List.length single
      have some := List.length_pos_iff.mpr tokens.starts.ne_nil
      simp only [List.length_append, List.length_singleton] at short
      omega
    · intro us _
      have readToo := rereads (.new (breaks_cons closes rfl us))
      rw [List.append_assoc, List.append_assoc]
      exact operand_of_group opens closes readToo

/-! ### Signs and powers -/

theorem matchSign_of_operand {ts rest : List Token} {e : Expr}
    (read : operand sheet nested ts = .ok (e, rest)) : matchSign ts = none := by
  unfold operand at read
  unfold matchSign
  cases same : (front ts).lexeme with
  | keyword k =>
    rw [same] at read
    contradiction
  | symbol s =>
    rw [same] at read
    cases s with
    | plus | minus => contradiction
    | _ => rfl
  | _ => rfl

theorem signed_of_matchSign {ts behind : List Token} {op : UnaryOperator} {width : Nat} {e : Expr}
    (here : matchSign ts = some (op, width))
    (read : nested.signed (ts.drop width) = .ok (e, behind)) :
    signed sheet nested ts = .ok (.unary (sheet.locate ts) op e, behind) :=
  signed_eq_ok.mpr (.inr ⟨op, width, e, here, read, rfl⟩)

/-- Operands with words and signs before them are read again. A sign is taken for a step only
before a variable, which stays. -/
theorem steady_signed (inner : NestedSteady nested) : Steady (signed sheet nested) := by
  intro ts rest e read
  rcases signed_eq_ok.mp read with ⟨_, readOperand⟩ | ⟨op, width, body, here, readBody, rfl⟩
  · obtain ⟨used, rfl, tokens, rereads⟩ := steady_operand inner readOperand
    refine ⟨used, rfl, tokens, fun us resumes => ?_⟩
    exact signed_eq_ok.mpr (.inl ⟨matchSign_of_operand (rereads resumes), rereads resumes⟩)
  · obtain ⟨sign, between, rfl, rfl, inhabited, begins, again⟩ := again_matchSign here
    rw [List.drop_left] at readBody
    obtain ⟨used, rfl, tokens, rereads⟩ := inner.signed readBody
    have whole : ExprTokens (sign ++ used) :=
      (ExprTokens.of_all inhabited begins).append tokens.noEquals
    refine ⟨sign ++ used, by simp, whole, fun us resumes => ?_⟩
    have sameFirst : (used ++ us).head? = (used ++ rest).head? := by
      obtain ⟨t, more, rfl, _⟩ := tokens.starts
      rfl
    have hereToo := again (used ++ us) (resumes.behindWhole tokens.noHalf) fun _ => sameFirst
    rw [List.append_assoc, signed_of_matchSign hereToo (by
      rw [List.drop_left]
      exact rereads resumes), locate_append sheet inhabited, locate_append sheet inhabited]

/-- Behind factorial signs other tokens go on no more than by themselves, if the last sign is beside
no equals sign. -/
theorem Resumes.behindBangs {used ts us : List Token} (resumes : Resumes ts us)
    (bangs : ∀ t ∈ used, t.lexeme = .symbol .bang)
    (alone : ∀ t, used = [t] → isPair .bang .equals (t :: ts) = false) :
    Resumes (used ++ ts) (used ++ us) := by
  refine resumes.behind fun t single => ⟨alone t single, isPair_of_ne ?_ _ _⟩
  rw [bangs t (by simp [single])]
  simp

/-- The factorial signs behind an operand are read again.

Proof: induction over the tokens. A sign is beside an equals sign only if it was before. -/
theorem rereads_factorials {e left : Expr} {ts rest : List Token}
    (read : factorials sheet e ts = (left, rest)) :
    ∃ used, ts = used ++ rest ∧ (∀ t ∈ used, t.lexeme = .symbol .bang) ∧
      (∀ t, used = [t] → isPair .bang .equals (t :: rest) = false) ∧
      ∀ us, Resumes rest us → factorials sheet e (used ++ us) = (left, us) := by
  induction ts generalizing e with
  | nil =>
    obtain ⟨rfl, rfl⟩ := Prod.mk.inj read
    refine ⟨[], rfl, List.forall_mem_nil _, ?_, fun us resumes => ?_⟩
    · exact fun t single => absurd single.symm (List.cons_ne_nil _ _)
    · rw [List.nil_append, View.factorials_eq]
      exact if_neg (resumes.noBang fun isBang => by simp [front] at isBang)
  | cons t more inductionHypothesis =>
    rw [View.factorials_eq] at read
    by_cases isBang : (front (t :: more)).lexeme = .symbol .bang ∧
        isPair .bang .equals (t :: more) = false
    · rw [if_pos isBang] at read
      obtain ⟨used, rfl, bangs, alone, again⟩ := inductionHypothesis read
      refine ⟨t :: used, rfl, List.forall_mem_cons.mpr ⟨isBang.1, bangs⟩, ?_, fun us resumes => ?_⟩
      · rintro u single
        obtain ⟨rfl, rfl⟩ := List.cons.inj single
        exact isBang.2
      · have noPair : isPair .bang .equals (t :: (used ++ us)) = false :=
          (resumes.behindBangs bangs alone).isPair_cons t rfl isBang.2
        rw [List.cons_append, View.factorials_eq, if_pos ⟨isBang.1, noPair⟩]
        exact again us resumes
    · rw [if_neg isBang] at read
      obtain ⟨rfl, rfl⟩ := Prod.mk.inj read
      refine ⟨[], rfl, List.forall_mem_nil _, ?_, fun us resumes => ?_⟩
      · exact fun t single => absurd single.symm (List.cons_ne_nil _ _)
      · rw [List.nil_append, View.factorials_eq]
        exact if_neg (resumes.noBang isBang)

/-- Without a caret behind its factorial signs a base is all of a power. So the base is read as
it would be on its own. -/
theorem power_of_base {ts behind rest : List Token} {base left : Expr}
    (readBase : signed sheet nested ts = .ok (base, behind))
    (signs : factorials sheet base behind = (left, rest))
    (noCaret : (front rest).lexeme ≠ .symbol .caret) :
    power sheet nested ts = .ok (left, rest) :=
  power_eq_ok.mpr ⟨base, behind, left, rest, readBase, signs, .inl ⟨noCaret, rfl, rfl⟩⟩

theorem power_of_exponent {ts behind after : List Token} {caret : Token} {base left right : Expr}
    {us : List Token} (readBase : signed sheet nested ts = .ok (base, behind))
    (signs : factorials sheet base behind = (left, caret :: us))
    (isCaret : caret.lexeme = .symbol .caret) (readRight : nested.power us = .ok (right, after)) :
    power sheet nested ts = .ok (.binary (sheet.locate [caret]) .pow left right, after) :=
  power_eq_ok.mpr ⟨base, behind, left, caret :: us, readBase, signs,
    .inr ⟨right, isCaret, readRight, rfl⟩⟩

/-- A base with its factorials is read again before a caret, and without one. -/
theorem rereads_base {ts behind rest : List Token} {base left : Expr} (inner : NestedSteady nested)
    (readBase : signed sheet nested ts = .ok (base, behind))
    (signs : factorials sheet base behind = (left, rest)) :
    ∃ used, ts = used ++ rest ∧ ExprTokens used ∧
      ∀ us, Resumes rest us → ∃ between, signed sheet nested (used ++ us) = .ok (base, between) ∧
        factorials sheet base between = (left, us) := by
  obtain ⟨used, rfl, tokens, rereads⟩ := steady_signed inner readBase
  obtain ⟨behindBase, rfl, bangs, alone, again⟩ := rereads_factorials signs
  refine ⟨used ++ behindBase, by simp, tokens.append fun t single => ?_, fun us resumes => ?_⟩
  · rw [bangs t (by simp [single])]
    simp
  · refine ⟨behindBase ++ us, ?_, again us resumes⟩
    rw [List.append_assoc]
    exact rereads (resumes.behindBangs bangs alone)

theorem steady_power (inner : NestedSteady nested) : Steady (power sheet nested) := by
  intro ts rest e read
  obtain ⟨base, behind, left, between, readBase, signs, ends⟩ := power_eq_ok.mp read
  obtain ⟨used, rfl, tokens, again⟩ := rereads_base inner readBase signs
  rcases ends with ⟨noCaret, rfl, rfl⟩ | ⟨right, isCaret, readRight, rfl⟩
  · refine ⟨used, rfl, tokens, fun us resumes => ?_⟩
    obtain ⟨between, readBaseToo, signsToo⟩ := again us resumes
    exact power_of_base readBaseToo signsToo fun isCaret =>
      noCaret (resumes.front_eq rfl isCaret)
  · obtain ⟨caret, more, rfl, same⟩ := Takes.exists_of_front isCaret rfl
    obtain ⟨usedRight, split, tokensRight, rereadsRight⟩ := inner.power readRight
    obtain ⟨u, others, rfl, _⟩ := tokensRight.starts
    obtain rfl : more = u :: others ++ rest := split
    refine ⟨used ++ caret :: u :: others, by simp, tokens.append ?_, fun us resumes => ?_⟩
    · intro t single
      exact absurd (List.cons.inj single).2 (List.cons_ne_nil _ _)
    · obtain ⟨between, readBaseToo, signsToo⟩ := again (caret :: (u :: others ++ us)) .two
      rw [List.append_assoc]
      exact power_of_exponent readBaseToo signsToo same (rereadsRight resumes)

theorem steady_expressionOver (inner : NestedSteady nested) :
    Steady (expressionOver sheet nested) := by
  have product : Steady (level sheet (power sheet nested) matchProduct) :=
    steady_level (steady_power inner) peeks_matchProduct
  have sum : Steady (level sheet _ matchSum) := steady_level product peeks_matchSum
  have comparison : Steady (level sheet _ matchComparison) :=
    steady_level sum peeks_matchComparison
  have equality : Steady (level sheet _ matchEquality) :=
    steady_level comparison peeks_matchEquality
  exact steady_level (steady_level equality peeks_matchAnd) peeks_matchOr

/-- What nests is read again at every depth.

Proof: induction over the depth. At depth zero nothing is read. -/
theorem nestedSteady (sheet : Sheet) (depth : Nat) : NestedSteady (Grammar.nested sheet depth) := by
  induction depth with
  | zero =>
    have nothing : Steady (stop .tooDeep) := by
      intro ts rest e read
      contradiction
    exact ⟨nothing, nothing, nothing⟩
  | succ depth inner =>
    exact ⟨steady_expressionOver inner, steady_power inner, steady_signed inner⟩

theorem steady_expression (sheet : Sheet) : Steady (expression sheet) :=
  (nestedSteady sheet nestingLimit).expression

end Operands

end YololChip.Grammar
