import YololChip.Proofs.Rereading
import YololChip.Proofs.Soundness

/-!
# What parsers pass

Whatever tokens there are, a parser passes some of them and leaves the others, and none of those
that it passes ends the line. An expression and a statement pass one token at least, so what nests
in them has fewer tokens to go by.

That bounds how deep parsers nest: there is a token for every level. If they may nest deeper,
nothing changes but what was given up because it nested too deeply, and that had as many tokens as
the depth at least.

Each parser has one lemma, which says this of the parser for all tokens and assumes it of the
parsers inside. Depth ties the knot.
-/

namespace YololChip.Grammar

/-! ### Tokens that are passed -/

/-- Whether tokens are left of others behind so many at least, none of which ends the line. With
none at least it still says that the parser went no way back. -/
def Passes (least : Nat) (ts rest : List Token) : Prop :=
  ∃ used, ts = used ++ rest ∧ least ≤ used.length ∧ ∀ t ∈ used, t.lexeme.endsLine = false

namespace Passes

variable {least more : Nat} {ts between rest : List Token}

theorem nothing (ts : List Token) : Passes 0 ts ts :=
  ⟨[], rfl, Nat.le_refl _, List.forall_mem_nil _⟩

/-- To pass tokens and then more of them is to pass both in a row. -/
theorem trans (first : Passes least ts between) (later : Passes more between rest) :
    Passes (least + more) ts rest := by
  obtain ⟨before, rfl, enoughBefore, inLineBefore⟩ := first
  obtain ⟨after, rfl, enoughAfter, inLineAfter⟩ := later
  refine ⟨before ++ after, (List.append_assoc _ _ _).symm, ?_, ?_⟩
  · rw [List.length_append]
    exact Nat.add_le_add enoughBefore enoughAfter
  · exact List.forall_mem_append.mpr ⟨inLineBefore, inLineAfter⟩

theorem fewer (passes : Passes more ts rest) (le : least ≤ more) : Passes least ts rest := by
  obtain ⟨used, split, enough, inLine⟩ := passes
  exact ⟨used, split, Nat.le_trans le enough, inLine⟩

/-- What is left is shorter by the tokens that were passed. -/
theorem length_le (passes : Passes least ts rest) : rest.length + least ≤ ts.length := by
  obtain ⟨used, rfl, enough, _⟩ := passes
  rw [List.length_append]
  omega

theorem front {lexeme : Lexeme} (found : (front ts).lexeme = lexeme)
    (inLine : lexeme.endsLine = false) : Passes 1 ts (ts.drop 1) := by
  obtain ⟨t, rest, rfl, same⟩ := Takes.exists_of_front found inLine
  refine ⟨[t], rfl, Nat.le_refl _, ?_⟩
  rw [List.forall_mem_singleton, same]
  exact inLine

/-- Marks that are taken are passed, one token at least if there is a mark. -/
theorem of_takes {ms : List Mark} (takes : Takes ms ts rest) (inhabited : ms ≠ []) :
    Passes 1 ts rest := by
  obtain ⟨used, rfl, covers⟩ := takes
  have positive := List.length_pos_iff.mpr inhabited
  exact ⟨used, rfl, Nat.le_trans positive covers.length_le, covers.inLine⟩

end Passes

/-! ### What lasts -/

/-- How the outcome of a parser compares with that of one that may nest deeper. What was read is
read again, and so many tokens at least were passed for it. Where the parser gave up the other does
so too. Only if it ran out of depth may the other do better, and then there were as many tokens as
the depth. The limit is a depth that both of them may run out of. -/
inductive Lasts {α : Type} (least limit depth : Nat) (ts : List Token) :
    Except Stuck (α × List Token) → Except Stuck (α × List Token) → Prop where
  | read {a : α} {rest : List Token} (passes : Passes least ts rest) :
    Lasts least limit depth ts (.ok (a, rest)) (.ok (a, rest))
  | givenUp {stuck : Stuck} (passes : Passes 0 ts stuck.rest)
    (limited : stuck.fault = .tooDeep → limit ≤ ts.length) :
    Lasts least limit depth ts (.error stuck) (.error stuck)
  | tooDeep {stuck : Stuck} {deeper : Except Stuck (α × List Token)}
    (passes : Passes 0 ts stuck.rest) (isDeep : stuck.fault = .tooDeep)
    (deep : depth ≤ ts.length) : Lasts least limit depth ts (.error stuck) deeper

/-- Whether what a parser gives lasts in another that may nest deeper, on all tokens. It says
both that the parser makes progress and that depth beyond what there is to read makes no
difference. -/
def Lasting {α : Type} (least limit depth : Nat) (parser deeper : Parser α) : Prop :=
  ∀ ts, Lasts least limit depth ts (parser ts) (deeper ts)

namespace Lasts

variable {α β : Type} {least more first limit depth : Nat} {ts between : List Token}
  {result deeper : Except Stuck (α × List Token)}

/-- What lasts behind tokens that were passed lasts with them. There may be one level more for each
of them. -/
theorem nested {higher further : Nat} (lasts : Lasts least limit depth between result deeper)
    (passes : Passes first ts between)
    (within : more ≤ first + least ∧ higher ≤ limit + first ∧ further ≤ depth + first) :
    Lasts more higher further ts result deeper := by
  have shorter := passes.length_le
  cases lasts with
  | read later => exact .read ((passes.trans later).fewer within.1)
  | givenUp later limited =>
    refine .givenUp ((passes.trans later).fewer (Nat.zero_le _)) fun isDeep => ?_
    have enough := limited isDeep
    omega
  | tooDeep later isDeep deep =>
    refine .tooDeep ((passes.trans later).fewer (Nat.zero_le _)) isDeep ?_
    omega

/-- What lasts behind tokens that were passed lasts with them at the same depth. The tokens that
were passed count for the progress as well. -/
theorem behind (lasts : Lasts least limit depth between result deeper)
    (passes : Passes first ts between) (within : more ≤ first + least) :
    Lasts more limit depth ts result deeper :=
  lasts.nested passes ⟨within, Nat.le_add_right _ _, Nat.le_add_right _ _⟩

/-- What goes on with a result, and hands on what was given up, lasts if both parts do. What goes on
is a function of the result, so the two results are generalized before this is applied. -/
theorem andThen {next further : Except Stuck (α × List Token) → Except Stuck (β × List Token)}
    (lasts : Lasts least limit depth ts result deeper)
    (handsOn : ∀ stuck, next (.error stuck) = .error stuck ∧ further (.error stuck) = .error stuck)
    (goesOn : ∀ a rest, Passes least ts rest →
      Lasts more limit depth ts (next (.ok (a, rest))) (further (.ok (a, rest)))) :
    Lasts more limit depth ts (next result) (further deeper) := by
  cases lasts with
  | @read a rest passes => exact goesOn a rest passes
  | @givenUp stuck passes limited =>
    rw [(handsOn stuck).1, (handsOn stuck).2]
    exact .givenUp passes limited
  | @tooDeep stuck _ passes isDeep deep =>
    rw [(handsOn stuck).1]
    exact .tooDeep passes isDeep deep

/-- To give up behind tokens that were passed lasts, unless it is for want of depth. -/
theorem stopped {fault : ParseFault} (shallow : fault ≠ .tooDeep)
    (passes : Passes 0 ts between) :
    Lasts least limit depth ts (stop fault between : Except Stuck (α × List Token))
      (stop fault between) :=
  .givenUp passes fun isDeep => absurd isDeep shallow

/-- What ends with a word or a sign lasts, whether that is there or not. -/
theorem closed {lexeme : Lexeme} (inLine : lexeme.endsLine = false) {fault : ParseFault}
    (shallow : fault ≠ .tooDeep) (a : α) (ts : List Token) :
    Lasts 1 limit depth ts
      (if (front ts).lexeme = lexeme then .ok (a, ts.drop 1) else stop fault ts)
      (if (front ts).lexeme = lexeme then .ok (a, ts.drop 1) else stop fault ts) := by
  by_cases found : (front ts).lexeme = lexeme
  · rw [if_pos found]
    exact .read (.front found inLine)
  · rw [if_neg found]
    exact .stopped shallow (.nothing ts)

/-- With fewer tokens than the depth the outcome is the same. Each level takes a token at least. -/
theorem eq_of_shallow (lasts : Lasts least limit depth ts result deeper)
    (shallow : ts.length < depth) : deeper = result := by
  cases lasts with
  | read => rfl
  | givenUp => rfl
  | tooDeep _ _ deep => omega

end Lasts

/-- A parser that is the same at all depths lasts at each of them. What is known of the depth at
which that was found is known of the limit. -/
theorem Lasting.atDepth {α : Type} {least limit depth fewest : Nat} {parser : Parser α}
    (lasting : Lasting least limit depth parser parser) (bounded : fewest ≤ limit ∧ fewest ≤ depth)
    (other : Nat) : Lasting least fewest other parser parser := by
  intro ts
  have lasts := lasting ts
  generalize parser ts = result at lasts ⊢
  cases lasts with
  | read passes => exact .read passes
  | givenUp passes limited =>
    exact .givenUp passes fun isDeep => Nat.le_trans bounded.1 (limited isDeep)
  | tooDeep passes _ deep => exact .givenUp passes fun _ => Nat.le_trans bounded.2 deep

/-! ### Chains -/

section Expressions

variable {sheet : Sheet} {limit depth : Nat} {operand deeper : Parser Expr} {found : Matcher}

/-- A right operand lasts if the operands do. What is missing is no matter of depth. -/
theorem lasting_rightOperand (lasting : Lasting 1 limit depth operand deeper)
    (op : BinaryOperator) (left : Expr) :
    Lasting 1 limit depth (rightOperand operand op left) (rightOperand deeper op left) := by
  intro ts
  have lasts := lasting ts
  unfold rightOperand
  generalize operand ts = result, deeper ts = other at lasts ⊢
  cases lasts with
  | read passes => exact .read passes
  | @givenUp stuck passes limited =>
    dsimp only
    split
    · by_cases unbegun : stuck.rest.length = ts.length
      · rw [if_pos unbegun]
        exact .givenUp passes fun isDeep => by contradiction
      · rw [if_neg unbegun]
        exact .givenUp passes limited
    · exact .givenUp passes limited
  | tooDeep passes isDeep deep =>
    simp only [isDeep]
    exact .tooDeep passes isDeep deep

theorem Finds.passes {level : Nat} (finds : Finds level found) {ts : List Token}
    {op : BinaryOperator} {width : Nat} (here : found ts = some (op, width)) :
    Passes 1 ts (ts.drop width) := by
  obtain ⟨_, _, takes⟩ := finds here
  exact .of_takes takes op.marks_ne_nil

theorem Finds.nothing {level : Nat} (finds : Finds level found) : found [] = none := by
  cases here : found [] with
  | none => rfl
  | some operator => exact absurd (finds.passes here).length_le (by simp)

/-- A chain lasts if its operands do, whatever tokens there are to go by on each side.

Proof: induction over the operators that may follow. Each takes a token at least, so neither side
runs out of those to go by before it is at its end. -/
theorem lasts_chain {level : Nat} (finds : Finds level found)
    (lasting : Lasting 1 limit depth operand deeper) {most most' ts : List Token} {left : Expr}
    (enough : ts.length ≤ most.length) (enough' : ts.length ≤ most'.length) :
    Lasts 0 limit depth ts (chain sheet operand found most left ts)
      (chain sheet deeper found most' left ts) := by
  induction most generalizing most' ts left with
  | nil =>
    obtain rfl := List.eq_nil_of_length_eq_zero (Nat.le_zero.mp enough)
    rw [chain_of_none finds.nothing, chain_of_none finds.nothing]
    exact .read (.nothing [])
  | cons _ most inductionHypothesis =>
    cases here : found ts with
    | none =>
      rw [chain_of_none here, chain_of_none here]
      exact .read (.nothing ts)
    | some operator =>
      obtain ⟨op, width⟩ := operator
      have passesOp := finds.passes here
      have shorter := passesOp.length_le
      cases most' with
      | nil =>
        rw [List.length_nil] at enough'
        omega
      | cons _ most' =>
        rw [List.length_cons] at enough enough'
        simp only [chain, here]
        have right : Lasts 2 limit depth ts (rightOperand operand op left (ts.drop width))
            (rightOperand deeper op left (ts.drop width)) :=
          (lasting_rightOperand lasting op left _).behind passesOp (by omega)
        generalize rightOperand operand op left (ts.drop width) = result,
          rightOperand deeper op left (ts.drop width) = other at right ⊢
        apply right.andThen
        · exact fun _ => ⟨rfl, rfl⟩
        intro e rest passes
        have fewer := passes.length_le
        have later : Lasts 0 limit depth rest
            (chain sheet operand found most (.binary (sheet.locate ts) op left e) rest)
            (chain sheet deeper found most' (.binary (sheet.locate ts) op left e) rest) :=
          inductionHypothesis (by omega) (by omega)
        exact later.behind passes (Nat.zero_le _)

/-- Operands with the operators of a level between them last if the operands do. -/
theorem lasting_level {level : Nat} (finds : Finds level found)
    (lasting : Lasting 1 limit depth operand deeper) :
    Lasting 1 limit depth (Grammar.level sheet operand found)
      (Grammar.level sheet deeper found) := by
  intro ts
  have first := lasting ts
  unfold Grammar.level
  generalize operand ts = result, deeper ts = other at first ⊢
  apply first.andThen
  · exact fun _ => ⟨rfl, rfl⟩
  intro left rest passes
  have later : Lasts 0 limit depth rest (chain sheet operand found rest left rest)
      (chain sheet deeper found rest left rest) :=
    lasts_chain finds lasting (Nat.le_refl _) (Nat.le_refl _)
  exact later.behind passes (Nat.le_refl _)

/-- The matchers of the levels of chains, from the loosest level to the tightest. -/
def matchers : List Matcher :=
  [matchOr, matchAnd, matchEquality, matchComparison, matchSum, matchProduct]

/-- Operands with the operators of some levels between them, of which the first is the loosest.
The six levels of the grammar are this for its six matchers, so a law of one level is a law of
all. -/
def levels (sheet : Sheet) (operand : Parser Expr) : List Matcher → Parser Expr
  | [] => operand
  | found :: tighter => level sheet (levels sheet operand tighter) found

/-- An expression of any level has all levels of chains around powers. -/
theorem expressionOver_eq (sheet : Sheet) (nested : Nested) :
    expressionOver sheet nested = levels sheet (power sheet nested) matchers := rfl

theorem finds_of_mem (member : found ∈ matchers) : ∃ level, Finds level found := by
  simp only [matchers, List.mem_cons, List.not_mem_nil, or_false] at member
  rcases member with rfl | rfl | rfl | rfl | rfl | rfl
  · exact ⟨1, finds_matchOr⟩
  · exact ⟨2, finds_matchAnd⟩
  · exact ⟨3, finds_matchEquality⟩
  · exact ⟨4, finds_matchComparison⟩
  · exact ⟨5, finds_matchSum⟩
  · exact ⟨6, finds_matchProduct⟩

theorem lasting_levels (lasting : Lasting 1 limit depth operand deeper) {tiers : List Matcher}
    (among : tiers ⊆ matchers) :
    Lasting 1 limit depth (levels sheet operand tiers) (levels sheet deeper tiers) := by
  induction tiers with
  | nil => exact lasting
  | cons found tighter inductionHypothesis =>
    obtain ⟨member, others⟩ := List.cons_subset.mp among
    obtain ⟨_, finds⟩ := finds_of_mem member
    exact lasting_level finds (inductionHypothesis others)

/-! ### Operands -/

/-- Whether what the parsers one level down give lasts in others that may nest deeper. -/
structure NestedLasting (depth : Nat) (nested deeper : Nested) : Prop where
  expression : Lasting 1 depth depth nested.expression deeper.expression
  power : Lasting 1 depth depth nested.power deeper.power
  signed : Lasting 1 depth depth nested.signed deeper.signed

variable {inner further : Nested}

theorem lasts_stepped {name : String} {ts : List Token}
    (found : (front ts).lexeme.nameOf? = some name) :
    Lasts 1 limit depth ts (stepped sheet name ts) (stepped sheet name ts) := by
  have passesName : Passes 1 ts (ts.drop 1) := .front rfl (plain_of_nameOf? found).1
  have passesPair {sign : Symbol} (pair : isPair sign sign (ts.drop 1) = true) :
      Passes 1 ts ((ts.drop 1).drop 2) :=
    (passesName.trans (.of_takes (.pair pair) (List.cons_ne_nil _ _))).fewer (by omega)
  unfold stepped
  dsimp only
  split
  · next pair => exact .read (passesPair pair)
  · split
    · next pair => exact .read (passesPair pair)
    · exact .read passesName

theorem lasting_operand (lasting : NestedLasting depth inner further) :
    Lasting 1 (depth + 1) (depth + 1) (Grammar.operand sheet inner)
      (Grammar.operand sheet further) := by
  intro ts
  unfold Grammar.operand
  dsimp only
  split
  · next found => exact .read (.front found rfl)
  · next found => exact .read (.front found rfl)
  · next found => exact lasts_stepped (by rw [found]; rfl)
  · next found => exact lasts_stepped (by rw [found]; rfl)
  · next found =>
    have passesOpen : Passes 1 ts (ts.drop 1) := .front found rfl
    have body : Lasts 2 (depth + 1) (depth + 1) ts (inner.expression (ts.drop 1))
        (further.expression (ts.drop 1)) :=
      (lasting.expression _).nested passesOpen (by omega)
    generalize inner.expression (ts.drop 1) = result,
      further.expression (ts.drop 1) = other at body ⊢
    apply body.andThen
    · exact fun _ => ⟨rfl, rfl⟩
    intro e rest passes
    exact (Lasts.closed rfl (by simp) _ rest).behind passes (by omega)
  · exact .stopped (by simp) (.nothing ts)

theorem lasting_signed (lasting : NestedLasting depth inner further) :
    Lasting 1 (depth + 1) (depth + 1) (signed sheet inner) (signed sheet further) := by
  intro ts
  unfold signed
  cases found : matchSign ts with
  | none => exact lasting_operand lasting ts
  | some operator =>
    obtain ⟨op, width⟩ := operator
    have passesSign : Passes 1 ts (ts.drop width) :=
      .of_takes (finds_matchSign found).takes op.marks_ne_nil
    have body : Lasts 2 (depth + 1) (depth + 1) ts (inner.signed (ts.drop width))
        (further.signed (ts.drop width)) :=
      (lasting.signed _).nested passesSign (by omega)
    dsimp only
    generalize inner.signed (ts.drop width) = result,
      further.signed (ts.drop width) = other at body ⊢
    apply body.andThen
    · exact fun _ => ⟨rfl, rfl⟩
    intro e rest passes
    exact .read (passes.fewer (by omega))

/-! ### Powers -/

/-- Factorial signs are passed as long as one is at the front. -/
theorem passes_factorials (e : Expr) (ts : List Token) :
    Passes 0 ts (factorials sheet e ts).2 := by
  induction ts generalizing e with
  | nil => exact .nothing []
  | cons t rest inductionHypothesis =>
    rw [factorials]
    by_cases isBang : t.lexeme = .symbol .bang ∧ isPair .bang .equals (t :: rest) = false
    · rw [if_pos isBang]
      have passesSign : Passes 1 (t :: rest) rest := .front isBang.1 rfl
      exact (passesSign.trans (inductionHypothesis _)).fewer (Nat.zero_le _)
    · rw [if_neg isBang]
      exact .nothing _

/-- A base with its factorial signs. It cannot give up behind the base. -/
def base (sheet : Sheet) (nested : Nested) : Parser Expr := fun ts =>
  match signed sheet nested ts with
  | .error stuck => .error stuck
  | .ok (e, rest) => .ok (factorials sheet e rest)

/-- A power is a base with its factorial signs, and perhaps an exponent behind a caret. -/
theorem power_eq (sheet : Sheet) (nested : Nested) (ts : List Token) :
    power sheet nested ts =
      match base sheet nested ts with
      | .error stuck => .error stuck
      | .ok (left, rest) =>
        if (front rest).lexeme = .symbol .caret then
          match rightOperand nested.power .pow left (rest.drop 1) with
          | .error stuck => .error stuck
          | .ok (right, after) => .ok (.binary (sheet.locate rest) .pow left right, after)
        else .ok (left, rest) := by
  unfold power base
  cases signed sheet nested ts with
  | error stuck => rfl
  | ok read => rfl

theorem lasting_base (lasting : NestedLasting depth inner further) :
    Lasting 1 (depth + 1) (depth + 1) (base sheet inner) (base sheet further) := by
  intro ts
  have body : Lasts 1 (depth + 1) (depth + 1) ts (signed sheet inner ts)
      (signed sheet further ts) :=
    lasting_signed lasting ts
  unfold base
  generalize signed sheet inner ts = result, signed sheet further ts = other at body ⊢
  apply body.andThen
  · exact fun _ => ⟨rfl, rfl⟩
  intro e rest passes
  exact .read (passes.trans (passes_factorials e rest))

theorem lasting_power (lasting : NestedLasting depth inner further) :
    Lasting 1 (depth + 1) (depth + 1) (power sheet inner) (power sheet further) := by
  intro ts
  have first : Lasts 1 (depth + 1) (depth + 1) ts (base sheet inner ts) (base sheet further ts) :=
    lasting_base lasting ts
  rw [power_eq, power_eq]
  generalize base sheet inner ts = result, base sheet further ts = other at first ⊢
  apply first.andThen
  · exact fun _ => ⟨rfl, rfl⟩
  intro left rest passes
  dsimp only
  by_cases isCaret : (front rest).lexeme = .symbol .caret
  · rw [if_pos isCaret, if_pos isCaret]
    have passesSign := passes.trans (.front isCaret rfl)
    have exponent : Lasts 1 (depth + 1) (depth + 1) ts
        (rightOperand inner.power .pow left (rest.drop 1))
        (rightOperand further.power .pow left (rest.drop 1)) :=
      (lasting_rightOperand lasting.power .pow left _).nested passesSign (by omega)
    generalize rightOperand inner.power .pow left (rest.drop 1) = result,
      rightOperand further.power .pow left (rest.drop 1) = other at exponent ⊢
    apply exponent.andThen
    · exact fun _ => ⟨rfl, rfl⟩
    intro right after passes
    exact .read passes
  · rw [if_neg isCaret, if_neg isCaret]
    exact .read passes

/-! ### Expressions -/

theorem lasting_expressionOver (lasting : NestedLasting depth inner further) :
    Lasting 1 (depth + 1) (depth + 1) (expressionOver sheet inner)
      (expressionOver sheet further) := by
  rw [expressionOver_eq, expressionOver_eq]
  exact lasting_levels (lasting_power lasting) (List.Subset.refl _)

/-- What nests lasts if it may nest deeper.

Proof: induction over the depth. At depth zero everything nests too deeply. -/
theorem nestedLasting (sheet : Sheet) {depth deeper : Nat} (le : depth ≤ deeper) :
    NestedLasting depth (nested sheet depth) (nested sheet deeper) := by
  induction depth generalizing deeper with
  | zero =>
    have nothing {parser : Parser Expr} : Lasting 1 0 0 (stop .tooDeep) parser :=
      fun ts => .tooDeep (.nothing ts) rfl (Nat.zero_le _)
    exact ⟨nothing, nothing, nothing⟩
  | succ depth inductionHypothesis =>
    obtain ⟨deeper, rfl⟩ := Nat.exists_eq_add_of_lt le
    have inner := inductionHypothesis (show depth ≤ depth + deeper by omega)
    constructor
    · exact lasting_expressionOver inner
    · exact lasting_power inner
    · exact lasting_signed inner

/-- An expression is read once for all depths of what is around it. An expression has a limit of
its own, which does not go by that depth. -/
theorem lasting_expression (sheet : Sheet) (depth : Nat) :
    Lasting 1 nestingLimit depth (expression sheet) (expression sheet) :=
  (nestedLasting sheet (Nat.le_refl nestingLimit)).expression.atDepth (by omega) depth

end Expressions

/-! ### Blocks -/

section Statements

variable {sheet : Sheet} {limit depth : Nat}

/-- The statements of a block last if each of them does, whatever tokens there are to go by on each
side.

Proof: induction over the statements that there may be. -/
theorem lasts_block {statement deeper : Parser Stmt} {inside : Bool}
    (lasting : Lasting 1 limit depth statement deeper) {most most' ts : List Token}
    (enough : ts.length ≤ most.length) (enough' : ts.length ≤ most'.length) :
    Lasts 0 limit depth ts (block statement inside most ts) (block deeper inside most' ts) := by
  induction most generalizing most' ts with
  | nil =>
    obtain rfl := List.eq_nil_of_length_eq_zero (Nat.le_zero.mp enough)
    rw [block_of_endsBlock rfl, block_of_endsBlock rfl]
    exact .read (.nothing [])
  | cons _ most inductionHypothesis =>
    by_cases ends : endsBlock inside ts = true
    · rw [block_of_endsBlock ends, block_of_endsBlock ends]
      exact .read (.nothing ts)
    · cases most' with
      | nil =>
        obtain rfl := List.eq_nil_of_length_eq_zero (Nat.le_zero.mp enough')
        exact absurd rfl ends
      | cons _ most' =>
        rw [List.length_cons] at enough enough'
        rw [block, block, if_neg ends, if_neg ends]
        have first := lasting ts
        generalize statement ts = result, deeper ts = other at first ⊢
        apply first.andThen
        · exact fun _ => ⟨rfl, rfl⟩
        intro s rest passes
        have fewer := passes.length_le
        have later : Lasts 0 limit depth ts (block statement inside most rest)
            (block deeper inside most' rest) :=
          (inductionHypothesis (by omega) (by omega)).behind passes (by omega)
        dsimp only
        generalize block statement inside most rest = result,
          block deeper inside most' rest = other at later ⊢
        apply later.andThen
        · exact fun _ => ⟨rfl, rfl⟩
        intro others behind passes
        exact .read passes

/-! ### Statements -/

variable {inner deeper : Parser (List Stmt)}

/-- What follows the body of an if statement lasts if the blocks inside do. -/
theorem lasts_closeBranch (lasting : Lasting 0 limit depth inner deeper) (loc : Option Location)
    (condition : Expr) (body : List Stmt) (ts : List Token) :
    Lasts 1 limit (depth + 1) ts (closeBranch inner loc condition body ts)
      (closeBranch deeper loc condition body ts) := by
  unfold closeBranch
  dsimp only
  by_cases isElse : (front ts).lexeme = .keyword .elseWord
  · rw [if_pos isElse, if_pos isElse]
    have passesElse : Passes 1 ts (ts.drop 1) := .front isElse rfl
    have otherwise : Lasts 1 limit (depth + 1) ts (inner (ts.drop 1)) (deeper (ts.drop 1)) :=
      (lasting _).nested passesElse (by omega)
    generalize inner (ts.drop 1) = result, deeper (ts.drop 1) = other at otherwise ⊢
    apply otherwise.andThen
    · exact fun _ => ⟨rfl, rfl⟩
    intro block rest passes
    dsimp only
    by_cases repeated : (front rest).lexeme = .keyword .elseWord
    · rw [if_pos repeated]
      exact .stopped (by simp) (passes.fewer (Nat.zero_le _))
    · rw [if_neg repeated]
      exact (Lasts.closed rfl (by simp) _ rest).behind passes (by omega)
  · rw [if_neg isElse, if_neg isElse]
    exact .closed rfl (by simp) _ ts

theorem lasts_branch (lasting : Lasting 0 nestingLimit depth inner deeper) {ts : List Token}
    (isIf : (front ts).lexeme = .keyword .ifWord) :
    Lasts 1 nestingLimit (depth + 1) ts (branch sheet inner ts) (branch sheet deeper ts) := by
  have passesIf : Passes 1 ts (ts.drop 1) := .front isIf rfl
  have first : Lasts 1 nestingLimit (depth + 1) ts (expression sheet (ts.drop 1))
      (expression sheet (ts.drop 1)) :=
    (lasting_expression sheet (depth + 1) _).behind passesIf (by omega)
  unfold branch
  generalize expression sheet (ts.drop 1) = result at first ⊢
  apply first.andThen
  · exact fun _ => ⟨rfl, rfl⟩
  intro condition rest passes
  dsimp only
  by_cases isThen : (front rest).lexeme = .keyword .thenWord
  · rw [if_pos isThen, if_pos isThen]
    have passesThen := passes.trans (.front isThen rfl)
    have second : Lasts 1 nestingLimit (depth + 1) ts (inner (rest.drop 1))
        (deeper (rest.drop 1)) :=
      (lasting _).nested passesThen (by omega)
    generalize inner (rest.drop 1) = result, deeper (rest.drop 1) = other at second ⊢
    apply second.andThen
    · exact fun _ => ⟨rfl, rfl⟩
    intro body between passes
    exact (lasts_closeBranch lasting _ condition body between).behind passes (by omega)
  · rw [if_neg isThen, if_neg isThen]
    exact .stopped (by simp) (passes.fewer (Nat.zero_le _))

theorem lasting_statement (lasting : Lasting 0 nestingLimit depth inner deeper) :
    Lasting 1 nestingLimit (depth + 1) (statement sheet inner) (statement sheet deeper) := by
  intro ts
  unfold statement
  dsimp only
  split
  · next found => exact .read (.front found rfl)
  · next isGoto =>
    have target : Lasts 1 nestingLimit (depth + 1) ts (expression sheet (ts.drop 1))
        (expression sheet (ts.drop 1)) :=
      (lasting_expression sheet (depth + 1) _).behind (.front isGoto rfl) (by omega)
    generalize expression sheet (ts.drop 1) = result at target ⊢
    apply target.andThen
    · exact fun _ => ⟨rfl, rfl⟩
    intro e rest passes
    exact .read passes
  · next isIf => exact lasts_branch lasting isIf
  · split
    · next name op width found isAssign =>
      have passesName : Passes 1 ts (ts.drop 1) := .front rfl (plain_of_nameOf? found).1
      have passesSign : Passes 1 (ts.drop 1) (ts.drop (1 + width)) := by
        rw [← List.drop_drop]
        exact .of_takes (takes_matchAssign isAssign) op.marks_ne_nil
      have value : Lasts 1 nestingLimit (depth + 1) ts (expression sheet (ts.drop (1 + width)))
          (expression sheet (ts.drop (1 + width))) :=
        (lasting_expression sheet (depth + 1) _).behind (passesName.trans passesSign) (by omega)
      generalize expression sheet (ts.drop (1 + width)) = result at value ⊢
      apply value.andThen
      · exact fun _ => ⟨rfl, rfl⟩
      intro e rest passes
      exact .read passes
    · have value := lasting_expression sheet (depth + 1) ts
      unfold plain
      generalize expression sheet ts = result at value ⊢
      apply value.andThen
      · exact fun _ => ⟨rfl, rfl⟩
      intro e rest passes
      exact .read passes

/-- A block inside an if statement lasts if it may nest deeper. It ends where a block inside
ends, or gives up. -/
theorem lasting_innerBlock (sheet : Sheet) {depth deeper : Nat} (le : depth ≤ deeper) :
    Lasting 0 nestingLimit depth (innerBlock sheet depth) (innerBlock sheet deeper) := by
  induction depth generalizing deeper with
  | zero =>
    have nothing {parser : Parser Stmt} : Lasting 1 nestingLimit 0 (stop .tooDeep) parser :=
      fun ts => .tooDeep (.nothing ts) rfl (Nat.zero_le _)
    intro ts
    cases deeper with
    | zero => exact lasts_block nothing (Nat.le_refl _) (Nat.le_refl _)
    | succ deeper => exact lasts_block nothing (Nat.le_refl _) (Nat.le_refl _)
  | succ depth inductionHypothesis =>
    obtain ⟨deeper, rfl⟩ := Nat.exists_eq_add_of_lt le
    have inner := inductionHypothesis (show depth ≤ depth + deeper by omega)
    intro ts
    exact lasts_block (lasting_statement inner) (Nat.le_refl _) (Nat.le_refl _)

theorem lasting_statements (sheet : Sheet) :
    Lasting 0 nestingLimit (nestingLimit + 1) (statements sheet) (statements sheet) :=
  fun _ => lasts_block (lasting_statement (lasting_innerBlock sheet (Nat.le_refl nestingLimit)))
    (Nat.le_refl _) (Nat.le_refl _)

end Statements

end YololChip.Grammar
