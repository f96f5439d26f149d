import YololChip.Proofs.Passing

/-!
# Parsing ends

A parser that is called at a place in a row of tokens gives up, or leaves off further on, and never
past the last token, which is the end of the text. Nothing else is asked of the tokens.

So what parsers go by never decides what they give. A loop takes a token at least each time, and
there are as many rounds as tokens; it ends where its own condition fails. What nests stands behind
a token at least, and there are no more levels than tokens.
-/

namespace YololChip.Grammar

/-! ### Places in a row -/

/-- How a parser ends that is called at a place in a row of tokens. It gives up at that place or one
behind it, or it leaves off so many tokens further on at least; neither is past the row. What it
finds to nest too deeply has as many tokens behind it as the limit. -/
inductive EndsAt {α : Type} (least limit : Nat) (parser : Parser α) (tokens : List Token)
    (i : Nat) : Prop where
  | givenUp {fault : ParseFault} {j : Nat} (within : j < tokens.length) (onward : i ≤ j)
    (failed : parser (tokens.drop i) = .error ⟨fault, tokens.drop j⟩)
    (limited : fault = .tooDeep → i + limit ≤ tokens.length) : EndsAt least limit parser tokens i
  | read {a : α} {j : Nat} (within : j < tokens.length) (onward : i + least ≤ j)
    (found : parser (tokens.drop i) = .ok (a, tokens.drop j)) : EndsAt least limit parser tokens i

/-- Whether a parser ends so at every place in a row of tokens. Past the row it is never called. -/
def Ends {α : Type} (least limit : Nat) (parser : Parser α) (tokens : List Token) : Prop :=
  ∀ i < tokens.length, EndsAt least limit parser tokens i

section Places

variable {before : List Token} {last : Token} {i : Nat}

/-- What is passed from a place in a row that ends the text leads to another place in it. -/
theorem Passes.exists_place {least : Nat} {rest : List Token}
    (isFinish : last.lexeme = .finish) (within : i < (before ++ [last]).length)
    (passes : Passes least ((before ++ [last]).drop i) rest) :
    ∃ j < (before ++ [last]).length, i + least ≤ j ∧ rest = (before ++ [last]).drop j := by
  obtain ⟨used, split, enough, inLine⟩ := passes
  have left : rest = (before ++ [last]).drop (i + used.length) := by
    rw [← List.drop_drop, split, List.drop_left]
  refine ⟨i + used.length, ?_, Nat.add_le_add_left enough i, left⟩
  -- Past the row no token would be left, so the last one would have been passed.
  apply Nat.lt_of_not_le
  intro outside
  rw [List.drop_eq_nil_of_le outside] at left
  rw [left, List.append_nil] at split
  rw [List.length_append, List.length_singleton] at within
  rw [List.drop_append_of_le_length (Nat.le_of_lt_succ within)] at split
  have passed := inLine last (split ▸ List.mem_append_right _ List.mem_cons_self)
  rw [isFinish] at passed
  contradiction

theorem Lasts.endsAt {α : Type} {least limit depth fewest : Nat} {parser : Parser α}
    {deeper : Except Stuck (α × List Token)} (isFinish : last.lexeme = .finish)
    (within : i < (before ++ [last]).length)
    (lasts : Lasts least limit depth ((before ++ [last]).drop i)
      (parser ((before ++ [last]).drop i)) deeper)
    (bounded : fewest ≤ limit ∧ fewest ≤ depth) :
    EndsAt least fewest parser (before ++ [last]) i := by
  have fewer : ((before ++ [last]).drop i).length + i = (before ++ [last]).length := by
    rw [List.length_drop, Nat.sub_add_cancel (Nat.le_of_lt within)]
  generalize outcome : parser ((before ++ [last]).drop i) = result at lasts
  cases lasts with
  | read passes =>
    obtain ⟨j, inside, onward, rfl⟩ := passes.exists_place isFinish within
    exact .read inside onward outcome
  | @givenUp stuck passes limited =>
    obtain ⟨fault, rest⟩ := stuck
    obtain ⟨j, inside, onward, rfl⟩ := passes.exists_place isFinish within
    refine .givenUp inside onward outcome fun isDeep => ?_
    have enough := limited isDeep
    omega
  | @tooDeep stuck _ passes _ deep =>
    obtain ⟨fault, rest⟩ := stuck
    obtain ⟨j, inside, onward, rfl⟩ := passes.exists_place isFinish within
    refine .givenUp inside onward outcome fun _ => ?_
    omega

theorem Lasting.ends {α : Type} {least limit depth fewest : Nat} {parser deeper : Parser α}
    (isFinish : last.lexeme = .finish) (lasting : Lasting least limit depth parser deeper)
    (bounded : fewest ≤ limit ∧ fewest ≤ depth) : Ends least fewest parser (before ++ [last]) :=
  fun _ within => (lasting _).endsAt isFinish within bounded

end Places

/-- How the parsers end that are called in a row of tokens, each at any place and, if something
nests in what it reads, at any depth. Where a statement begins with the word of an if statement, it
is read as one. -/
structure PartsEnd (sheet : Sheet) (tokens : List Token) : Prop where
  atToken : ∀ i < tokens.length, (front (tokens.drop i)).lexeme ≠ .finish → i + 1 < tokens.length
  atOperand : ∀ depth, Ends 1 (depth + 1) (operand sheet (nested sheet depth)) tokens
  atSign : ∀ depth, Ends 1 (depth + 1) (signed sheet (nested sheet depth)) tokens
  atBase : ∀ depth, Ends 1 (depth + 1) (base sheet (nested sheet depth)) tokens
  atLevels : ∀ depth tiers, tiers <:+ matchers →
    Ends 1 (depth + 1) (levels sheet (power sheet (nested sheet depth)) tiers) tokens
  atRightOperand : ∀ depth op left tiers, tiers <:+ matchers →
    Ends 1 (depth + 1)
      (rightOperand (levels sheet (power sheet (nested sheet depth)) tiers) op left) tokens
  atExpression : Ends 1 nestingLimit (expression sheet) tokens
  atBranch : ∀ depth, ∀ i < tokens.length, (front (tokens.drop i)).lexeme = .keyword .ifWord →
    EndsAt 1 (min nestingLimit (depth + 1)) (branch sheet (innerBlock sheet depth)) tokens i
  atStatement : ∀ depth,
    Ends 1 (min nestingLimit (depth + 1)) (statement sheet (innerBlock sheet depth)) tokens
  atBlock : ∀ depth, Ends 0 (min nestingLimit depth) (innerBlock sheet depth) tokens
  atLine : Ends 0 nestingLimit (statements sheet) tokens

/-- The parsers end at the places of every row with the end of the text behind it. -/
theorem partsEnd (sheet : Sheet) (before : List Token) {last : Token}
    (isFinish : last.lexeme = .finish) : PartsEnd sheet (before ++ [last]) := by
  have inner (depth : Nat) : NestedLasting depth (nested sheet depth) (nested sheet depth) :=
    nestedLasting sheet (Nat.le_refl depth)
  have blocks (depth : Nat) :
      Lasting 0 nestingLimit depth (innerBlock sheet depth) (innerBlock sheet depth) :=
    lasting_innerBlock sheet (Nat.le_refl depth)
  have chains (depth : Nat) {tiers : List Matcher} (suffix : tiers <:+ matchers) :
      Lasting 1 (depth + 1) (depth + 1) (levels sheet (power sheet (nested sheet depth)) tiers)
        (levels sheet (power sheet (nested sheet depth)) tiers) :=
    lasting_levels (lasting_power (inner depth)) suffix.subset
  constructor
  case atToken =>
    intro i within found
    rw [List.length_append, List.length_singleton] at within ⊢
    rcases Nat.lt_or_eq_of_le (Nat.le_of_lt_succ within) with inside | rfl
    · exact Nat.succ_lt_succ inside
    · rw [List.drop_left] at found
      exact absurd isFinish found
  case atOperand =>
    intro depth
    exact (lasting_operand (inner depth)).ends isFinish (by omega)
  case atSign =>
    intro depth
    exact (lasting_signed (inner depth)).ends isFinish (by omega)
  case atBase =>
    intro depth
    exact (lasting_base (inner depth)).ends isFinish (by omega)
  case atLevels =>
    intro depth tiers suffix
    exact (chains depth suffix).ends isFinish (by omega)
  case atRightOperand =>
    intro depth op left tiers suffix
    exact (lasting_rightOperand (chains depth suffix) op left).ends isFinish (by omega)
  case atExpression =>
    exact (lasting_expression sheet nestingLimit).ends isFinish (by omega)
  case atBranch =>
    intro depth i within isIf
    exact (lasts_branch (blocks depth) isIf).endsAt isFinish within (by omega)
  case atStatement =>
    intro depth
    exact (lasting_statement (blocks depth)).ends isFinish (by omega)
  case atBlock =>
    intro depth
    exact (blocks depth).ends isFinish (by omega)
  case atLine => exact (lasting_statements sheet).ends isFinish (by omega)

/-! ### Loops -/

/-- Whether a loop ends by itself that goes by a list of tokens: a longer list makes no
difference, and where it leaves off there is nothing to go on with. The list is only what the
loop counts by; it reads none of it. -/
structure EndsByItself {α : Type} (loop : List Token → Parser α) (finished : List Token → Prop)
    (ts : List Token) : Prop where
  enough : ∀ most, ts.length ≤ most.length → loop most ts = loop ts ts
  leavesOff : ∀ a rest, loop ts ts = .ok (a, rest) → finished rest

theorem Lasting.passes {α : Type} {least limit depth : Nat} {parser deeper : Parser α}
    (lasting : Lasting least limit depth parser deeper) {ts rest : List Token} {a : α}
    (read : parser ts = .ok (a, rest)) : Passes least ts rest := by
  have lasts := lasting ts
  rw [read] at lasts
  generalize deeper ts = other at lasts
  cases lasts with
  | read passes => exact passes

section Loops

variable {sheet : Sheet} {limit depth : Nat}

/-- A chain leaves off where no operator is found, if there are enough tokens to go by.

Proof: induction over the operators that may follow. -/
theorem found_of_chain {level : Nat} {found : Matcher} {operand : Parser Expr}
    (finds : Finds level found) (lasting : Lasting 1 limit depth operand operand)
    {most ts rest : List Token} {left e : Expr} (enough : ts.length ≤ most.length)
    (read : chain sheet operand found most left ts = .ok (e, rest)) : found rest = none := by
  induction most generalizing ts left with
  | nil =>
    obtain rfl := List.eq_nil_of_length_eq_zero (Nat.le_zero.mp enough)
    obtain ⟨rfl, rfl⟩ := Prod.mk.inj (Except.ok.inj read)
    exact finds.nothing
  | cons _ most inductionHypothesis =>
    rcases chain_cons_eq_ok.mp read with
      ⟨none, rfl, rfl⟩ | ⟨op, width, right, behind, here, readRight, readLater⟩
    · exact none
    · have passesOp := (finds.passes here).length_le
      have passesRight := (lasting.passes readRight).length_le
      rw [List.length_cons] at enough
      exact inductionHypothesis (by omega) readLater

/-- The loop over the operators of a level ends by itself if the operands last. Each round takes
the sign of an operator and a right operand. -/
theorem endsByItself_chain {level : Nat} {found : Matcher} {operand : Parser Expr}
    (finds : Finds level found) (lasting : Lasting 1 limit depth operand operand) (left : Expr)
    (ts : List Token) :
    EndsByItself (fun most => chain sheet operand found most left) (fun rest => found rest = none)
      ts where
  enough := by
    intro most enough
    have shallow : Lasting 1 0 (ts.length + 1) operand operand := lasting.atDepth (by omega) _
    exact (lasts_chain finds shallow (Nat.le_refl _) enough).eq_of_shallow (Nat.lt_succ_self _)
  leavesOff := fun _ _ read => found_of_chain finds lasting (Nat.le_refl _) read

/-- A block leaves off where it ends, if there are enough tokens to go by.

Proof: induction over the statements that there may be. -/
theorem endsBlock_of_block {statement : Parser Stmt} {inside : Bool}
    (lasting : Lasting 1 limit depth statement statement) {most ts rest : List Token}
    {read : List Stmt} (enough : ts.length ≤ most.length)
    (found : block statement inside most ts = .ok (read, rest)) :
    endsBlock inside rest = true := by
  induction most generalizing ts read with
  | nil =>
    obtain rfl := List.eq_nil_of_length_eq_zero (Nat.le_zero.mp enough)
    obtain ⟨rfl, rfl⟩ := Prod.mk.inj (Except.ok.inj found)
    rfl
  | cons _ most inductionHypothesis =>
    rcases block_cons_eq_ok.mp found with
      ⟨ends, rfl, rfl⟩ | ⟨first, between, others, _, readFirst, readOthers, rfl⟩
    · exact ends
    · have passesFirst := (lasting.passes readFirst).length_le
      rw [List.length_cons] at enough
      exact inductionHypothesis (by omega) readOthers

/-- The loop over the statements of a block ends by itself if the statements last. -/
theorem endsByItself_block {statement : Parser Stmt} (inside : Bool)
    (lasting : Lasting 1 limit depth statement statement) (ts : List Token) :
    EndsByItself (block statement inside) (fun rest => endsBlock inside rest = true) ts where
  enough := by
    intro most enough
    have shallow : Lasting 1 0 (ts.length + 1) statement statement := lasting.atDepth (by omega) _
    exact (lasts_block shallow (Nat.le_refl _) enough).eq_of_shallow (Nat.lt_succ_self _)
  leavesOff := fun _ _ found => endsBlock_of_block lasting (Nat.le_refl _) found

/-- Behind the factorial signs that are read there is none. A sign with an equals sign beside it
is none of them. -/
theorem noSign_of_factorials (e : Expr) (ts : List Token) :
    ¬ ((front (factorials sheet e ts).2).lexeme = .symbol .bang ∧
      isPair .bang .equals (factorials sheet e ts).2 = false) := by
  induction ts generalizing e with
  | nil => simp [factorials, front]
  | cons t rest inductionHypothesis =>
    rw [factorials]
    by_cases isBang : t.lexeme = .symbol .bang ∧ isPair .bang .equals (t :: rest) = false
    · rw [if_pos isBang]
      exact inductionHypothesis _
    · rw [if_neg isBang]
      exact isBang

end Loops

/-- How the loops end that read the operators of a level, the statements of a block and the
factorial signs behind a base. -/
structure LoopsEnd (sheet : Sheet) (tokens : List Token) : Prop where
  operators : ∀ depth found tighter, found :: tighter <:+ matchers → ∀ left i,
    EndsByItself
      (fun most => chain sheet (levels sheet (power sheet (nested sheet depth)) tighter) found most
        left)
      (fun rest => found rest = none) (tokens.drop i)
  statements : ∀ depth inside i,
    EndsByItself (block (statement sheet (innerBlock sheet depth)) inside)
      (fun rest => endsBlock inside rest = true) (tokens.drop i)
  factorials : ∀ e, ∀ i < tokens.length, ∃ j < tokens.length, i ≤ j ∧
    (Grammar.factorials sheet e (tokens.drop i)).2 = tokens.drop j ∧
      ¬ ((front (tokens.drop j)).lexeme = .symbol .bang ∧
        isPair .bang .equals (tokens.drop j) = false)

/-- The loops end at the places of every row with the end of the text behind it. There is a
token less for each round. -/
theorem loopsEnd (sheet : Sheet) (before : List Token) {last : Token}
    (isFinish : last.lexeme = .finish) : LoopsEnd sheet (before ++ [last]) where
  operators := by
    intro depth found tighter suffix left i
    obtain ⟨member, others⟩ := List.cons_subset.mp suffix.subset
    obtain ⟨_, finds⟩ := finds_of_mem member
    have inner := nestedLasting sheet (Nat.le_refl depth)
    exact endsByItself_chain finds (lasting_levels (lasting_power inner) others) left _
  statements := by
    intro depth inside i
    have inner := lasting_innerBlock sheet (Nat.le_refl depth)
    exact endsByItself_block inside (lasting_statement inner) _
  factorials := by
    intro e i within
    have passes : Passes 0 ((before ++ [last]).drop i)
        (Grammar.factorials sheet e ((before ++ [last]).drop i)).2 :=
      passes_factorials e _
    obtain ⟨j, inside, onward, left⟩ := passes.exists_place isFinish within
    refine ⟨j, inside, onward, left, ?_⟩
    rw [← left]
    exact noSign_of_factorials e _

/-! ### Nesting -/

/-- Whether parsers of any depth give the same of tokens at all depths that are greater than the
number of the tokens. With fewer levels than that they may give up as nested too deep. -/
def LevelsOff {α : Type} (parser : Nat → Parser α) (ts : List Token) : Prop :=
  ∀ depth deeper, ts.length < depth → depth ≤ deeper → parser deeper ts = parser depth ts

/-- How nesting ends, in expressions and in if statements: with more levels than tokens nothing
is too deep. -/
structure NestingEnds (sheet : Sheet) (tokens : List Token) : Prop where
  expressions : ∀ i, LevelsOff (fun depth => (nested sheet depth).expression) (tokens.drop i)
  powers : ∀ i, LevelsOff (fun depth => (nested sheet depth).power) (tokens.drop i)
  signs : ∀ i, LevelsOff (fun depth => (nested sheet depth).signed) (tokens.drop i)
  blocks : ∀ i, LevelsOff (innerBlock sheet) (tokens.drop i)

theorem nestingEnds (sheet : Sheet) (tokens : List Token) : NestingEnds sheet tokens where
  expressions := fun _ _ _ shallow le =>
    ((nestedLasting sheet le).expression _).eq_of_shallow shallow
  powers := fun _ _ _ shallow le => ((nestedLasting sheet le).power _).eq_of_shallow shallow
  signs := fun _ _ _ shallow le => ((nestedLasting sheet le).signed _).eq_of_shallow shallow
  blocks := fun _ _ _ shallow le => (lasting_innerBlock sheet le _).eq_of_shallow shallow

/-! ### Parsing -/

/-- An assignment begins with three tokens, and where these are all that stands before the end its
value is given up there. -/
example : statements ⟨"", [], 1⟩
    [⟨.name "a", 1, 1⟩, ⟨.symbol .plus, 1, 2⟩, ⟨.symbol .equals, 1, 3⟩, ⟨.finish, 1, 4⟩] =
      .error ⟨.unexpected .finish, [⟨.finish, 1, 4⟩]⟩ := rfl

end YololChip.Grammar
