import YololChip.Proofs.SoundExpressions

/-!
# Where an expression cannot be read

A parser that gives up names a place and a fault. The fault keeps a part of a tree, and
the tokens right before the place spell that part: all that was read and nothing else.

The fault is found by the innermost parser. The parsers around it hand it on, with more
tokens before the place. Only the parser of a right operand puts another fault in its
stead, if its operand has not even begun: then the operator is to blame. An operand that
has begun stays to blame itself, however many operators wait around it.

Only a fault of too deep a nesting is left out. It has a token, as every other fault does, but that
is the one at which there was no room left, and it keeps no part of a tree.
-/

namespace YololChip

/-! ### Expressions are spelled to the last token -/

theorem Variable.lexeme_ne_endWord (v : Variable) : v.lexeme ≠ .keyword .endWord := by
  intro same
  have isName := v.nameOf?_lexeme
  rw [same] at isName
  contradiction

/-- No operator is written with the word that ends an if statement. -/
theorem BinaryOperator.marks_ne_endWord (op : BinaryOperator) :
    ∀ m ∈ op.marks, m.lexeme ≠ .keyword .endWord := by
  cases op <;> decide

/-- No operator on one operand is written with the word that ends an if statement. -/
theorem UnaryOperator.marks_ne_endWord (op : UnaryOperator) :
    ∀ m ∈ op.marks, m.lexeme ≠ .keyword .endWord := by
  cases op <;> decide

/-- No expression is written with the word that ends an if statement. -/
theorem Expr.marks_ne_endWord (e : Expr) : ∀ m ∈ e.marks, m.lexeme ≠ .keyword .endWord := by
  induction e with
  | number | text => simp [Expr.marks, Mark.apart]
  | var _ target => simp [Expr.marks, Mark.apart, target.lexeme_ne_endWord]
  | group _ inner inductionHypothesis =>
    intro m member
    simp only [Expr.marks, Mark.single, List.mem_append, List.mem_singleton] at member
    rcases member with (rfl | inside) | rfl
    · simp [Mark.apart]
    · exact inductionHypothesis m inside
    · simp [Mark.apart]
  | binary _ op _ _ left right =>
    intro m member
    simp only [Expr.marks, List.mem_append] at member
    rcases member with (inLeft | inSign) | inRight
    · exact left m inLeft
    · exact op.marks_ne_endWord m inSign
    · exact right m inRight
  | unary _ op operand inductionHypothesis =>
    intro m member
    have either : m ∈ op.marks ∨ m ∈ operand.marks := by
      rw [Expr.marks] at member
      split at member
      · exact (List.mem_append.mp member).symm
      · exact List.mem_append.mp member
    rcases either with inSign | inside
    · exact op.marks_ne_endWord m inSign
    · exact inductionHypothesis m inside

/-- Marks without the end of an if statement are covered by their own tokens and no others:
an else is passed over before an end only. -/
theorem Covers.exact {ms : List Mark} {ts : List Token} (covers : Covers ms ts)
    (noEnd : ∀ m ∈ ms, m.lexeme ≠ .keyword .endWord) : Spells ms ts := by
  induction covers with
  | nil => exact .nil
  | take same _ beside _ _ inductionHypothesis =>
    refine .cons same ?_ (inductionHypothesis fun m later => noEnd m (.tail _ later))
    intro joined
    obtain ⟨next, symbol, head, _, near⟩ := beside joined
    exact ⟨next, head, near⟩
  | skip _ isEnd rest =>
    obtain ⟨m, head, found⟩ := rest.head_of_end isEnd
    exact absurd found (noEnd m (List.mem_of_head? head))

/-- Whether an expression is what tokens are read as: they spell it, and it is grouped by
precedence alone. No other expression is spelled by the tokens and so grouped. -/
structure Expr.IsOf (e : Expr) (run : List Token) : Prop where
  spelled : Spells e.marks run
  leveled : e.Leveled

/-- Whether an if statement is what tokens are read as when its end is missing: with an end
behind them they spell it, but for the words that begin an else part without statements. -/
structure Stmt.IsOfOpen (s : Stmt) (run : List Token) : Prop where
  isBranch : ∃ loc condition body otherwise, s = .branch loc condition body otherwise
  spelled : ∀ closing : Token, closing.lexeme = .keyword .endWord →
    Spells s.marks (withoutEmptyElse (run ++ [closing]))
  leveled : s.Leveled

/-! ### First tokens -/

/-- Whether marks begin as a leveled expression does. A plus sign begins one only if two of
them step the variable behind them. -/
inductive OpensExpr : List Mark → Prop where
  | step (target : Variable) (rest : List Mark) :
      OpensExpr (Mark.pair .plus .plus ++ .apart target.lexeme :: rest)
  | other {m : Mark} {rest : List Mark} (begins : m.lexeme.beginsExpr = true)
      (noPlus : m.lexeme ≠ .symbol .plus) : OpensExpr (m :: rest)

/-- How marks begin does not depend on the marks behind them. Whether an expression begins is
seen at the first three marks at most. -/
theorem OpensExpr.append {ms : List Mark} (opens : OpensExpr ms) (more : List Mark) :
    OpensExpr (ms ++ more) := by
  cases opens with
  | step target rest => exact .step target (rest ++ more)
  | other begins noPlus => exact .other begins noPlus

/-- Behind two plus signs a leveled expression begins with a variable. No operator is written
with a plus sign before its operand but the step. -/
theorem Expr.exists_target {e : Expr}
    (steppable : e.isVariable = true ∨ e.isStepAfter = true) :
    ∃ (target : Variable) (rest : List Mark), e.marks = .apart target.lexeme :: rest := by
  rcases steppable with isVariable | isStep
  · cases e with
    | var _ target => exact ⟨target, [], rfl⟩
    | _ => contradiction
  · cases e with
    | unary _ op operand =>
      cases op with
      | postIncrement | postDecrement =>
        cases operand with
        | var _ target => exact ⟨target, _, rfl⟩
        | _ => contradiction
      | _ => contradiction
    | _ => contradiction

theorem Expr.Leveled.opensExpr {e : Expr} (leveled : e.Leveled) : OpensExpr e.marks := by
  induction e with
  | number | text | group => exact .other rfl (by simp [Mark.apart])
  | var _ target =>
    refine .other target.beginsExpr_lexeme fun same => ?_
    have isName := target.nameOf?_lexeme
    rw [show target.lexeme = .symbol .plus from same] at isName
    contradiction
  | binary _ op _ _ left _ =>
    rw [Expr.marks, List.append_assoc]
    exact (left leveled.1).append _
  | unary _ op operand inductionHypothesis =>
    cases op with
    | postIncrement | postDecrement | factorial =>
      exact (inductionHypothesis leveled.1).append _
    | preIncrement =>
      obtain ⟨target, rest, shape⟩ := Expr.exists_target leveled.2
      rw [Expr.marks, if_neg (by simp [UnaryOperator.isAfter]), shape]
      exact .step target rest
    | _ => exact .other rfl (by simp [Mark.apart])

namespace Grammar

/-- Whether an expression can begin at the front: with a number, a text, a variable, an open
parenthesis, a word that is an operator before its operand, a minus sign, or two plus signs
before a variable. It may still break off behind that. -/
def startsExpr (ts : List Token) : Bool :=
  match (front ts).lexeme with
  | .number _ | .text _ | .name _ | .field _ => true
  | .symbol .leftParen | .symbol .minus => true
  | .symbol .plus => isStepBefore .plus ts
  | .keyword k => k.unary?.isSome
  | _ => false

/-- A token that begins expressions, and is no plus sign, begins one here. -/
theorem startsExpr_of_beginsExpr {ts : List Token} (begins : (front ts).lexeme.beginsExpr = true)
    (noPlus : (front ts).lexeme ≠ .symbol .plus) : startsExpr ts = true := by
  unfold startsExpr
  cases found : (front ts).lexeme with
  | number | text | name | field => rfl
  | symbol s =>
    rw [found] at begins noPlus
    cases s with
    | leftParen | minus => rfl
    | plus => exact absurd rfl noPlus
    | _ => contradiction
  | keyword k =>
    rw [found] at begins
    exact begins
  | _ =>
    rw [found] at begins
    contradiction

theorem startsExpr_of_spells {ms : List Mark} {run : List Token} (opens : OpensExpr ms)
    (spelled : Spells ms run) (rest : List Token) : startsExpr (run ++ rest) = true := by
  cases opens with
  | step target more =>
    obtain _ | ⟨isPlus, beside, spelled⟩ := spelled
    obtain _ | ⟨isSecond, -, spelled⟩ := spelled
    obtain _ | ⟨isTarget, -, spelled⟩ := spelled
    obtain ⟨next, head, near⟩ := beside rfl
    obtain rfl := Option.some.inj head
    simp [startsExpr, isStepBefore, isPair, front, isPlus, isSecond, isTarget, near, Mark.apart,
      target.nameOf?_lexeme]
  | other begins noPlus =>
    cases spelled with
    | cons same =>
      apply startsExpr_of_beginsExpr
      · exact same ▸ begins
      · exact same ▸ noPlus

theorem not_isOf_of_blank {ts run : List Token} (blank : startsExpr ts = false)
    (stands : run <+: ts) (e : Expr) : ¬ e.IsOf run := by
  intro read
  obtain ⟨rest, rfl⟩ := stands
  rw [startsExpr_of_spells read.leveled.opensExpr read.spelled rest] at blank
  contradiction

/-! ### Faults and places -/

/-- Whether a fault is about the tokens before a place and the first token from there on.
What the fault keeps is what the last tokens before the place are read as, up to an
operator, behind an open parenthesis, or from the word that begins an if statement. -/
inductive Blames : ParseFault → (before here : List Token) → Prop where
  | unexpected {before here : List Token} (blank : startsExpr here = false) :
      Blames (.unexpected (front here).lexeme) before here
  | missingOperand {op : BinaryOperator} {left : Expr} {run sign here : List Token}
      (earlier : List Token) (read : left.IsOf run) (written : Spells op.marks sign)
      (blank : startsExpr here = false) :
      Blames (.missingOperand op left) (earlier ++ run ++ sign) here
  | unclosedGroup {inner : Expr} {opening : Token} {run here : List Token}
      (earlier : List Token) (isOpen : opening.lexeme = .symbol .leftParen)
      (read : inner.IsOf run) (unclosed : (front here).lexeme ≠ .symbol .rightParen) :
      Blames (.unclosedGroup inner) (earlier ++ opening :: run) here
  | missingThen {condition : Expr} {opening : Token} {run here : List Token}
      (earlier : List Token) (isIf : opening.lexeme = .keyword .ifWord)
      (read : condition.IsOf run) (noThen : (front here).lexeme ≠ .keyword .thenWord) :
      Blames (.missingThen condition) (earlier ++ opening :: run) here
  | missingEnd {s : Stmt} {run here : List Token} (earlier : List Token)
      (read : s.IsOfOpen run) (atEnd : (front here).lexeme.endsLine = true) :
      Blames (.missingEnd s) (earlier ++ run) here
  | repeatedElse {s : Stmt} {run here : List Token} (earlier : List Token)
      (read : s.IsOfOpen run) (isElse : (front here).lexeme = .keyword .elseWord) :
      Blames (.repeatedElse s) (earlier ++ run) here

/-- More tokens before the place change nothing: a fault is about the last ones. -/
theorem Blames.behind {fault : ParseFault} {before here : List Token}
    (blames : Blames fault before here) (more : List Token) :
    Blames fault (more ++ before) here := by
  cases blames with
  | unexpected blank => exact .unexpected blank
  | missingOperand earlier read written blank =>
    rw [← List.append_assoc, ← List.append_assoc]
    exact .missingOperand _ read written blank
  | unclosedGroup earlier isOpen read unclosed =>
    rw [← List.append_assoc]
    exact .unclosedGroup _ isOpen read unclosed
  | missingThen earlier isIf read noThen =>
    rw [← List.append_assoc]
    exact .missingThen _ isIf read noThen
  | missingEnd earlier read atEnd =>
    rw [← List.append_assoc]
    exact .missingEnd _ read atEnd
  | repeatedElse earlier read isElse =>
    rw [← List.append_assoc]
    exact .repeatedElse _ read isElse

/-- Whether the place at which a parser gave up accounts for its fault: the tokens before it are
of one line, and the fault is about them and the token at the place. -/
def Accounted (ts : List Token) (stuck : Stuck) : Prop :=
  ∃ before, ts = before ++ stuck.rest ∧ (∀ t ∈ before, t.lexeme.endsLine = false) ∧
    Blames stuck.fault before stuck.rest

/-- Whether a parser gives up at places that account for its faults, unless the fault is that
something nests too deeply. -/
def StopsWell {α : Type} (parser : Parser α) : Prop :=
  ∀ ⦃ts : List Token⦄ ⦃stuck : Stuck⦄, Scanned ts → parser ts = .error stuck →
    stuck.fault ≠ .tooDeep → Accounted ts stuck

/-- What accounts for a fault does so behind other tokens of the line. Only the last tokens
before the place are asked for. -/
theorem Accounted.append {used ts : List Token} {stuck : Stuck} (later : Accounted ts stuck)
    (inLine : ∀ t ∈ used, t.lexeme.endsLine = false) : Accounted (used ++ ts) stuck := by
  obtain ⟨before, rfl, laterInLine, blames⟩ := later
  refine ⟨used ++ before, (List.append_assoc _ _ _).symm, ?_, blames.behind used⟩
  exact List.forall_mem_append.mpr ⟨inLine, laterInLine⟩

/-- What accounts for a fault does so behind marks that were taken before. -/
theorem Accounted.behind {ms : List Mark} {ts between : List Token} {stuck : Stuck}
    (later : Accounted between stuck) (takes : Takes ms ts between) : Accounted ts stuck := by
  obtain ⟨used, rfl, covers⟩ := takes
  exact later.append covers.inLine

/-- What accounts for a fault does so behind a token that was passed. -/
theorem Accounted.behindFront {lexeme : Lexeme} {ts : List Token} {stuck : Stuck}
    (later : Accounted (ts.drop 1) stuck) (found : (front ts).lexeme = lexeme)
    (inLine : lexeme.endsLine = false) : Accounted ts stuck := by
  obtain ⟨first, rest, rfl, same⟩ := Takes.exists_of_front found inLine
  have alone : ∀ t ∈ [first], t.lexeme.endsLine = false := by simp [same, inLine]
  exact later.append alone

/-- An expression that was read is what its tokens are read as. There is no word of an else part
in it that would be passed over. -/
theorem ReadsExpr.exists_isOf {level : Nat} {e : Expr} {ts rest : List Token}
    (read : ReadsExpr level e ts rest) :
    ∃ run, ts = run ++ rest ∧ (∀ t ∈ run, t.lexeme.endsLine = false) ∧ e.IsOf run := by
  obtain ⟨run, shape, covers⟩ := read.takes
  exact ⟨run, shape, covers.inLine, covers.exact e.marks_ne_endWord, read.leveled⟩

/-- An expression that was read behind a token is what the tokens behind it are read as. -/
theorem ReadsExpr.exists_opening {level : Nat} {e : Expr} {lexeme : Lexeme}
    {ts rest : List Token} (read : ReadsExpr level e (ts.drop 1) rest)
    (found : (front ts).lexeme = lexeme) (inLine : lexeme.endsLine = false) :
    ∃ opening run, ts = opening :: run ++ rest ∧ opening.lexeme = lexeme ∧
      (∀ t ∈ opening :: run, t.lexeme.endsLine = false) ∧ e.IsOf run := by
  obtain ⟨opening, tail, rfl, same⟩ := Takes.exists_of_front found inLine
  obtain ⟨run, shape, runInLine, isOf⟩ := read.exists_isOf
  refine ⟨opening, run, congrArg (opening :: ·) shape, same, ?_, isOf⟩
  exact List.forall_mem_cons.mpr ⟨same ▸ inLine, runInLine⟩

/-- Nothing that nests too deeply is read at depth zero, and no other fault arises there. -/
theorem stopsWell_tooDeep {α : Type} : StopsWell (stop .tooDeep : Parser α) := by
  intro ts stuck _ failed shallow
  obtain rfl := Except.error.inj failed
  exact absurd rfl shallow

/-! ### Operators without right operands -/

/-- Where something unexpected is the very first token, no expression begins. Then nothing of
the part was read yet. -/
theorem Accounted.blank {ts : List Token} {stuck : Stuck} {lexeme : Lexeme}
    (accounted : Accounted ts stuck) (isUnexpected : stuck.fault = .unexpected lexeme)
    (unbegun : stuck.rest.length = ts.length) :
    stuck.rest = ts ∧ startsExpr stuck.rest = false := by
  obtain ⟨before, shape, -, blames⟩ := accounted
  constructor
  · have sameLength := congrArg List.length shape
    rw [List.length_append, unbegun] at sameLength
    have nothing : before = [] := List.eq_nil_of_length_eq_zero (by omega)
    rw [shape, nothing, List.nil_append]
  · rw [isUnexpected] at blames
    cases blames with
    | unexpected blank => exact blank

/-- An operator behind which no expression begins lacks its right operand. What stands before
it is its left one. -/
theorem ReadsExpr.accounted_missing {level : Nat} {op : BinaryOperator} {left : Expr}
    {start between ts : List Token} (soFar : ReadsExpr level left start between)
    (takesOp : Takes op.marks between ts) (blank : startsExpr ts = false) :
    Accounted start ⟨.missingOperand op left, ts⟩ := by
  obtain ⟨run, rfl, inLine, read⟩ := soFar.exists_isOf
  obtain ⟨sign, rfl, covers⟩ := takesOp
  refine ⟨[] ++ run ++ sign, (List.append_assoc _ _ _).symm, ?_, ?_⟩
  · exact List.forall_mem_append.mpr ⟨inLine, covers.inLine⟩
  · exact .missingOperand [] read (covers.exact op.marks_ne_endWord) blank

/-- A right operand that has not begun is the fault of its operator. One that has begun has
its own fault.

Proof: a fault at the first token of the operand was found before anything was read, so
the tokens right before it are those of the operator. -/
theorem accounted_rightOperand {level : Nat} {operand : Parser Expr} {op : BinaryOperator}
    {left : Expr} {start between ts : List Token} {stuck : Stuck} (stops : StopsWell operand)
    (scanned : Scanned ts) (soFar : ReadsExpr level left start between)
    (takesOp : Takes op.marks between ts)
    (failed : rightOperand operand op left ts = .error stuck)
    (shallow : stuck.fault ≠ .tooDeep) : Accounted start stuck := by
  have handedOn {found : Stuck} (here : operand ts = .error found)
      (shallow : found.fault ≠ .tooDeep) : Accounted start found :=
    (stops scanned here shallow).behind (soFar.takes.append takesOp)
  unfold rightOperand at failed
  split at failed
  · contradiction
  · next found here =>
    split at failed
    · next lexeme isUnexpected =>
      split at failed
      · next unbegun =>
        obtain rfl := Except.error.inj failed
        have accounted := stops scanned here (by rw [isUnexpected]; exact ParseFault.noConfusion)
        obtain ⟨atStart, blank⟩ := accounted.blank isUnexpected unbegun
        rw [atStart] at blank ⊢
        exact soFar.accounted_missing takesOp blank
      · obtain rfl := Except.error.inj failed
        exact handedOn here shallow
    · obtain rfl := Except.error.inj failed
      exact handedOn here shallow

/-! ### Chains -/

/-- A chain that cannot be read to its end accounts for its fault.

Proof: induction over the operators that may follow. The expression so far is the left
operand of the operator at which the chain is stuck. -/
theorem accounted_chain {sheet : Sheet} {operand : Parser Expr} {found : Matcher} {level : Nat}
    (sound : Sound (level + 1) operand) (stops : StopsWell operand) (finds : Finds level found)
    {start ts most : List Token} {left : Expr} {stuck : Stuck} (scanned : Scanned start)
    (soFar : ReadsExpr level left start ts)
    (failed : chain sheet operand found most left ts = .error stuck)
    (shallow : stuck.fault ≠ .tooDeep) : Accounted start stuck := by
  induction most generalizing left ts with
  | nil => contradiction
  | cons _ most inductionHypothesis =>
    obtain ⟨op, width, here, givenUp⟩ := chain_cons_eq_error.mp failed
    obtain ⟨isLevel, noPow, takesOp⟩ := finds here
    have scannedBehind := scanned_of_takes takesOp (scanned_of_takes soFar.takes scanned)
    rcases givenUp with stuckRight | ⟨right, behind, readRight, failedLater⟩
    · exact accounted_rightOperand stops scannedBehind soFar takesOp stuckRight shallow
    · have rightRead := sound scannedBehind readRight
      exact inductionHypothesis (soFar.binary isLevel noPow takesOp rightRead) failedLater

/-- What is known of a parser of expressions: it reads what was written, and where it cannot,
the place accounts for the fault. The two are carried up the levels together, since the fault of
one operand is about the operands that were read before. -/
structure Trusted (level : Nat) (parser : Parser Expr) : Prop where
  sound : Sound level parser
  stops : StopsWell parser

/-- The operators of a level may stand between operands that can be trusted. A right operand
that is missing is blamed on its operator. -/
theorem Trusted.level {sheet : Sheet} {operand : Parser Expr} {found : Matcher} {level : Nat}
    (trusted : Trusted (level + 1) operand) (finds : Finds level found) :
    Trusted level (Grammar.level sheet operand found) where
  sound := sound_level trusted.sound finds
  stops := by
    intro ts stuck scanned failed shallow
    rcases level_eq_error.mp failed with stuckLeft | ⟨left, behind, readLeft, failedLater⟩
    · exact trusted.stops scanned stuckLeft shallow
    · have soFar := (trusted.sound scanned readLeft).loosen
      exact accounted_chain trusted.sound trusted.stops finds scanned soFar failedLater shallow

/-! ### Operands -/

/-- Whether the parsers one level down account for their faults. -/
structure NestedStops (nested : Nested) : Prop where
  expression : StopsWell nested.expression
  power : StopsWell nested.power
  signed : StopsWell nested.signed

theorem stepped_ne_error {sheet : Sheet} {name : String} (ts : List Token) (stuck : Stuck) :
    stepped sheet name ts ≠ .error stuck := by
  unfold stepped
  simp only
  split
  · simp
  · split <;> simp

/-- Where neither an operand nor an operator before one stands, no expression begins. -/
theorem startsExpr_of_matchSign {ts : List Token} (noSign : matchSign ts = none)
    (noNumber : ∀ value, (front ts).lexeme ≠ .number value)
    (noText : ∀ value, (front ts).lexeme ≠ .text value)
    (noName : ∀ name, (front ts).lexeme ≠ .name name)
    (noField : ∀ name, (front ts).lexeme ≠ .field name)
    (noGroup : (front ts).lexeme ≠ .symbol .leftParen) : startsExpr ts = false := by
  unfold matchSign at noSign
  unfold startsExpr
  cases found : (front ts).lexeme with
  | number value => exact absurd found (noNumber value)
  | text value => exact absurd found (noText value)
  | name name => exact absurd found (noName name)
  | field name => exact absurd found (noField name)
  | keyword k =>
    rw [found] at noSign
    have unmatched : k.unary? = none := Option.map_eq_none_iff.mp noSign
    simp only [unmatched, Option.isSome_none]
  | symbol s =>
    rw [found] at noSign
    cases s with
    | leftParen => exact absurd found noGroup
    | minus =>
      simp only at noSign
      split at noSign <;> contradiction
    | plus =>
      simp only at noSign ⊢
      split at noSign
      · contradiction
      · next noStep => exact Bool.not_eq_true _ ▸ noStep
    | _ => rfl
  | _ => rfl

/-- A group that is not closed keeps its inside, and anything but an operand is unexpected. -/
theorem accounted_operand {sheet : Sheet} {nested : Nested} (inner : NestedSound nested)
    (innerStops : NestedStops nested) {ts : List Token} {stuck : Stuck} (scanned : Scanned ts)
    (noSign : matchSign ts = none) (failed : operand sheet nested ts = .error stuck)
    (shallow : stuck.fault ≠ .tooDeep) : Accounted ts stuck := by
  unfold operand at failed
  simp only at failed
  split at failed
  · contradiction
  · contradiction
  · exact absurd failed (stepped_ne_error _ _)
  · exact absurd failed (stepped_ne_error _ _)
  · next isOpen =>
    have takesOpen := takes_single isOpen
    split at failed
    · next stuckInside =>
      obtain rfl := Except.error.inj failed
      exact (innerStops.expression scanned.drop_one stuckInside shallow).behind takesOpen
    · next body behind readBody =>
      have bodyRead := inner.expression scanned.drop_one readBody
      split at failed
      · contradiction
      · next unclosed =>
        obtain rfl := Except.error.inj failed
        obtain ⟨opening, run, shape, opens, inLine, read⟩ := bodyRead.exists_opening isOpen rfl
        exact ⟨opening :: run, shape, inLine, .unclosedGroup [] opens read unclosed⟩
  · next noNumber noText noName noField noGroup =>
    obtain rfl := Except.error.inj failed
    exact ⟨[], rfl, by simp, .unexpected
      (startsExpr_of_matchSign noSign noNumber noText noName noField noGroup)⟩

/-! ### Signs and powers -/

/-- A word or a sign hands on the fault of its operand, which has begun with it. -/
theorem stopsWell_signed {sheet : Sheet} {nested : Nested} (inner : NestedSound nested)
    (innerStops : NestedStops nested) : StopsWell (signed sheet nested) := by
  intro ts stuck scanned failed shallow
  unfold signed at failed
  split at failed
  · next noSign => exact accounted_operand inner innerStops scanned noSign failed shallow
  · next op width found =>
    have sign := finds_matchSign found
    split at failed
    · next stuckInside =>
      obtain rfl := Except.error.inj failed
      have later := innerStops.signed (scanned_of_takes sign.takes scanned) stuckInside shallow
      exact later.behind sign.takes
    · contradiction

/-- A power without exponent is the fault of its sign, as any operator's. -/
theorem stopsWell_power {sheet : Sheet} {nested : Nested} (inner : NestedSound nested)
    (innerStops : NestedStops nested) : StopsWell (power sheet nested) := by
  intro ts stuck scanned failed shallow
  unfold power at failed
  split at failed
  · next stuckBase =>
    obtain rfl := Except.error.inj failed
    exact stopsWell_signed inner innerStops scanned stuckBase shallow
  · next base behind readBase =>
    have soFar := (sound_signed inner scanned readBase).loosen
    have leftRead : ReadsExpr 8 (factorials sheet base behind).1 ts _ := reads_factorials soFar
    simp only at failed
    split at failed
    · next isCaret =>
      have sign : Takes BinaryOperator.pow.marks (factorials sheet base behind).2
        ((factorials sheet base behind).2.drop 1) := takes_single isCaret
      split at failed
      · next stuckRight =>
        obtain rfl := Except.error.inj failed
        have scannedBehind := scanned_of_takes sign (scanned_of_takes leftRead.takes scanned)
        exact accounted_rightOperand innerStops.power scannedBehind leftRead sign stuckRight
          shallow
      · contradiction
    · contradiction

/-! ### Expressions -/

/-- An expression of any level accounts for its fault where it cannot be read. -/
theorem trusted_expressionOver {sheet : Sheet} {nested : Nested} (inner : NestedSound nested)
    (innerStops : NestedStops nested) : Trusted 1 (expressionOver sheet nested) := by
  have powers : Trusted 7 (power sheet nested) :=
    ⟨sound_power inner, stopsWell_power inner innerStops⟩
  have product : Trusted 6 (level sheet _ matchProduct) := powers.level finds_matchProduct
  have sum : Trusted 5 (level sheet _ matchSum) := product.level finds_matchSum
  have comparison : Trusted 4 (level sheet _ matchComparison) := sum.level finds_matchComparison
  have equality : Trusted 3 (level sheet _ matchEquality) :=
    comparison.level finds_matchEquality
  have conjunction : Trusted 2 (level sheet _ matchAnd) := equality.level finds_matchAnd
  exact conjunction.level finds_matchOr

/-- What nests accounts for its faults at every depth.

Proof: induction over the depth. At depth zero everything nests too deeply. -/
theorem nestedStops (sheet : Sheet) (depth : Nat) : NestedStops (nested sheet depth) := by
  induction depth with
  | zero => exact ⟨stopsWell_tooDeep, stopsWell_tooDeep, stopsWell_tooDeep⟩
  | succ depth innerStops =>
    have inner := nestedSound sheet depth
    constructor
    · exact (trusted_expressionOver inner innerStops).stops
    · exact stopsWell_power inner innerStops
    · exact stopsWell_signed inner innerStops

/-- An expression that cannot be read accounts for its fault. -/
theorem stopsWell_expression (sheet : Sheet) : StopsWell (expression sheet) :=
  (nestedStops sheet nestingLimit).expression

end Grammar

end YololChip
