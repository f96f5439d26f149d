import YololChip.Proofs.VariableSteps

/-!
# Compound assignments

A compound assignment does what the assignment does that its operator is short for. The two read
their variable at different times, the short form behind the expression and the long one before it.
Nothing comes of that if the expression does not step the variable, for then the variable reads the
same at both times. The operator is applied to the same values, and a refusal has the same cause.

The long form takes one level more to evaluate. An expression that already takes as many as there
are has no room in it: the short form may still be done, and the long one fails. One that takes
more yet fails in both, but perhaps in different ways and at different places.
-/

namespace YololChip

/-! ### Room -/

/-- How many levels it takes to evaluate an expression. A step takes one level whatever it stands
beside, because what it is applied to is not evaluated. -/
def Expr.levels : Expr → Nat
  | number _ _ | text _ _ | var _ _ => 1
  | group _ inner => inner.levels + 1
  | binary _ _ left right => max left.levels right.levels + 1
  | unary _ op operand => if op.isStep then 1 else operand.levels + 1

namespace Evaluate

/-- The outcome of an expression that has room for its levels is the same with room for one level
more.

Proof: induction over the depth. An operand that ran out of room is the end of all around it, and
any other goes on with the same outcome as before. -/
theorem expression_succ_or_tooDeep (ops : Operators) (depth : Nat) (e : Expr) (chip : Chip) :
    expression ops (depth + 1) e chip = expression ops depth e chip ∨
      depth < e.levels ∧
        ∃ after, expression ops depth e chip = (.error ⟨.tooDeep, none, none⟩, after) := by
  induction depth generalizing e chip with
  | zero =>
    refine .inr ⟨?_, chip, rfl⟩
    cases e with
    | unary loc op operand =>
      rw [Expr.levels]
      split <;> omega
    | _ => simp [Expr.levels]
  | succ depth inductionHypothesis =>
    cases e with
    | number | text | var => exact .inl rfl
    | group _ inner =>
      rcases inductionHypothesis inner chip with same | ⟨deep, after, failed⟩
      · exact .inl same
      · exact .inr ⟨Nat.succ_lt_succ deep, after, failed⟩
    | binary loc op left right =>
      rw [expression_binary, expression_binary]
      rcases inductionHypothesis left chip with same | ⟨deep, after, failed⟩
      · rw [same]
        rcases expression ops depth left chip with ⟨error | a, mid⟩
        · exact .inl rfl
        · rcases inductionHypothesis right mid with same | ⟨deep, after, failed⟩
          · exact .inl (by simp only [Ended.andThen, same])
          · refine .inr ⟨?_, after, by simp only [Ended.andThen, failed]⟩
            exact Nat.succ_lt_succ (Nat.lt_of_lt_of_le deep (Nat.le_max_right _ _))
      · refine .inr ⟨?_, after, by rw [failed]; rfl⟩
        exact Nat.succ_lt_succ (Nat.lt_of_lt_of_le deep (Nat.le_max_left _ _))
    | unary loc op operand =>
      cases isStep : op.isStep with
      | false =>
        rw [expression_unary _ _ _ isStep, expression_unary _ _ _ isStep]
        rcases inductionHypothesis operand chip with same | ⟨deep, after, failed⟩
        · exact .inl (by rw [same])
        · refine .inr ⟨?_, after, by rw [failed]; rfl⟩
          rw [Expr.levels, if_neg (by simp [isStep])]
          exact Nat.succ_lt_succ deep
      | true =>
        cases operand with
        | var place target =>
          exact .inl (by rw [expression_step _ _ _ _ isStep, expression_step _ _ _ _ isStep])
        | _ =>
          exact .inl (by rw [expression_step_other _ _ _ isStep (by simp),
            expression_step_other _ _ _ isStep (by simp)])

/-- An expression that takes more levels than it may has no value: it fails at the level that is one
too many, or before it is reached.

Proof: induction over the depth. One of the operands takes too many levels for what is left, and
those before it fail or go on to it. -/
theorem exists_error_of_levels (ops : Operators) {depth : Nat} {e : Expr} (deep : depth < e.levels)
    (chip : Chip) : ∃ error after, expression ops depth e chip = (.error error, after) := by
  induction depth generalizing e chip with
  | zero => exact ⟨_, _, rfl⟩
  | succ depth inductionHypothesis =>
    cases e with
    | number | text | var => exact absurd deep (by simp [Expr.levels])
    | group _ inner => exact inductionHypothesis (Nat.lt_of_succ_lt_succ deep) chip
    | binary loc op left right =>
      rw [expression_binary]
      rcases evaluated : expression ops depth left chip with ⟨error | a, mid⟩
      · exact ⟨error, mid, rfl⟩
      · have deepRight : depth < right.levels := by
          rw [Expr.levels] at deep
          by_cases deepLeft : depth < left.levels
          · obtain ⟨error, after, failed⟩ := inductionHypothesis deepLeft chip
            cases evaluated.symm.trans failed
          · omega
        obtain ⟨error, after, failed⟩ := inductionHypothesis deepRight mid
        exact ⟨error, after, by simp only [Ended.andThen, failed]⟩
    | unary loc op operand =>
      cases isStep : op.isStep with
      | false =>
        rw [Expr.levels, if_neg (by simp [isStep])] at deep
        obtain ⟨error, after, failed⟩ := inductionHypothesis (Nat.lt_of_succ_lt_succ deep) chip
        rw [expression_unary _ _ _ isStep]
        exact ⟨error, after, by rw [failed]; rfl⟩
      | true =>
        rw [Expr.levels, if_pos isStep] at deep
        omega

/-- A variable that an expression does not step reads behind the expression as it did before it. -/
theorem read_of_not_mem_stepped {ops : Operators} {depth : Nat} {e : Expr} {target : Variable}
    (untouched : target ∉ e.stepped) {chip after : Chip} {result : Except EvalError Value}
    (evaluated : expression ops depth e chip = (result, after)) :
    after.read target = chip.read target := by
  have differs : chip.DiffersAt e.stepped (expression ops depth e chip).2 :=
    e.map_target_steps ▸ (expression_takes e depth chip).differsAt
  have kept := differs.keeps target untouched
  rw [evaluated] at kept
  rw [Chip.read, Chip.read, kept]

end Evaluate

/-! ### What is done -/

/-- The assignment that a compound assignment is short for. Its operator and the variable that
it reads have locations of their own, which the short form has nothing for. -/
def Stmt.expanded (loc inner place : Option Location) (target : Variable) (op : BinaryOperator)
    (value : Expr) : Stmt :=
  .assign loc (.var place target) .assign (.binary inner op (.var place target) value)

namespace Effect

/-- Whether two effects agree: both are done, or both fail for the same cause, and they leave the
same chip. -/
inductive Agree : Effect → Effect → Prop where
  | done (chip : Chip) : Agree (.ok none, chip) (.ok none, chip)
  | failed {first second : EvalError} (same : first.cause = second.cause) (chip : Chip) :
    Agree (.error first, chip) (.error second, chip)

variable (ops : Operators)

/-- The long form reads its variable first and evaluates the expression with one level less of
room. -/
theorem ofStatement_expanded (loc inner place : Option Location) (target : Variable)
    (op : BinaryOperator) (value : Expr) (chip : Chip) :
    ofStatement ops (.expanded loc inner place target op value) chip =
      Ended.andThen (Evaluate.expression ops (Grammar.nestingLimit - 1) value chip) fun b mid =>
        Ended.andThen (Evaluate.at? inner (ops.applyBinary op (chip.read target) b) mid)
          (store ops loc target .assign) := by
  have inside : Grammar.nestingLimit = Grammar.nestingLimit - 1 + 1 := rfl
  have isRead : Evaluate.expression ops (Grammar.nestingLimit - 1) (.var place target) chip =
      (.ok (chip.read target), chip) := rfl
  rw [Stmt.expanded, ofStatement, evaluate, inside, Evaluate.expression_binary, ← inside, isRead]
  dsimp only [Ended.andThen]
  rcases Evaluate.expression ops (Grammar.nestingLimit - 1) value chip with ⟨error | b, mid⟩
  · rfl
  · rfl

/-- A compound assignment does what its long form does, if its expression does not step the
variable, or the long form has no room for the expression and fails for want of it. -/
theorem agree_or_tooDeep {op : AssignOperator} {binary : BinaryOperator}
    (compound : op.binary? = some binary) {target : Variable} {e : Expr}
    (untouched : target ∉ e.stepped) (loc place outer inner other : Option Location)
    (chip : Chip) :
    Agree (ofStatement ops (.assign loc (.var place target) op e) chip)
        (ofStatement ops (.expanded outer inner other target binary e) chip) ∨
      Grammar.nestingLimit ≤ e.levels ∧
        ∃ after, ofStatement ops (.expanded outer inner other target binary e) chip =
          (.error ⟨.tooDeep, none, none⟩, after) := by
  rw [ofStatement_expanded]
  rcases Evaluate.expression_succ_or_tooDeep ops (Grammar.nestingLimit - 1) e chip with
    same | ⟨deep, after, failed⟩
  case inr => exact .inr ⟨Nat.le_of_pred_lt deep, after, by rw [failed]; rfl⟩
  have short : ofStatement ops (.assign loc (.var place target) op e) chip =
      Ended.andThen (Evaluate.expression ops (Grammar.nestingLimit - 1) e chip)
        (store ops loc target op) := by
    rw [← same]
    rfl
  rw [short]
  left
  rcases evaluated : Evaluate.expression ops (Grammar.nestingLimit - 1) e chip with
    ⟨error | b, mid⟩
  · exact .failed rfl mid
  · have stays := Evaluate.read_of_not_mem_stepped untouched evaluated
    simp only [Ended.andThen, store, compound, stays]
    cases ops.applyBinary binary (chip.read target) b with
    | error cause =>
      refine .failed ?_ mid
      rfl
    | ok value => exact .done (mid.write target value)

/-- Whether an effect is that of a failure. Nothing is said of the cause, or of the chip that is
left. -/
def Fails (effect : Effect) : Prop := ∃ error after, effect = (.error error, after)

/-- A compound assignment fails if its expression takes more levels than there are. -/
theorem fails_compound {e : Expr} (deep : Grammar.nestingLimit < e.levels)
    (loc place : Option Location) (target : Variable) (op : AssignOperator) (chip : Chip) :
    (ofStatement ops (.assign loc (.var place target) op e) chip).Fails := by
  obtain ⟨error, after, failed⟩ := Evaluate.exists_error_of_levels ops deep chip
  refine ⟨error, after, ?_⟩
  rw [ofStatement, evaluate, failed]
  rfl

/-- Its long form fails if the expression takes all levels that there are. -/
theorem fails_expanded {e : Expr} (deep : Grammar.nestingLimit ≤ e.levels)
    (outer inner other : Option Location) (target : Variable) (binary : BinaryOperator)
    (chip : Chip) : (ofStatement ops (.expanded outer inner other target binary e) chip).Fails := by
  have noRoom : Grammar.nestingLimit - 1 < e.levels := Nat.lt_of_lt_of_le (by decide) deep
  obtain ⟨error, after, failed⟩ := Evaluate.exists_error_of_levels ops noRoom chip
  refine ⟨error, after, ?_⟩
  rw [ofStatement_expanded, failed]
  rfl

end Effect

/-- A run that shows an effect ends as it does and leaves its chip. The two are all that an
effect says of a run. -/
theorem Effect.Shows.eq {ω : Type} {effect : Effect} {run : Ending × Machine ω}
    (shows : effect.Shows run) : run.1 = Effect.ending effect.1 ∧ run.2.chip = effect.2 := by
  cases shows
  exact ⟨rfl, rfl⟩

namespace Interpreter

variable {ω : Type}

/-- Whether two runs agree: both are done, or both fail with faults of the same class and text, and
they leave the same chip. -/
inductive Agree : Ending × Machine ω → Ending × Machine ω → Prop where
  | done {m n : Machine ω} (chip : m.chip = n.chip) : Agree (.done, m) (.done, n)
  | failed {first second : EvalError} {m n : Machine ω} (cause : first.cause = second.cause)
      (shown : (Fault.eval first).shown = (Fault.eval second).shown) (chip : m.chip = n.chip) :
    Agree (.failed (.eval first), m) (.failed (.eval second), n)

/-- Whether a run fails by a fault of its own, for whatever cause. A fault that an observer
raises does not count. -/
def EndsFailed (run : Ending × Machine ω) : Prop := ∃ error, run.1 = .failed (.eval error)

/-- Whether a run fails because it would have to go too deep. No location is given for that, and
no step. -/
def EndsTooDeep (run : Ending × Machine ω) : Prop :=
  run.1 = .failed (.eval ⟨.tooDeep, none, none⟩)

/-- How a run of a compound assignment with an expression and one of its long form compare. They
agree, unless the long form fails for want of a level. That does not come to pass if the expression
has room for one level more. If it takes all levels that there are, the long form fails in any case;
and if it takes more, both fail. -/
structure Expands (e : Expr) (short long : Ending × Machine ω) : Prop where
  agree_or_tooDeep : Agree short long ∨ EndsTooDeep long
  within : e.levels < Grammar.nestingLimit → Agree short long
  atLimit : Grammar.nestingLimit ≤ e.levels → EndsFailed long
  beyond : Grammar.nestingLimit < e.levels → EndsFailed short

/-- Faults of one cause have the same class and the same text. Neither names the place of the
fault. -/
theorem shown_of_cause {first second : EvalError} (same : first.cause = second.cause) :
    (Fault.eval first).shown = (Fault.eval second).shown := by
  simp only [Fault.shown, Fault.title, Fault.message, EvalError.message, same]

theorem agree_of_shows {a b : Effect} {first second : Ending × Machine ω} (agree : a.Agree b)
    (shows : a.Shows first) (showsToo : b.Shows second) : Agree first second := by
  obtain ⟨ends, m⟩ := first
  obtain ⟨endsToo, n⟩ := second
  obtain ⟨rfl, left⟩ : ends = Effect.ending a.1 ∧ m.chip = a.2 := shows.eq
  obtain ⟨rfl, leftToo⟩ : endsToo = Effect.ending b.1 ∧ n.chip = b.2 := showsToo.eq
  cases agree with
  | done chip => exact .done (left.trans leftToo.symm)
  | failed same chip => exact .failed same (shown_of_cause same) (left.trans leftToo.symm)

theorem endsFailed_of_shows {effect : Effect} {run : Ending × Machine ω} (fails : effect.Fails)
    (shows : effect.Shows run) : EndsFailed run := by
  obtain ⟨error, after, rfl⟩ := fails
  exact ⟨error, shows.eq.1⟩

/-- Runs of a compound assignment and of its long form compare by the levels of the expression, if
they show the effects of the two statements. -/
theorem expands_of_shows {op : AssignOperator} {binary : BinaryOperator}
    (compound : op.binary? = some binary) {target : Variable} {e : Expr}
    (untouched : target ∉ e.stepped) (ops : Operators)
    (loc place outer inner other : Option Location) {chip : Chip} {short long : Ending × Machine ω}
    (shows : (Effect.ofStatement ops (.assign loc (.var place target) op e) chip).Shows short)
    (showsToo : (Effect.ofStatement ops (.expanded outer inner other target binary e) chip).Shows
      long) :
    Expands e short long := by
  have compared :=
    Effect.agree_or_tooDeep ops compound untouched loc place outer inner other chip
  exact {
    agree_or_tooDeep := by
      rcases compared with agree | ⟨_, after, failed⟩
      · exact .inl (agree_of_shows agree shows showsToo)
      · exact .inr (by rw [EndsTooDeep, showsToo.eq.1, failed]; rfl)
    within := fun room =>
      agree_of_shows (compared.resolve_right fun tooDeep => Nat.not_le_of_lt room tooDeep.1)
        shows showsToo
    atLimit := fun deep => endsFailed_of_shows
      (Effect.fails_expanded ops deep outer inner other target binary chip) showsToo
    beyond := fun deep => endsFailed_of_shows
      (Effect.fails_compound ops deep loc place target op chip) shows }

/-- The number one in so many groups. It has the value of the number, and takes as many levels
as one likes. -/
def grouped : Nat → Expr
  | 0 => .number none .one
  | count + 1 => .group none (grouped count)

/-- Groups take a level each, and there is one number in them. -/
theorem levels_grouped (count : Nat) : (grouped count).levels = count + 1 := by
  induction count with
  | zero => rfl
  | succ count inductionHypothesis => rw [grouped, Expr.levels, inductionHypothesis]

/-- Groups have the value of what is in them, if there is a level for each and one for the
number. -/
theorem expression_grouped (ops : Operators) (count : Nat) (chip : Chip) :
    Evaluate.expression ops (count + 1) (grouped count) chip = (.ok (.num .one), chip) := by
  induction count with
  | zero => rfl
  | succ count inductionHypothesis => exact inductionHypothesis

theorem stepped_grouped (count : Nat) : (grouped count).stepped = [] := by
  induction count with
  | zero => rfl
  | succ count inductionHypothesis => exact inductionHypothesis

end Interpreter

end YololChip
