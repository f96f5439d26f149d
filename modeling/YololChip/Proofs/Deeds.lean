import YololChip.Proofs.Locality

/-!
# Deeds

What is done to the variables of a chip, one thing after the other. A variable is set, by its name
from outside or by a line that assigns to it or steps it; or the variables of the chip are
forgotten, and data fields stay.

Each function that runs something has one beside it that lists its deeds. What it leaves is what
its deeds leave, done in turn on the chip that it started from, and it sets variables only that
it mentions.
-/

namespace YololChip

/-- What is done to the variables of a chip. Everything that a run does to them is a row of
these: it sets one variable, or forgets those of the chip. -/
inductive Deed where
  | set (v : Variable) (value : Value)
  | forget

/-- Whether a deed sets one of some variables. Forgetting sets none, so a row of deeds that all
set has no forgetting in it. -/
def Deed.Sets (vs : List Variable) : Deed → Prop
  | set v _ => v ∈ vs
  | forget => False

namespace Chip

def after (chip : Chip) : Deed → Chip
  | .set v value => chip.write v value
  | .forget => chip.resetLocals

def afterAll (chip : Chip) (deeds : List Deed) : Chip := deeds.foldl after chip

theorem afterAll_append (chip : Chip) (first second : List Deed) :
    chip.afterAll (first ++ second) = (chip.afterAll first).afterAll second :=
  List.foldl_append

theorem SameVariables.afterAll {a b : Chip} (same : SameVariables a b) (deeds : List Deed) :
    SameVariables (a.afterAll deeds) (b.afterAll deeds) := by
  induction deeds generalizing a b with
  | nil => exact same
  | cons deed rest inductionHypothesis =>
    cases deed with
    | set v value => exact inductionHypothesis (same.write v value)
    | forget => exact inductionHypothesis ⟨rfl, same.fields⟩

end Chip

namespace Ended

variable {α β : Type}

/-- Whether work leaves the variables as deeds do, and these set some variables only. The line
and the error of the chip are left out; they have laws of their own. -/
structure DoneBy (vs : List Variable) (chip : Chip) (deeds : List Deed) (ended : Ended α) :
    Prop where
  same : ended.2.SameVariables (chip.afterAll deeds)
  sets : ∀ deed ∈ deeds, deed.Sets vs

variable {vs : List Variable} {chip : Chip}

/-- What has the variables that it started from is done by no deeds. -/
theorem DoneBy.nothing {ended : Ended α} (same : ended.2.SameVariables chip) :
    ended.DoneBy vs chip [] :=
  ⟨same, fun _ member => absurd member List.not_mem_nil⟩

theorem DoneBy.one {v : Variable} (mentioned : v ∈ vs) (value : Value)
    (result : Except EvalError α) : DoneBy vs chip [.set v value] (result, chip.write v value) := by
  refine ⟨.refl _, ?_⟩
  intro deed member
  rw [List.mem_singleton.mp member]
  exact mentioned

/-- What goes on with a result is done by the deeds of both parts. Those of the second part
start from the chip that the first one left. -/
theorem DoneBy.andThen {deeds : List Deed} {ended : Ended α} (done : ended.DoneBy vs chip deeds)
    {next : α → Chip → Ended β} {deedsOf : α → Chip → List Deed}
    (goesOn : ∀ result mid, (next result mid).DoneBy vs mid (deedsOf result mid)) :
    (Ended.andThen ended next).DoneBy vs chip (deeds ++ ended.listThen deedsOf) := by
  obtain ⟨result, mid⟩ := ended
  cases result with
  | error error =>
    rw [listThen, List.append_nil]
    exact ⟨done.same, done.sets⟩
  | ok result =>
    have later := goesOn result mid
    constructor
    · rw [Chip.afterAll_append]
      exact later.same.trans (done.same.afterAll _)
    · intro deed member
      rcases List.mem_append.mp member with before | behind
      · exact done.sets deed before
      · exact later.sets deed behind

theorem DoneBy.andThen_same {deeds : List Deed} {ended : Ended α}
    (done : ended.DoneBy vs chip deeds) {next : α → Chip → Ended β}
    (same : ∀ result mid, (next result mid).2.SameVariables mid) :
    (Ended.andThen ended next).DoneBy vs chip deeds := by
  obtain ⟨result, mid⟩ := ended
  cases result with
  | error error => exact ⟨done.same, done.sets⟩
  | ok result => exact ⟨(same result mid).trans done.same, done.sets⟩

end Ended

/-! ### Expressions -/

namespace Evaluate

/-- The deeds of a step of a variable: the one that sets it to the value after the step, or none
if the step is refused. -/
def stepDeeds (op : UnaryOperator) (target : Variable) (chip : Chip) : List Deed :=
  match Behaviour.step op (chip.read target) with
  | .error _ => []
  | .ok value => [.set target value]

/-- The deeds of an expression that is evaluated: the steps that it takes. -/
def deeds (ops : Operators) : (depth : Nat) → Expr → Chip → List Deed
  | 0, _, _ => []
  | _ + 1, .number _ _, _ => []
  | _ + 1, .text _ _, _ => []
  | _ + 1, .var _ _, _ => []
  | depth + 1, .group _ inner, chip => deeds ops depth inner chip
  | depth + 1, .binary _ _ left right, chip =>
    deeds ops depth left chip ++
      Ended.listThen (expression ops depth left chip) fun _ mid => deeds ops depth right mid
  | depth + 1, .unary _ op operand, chip =>
    if op.isStep then
      match operand with
      | .var _ target => stepDeeds op target chip
      | _ => []
    else deeds ops depth operand chip

variable {ops : Operators} {vs : List Variable}

theorem stepVariable_doneBy (loc : Option Location) (op : UnaryOperator) {target : Variable}
    (mentioned : target ∈ vs) (chip : Chip) :
    Ended.DoneBy vs chip (stepDeeds op target chip) (stepVariable loc op target chip) := by
  unfold stepVariable stepDeeds
  cases Behaviour.step op (chip.read target) with
  | error cause => exact .nothing (.refl chip)
  | ok value => exact .one mentioned value _

theorem at_same (loc : Option Location) (result : Except EvalCause Value) (chip : Chip) :
    (at? loc result chip).2.SameVariables chip := by
  cases result <;> exact .refl chip

/-- An expression is evaluated by its deeds.

Proof: induction over the depth. The deeds of the right operand start from what those of the left
one leave. -/
theorem expression_doneBy {e : Expr} (depth : Nat) (mentions : e.mentions ⊆ vs) (chip : Chip) :
    Ended.DoneBy vs chip (deeds ops depth e chip) (expression ops depth e chip) := by
  induction depth generalizing e chip with
  | zero =>
    rw [expression, deeds]
    exact .nothing (.refl chip)
  | succ depth inductionHypothesis =>
    cases e with
    | number | text | var => exact .nothing (.refl chip)
    | group _ inner => exact inductionHypothesis (e := inner) mentions chip
    | binary loc op left right =>
      rw [Expr.mentions_binary, List.append_subset] at mentions
      rw [expression_binary, deeds]
      apply (inductionHypothesis mentions.1 chip).andThen
      intro first mid
      exact (inductionHypothesis mentions.2 mid).andThen_same fun _ => at_same loc _
    | unary loc op operand =>
      cases isStep : op.isStep with
      | false =>
        rw [expression_unary _ _ _ isStep, deeds.eq_def]
        simp only [isStep, Bool.false_eq_true, if_false]
        exact (inductionHypothesis (e := operand) mentions chip).andThen_same
          fun _ => at_same loc _
      | true =>
        cases operand with
        | var place target =>
          rw [expression_step _ _ _ _ isStep, deeds, if_pos isStep]
          exact stepVariable_doneBy loc op (mentions List.mem_cons_self) chip
        | _ =>
          rw [expression_step_other _ _ _ isStep (by simp), deeds.eq_def]
          simp only [isStep, if_true]
          exact .nothing (.refl chip)

end Evaluate

/-- The deeds of an expression, evaluated with all the levels that there are. If it fails they
are those up to the failure. -/
def Expr.deeds (ops : Operators) (e : Expr) (chip : Chip) : List Deed :=
  Evaluate.deeds ops Grammar.nestingLimit e chip

/-! ### Statements -/

namespace Effect

/-- The deeds of an assignment of a value. A compound assignment reads its variable at this
point, behind the expression, and a refusal sets nothing. -/
def storeDeeds (ops : Operators) (target : Variable) (op : AssignOperator) (value : Value)
    (chip : Chip) : List Deed :=
  match op.stored ops (chip.read target) value with
  | .error _ => []
  | .ok result => [.set target result]

mutual

/-- The deeds of a statement: the steps that its expressions take, and its assignments. -/
def deeds (ops : Operators) (s : Stmt) (chip : Chip) : List Deed :=
  match s with
  | .comment _ _ => []
  | .expression _ value => value.deeds ops chip
  | .assign _ (.var _ target) op value =>
    value.deeds ops chip ++
      Ended.listThen (evaluate ops value chip) (storeDeeds ops target op)
  | .assign _ _ _ _ => []
  | .jump _ target => target.deeds ops chip
  | .branch _ condition body otherwise =>
    condition.deeds ops chip ++
      Ended.listThen (evaluate ops condition chip) fun value mid =>
        if value.isFalse then
          match otherwise with
          | none => []
          | some block => deedsAll ops block mid
        else deedsAll ops body mid

/-- The deeds of the statements of a block in turn, up to the first that does not end normally.
What that one did before it ended counts. -/
def deedsAll (ops : Operators) (block : List Stmt) (chip : Chip) : List Deed :=
  match block with
  | [] => []
  | s :: rest =>
    deeds ops s chip ++
      Ended.listThen (ofStatement ops s chip) fun jumped mid =>
        match jumped with
        | none => deedsAll ops rest mid
        | some _ => []

end

variable {ops : Operators} {vs : List Variable}

theorem evaluate_doneBy {e : Expr} (mentions : e.mentions ⊆ vs) (chip : Chip) :
    Ended.DoneBy vs chip (e.deeds ops chip) (evaluate ops e chip) :=
  Evaluate.expression_doneBy Grammar.nestingLimit mentions chip

theorem store_doneBy (loc : Option Location) {target : Variable} (mentioned : target ∈ vs)
    (op : AssignOperator) (value : Value) (chip : Chip) :
    (store ops loc target op value chip).DoneBy vs chip (storeDeeds ops target op value chip) := by
  rw [store_eq, storeDeeds]
  cases op.stored ops (chip.read target) value with
  | error cause => exact .nothing (.refl chip)
  | ok result => exact .one mentioned result _

theorem jump_same (loc : Option Location) (value : Value) (chip : Chip) :
    (jump loc value chip).2.SameVariables chip := by
  cases value <;> exact ⟨rfl, rfl⟩

mutual

theorem ofStatement_doneBy (s : Stmt)
    (mentions : ∀ t ∈ s.within, ∀ e ∈ t.own, e.mentions ⊆ vs) (chip : Chip) :
    (ofStatement ops s chip).DoneBy vs chip (deeds ops s chip) := by
  have own : ∀ e ∈ s.own, e.mentions ⊆ vs := mentions s s.mem_within_self
  match s with
  | .comment _ _ => exact .nothing (.refl chip)
  | .expression _ value =>
    rw [ofStatement, deeds]
    exact (evaluate_doneBy (own value (by simp [Stmt.own])) chip).andThen_same
      fun _ => .refl
  | .assign loc target op value =>
    cases target with
    | var place target =>
      have inTarget : target ∈ vs := own (.var place target) (by simp [Stmt.own]) List.mem_cons_self
      rw [ofStatement, deeds]
      exact (evaluate_doneBy (own value (by simp [Stmt.own])) chip).andThen
        (store_doneBy loc inTarget op)
    | _ => exact .nothing (.refl chip)
  | .jump loc target =>
    rw [ofStatement, deeds]
    exact (evaluate_doneBy (own target (by simp [Stmt.own])) chip).andThen_same (jump_same loc)
  | .branch _ condition body otherwise =>
    rw [ofStatement, deeds]
    apply (evaluate_doneBy (own condition (by simp [Stmt.own])) chip).andThen
    intro value mid
    by_cases isFalse : value.isFalse = true
    · rw [if_pos isFalse, if_pos isFalse]
      match otherwise with
      | none => exact .nothing (.refl mid)
      | some block =>
        apply ofBlock_doneBy block
        intro t member
        exact mentions t (List.mem_cons_of_mem _ (List.mem_append_right _ member))
    · rw [if_neg isFalse, if_neg isFalse]
      apply ofBlock_doneBy body
      intro t member
      exact mentions t (List.mem_cons_of_mem _ (List.mem_append_left _ member))

theorem ofBlock_doneBy (block : List Stmt)
    (mentions : ∀ t ∈ Stmt.withinAll block, ∀ e ∈ t.own, e.mentions ⊆ vs) (chip : Chip) :
    (ofBlock ops block chip).DoneBy vs chip (deedsAll ops block chip) := by
  match block with
  | [] => exact .nothing (.refl chip)
  | s :: rest =>
    rw [ofBlock_cons, deedsAll]
    apply (ofStatement_doneBy s
      (fun t member => mentions t (List.mem_append_left _ member)) chip).andThen
    intro jumped mid
    cases jumped with
    | none =>
      exact ofBlock_doneBy rest (fun t member => mentions t (List.mem_append_right _ member)) mid
    | some line => exact .nothing (.refl mid)

end

end Effect

/-! ### Lines and ticks -/

/-- The deeds of a line: those of its statements. Recording its fault is none of them, for an
error is no variable. -/
def Line.deeds (ops : Operators) (line : Line) (chip : Chip) : List Deed :=
  Effect.deedsAll ops line.statements chip

theorem Chip.sameVariables_noting (chip : Chip) (error : EvalError) :
    (chip.noting error).SameVariables chip := by
  unfold noting
  split
  · exact ⟨rfl, rfl⟩
  · exact ⟨rfl, rfl⟩

/-- A line leaves the variables that its deeds leave, and these set variables only that it
mentions. -/
theorem Line.effect_deeds (ops : Operators) (line : Line) (chip : Chip) :
    (line.effect ops chip).SameVariables (chip.afterAll (line.deeds ops chip)) ∧
      ∀ deed ∈ line.deeds ops chip, deed.Sets line.mentions := by
  have done : (Effect.ofBlock ops line.statements chip).DoneBy line.mentions chip
      (line.deeds ops chip) :=
    Effect.ofBlock_doneBy line.statements
      (fun t member => (Stmt.touches_throughout line.statements t member).reads) chip
  refine ⟨?_, done.sets⟩
  rw [effect]
  rcases ended : Effect.ofBlock ops line.statements chip with ⟨error | jumped, left⟩
  · rw [ended] at done
    exact (left.sameVariables_noting error).trans done.same
  · rw [ended] at done
    exact done.same

namespace Interpreter

variable {ω : Type} {i : Interpreter ω}

/-- The deeds of a line of source. One that is refused does nothing, nor does one that breaks
off. -/
def textDeeds (i : Interpreter ω) (text : String) (chip : Chip) : List Deed :=
  match Line.parse text i.file chip.nextLine with
  | .error _ => []
  | .ok line => line.deeds i.operators chip

/-- The deeds of a tick. A line that could not be read does nothing. -/
def tickDeeds (i : Interpreter ω) (p : Program) (chip : Chip) : List Deed :=
  match p.error? chip.nextLine with
  | some _ => []
  | none => (p.line chip.nextLine).deeds i.operators chip.advance

/-- A line that is run and its fault recorded is done by its deeds, if observers watch. -/
theorem runRecorded_deeds (watching : i.hooks.Watching) (line : Line) (m : Machine ω) :
    (i.runRecorded line m).2.chip.SameVariables
      (m.chip.afterAll (line.deeds i.operators m.chip)) := by
  rw [runRecorded_chip watching]
  exact (line.effect_deeds i.operators m.chip).1

/-- A line that is run is done by its deeds, if observers watch. That the run also logs and
announces sets no variable. -/
theorem runLine_deeds (watching : i.hooks.Watching) (line : Line) (m : Machine ω) :
    (i.runLine line m).2.chip.SameVariables
      (m.chip.afterAll (line.deeds i.operators m.chip)) := by
  have recorded := runRecorded_deeds watching line m
  rw [runRecorded_eq] at recorded
  cases ended : (i.runLine line m).1 with
  | none => simpa only [ended] using recorded
  | some fault =>
    simp only [ended, recordShowable] at recorded
    split at recorded
    · exact ⟨recorded.locals, recorded.fields⟩
    · exact recorded

/-- What answers to a line that is refused sets no variable, if observers watch. -/
theorem answerUnread_same (watching : i.hooks.Watching) {α : Type} (error : SourceError)
    (answer : α) (m : Machine ω) :
    (i.answerUnread error answer (m.passOver error)).2.chip.SameVariables m.chip := by
  obtain ⟨after, told, same⟩ := watching.dispatch (.failed (.source error)) (m.passOver error)
  rw [answerUnread_snd, told, same]
  exact ⟨rfl, rfl⟩

/-- A line of source that is run is done by its deeds, if observers watch. -/
theorem executeLine_deeds (watching : i.hooks.Watching) (text : String) (m : Machine ω) :
    (i.executeLine text m).2.chip.SameVariables (m.chip.afterAll (i.textDeeds text m.chip)) := by
  unfold textDeeds
  cases read : Line.parse text i.file m.chip.nextLine with
  | ok line =>
    rw [executeLine_of_ok read]
    exact runRecorded_deeds watching line m
  | error fault =>
    cases fault with
    | refused error =>
      rw [executeLine_of_error read]
      exact answerUnread_same watching error _ m
    | overlong digits =>
      rw [executeLine_of_overlong read]
      exact ⟨rfl, rfl⟩

theorem step_deeds (watching : i.hooks.Watching) (p : Program) (m : Machine ω) :
    (i.step p m).2.chip.SameVariables (m.chip.afterAll (i.tickDeeds p m.chip)) := by
  unfold tickDeeds
  have moved : m.chip.advance.SameVariables m.chip := ⟨rfl, rfl⟩
  cases unread : p.error? m.chip.nextLine with
  | none =>
    rw [step_of_none unread]
    exact (runRecorded_deeds watching _ { m with chip := m.chip.advance }).trans
      (moved.afterAll _)
  | some error =>
    rw [step_of_some unread]
    exact answerUnread_same watching error _ m

end Interpreter

end YololChip
