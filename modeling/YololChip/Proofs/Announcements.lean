import YololChip.Proofs.Executions

/-!
# What is told of statements

The notices of an execution open and close like brackets. When statements are executed to their
end, all of them are closed; a goto or a fault leaves open the statement that it arose in and
the if statements around it, and no others. A goto is the last statement that is started.
-/

namespace YololChip

def Stmt.isJump : Stmt → Bool
  | .jump _ _ => true
  | _ => false

def Stmt.isBranch : Stmt → Bool
  | .branch _ _ _ _ => true
  | _ => false

namespace Notice

def started? : Notice → Option Stmt
  | statementStarted s => some s
  | _ => none

def failure? : Notice → Option Fault
  | failed fault => some fault
  | _ => none

/-- The faults that were told of, the first one first. Running the statements of a line tells of
none; a list with one in it is that of a whole line. -/
def failures (told : List Notice) : List Fault := told.filterMap failure?

/-- The statements that were started, the first one first, whether they were finished or not. A
statement inside of another one is behind it. -/
def started (told : List Notice) : List Stmt := told.filterMap started?

/-- What was started is what was started first and what was started then. -/
@[simp] theorem started_append (first second : List Notice) :
    started (first ++ second) = started first ++ started second :=
  List.filterMap_append

/-- The statements that are unfinished after notices, the innermost first, if there were some
before. Only the innermost one can be finished, and it has to be that statement; where another
one is, the notices are in no order and there is no answer. Notices of other kinds give none
either. -/
def unfinished : (before : List Stmt) → List Notice → Option (List Stmt)
  | before, [] => some before
  | before, .statementStarted s :: told => unfinished (s :: before) told
  | s :: before, .statementFinished t :: told => if s = t then unfinished before told else none
  | _, _ => none

/-- A statement that is started is the innermost unfinished one. It stays so until something is
told behind it. -/
@[simp] theorem unfinished_started (before : List Stmt) (s : Stmt) (told : List Notice) :
    unfinished before (.statementStarted s :: told) = unfinished (s :: before) told := by
  rw [unfinished]

@[simp] theorem unfinished_finished (before : List Stmt) (s : Stmt) (told : List Notice) :
    unfinished (s :: before) (.statementFinished s :: told) = unfinished before told := by
  rw [unfinished, if_pos rfl]

theorem unfinished_append (before : List Stmt) (first second : List Notice) :
    unfinished before (first ++ second) =
      (unfinished before first).bind fun mid => unfinished mid second := by
  induction first generalizing before with
  | nil => rw [List.nil_append, unfinished, Option.bind_some]
  | cons notice told inductionHypothesis =>
    rw [List.cons_append]
    cases notice with
    | statementStarted s => rw [unfinished_started, unfinished_started, inductionHypothesis]
    | statementFinished t =>
      cases before with
      | nil => simp only [unfinished, Option.bind_none]
      | cons s before =>
        by_cases same : s = t
        · rw [unfinished, unfinished, if_pos same, if_pos same, inductionHypothesis]
        · rw [unfinished, unfinished, if_neg same, if_neg same, Option.bind_none]
    | _ => simp only [unfinished, Option.bind_none]

/-- A statement that is started last is the innermost unfinished one. -/
theorem head_unfinished {before remain : List Stmt} {first : List Notice} {s : Stmt}
    (opened : unfinished before (first ++ [.statementStarted s]) = some remain) :
    remain.head? = some s := by
  rw [unfinished_append, Option.bind_eq_some_iff] at opened
  obtain ⟨mid, _, opened⟩ := opened
  rw [unfinished_started, unfinished] at opened
  rw [← Option.some.inj opened, List.head?_cons]

end Notice

/-- Which statements are unfinished when statements end so, the innermost first: none at the
end, and otherwise the goto or the statement that failed, in if statements only. Nothing but an
if statement has statements inside, so nothing else can be around it. -/
inductive Finish.Leaves : Finish → List Stmt → Prop where
  | nothing : Leaves .completed []
  | jump (target : Fixed) (loc : Option Location) (e : Expr) {around : List Stmt}
      (branches : ∀ s ∈ around, s.isBranch = true) :
    Leaves (.jumped target) (.jump loc e :: around)
  | failed (error : EvalError) (s : Stmt) {around : List Stmt}
      (branches : ∀ s ∈ around, s.isBranch = true) : Leaves (.failed error) (s :: around)

/-- An if statement around one that was cut short is left unfinished with it. So the unfinished
statements grow from the inside out, as blocks end. -/
theorem Finish.Leaves.inside {finish : Finish} {cut : List Stmt} (leaves : finish.Leaves cut)
    (early : finish ≠ .completed) {s : Stmt} (isBranch : s.isBranch = true) :
    finish.Leaves (cut ++ [s]) := by
  have widened {around : List Stmt} (branches : ∀ t ∈ around, t.isBranch = true) :
      ∀ t ∈ around ++ [s], t.isBranch = true := by
    intro t member
    rcases List.mem_append.mp member with earlier | last
    · exact branches t earlier
    · rwa [List.mem_singleton.mp last]
  cases leaves with
  | nothing => contradiction
  | jump target loc e branches => exact .jump target loc e (widened branches)
  | failed error t branches => exact .failed error t (widened branches)

variable {ops : Operators} {chip left : Chip} {finish : Finish}

theorem Stmt.Does.leaves {s : Stmt} (does : s.Does ops chip finish left)
    (early : finish ≠ .completed) : finish.Leaves [s] := by
  cases does with
  | comment | expression | assign => contradiction
  | jump loc => exact .jump _ loc _ (by simp)
  | _ => exact .failed _ _ (by simp)

/-- Behind the start of the statement that is cut short, nothing is told of statements.

Proof: induction over the rules. What is done before the statement that ends the block is told
of first, and an if statement that is cut short is told of before its block. -/
theorem Executes.last {block : List Stmt} {told : List Notice}
    (executes : Executes ops block chip told finish left) (early : finish ≠ .completed) :
    ∃ first s, told = first ++ [.statementStarted s] := by
  induction executes with
  | nothing => contradiction
  | @next s _ _ _ _ _ _ _ _ inductionHypothesis =>
    obtain ⟨first, t, rfl⟩ := inductionHypothesis early
    exact ⟨.statementStarted s :: .statementFinished s :: first, t, rfl⟩
  | @cut s => exact ⟨[], s, rfl⟩
  | @branch loc condition body _ otherwise _ _ _ _ _ inside _ _ _ _ _ _ goesOnHypothesis =>
    obtain ⟨first, t, rfl⟩ := goesOnHypothesis early
    refine ⟨.statementStarted (.branch loc condition body otherwise) ::
      (inside ++ .statementFinished (.branch loc condition body otherwise) :: first), t, ?_⟩
    rw [List.cons_append, List.append_assoc, List.cons_append]
  | @branchCut loc condition body _ otherwise _ _ _ _ _ _ _ _ _ inductionHypothesis =>
    obtain ⟨first, t, rfl⟩ := inductionHypothesis early
    exact ⟨.statementStarted (.branch loc condition body otherwise) :: first, t, rfl⟩

/-- The notices of an execution are those of brackets, of which a goto or a fault leaves open
those that it arose in.

Proof: induction over the rules. What a block leaves open comes before what was open around it,
so the notices of an if statement are those of its block in one more bracket. -/
theorem Executes.unfinished {block : List Stmt} {told : List Notice}
    (executes : Executes ops block chip told finish left) (before : List Stmt) :
    ∃ cut, Notice.unfinished before told = some (cut ++ before) ∧ finish.Leaves cut := by
  induction executes generalizing before with
  | nothing => exact ⟨[], by rw [Notice.unfinished, List.nil_append], .nothing⟩
  | next _ _ inductionHypothesis =>
    obtain ⟨cut, remain, leaves⟩ := inductionHypothesis before
    exact ⟨cut, by simpa using remain, leaves⟩
  | @cut s _ _ _ _ does early =>
    exact ⟨[s], by rw [Notice.unfinished_started, Notice.unfinished]; rfl, does.leaves early⟩
  | @branch loc condition body _ otherwise _ _ _ _ _ _ _ _ _ _ _ takenHypothesis
      goesOnHypothesis =>
    obtain ⟨_, closed, whole⟩ :=
      takenHypothesis (.branch loc condition body otherwise :: before)
    obtain ⟨cut, remain, leaves⟩ := goesOnHypothesis before
    cases whole
    refine ⟨cut, ?_, leaves⟩
    rw [Notice.unfinished_started, Notice.unfinished_append, closed, Option.bind_some,
      List.nil_append, Notice.unfinished_finished, remain]
  | @branchCut loc condition body _ otherwise _ _ _ _ _ _ _ _ early inductionHypothesis =>
    obtain ⟨cut, remain, leaves⟩ :=
      inductionHypothesis (.branch loc condition body otherwise :: before)
    refine ⟨cut ++ [.branch loc condition body otherwise], ?_, leaves.inside early rfl⟩
    rw [Notice.unfinished_started, remain, List.append_assoc, List.singleton_append]

theorem Executes.failures {block : List Stmt} {told : List Notice}
    (executes : Executes ops block chip told finish left) : Notice.failures told = [] := by
  induction executes with
  | nothing => rfl
  | next _ _ inductionHypothesis => exact inductionHypothesis
  | cut => rfl
  | branch _ _ _ _ takenHypothesis goesOnHypothesis =>
    refine List.filterMap_append.trans ?_
    rw [← Notice.failures, takenHypothesis]
    exact goesOnHypothesis
  | branchCut _ _ _ _ _ inductionHypothesis => exact inductionHypothesis

/-! ### Gotos -/

namespace Notice

/-- Whether none of the statements that were started is a goto. It says nothing of gotos that
were not reached. -/
def JumpFree (told : List Notice) : Prop := ∀ s ∈ started told, s.isJump = false

theorem jumpFree_nil : JumpFree [] := fun _ member => absurd member List.not_mem_nil

/-- A statement that is started is no goto if it is another one. -/
theorem JumpFree.started {s : Stmt} {told : List Notice} (others : JumpFree told)
    (other : s.isJump = false) : JumpFree (.statementStarted s :: told) := by
  intro t member
  rcases List.mem_cons.mp member with rfl | later
  · exact other
  · exact others t later

theorem JumpFree.finished {told : List Notice} (others : JumpFree told) (s : Stmt) :
    JumpFree (.statementFinished s :: told) := others

/-- No goto is started over all that is told if none is at first and none is then. -/
theorem JumpFree.append {first second : List Notice} (early : JumpFree first)
    (late : JumpFree second) : JumpFree (first ++ second) := by
  intro s member
  rw [started_append] at member
  rcases List.mem_append.mp member with before | behind
  · exact early s before
  · exact late s behind

end Notice

theorem Stmt.Does.not_jump {s : Stmt} (does : s.Does ops chip .completed left) :
    s.isJump = false := by
  cases does with
  | comment | expression | assign => rfl

/-- Statements that are executed to their end hold no goto that was started. A goto that is
reached would have ended them. -/
theorem Executes.jumpFree {block : List Stmt} {told : List Notice}
    (executes : Executes ops block chip told finish left) (completed : finish = .completed) :
    Notice.JumpFree told := by
  induction executes with
  | nothing => exact Notice.jumpFree_nil
  | next does _ inductionHypothesis =>
    exact .started (.finished (inductionHypothesis completed) _) does.not_jump
  | cut _ _ early => contradiction
  | branch _ _ _ _ takenHypothesis goesOnHypothesis =>
    exact .started ((takenHypothesis rfl).append (.finished (goesOnHypothesis completed) _)) rfl
  | branchCut _ _ _ _ early => contradiction

/-- Whether the statements that were started end in a goto to a number, which was the value of
its expression, and none of the others is a goto. The chip is left at the goto's line as the
expression left it: going to a line sets no variable and records no error. -/
def EndsInGoto (ops : Operators) (told : List Notice) (target : Fixed) (left : Chip) : Prop :=
  ∃ before loc e chip after, Notice.started told = before ++ [.jump loc e] ∧
    (∀ s ∈ before, s.isJump = false) ∧
    evaluate ops e chip = (.ok (.num target), after) ∧ left = after.goTo target

/-- A goto that ends what was told last ends all that was told, if nothing before is a goto. -/
theorem EndsInGoto.behind {first told : List Notice} {target : Fixed}
    (ends : EndsInGoto ops told target left) (others : Notice.JumpFree first) :
    EndsInGoto ops (first ++ told) target left := by
  obtain ⟨before, loc, e, chip, after, started, notBefore, evaluated, same⟩ := ends
  refine ⟨Notice.started first ++ before, loc, e, chip, after, ?_, ?_, evaluated, same⟩
  · rw [Notice.started_append, started, List.append_assoc]
  · intro s member
    rcases List.mem_append.mp member with early | late
    · exact others s early
    · exact notBefore s late

/-- A goto ends what is told behind the start of another statement. What is told before may be
that of any statements but gotos. -/
theorem EndsInGoto.started {s : Stmt} {told : List Notice} {target : Fixed}
    (ends : EndsInGoto ops told target left) (other : s.isJump = false) :
    EndsInGoto ops (.statementStarted s :: told) target left :=
  ends.behind (Notice.jumpFree_nil.started other)

/-- A goto ends what is told behind the end of a statement. -/
theorem EndsInGoto.finished {told : List Notice} {target : Fixed}
    (ends : EndsInGoto ops told target left) (s : Stmt) :
    EndsInGoto ops (.statementFinished s :: told) target left := ends

/-- Statements that end by a goto start no other one, and nothing after it.

Proof: induction over the rules. What is done before the statement that ends the block was
executed to its end, so it holds no goto. -/
theorem Executes.endsInGoto {block : List Stmt} {told : List Notice} {target : Fixed}
    (executes : Executes ops block chip told finish left) (jumped : finish = .jumped target) :
    EndsInGoto ops told target left := by
  induction executes with
  | nothing => contradiction
  | next does _ inductionHypothesis =>
    exact .started (.finished (inductionHypothesis jumped) _) does.not_jump
  | cut _ does =>
    subst jumped
    cases does with
    | jump loc evaluated =>
      exact ⟨[], loc, _, _, _, rfl, fun s member => absurd member List.not_mem_nil, evaluated, rfl⟩
  | branch _ _ taken _ _ goesOnHypothesis =>
    have goesOn := (goesOnHypothesis jumped).finished
    exact .started ((goesOn _).behind (taken.jumpFree rfl)) rfl
  | branchCut _ _ _ _ _ inductionHypothesis => exact .started (inductionHypothesis jumped) rfl

end YololChip
