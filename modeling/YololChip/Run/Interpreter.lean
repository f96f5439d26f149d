import YololChip.Run.Evaluate
import YololChip.Run.Hooks

/-!
# Running lines

A line runs statement by statement. It ends normally, by a goto, or by a fault, and what was
done before stays done. Every statement that is started leaves an entry in the log and is
announced to the hooks; a goto or a fault leaves all blocks at once.

`executeLine` and `step` record a fault in the chip. What goes to the caller instead is a fault
that a handler raises while it is told of a line that was refused, a number of too many
digits in a line of source, and a fault whose report cannot be made up.
-/

namespace YololChip

/-- How lines are run: whether log entries hold snapshots, the name of the source, the hooks,
and the behaviours of operators. None of these changes while lines run. -/
structure Interpreter (ω : Type) where
  verbose : Bool
  file : String
  hooks : Hooks ω
  operators : Operators

/-- How a statement or a block ends. A goto and a fault both leave the block at once, and all
blocks around it. -/
inductive Ending where
  | done
  | jumped (line : Int)
  | failed (fault : Fault)

/-- What a call raises instead of an answer: a fault of a handler that is told of a line that was
refused, the number of digits at which reading a line broke off, or that the report of a
fault could not be made up to be recorded. The last two are no faults of the chip's own:
nothing records them, and no handler is told of them. -/
inductive Raised where
  | fault (fault : Fault)
  | overlong (digits : Nat)
  | unshowable

/-- A machine with a chip, an empty log of the usual limit and an observer. -/
def Machine.start {ω : Type} (chip : Chip) (observer : ω) : Machine ω :=
  ⟨chip, .empty StepLog.usualLimit, observer⟩

namespace Interpreter

variable {ω : Type}

/-- Logs the start of a statement and tells the step rules. The entry is there before the rules
are told, and it stays if one of them fails. -/
def logStep (i : Interpreter ω) (line : Int) (statement : Stmt) (m : Machine ω) :
    Option Fault × Machine ω :=
  let snapshot := if i.verbose then some m.chip.snapshot else none
  let rule := statement.kind
  let entry := m.log.nextEntry line statement.loc (statement.loc.map (·.statement)) snapshot
    [("rule", .text rule)]
  Hooks.tellRules ⟨entry.stepIndex, rule, line, statement.loc⟩ i.hooks.rules
    { m with log := m.log.push entry }

/-- Evaluates an expression and goes on with its value. If it has none, the statement fails with
the fault of the evaluation, and the steps that were taken stay. -/
def withValue (i : Interpreter ω) (e : Expr) (m : Machine ω)
    (next : Value → Machine ω → Ending × Machine ω) : Ending × Machine ω :=
  match evaluate i.operators e m.chip with
  | (.error error, chip) => (.failed (.eval error), { m with chip })
  | (.ok value, chip) => next value { m with chip }

/-- Stores a value in a variable. A compound assignment applies its operator to the value
that the variable has after the right side was evaluated. -/
def store (i : Interpreter ω) (loc : Option Location) (target : Variable) (op : AssignOperator)
    (value : Value) (m : Machine ω) : Ending × Machine ω :=
  match op.binary? with
  | none => (.done, { m with chip := m.chip.write target value })
  | some binary =>
    match i.operators.applyBinary binary (m.chip.read target) value with
    | .error cause => (.failed (.eval ⟨cause, loc, none⟩), m)
    | .ok value => (.done, { m with chip := m.chip.write target value })

/-- Goes to the line that a value names, as near as the chip's lines come to it. A text names
none. -/
def jump (loc : Option Location) (value : Value) (m : Machine ω) : Ending × Machine ω :=
  match value with
  | .num a =>
    let chip := m.chip.goTo a
    (.jumped chip.nextLine, { m with chip })
  | .str _ => (.failed (.eval ⟨.jumpToText, loc, none⟩), m)

mutual

/-- Runs a statement of a line, from its entry in the log on. An if statement runs one of its
blocks with all that belongs to running one; an assignment to what is no variable is refused
before its value is looked at. -/
def runStatement (i : Interpreter ω) (line : Int) (s : Stmt) (m : Machine ω) :
    Ending × Machine ω :=
  match i.logStep line s m with
  | (some fault, m) => (.failed fault, m)
  | (none, m) =>
    match s with
    | .comment _ _ => (.done, m)
    | .expression _ value => i.withValue value m fun _ m => (.done, m)
    | .assign loc (.var _ target) op value => i.withValue value m (i.store loc target op)
    | .assign loc _ _ _ => (.failed (.eval ⟨.targetNotVariable, loc, none⟩), m)
    | .jump loc target => i.withValue target m (jump loc)
    | .branch _ condition body otherwise =>
      i.withValue condition m fun value m =>
        if value.isFalse then
          match otherwise with
          | none => (.done, m)
          | some block => i.runBlock line block m
        else i.runBlock line body m

/-- Runs the statements of a block in turn, up to the first that does not end normally. A
statement is announced before it starts; that it is finished is announced only if it ended
normally. -/
def runBlock (i : Interpreter ω) (line : Int) (block : List Stmt) (m : Machine ω) :
    Ending × Machine ω :=
  match block with
  | [] => (.done, m)
  | s :: rest =>
    match i.hooks.dispatch (.statementStarted s) m with
    | (some fault, m) => (.failed fault, m)
    | (none, m) =>
      match i.runStatement line s m with
      | (.done, m) =>
        match i.hooks.dispatch (.statementFinished s) m with
        | (some fault, m) => (.failed fault, m)
        | (none, m) => i.runBlock line rest m
      | ended => ended

end

/-- An evaluation fault with what the log and the line know of it: the newest step, the
line's place for a nesting that is too deep, and the newest step's place for a fault
without one. -/
def placed (line : Line) (log : StepLog) (e : EvalError) : EvalError :=
  let e := if e.cause = .tooDeep then { e with loc := line.loc } else e
  match log.newest? with
  | none => e
  | some entry => { e with stepIndex := some entry.stepIndex, loc := e.loc.or entry.loc }

/-- Tells the hooks of a fault. A fault that a handler raises takes its place, and no handler is
told of that. -/
def report (i : Interpreter ω) (fault : Fault) (m : Machine ω) : Fault × Machine ω :=
  match i.hooks.dispatch (.failed fault) m with
  | (some other, m) => (other, m)
  | (none, m) => (fault, m)

/-- Runs a line. The result is the fault that ended it, if one did. A goto is announced, and
then the end of the line as after the last statement. Handlers are told of faults of evaluations
only: what a handler or a rule raised goes straight to the result. -/
def runLine (i : Interpreter ω) (line : Line) (m : Machine ω) : Option Fault × Machine ω :=
  match i.hooks.dispatch (.lineStarted line) m with
  | (some fault, m) => (some fault, m)
  | (none, m) =>
    match i.runBlock line.number line.statements m with
    | (.done, m) => i.hooks.dispatch (.lineFinished line) m
    | (.jumped target, m) =>
      match i.hooks.dispatch (.jumped target) m with
      | (some fault, m) => (some fault, m)
      | (none, m) => i.hooks.dispatch (.lineFinished line) m
    | (.failed (.eval error), m) =>
      let (fault, m) := i.report (.eval (placed line m.log error)) m
      (some fault, m)
    | (.failed fault, m) => (some fault, m)

/-- The machine with a fault recorded in its chip, in the place of the one recorded before. -/
def recordError {ω : Type} (fault : Fault) (m : Machine ω) : Machine ω :=
  { m with chip := { m.chip with error := fault.message } }

/-- Runs a line and records its fault, if it can be shown. If it cannot, the chip keeps the error
that it had, and the machine is as the run left it. -/
def runRecorded (i : Interpreter ω) (line : Line) (m : Machine ω) :
    Except Raised Bool × Machine ω :=
  match i.runLine line m with
  | (some fault, m) =>
    if fault.isShowable then (.ok false, recordError fault m) else (.error .unshowable, m)
  | (none, m) => (.ok true, m)

/-- Runs a line of source on the chip and says whether it ran to its end. The line is
numbered as the chip's next one. A line that is refused moves the chip on to the
line after it, before handlers are told; one that breaks off changes nothing. -/
def executeLine (i : Interpreter ω) (text : String) (m : Machine ω) :
    Except Raised Bool × Machine ω :=
  match Line.parse text i.file m.chip.nextLine with
  | .ok line => i.runRecorded line m
  | .error (.overlong digits) => (.error (.overlong digits), m)
  | .error (.refused error) =>
    let m := recordError (.source error) m
    let m := { m with chip := m.chip.advance }
    match i.hooks.dispatch (.failed (.source error)) m with
    | (some fault, m) => (.error (.fault fault), m)
    | (none, m) => (.ok false, m)

/-- Moves the chip on and runs the line that it was at. The result is that line's
number. The chip has moved on also if the tick raises. -/
def step (i : Interpreter ω) (program : Program) (m : Machine ω) :
    Except Raised Int × Machine ω :=
  let number := m.chip.nextLine
  let m := { m with chip := m.chip.advance }
  match program.error? number with
  | some error =>
    let m := recordError (.source error) m
    match i.hooks.dispatch (.failed (.source error)) m with
    | (some fault, m) => (.error (.fault fault), m)
    | (none, m) => (.ok number, m)
  | none =>
    let (ran, m) := i.runRecorded (program.line number) m
    (ran.map fun _ => number, m)

end Interpreter

/-- The interpreter without observers under the name that lines have by themselves. -/
def Interpreter.plain : Interpreter Unit := ⟨false, "<line>", Hooks.none, .default⟩

/-- Runs a line of source on a chip by itself. -/
def executeLine (text : String) (chip : Chip) : Except Raised Bool × Chip :=
  let (result, m) := Interpreter.plain.executeLine text (.start chip ())
  (result, m.chip)

end YololChip
