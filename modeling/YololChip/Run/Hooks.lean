import YololChip.Chip.State
import YololChip.Run.Fault
import YololChip.Run.StepLog

/-!
# Hooks

Observers can be told of the events of a run. The handlers of an event run from the
highest priority down, and those of one priority in the order in which they were added,
up to the first that fails. Step rules are told of every n-th step.

A handler works on the whole machine, which carries a state of the observer's own. A handler
that breaks in a way of its own is reported as a fault of the hook.
-/

namespace YololChip

/-- A chip at run time: its state, the log of its steps, and the observer's state. What the
observer keeps is its own affair: nothing but handlers and rules reads it. -/
structure Machine (ω : Type) where
  chip : Chip
  log : StepLog
  observer : ω

/-- What a handler is told, with what the event is about. There is one notice for each event. -/
inductive Notice where
  | lineStarted (line : Line)
  | lineFinished (line : Line)
  | statementStarted (statement : Stmt)
  | statementFinished (statement : Stmt)
  | jumped (target : Int)
  | failed (fault : Fault)

def Notice.event : Notice → Event
  | lineStarted _ => .beforeLine
  | lineFinished _ => .afterLine
  | statementStarted _ => .beforeStatement
  | statementFinished _ => .afterStatement
  | jumped _ => .onGoto
  | failed _ => .onError

/-- What a step rule is told: the index of the step, the kind of its statement, and where that
is. -/
structure StepNotice where
  stepIndex : Nat
  rule : String
  line : Int
  loc : Option Location

/-- How a handler ends: well, with a fault that it raises itself, or broken with the message of any
other exception, which is reported as a fault of the hook. Exceptions that end a process
rather than a call, such as a request to exit, pass through all of this and are left out.
So are handlers that ask for other handlers while they are told of something: a verdict
comes with the machine that the handler leaves, and never with other hooks. -/
inductive Verdict where
  | passed
  | refused (fault : Fault)
  | broke (message : String)

/-- What is to be told of an event, and before whom. It may do anything to the machine, also to
the chip and the log. -/
structure Handler (ω : Type) where
  priority : Int
  name : String
  run : Notice → Machine ω → Verdict × Machine ω

/-- What is to be told of every step whose index is a multiple of the interval, of which zero is
one. -/
structure StepRule (ω : Type) where
  interval : Nat
  name : String
  run : StepNotice → Machine ω → Verdict × Machine ω

/-- The handlers of each event in the order in which they run, and the step rules. That the
handlers stand by priority is not said here: it is kept by `add`. -/
structure Hooks (ω : Type) where
  handlers : Event → List (Handler ω)
  rules : List (StepRule ω)

namespace Hooks

variable {ω : Type}

def none : Hooks ω := ⟨fun _ => [], []⟩

/-- Puts a handler behind all of its priority or higher, and so before the first of a lower one. -/
def insertHandler (added : Handler ω) : List (Handler ω) → List (Handler ω)
  | [] => [added]
  | first :: rest =>
    if first.priority < added.priority then added :: first :: rest
    else first :: insertHandler added rest

/-- Handlers in the order in which they run: no priority is above an earlier one. -/
def Ordered (handlers : List (Handler ω)) : Prop :=
  handlers.Pairwise fun first second => second.priority ≤ first.priority

/-- Adding a handler adds it and loses none. -/
theorem mem_insertHandler {added handler : Handler ω} {handlers : List (Handler ω)} :
    handler ∈ insertHandler added handlers ↔ handler = added ∨ handler ∈ handlers := by
  induction handlers with
  | nil => simp [insertHandler]
  | cons first rest inductionHypothesis =>
    unfold insertHandler
    split
    · simp
    · simp only [List.mem_cons, inductionHypothesis]
      constructor <;> rintro (rfl | rfl | inRest) <;> simp_all

/-- Adding a handler keeps the order. -/
theorem Ordered.insertHandler {handlers : List (Handler ω)} (ordered : Ordered handlers)
    (added : Handler ω) : Ordered (Hooks.insertHandler added handlers) := by
  induction handlers with
  | nil => simp [Hooks.insertHandler, Ordered]
  | cons first rest inductionHypothesis =>
    obtain ⟨below, orderedRest⟩ := List.pairwise_cons.mp ordered
    unfold Hooks.insertHandler
    split
    · next lower =>
      refine List.pairwise_cons.mpr ⟨?_, ordered⟩
      intro handler inList
      rcases List.mem_cons.mp inList with rfl | inRest
      · omega
      · have := below handler inRest
        omega
    · next notLower =>
      refine List.pairwise_cons.mpr ⟨?_, inductionHypothesis orderedRest⟩
      intro handler inList
      rcases mem_insertHandler.mp inList with rfl | inRest
      · omega
      · exact below handler inRest

/-- Adds a handler of an event, and leaves those of the others as they are. -/
def add (hooks : Hooks ω) (event : Event) (handler : Handler ω) : Hooks ω :=
  { hooks with
    handlers := fun e =>
      if e = event then insertHandler handler (hooks.handlers e) else hooks.handlers e }

/-- Adds a handler of the event of a name. A name of no event is refused, and nothing is added. -/
def addNamed (hooks : Hooks ω) (event : String) (handler : Handler ω) :
    Except HookFault (Hooks ω) :=
  match Event.ofName? event with
  | some event => .ok (hooks.add event handler)
  | .none => .error (.unknownEvent event)

/-- Adds a rule for every step whose index is a multiple of an interval, which is refused if it
is below one. Rules have no priorities: a new one comes last. -/
def addRule (hooks : Hooks ω) (interval : Int) (name : String)
    (run : StepNotice → Machine ω → Verdict × Machine ω) : Except HookFault (Hooks ω) :=
  if interval ≤ 0 then .error .emptyInterval
  else .ok { hooks with rules := hooks.rules ++ [⟨interval.toNat, name, run⟩] }

/-- The names of the handlers of an event in the order in which they run. A name of no event has
none. -/
def names (hooks : Hooks ω) (event : String) : List String :=
  match Event.ofName? event with
  | some event => (hooks.handlers event).map (·.name)
  | .none => []

/-- The fault that a verdict amounts to. A fault that is raised as one is taken as it is; what
breaks in another way is a fault of the hook, and only its message is kept. -/
def faultOf (broken : String → HookFault) : Verdict → Option Fault
  | .passed => .none
  | .refused fault => some fault
  | .broke message => some (.hook (broken message))

/-- Tells handlers of a notice, up to the first that fails. Each finds the machine as the one
before left it, and what the failing one did stays done. -/
def tell (notice : Notice) : List (Handler ω) → Machine ω → Option Fault × Machine ω
  | [], m => (.none, m)
  | handler :: rest, m =>
    let (verdict, m) := handler.run notice m
    match faultOf (.handlerBroke notice.event) verdict with
    | some fault => (some fault, m)
    | .none => tell notice rest m

/-- Tells the handlers of a notice's event, which are those of the hooks as they are at the
beginning. -/
def dispatch (hooks : Hooks ω) (notice : Notice) (m : Machine ω) : Option Fault × Machine ω :=
  tell notice (hooks.handlers notice.event) m

/-- Tells the rules that are due at a step, up to the first that fails. A rule without
a name goes by the name of the step's own rule. -/
def tellRules (notice : StepNotice) : List (StepRule ω) → Machine ω → Option Fault × Machine ω
  | [], m => (.none, m)
  | rule :: rest, m =>
    if notice.stepIndex % rule.interval = 0 then
      let (verdict, m) := rule.run notice m
      let name := if rule.name.isEmpty then notice.rule else rule.name
      match faultOf (.ruleBroke name) verdict with
      | some fault => (some fault, m)
      | .none => tellRules notice rest m
    else tellRules notice rest m

end Hooks

end YololChip
