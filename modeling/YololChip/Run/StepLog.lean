import YololChip.Json.Basic
import YololChip.Run.Window
import YololChip.Source.Tree
import YololChip.Text.Padded

/-!
# The step log

Every statement that is started leaves an entry in the log. Entries are counted from zero,
and each is linked to the one before it: its record names the state that it came from
and the state that it leads to. The log holds the newest entries up to a limit.
-/

namespace YololChip

/-- An entry of the step log. The record is what happened, as fields by name, and the
environment a snapshot of the variables, if one was taken. -/
structure LogEntry where
  stepIndex : Nat
  line : Int
  loc : Option Location
  statement : Option String
  environment : Option (List (String × String))
  record : List (String × Json)

/-- The name of the state that a step leads to. -/
def stateName (stepIndex : Nat) : String := "s_" ++ Text.padded 6 stepIndex

/-- The name of the state before the first step. -/
def seedName : String := "seed"

/-- The name of the state that an entry leads to. -/
def LogEntry.state (e : LogEntry) : String := stateName e.stepIndex

/-- The log of the steps of a run: a window on its entries, and the index of the next one. The
index counts all entries ever made, also those that the window has dropped. -/
structure StepLog where
  window : Window LogEntry
  nextIndex : Nat

namespace StepLog

/-- The most entries that a log holds unless another limit is asked for. -/
def usualLimit : Nat := 10000

def empty (limit : Nat) : StepLog := ⟨.empty limit, 0⟩

/-- The entries held, the oldest first. -/
def entries (log : StepLog) : List LogEntry := log.window.toList

def newest? (log : StepLog) : Option LogEntry := log.window.newest?

/-- The name of the state that the newest step led to, also after its entry is gone. -/
def lastState (log : StepLog) : String :=
  match log.nextIndex with
  | 0 => seedName
  | index + 1 => stateName index

/-- A record linked to the states before and after its step. A state that the record
already comes from is kept. -/
def linked (log : StepLog) (record : List (String × Json)) : List (String × Json) :=
  let came := match Bindings.find? "from_state_id" record with
    | some _ => record
    | none => Bindings.put "from_state_id" (.text log.lastState) record
  Bindings.put "to_state_id" (.text (stateName log.nextIndex)) came

/-- The next entry of the log, which is made but not yet added. -/
def nextEntry (log : StepLog) (line : Int) (loc : Option Location) (statement : Option String)
    (environment : Option (List (String × String))) (record : List (String × Json)) : LogEntry :=
  { stepIndex := log.nextIndex, line, loc, statement, environment, record := log.linked record }

/-- Adds an entry. It is taken to be the next one: its own index is not looked at. -/
def push (log : StepLog) (entry : LogEntry) : StepLog :=
  ⟨log.window.push entry, log.nextIndex + 1⟩

end StepLog

end YololChip
