import YololChip.Json.Writer
import YololChip.Run.Hooks

/-!
# Reports of faults

Where a fault arose, for people and for programs. A fault without a place of its own is
shown at the newest step of the log.
-/

namespace YololChip.Traceback

/-- The place at which a fault is shown: its own, or else that of the newest step, whichever
line that is in. -/
def place? (log : StepLog) (fault : Fault) : Option Location :=
  fault.loc?.or (log.newest?.bind (·.loc))

def placeLines : Option Location → List String
  | none => ["  <unknown location>"]
  | some loc =>
    ("  File \"" ++ loc.file ++ "\", line " ++ toString loc.line ++ ", column " ++
        toString loc.column) ::
      (if loc.statement.isEmpty then [] else ["    " ++ loc.statement])

/-- The lines that show the newest step, with its snapshot if snapshots are asked for. -/
def stepLines (verbose : Bool) (entry : LogEntry) : List String :=
  ("    State log index: " ++ toString entry.stepIndex ++ "  State id: " ++ entry.state) ::
    match verbose, entry.environment with
    | true, some snapshot =>
      ["    Env snapshot: " ++
        ", ".intercalate (snapshot.map fun (name, value) => name ++ "=" ++ value)]
    | _, _ => []

/-- The report of a fault for people: its place, the newest step of the log if there is one, and
its sentence with its rule. The step is shown as it is, also if the fault did not arise in it. -/
def text (log : StepLog) (fault : Fault) (verbose : Bool) : String :=
  "\n".intercalate <|
    ["Traceback (most recent call last):"] ++ placeLines (place? log fault) ++
      ((log.newest?.map (stepLines verbose)).getD []) ++
      [fault.title ++ ": " ++ fault.message ++ " (rule: " ++ fault.rule ++ ")"]

def placeJson (loc : Location) : Json :=
  .object [("file", .text loc.file), ("line", .whole loc.line), ("column", .whole loc.column),
    ("statement", .text loc.statement)]

/-- What the newest step adds to a frame. -/
def stepFields (entry : LogEntry) : List (String × Json) :=
  [("state_id", .text entry.state), ("step_index", .whole entry.stepIndex)] ++
    (match entry.environment with
      | some snapshot => [("env_snapshot", .object (snapshot.map fun (n, v) => (n, .text v)))]
      | none => []) ++
    [("rewrite_record", .object entry.record)]

/-- The one frame of a report. Its line is that of the newest step, and its place that of the
fault, so they may be in two lines. -/
def frame (log : StepLog) (fault : Fault) : Json :=
  let entry := log.newest?
  .object <|
    [("line", match entry with | some e => .whole e.line | none => .null)] ++
      (match place? log fault with
        | some loc => [("source_location", placeJson loc)]
        | none => []) ++
      ((entry.map stepFields).getD [])

/-- The report of a fault as a JSON value: the error by its parts, and one frame for where it is
shown. -/
def report (log : StepLog) (fault : Fault) : Json :=
  .object
    [("error", .object
        [("type", .text fault.title),
         ("kind", match fault.kindTag? with | some tag => .text tag | none => .null),
         ("message", .text fault.message),
         ("failing_step_index",
          match fault.stepIndex? with | some n => .whole n | none => .null)]),
     ("traceback", .list [frame log fault])]

/-- The report of a fault for programs. -/
def json (log : StepLog) (fault : Fault) : String := (report log fault).write (some 2)

end YololChip.Traceback
