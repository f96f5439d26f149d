import YololChip.Console.Streams
import YololChip.Run.Interpreter
import YololChip.Text.Blank

/-!
# The interactive session

Each entry is run as a line on one chip that lives through the session. After an entry the
variables whose values it changed are printed by name, also if it failed half way. An entry
that raises ends the session at once: nothing is printed for it, and no entry behind it is
asked for.
-/

namespace YololChip.Console.Repl

/-- The greeting at the start of a session. -/
def banner : String :=
  "\x1b[38;2;153;221;255mYOLOL\x1b[0m REPL. One line per entry, Ctrl-D to quit."

/-- What asks for an entry: the number of the line that it will have, in two digits. -/
def prompt (chip : Chip) : String :=
  "\x1b[38;2;153;221;255m" ++ Text.padded 2 chip.nextLine.toNat ++ ">\x1b[0m "

/-- The interpreter of a session. It reports faults for people only, and announces no lines. -/
def interpreter (verbose : Bool) : Interpreter Streams :=
  ⟨verbose, "<repl>", Hooks.none.add .onError (reporter verbose false), .default⟩

/-- The session before its first entry. -/
def start : Machine Streams := Machine.start (.fresh "repl") (Streams.empty.print banner)

/-- The variables whose values differ from before, by name. One that is set for the first time
differs, also if it is set to zero. -/
def changed (before after : Chip) : List (String × Value) :=
  (Chip.sorted after.allBindings).filter fun (name, value) =>
    Bindings.find? name before.allBindings ≠ some value

/-- Prints the variables whose values differ from before, a line for each. -/
def printChanged (before : Chip) (m : Machine Streams) : Machine Streams :=
  (changed before m.chip).foldl
    (fun m (name, value) => printing (·.print (Chip.assignmentText name value)) m) m

/-- Runs an entry, and gives what it raises, if it does. One of blanks only is passed over. What
changed is printed however the entry ended, but not if it raised. -/
def enter (verbose : Bool) (text : String) (m : Machine Streams) :
    Option Raised × Machine Streams :=
  if (Text.strip text).isEmpty then (none, m)
  else match (interpreter verbose).executeLine text m with
    | (.error raised, after) => (some raised, after)
    | (.ok _, after) => (none, printChanged m.chip after)

def ask (m : Machine Streams) : Machine Streams := printing (·.write (prompt m.chip)) m

/-- The entries in a row of characters: its lines, the last of which need not end. Line feeds
are all that ends one here, so other ends are turned into them before. -/
def entriesOf : List Char → List (List Char)
  | [] => []
  | c :: cs => if c = '\n' then [] :: entriesOf cs else Text.consFirst c (entriesOf cs)

def entries (text : String) : List String := (entriesOf text.toList).map String.ofList

/-- A session over its entries, with the prompt before each and before their end. It ends early, and
without a line of its own, at an entry that raises. -/
def session (verbose : Bool) (m : Machine Streams) :
    List String → Option Raised × Machine Streams
  | [] => (none, printing (·.print "") (ask m))
  | text :: rest =>
    match enter verbose text (ask m) with
    | (some raised, m) => (some raised, m)
    | (none, m) => session verbose m rest

end YololChip.Console.Repl
