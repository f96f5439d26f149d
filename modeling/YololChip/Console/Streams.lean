import YololChip.Run.Hooks
import YololChip.Run.Traceback

/-!
# Output of the command

What a run prints, and the observers that print it: reports of faults to the error stream,
and every line that runs to the output.
-/

namespace YololChip.Console

/-- The lines and pieces printed so far on each stream, the newest first. How the two streams
interleave is not kept. -/
structure Streams where
  out : List String
  err : List String

namespace Streams

def empty : Streams := ⟨[], []⟩

/-- Prints a piece on the output. -/
def write (s : Streams) (piece : String) : Streams := { s with out := piece :: s.out }

/-- Prints a line on the output. -/
def print (s : Streams) (line : String) : Streams := s.write (line ++ "\n")

/-- Prints a line on the error stream. -/
def complain (s : Streams) (line : String) : Streams := { s with err := (line ++ "\n") :: s.err }

def outText (s : Streams) : String := String.join s.out.reverse

def errText (s : Streams) : String := String.join s.err.reverse

end Streams

/-- A machine that has printed something more. Its chip and its log are as they were. -/
def printing (f : Streams → Streams) (m : Machine Streams) : Machine Streams :=
  { m with observer := f m.observer }

/-- How a handler breaks that makes up a report which nests too deeply. The words are those of
an exhausted stack; what it was doing just then is left out of them. -/
def exhausted : Verdict := .broke "maximum recursion depth exceeded"

/-- Reports every fault to the error stream, and if asked for a second time as JSON. It breaks
at one that cannot be shown, before anything of the report is printed; that is then a fault of
the hook, and so the one that is recorded. -/
def reporter (verbose json : Bool) : Handler Streams :=
  { priority := 0
    name := "cli"
    run := fun notice m =>
      match notice with
      | .failed fault =>
        let report (s : Streams) :=
          let s := s.complain (Traceback.text m.log fault verbose)
          if json then s.complain (Traceback.json m.log fault) else s
        if fault.isShowable then (.passed, printing report m) else (exhausted, m)
      | _ => (.passed, m) }

/-- The line that announces a line of the program: the chip, the number in two digits, and the
text. A line that stands nowhere has no text. -/
def announcement (chip : Chip) (line : Line) : String :=
  "[" ++ chip.name ++ ":" ++ Text.padded 2 line.number.toNat ++ "] " ++
    ((line.loc.map (·.statement)).getD "")

/-- Announces every line before it runs, also a blank one, and does nothing else. -/
def tracer : Handler Streams :=
  { priority := 0
    name := "trace"
    run := fun notice m =>
      match notice with
      | .lineStarted line => (.passed, printing (·.print (announcement m.chip line)) m)
      | _ => (.passed, m) }

end YololChip.Console
