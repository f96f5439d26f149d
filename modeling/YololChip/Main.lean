import YololChip.Console.Command

/-!
# The program

Runs the command on the arguments of the process, with its files and streams. An
interactive session answers entry by entry.
-/

namespace YololChip

open Console

/-- Prints what a machine has to print, and empties its streams. Errors go first, so the two
streams are not woven together as they were written. -/
def flushStreams (m : Machine Streams) : IO (Machine Streams) := do
  IO.eprint m.observer.errText
  IO.print m.observer.outText
  (← IO.getStdout).flush
  return printing (fun _ => .empty) m

/-- Says on the error stream that something was raised which the command does not catch. The
words are this program's own. -/
def complainOf (raised : Raised) : IO Unit :=
  match raised with
  | .fault fault => IO.eprintln (fault.title ++ ": " ++ fault.message)
  | .overlong digits => IO.eprintln ("number with too many digits: " ++ toString digits)
  | .unshowable => IO.eprintln "error nested too deeply to be shown"

/-- Runs the entries of one line of input, up to one that raises. The prompt before the first of
them stands already. -/
def enterAll (verbose : Bool) (m : Machine Streams) :
    List String → Option Raised × Machine Streams
  | [] => (none, m)
  | text :: rest =>
    match Repl.enter verbose text m with
    | (some raised, m) => (some raised, m)
    | (none, m) => enterAll verbose (if rest.isEmpty then m else Repl.ask m) rest

/-- Answers entries until the input ends or an entry raises, and gives the exit code. One line
of input may be several entries, because a carriage return ends one too. -/
partial def converse (verbose : Bool) (m : Machine Streams) : IO UInt32 := do
  let m ← flushStreams (Repl.ask m)
  let text ← (← IO.getStdin).getLine
  match Repl.entries (asRead text) with
  | [] =>
    IO.println ""
    return 0
  | first :: rest =>
    match enterAll verbose m (first :: rest) with
    | (some raised, m) =>
      let _ ← flushStreams m
      complainOf raised
      return 1
    | (none, m) => converse verbose m

/-- Prints a result and gives its exit code. -/
def finish (result : Result) : IO UInt32 := do
  IO.eprint result.err
  IO.print result.out
  if let some raised := result.raised then complainOf raised
  return result.code.toUInt32

/-- The fault of a file that the system refuses to read. An error code may come with
either sign. -/
def fileFault : IO.Error → FileFault
  | .noFileOrDirectory .. => .missing
  | .inappropriateType _ code _ => if code = 21 ∨ 0 - code = 21 then .directory else .notDirectory
  | .invalidArgument _ code reason =>
    if code = 36 ∨ 0 - code = 36 then .nameTooLong else .other reason
  | error => .other (toString error)

def runFromFile (args : Arguments) (file : String) : IO UInt32 := do
  match ← (IO.FS.readFile file).toBaseIO with
  | .ok text => finish (runProgram args file (asRead text))
  | .error error => finish (unreadable file (fileFault error))

end YololChip

open YololChip Console in
def main (arguments : List String) : IO UInt32 := do
  match Plan.ofArguments arguments with
  | .misuse =>
    IO.eprintln "usage: yolol [-source] [-verbose] [--ticks N] [--trace] [program]"
    return 2
  | .refuse message => finish (failure message)
  | .blankTicks => finish (failure "--ticks has no number")
  | .session verbose => converse verbose Repl.start
  | .runText args text => finish (runProgram args literalFile text)
  | .runFile args file => runFromFile args file
