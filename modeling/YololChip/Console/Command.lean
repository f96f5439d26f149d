import YololChip.Console.Arguments
import YololChip.Console.Repl
import YololChip.Cylon.Import

/-!
# The command

What the command does with its arguments: it runs a program for a number of ticks and
prints the variables, or prints the program as a Cylon document, or holds an
interactive session. Everything here is a function of the arguments, the text of the
program and the entries; reading and printing are left to the caller.
-/

namespace YololChip.Console

/-- How a command ends: its exit code, what it prints, and what was raised that it does not catch,
if anything was. The process reports the latter in words that are not the command's own, so
the report is no part of what is printed. -/
structure Result where
  code : Nat
  out : String
  err : String
  raised : Option Raised

/-- What becomes of a command that does not catch what was raised, with what it has printed by
then. -/
def Result.brokenOff (raised : Raised) (streams : Streams) : Result :=
  ⟨1, streams.outText, streams.errText, some raised⟩

/-- What the arguments ask for. A misuse is told apart from a complaint of the command's own,
because the words for it are not the command's. -/
inductive Plan where
  | misuse
  | refuse (message : String)
  /-- A program is to run for a number of ticks that was left blank. -/
  | blankTicks
  | session (verbose : Bool)
  | runText (args : Arguments) (text : String)
  | runFile (args : Arguments) (file : String)

/-- What becomes of a program whose number of ticks is no good, before it is read. -/
def Ticks.fault? : Ticks → Option Plan
  | .onePass => none
  | .count number => if number < 0 then some (.refuse "--ticks must not be negative") else none
  | .blank => some .blankTicks

/-- The number of ticks for a program of the given number of lines. With nothing said it is one
for each line, so the program is gone through once if no goto is taken. -/
def Ticks.number (lines : Nat) : Ticks → Nat
  | .count number => number.toNat
  | .onePass | .blank => lines

/-- The plan of a command. Without a program there is a session, whatever else is asked for,
unless the program was to be given as it stands. -/
def Plan.ofArguments (arguments : List String) : Plan :=
  match Arguments.parse arguments with
  | none => .misuse
  | some args =>
    match args.program with
    | none =>
      if args.source then .refuse "-source requires a program string" else .session args.verbose
    | some program =>
      match args.ticks.fault? with
      | some plan => plan
      | none => if args.source then .runText args program else .runFile args program

/-- The name under which literal source runs. -/
def literalFile : String := "<string>"

def failure (message : String) : Result := ⟨1, "", message ++ "\n", none⟩

/-- Why a file cannot be read. -/
inductive FileFault where
  | missing
  | notDirectory
  | directory
  | nameTooLong
  | other (reason : String)

def FileFault.message (file : String) : FileFault → String
  | missing => "[Errno 2] No such file or directory: " ++ Text.quoted file
  | notDirectory => "[Errno 20] Not a directory: " ++ Text.quoted file
  | directory => "[Errno 21] Is a directory: " ++ Text.quoted file
  | nameTooLong => "[Errno 36] File name too long: " ++ Text.quoted file
  | other reason => reason

def unreadable (file : String) (fault : FileFault) : Result :=
  failure ("Failed to read " ++ file ++ ": " ++ fault.message file)

def baseName (path : List Char) : List Char := (path.reverse.takeWhile (· != '/')).reverse

/-- A file name without its extension. Points at the start begin no extension, and of several
extensions only the last is taken off. -/
def stem (name : List Char) : List Char :=
  let points := name.takeWhile (· == '.')
  let body := name.dropWhile (· == '.')
  if body.contains '.' then points ++ ((body.reverse.dropWhile (· != '.')).drop 1).reverse
  else name

/-- The name of the chip that runs a file: the file's own without its folders, its extension and
the angles around it. -/
def chipName (file : String) : String :=
  let isAngle (c : Char) := c == '<' || c == '>'
  let bare := (((stem (baseName file.toList)).dropWhile isAngle).reverse.dropWhile isAngle).reverse
  if bare.isEmpty then "chip" else String.ofList bare

/-- The hooks that the arguments ask for. Reports are always made; lines are announced if they
are traced. -/
def hooksOf (args : Arguments) : Hooks Streams :=
  let reporting := Hooks.none.add .onError (reporter args.verbose args.tracebackJson)
  if args.trace then reporting.add .beforeLine tracer else reporting

/-- Runs ticks of a program, up to one that raises. A fault that is recorded ends no run. -/
def runTicks (i : Interpreter Streams) (program : Program) :
    (ticks : Nat) → Machine Streams → Option Raised × Machine Streams
  | 0, m => (none, m)
  | ticks + 1, m =>
    match i.step program m with
    | (.error raised, m) => (some raised, m)
    | (.ok _, m) => runTicks i program ticks m

/-- Runs a program and prints the variables, or prints its document and does not run it. A run
that breaks off prints no variables. -/
def perform (args : Arguments) (file : String) (program : Program) : Result :=
  if args.cylon then
    match Cylon.write program (some 2) with
    | .ok text => ⟨0, text ++ "\n", "", none⟩
    | .error fault => failure ("CylonError: " ++ fault.message)
  else
    let i : Interpreter Streams := ⟨args.verbose, file, hooksOf args, .default⟩
    let ticks := args.ticks.number program.lines.length
    match runTicks i program ticks (.start (.fresh (chipName file)) .empty) with
    | (some raised, m) => .brokenOff raised m.observer
    | (none, m) =>
      let streams := m.chip.listing.foldl Streams.print m.observer
      ⟨0, streams.outText, streams.errText, none⟩

/-- What becomes of a program that cannot be read. A refusal is a complaint of the command's own,
under the heading of its kind. -/
def unread {ε : Type} (title : String) (message : ε → String) : ReadFault ε → Result
  | .refused error => failure (title ++ ": " ++ message error)
  | .overlong digits => .brokenOff (.overlong digits) .empty

/-- Runs the text of a program from a file, as source or as a document. One that cannot be read
is not run at all. -/
def runProgram (args : Arguments) (file text : String) : Result :=
  if args.fromCylon then
    match Cylon.read text with
    | .ok program => perform args file program
    | .error fault => unread "CylonError" DocumentFault.message fault
  else
    match Program.parse text file with
    | .ok program => perform args file program
    | .error fault => unread "ParseError" ParseError.message fault

/-- The text of a file or a stream as it is read: every line ends in a line feed. -/
def asRead (text : String) : String := String.ofList (Text.withLineFeeds text.toList)

/-- An interactive session over the text of its entries. The exit code tells only whether it was
broken off. -/
def runSession (verbose : Bool) (input : String) : Result :=
  match Repl.session verbose Repl.start (Repl.entries (asRead input)) with
  | (some raised, m) => .brokenOff raised m.observer
  | (none, m) => ⟨0, m.observer.outText, m.observer.errText, none⟩

end YololChip.Console
