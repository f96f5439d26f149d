import YololChip.Source.Grammar
import YololChip.Source.Scan
import YololChip.Text.Blank

/-!
# Lines and programs from text

`Line.parse` reads one line. `Program.parse` reads up to twenty; a line that is refused is kept
as a blank one, with its error beside it, so that the other lines still run. At a number of
too many digits both break off, and then there is no line, and no program either.
-/

namespace YololChip

/-- Why a line cannot be read: a character at which no token starts, or tokens that are no line. -/
inductive SourceError where
  | scan (error : ScanError)
  | parse (error : ParseError)
deriving DecidableEq

def SourceError.message : SourceError → String
  | scan error => error.message
  | parse error => error.message

/-- A program: its lines, and the errors of lines that could not be read, by number. A line with
an error stands among the lines as a blank one. -/
structure Program where
  loc : Option Location
  lines : List Line
  errors : List (Int × SourceError)

/-- The error of a giving up, at the token where the parser stood. A nesting that is too deep is
shown there too, although that is only where the levels ran out: the token is as good as
those before it, and with more levels the parser would have taken it. -/
def Grammar.Stuck.error (stuck : Grammar.Stuck) : ParseError :=
  ⟨stuck.fault, some (Grammar.front stuck.rest)⟩

/-- The line that a list of tokens writes. Its location is that of its first token, and what
follows the end of the line is left out. -/
def Line.ofTokens (sheet : Grammar.Sheet) (ts : List Token) : Except ParseError Line :=
  match Grammar.statements sheet ts with
  | .error stuck => .error stuck.error
  | .ok (statements, _) => .ok ⟨sheet.locate ts, statements, sheet.firstLine⟩

/-- Reads a line that stands in a file under a number. All of the text is scanned before the
parser sees its first token, also what follows the first line of it, so that can be refused
or break off too. -/
def Line.parse (text file : String) (number : Int) : Except (ReadFault SourceError) Line :=
  match scan file text with
  | .error fault => .error (fault.map .scan)
  | .ok tokens =>
    match Line.ofTokens ⟨file, (Text.lines text).map Text.strip, number⟩ tokens with
    | .error error => .error (.refused (.parse error))
    | .ok line => .ok line

/-- What passes a check has a result, which passes the check. So a check of a fixed text that can
be decided tells that the text is read, and what as. -/
theorem exists_ok_of_any {ε α : Type} {x : Except ε α} {f : α → Bool}
    (checked : x.toOption.any f = true) : ∃ result, x = .ok result ∧ f result = true := by
  cases x with
  | error e => contradiction
  | ok result => exact ⟨result, rfl, checked⟩

/-- What fails by an error that passes a check has such an error. -/
theorem exists_error_of_any {ε α : Type} {x : Except ε α} {f : ε → Bool}
    (checked : (match x with | .ok _ => false | .error e => f e) = true) :
    ∃ error, x = .error error ∧ f error = true := by
  cases x with
  | ok result => contradiction
  | error e => exact ⟨e, rfl, checked⟩

namespace Program

/-- The program without lines. Every line of it that a chip comes to is blank. -/
def empty : Program := ⟨none, [], []⟩

/-- The line at a cursor position; past the ends of the program it is blank. A chip may be at
any position, so this has a line for each. -/
def line (p : Program) (number : Int) : Line :=
  if 1 ≤ number then (p.lines[number.toNat - 1]?).getD (.blank number) else .blank number

/-- How deep the deepest line nests, which is what decides whether the program has a document. -/
def depth (p : Program) : Nat :=
  p.lines.foldr (fun line deepest => max (Stmt.depthAll line.statements) deepest) 0

/-- The error of the line under a number, if it has one. Of two errors under a number the first
would count. -/
def error? (p : Program) (number : Int) : Option SourceError :=
  (p.errors.find? (·.1 = number)).map (·.2)

/-- What a program keeps of a line of its text: the line, or a blank one in the place of a line
that is refused, and that line's error under its number. -/
def keep (file : String) (number : Nat) (text : String) :
    Except (ReadFault ParseError) (Line × List (Int × SourceError)) :=
  match Line.parse text file number with
  | .ok line => .ok (line, [])
  | .error (.refused error) =>
    .ok (⟨some ⟨file, number, 1, Text.strip text⟩, [], number⟩, [(number, error)])
  | .error (.overlong digits) => .error (.overlong digits)

/-- The lines of a program and the errors of those that are refused, both in order. The first of
the texts has the given number. A line that breaks off leaves those behind it unread. -/
def parseLines (file : String) (number : Nat) :
    List String → Except (ReadFault ParseError) (List Line × List (Int × SourceError))
  | [] => .ok ([], [])
  | text :: rest =>
    match keep file number text with
    | .error fault => .error fault
    | .ok (line, errors) =>
      match parseLines file (number + 1) rest with
      | .error fault => .error fault
      | .ok (lines, later) => .ok (line :: lines, errors ++ later)

/-- Reads a program. Only a text of too many lines is refused, before any of them is read. -/
def parse (text file : String) : Except (ReadFault ParseError) Program :=
  let texts := Text.lines text
  if mostLines < texts.length then .error (.refused ⟨.tooManyLines texts.length, none⟩)
  else match parseLines file 1 texts with
    | .error fault => .error fault
    | .ok (lines, errors) => .ok ⟨some ⟨file, 1, 1, ""⟩, lines, errors⟩

end Program

end YololChip
