import YololChip.Fixed.Numeral
import YololChip.Source.Token

/-!
# Scanning

`scan` cuts a text into tokens. Blanks and tabs part tokens and are nothing else;
each other character belongs to one token, or no token can start at it and the
text is refused there. Every list of tokens ends in a token that marks the end.

At a number with more digits than are read, scanning breaks off. Whichever of the two comes
first in the text is what becomes of it.
-/

namespace YololChip

/-- A character at which no token can start, with its place in the text that was scanned and the
name of the file. -/
structure ScanError where
  file : String
  line : Nat
  column : Nat
  character : Char
deriving DecidableEq

/-- The sentence that reports a character at which no token can start. -/
def ScanError.message (e : ScanError) : String :=
  "Unexpected character '" ++ e.character.toString ++ "' at " ++ e.file ++ ":" ++
    toString e.line ++ ":" ++ toString e.column

/-- A line and a column, both from one. Every character takes a column, also a tab and a
carriage return. -/
structure Position where
  line : Nat
  column : Nat
deriving DecidableEq

/-- The position after a character. Only a line feed begins a line; a carriage return before it
is one more column. -/
def Position.next (p : Position) (c : Char) : Position :=
  if c = '\n' then ⟨p.line + 1, 1⟩ else ⟨p.line, p.column + 1⟩

def Position.after (p : Position) (cs : List Char) : Position := cs.foldl Position.next p

/-- The characters that only part tokens. No other blank is one: scanning refuses it. -/
def isGap (c : Char) : Bool := c = ' ' || c = '\t'

/-- The characters that a name can start with: a letter from a to z of either case, or an
underscore. -/
def startsName (c : Char) : Bool := c = '_' || c.isAlpha

def continuesName (c : Char) : Bool := c = '_' || c.isAlphanum

def continuesNumber (c : Char) : Bool := c.isDigit || c = '.'

/-- The characters that a string can hold: all but the quote and the two that can end a line.
There are no escapes. -/
def continuesString (c : Char) : Bool := c != '"' && c != '\n' && c != '\r'

/-- The lower-case form of a name, which has letters from a to z only. -/
def nameText (cs : List Char) : String := String.ofList (cs.map Char.toLower)

/-- The characters without the carriage returns at their end. A comment takes those in front of
its line feed, and then lets go of them. -/
def withoutReturns (cs : List Char) : List Char :=
  (cs.reverse.dropWhile (· = '\r')).reverse

/-- What a word stands for: a keyword if it is one, and otherwise a name. The word is in lower
case already. -/
def wordLexeme (name : String) : Lexeme :=
  match Keyword.ofWord? name with
  | some k => .keyword k
  | none => .name name

/-- The token that starts with the given character, and how many of the following
characters belong to it. A number takes all digits and points, a string that is
not closed ends with its line, and a comment leaves the line's end to the next token. A
character is refused if no token starts with it; a number can have too many digits. -/
def lexemeAt (c : Char) (rest : List Char) : Except (ReadFault Unit) (Lexeme × Nat) :=
  if c = '\r' ∧ rest.head? = some '\n' then .ok (.newline, 1)
  else if c = '\n' then .ok (.newline, 0)
  else if c = '/' ∧ rest.head? = some '/' then
    let body := (rest.drop 1).takeWhile (· != '\n')
    .ok (.comment (String.ofList (withoutReturns body)), body.length + 1)
  else match Symbol.ofChar? c with
    | some s => .ok (.symbol s, 0)
    | none =>
      if c = '"' then
        let body := rest.takeWhile continuesString
        let closing := if (rest.drop body.length).head? = some '"' then 1 else 0
        .ok (.text (String.ofList body), body.length + closing)
      else if c.isDigit then
        let more := rest.takeWhile continuesNumber
        match Fixed.ofLiteral (String.ofList (c :: more)) with
        | .ok value => .ok (.number value, more.length)
        | .error digits => .error (.overlong digits)
      else
        let more := rest.takeWhile continuesName
        if c = ':' ∧ more ≠ [] then .ok (.field (nameText (c :: more)), more.length)
        else if startsName c then .ok (wordLexeme (nameText (c :: more)), more.length)
        else .error (.refused ())

/-- The tokens of the characters from a position on. A token is numbered with the position of
its first character, and a character that is refused is reported with its own. What stands
behind the first character that stops the scan is not looked at. -/
def scanFrom (file : String) (p : Position) :
    List Char → Except (ReadFault ScanError) (List Token)
  | [] => .ok [⟨.finish, p.line, p.column⟩]
  | c :: rest =>
    if isGap c then scanFrom file (p.next c) rest
    else match lexemeAt c rest with
      | .error fault => .error (fault.map fun _ => ⟨file, p.line, p.column, c⟩)
      | .ok (lexeme, more) =>
        match scanFrom file (p.after (c :: rest.take more)) (rest.drop more) with
        | .ok tokens => .ok (⟨lexeme, p.line, p.column⟩ :: tokens)
        | .error fault => .error fault
termination_by cs => cs.length
decreasing_by all_goals simp only [List.length_cons, List.length_drop]; omega

/-- The tokens of a text, the last of which marks its end. -/
def scan (file text : String) : Except (ReadFault ScanError) (List Token) :=
  scanFrom file ⟨1, 1⟩ text.toList

end YololChip
