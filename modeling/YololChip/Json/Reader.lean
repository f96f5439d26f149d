import YololChip.Double.Decimal
import YololChip.Fixed.Numeral
import YololChip.Json.Basic

/-!
# Reading JSON

A JSON text is one value between blanks. Beyond the standard the reader takes `NaN`,
`Infinity` and `-Infinity` as numbers. Of a field that an object names twice the
last value counts. A text that is no JSON is refused at the character where it stops
being one, and one that nests deeper than a limit is refused as such. At a whole number of
too many digits reading breaks off, whatever would have followed.
-/

namespace YololChip.Json

/-- What is wrong where a text stops being JSON. -/
inductive Complaint where
  | byteOrderMark
  | expectingValue
  | expectingName
  | expectingColon
  | expectingComma
  | controlCharacter
  | unterminated
  | invalidEscape
  | invalidUnicodeEscape
  | extraData
deriving DecidableEq

def Complaint.message : Complaint → String
  | byteOrderMark => "Unexpected UTF-8 BOM (decode using utf-8-sig)"
  | expectingValue => "Expecting value"
  | expectingName => "Expecting property name enclosed in double quotes"
  | expectingColon => "Expecting ':' delimiter"
  | expectingComma => "Expecting ',' delimiter"
  | controlCharacter => "Invalid control character at"
  | unterminated => "Unterminated string starting at"
  | invalidEscape => "Invalid \\escape"
  | invalidUnicodeEscape => "Invalid \\uXXXX escape"
  | extraData => "Extra data"

/-- Why reading stopped: a complaint with the text from its place on, too deep a nesting, or a
whole number of too many digits. The text stands for the place, which is worked out only at the
end. -/
inductive Refusal where
  | malformed (complaint : Complaint) (rest : List Char)
  | tooDeep
  | overlong (digits : Nat)

/-- A reader takes a value off the front of a text and gives what is left. That is an end of the
text, so its length tells how far the reader came. -/
abbrev Reader (α : Type) : Type := List Char → Except Refusal (α × List Char)

/-- A text that cannot be read as JSON, with the position of the complaint as line, column and
number of characters before it. -/
inductive ReadError where
  | malformed (complaint : Complaint) (line column position : Nat)
  | tooDeep
deriving DecidableEq

/-- The blanks that may stand between the parts of a text, of which there are four. -/
def isSpace (c : Char) : Bool := c = ' ' || c = '\t' || c = '\n' || c = '\r'

/-- The text from its first part on. -/
def skipSpaces (cs : List Char) : List Char := cs.dropWhile isSpace

def hexValue? (c : Char) : Option Nat :=
  if c.isDigit then some (c.toNat - '0'.toNat)
  else if 'a' ≤ c ∧ c ≤ 'f' then some (c.toNat - 'a'.toNat + 10)
  else if 'A' ≤ c ∧ c ≤ 'F' then some (c.toNat - 'A'.toNat + 10)
  else none

/-- The number that a row of hexadecimal digits writes. -/
def hexNumber? (cs : List Char) : Option Nat :=
  cs.foldl (fun value c => do return (← value) * 16 + (← hexValue? c)) (some 0)

/-- The character of an escape with a letter. -/
def escaped? : Char → Option Char
  | '"' => some '"'
  | '\\' => some '\\'
  | '/' => some '/'
  | 'b' => some '\x08'
  | 'f' => some '\x0c'
  | 'n' => some '\n'
  | 'r' => some '\r'
  | 't' => some '\t'
  | _ => none

def isHighHalf (unit : Nat) : Bool := 0xd800 ≤ unit && unit ≤ 0xdbff

def isLowHalf (unit : Nat) : Bool := 0xdc00 ≤ unit && unit ≤ 0xdfff

/-- The code point that two halves make. -/
def joinHalves (high low : Nat) : Nat := 0x10000 + (high - 0xd800) * 0x400 + (low - 0xdc00)

/-- The character of a sixteen-bit unit; half a pair alone stands for the
replacement character. -/
def unitChar (unit : Nat) : Char :=
  if isHighHalf unit || isLowHalf unit then '\ufffd' else Char.ofNat unit

/-- Reads the four digits of an escape that starts with `\u`, and the second half of a pair if
one follows. The text begins at the `u`. The digits must be followed by some further character,
because a string does not end with them. -/
def readUnit : Reader Char := fun cs =>
  let digits := (cs.drop 1).take 4
  let rest := cs.drop 5
  if rest.isEmpty then .error (.malformed .invalidUnicodeEscape cs)
  else match hexNumber? digits with
    | none => .error (.malformed .invalidUnicodeEscape cs)
    | some unit =>
      if isHighHalf unit && rest.take 2 = ['\\', 'u'] && !(rest.drop 6).isEmpty then
        match hexNumber? ((rest.drop 2).take 4) with
        | none => .error (.malformed .invalidUnicodeEscape (rest.drop 1))
        | some second =>
          if isLowHalf second then .ok (Char.ofNat (joinHalves unit second), rest.drop 6)
          else .ok (unitChar unit, rest)
      else .ok (unitChar unit, rest)

/-- Reads the rest of a string, whose opening quote begins `opening`; `read` is what was read of
it, the newest first. The fuel is at least the length of the text, and every turn takes a
character, so it does not run out first. -/
def readString (opening : List Char) : (fuel : Nat) → (read : List Char) → Reader String
  | 0, _, _ => .error (.malformed .unterminated opening)
  | fuel + 1, read, cs =>
    match cs with
    | [] => .error (.malformed .unterminated opening)
    | '"' :: rest => .ok (String.ofList read.reverse, rest)
    | '\\' :: [] => .error (.malformed .unterminated opening)
    | '\\' :: 'u' :: digits =>
      match readUnit ('u' :: digits) with
      | .error refusal => .error refusal
      | .ok (c, rest) => readString opening fuel (c :: read) rest
    | '\\' :: letter :: rest =>
      match escaped? letter with
      | some c => readString opening fuel (c :: read) rest
      | none => .error (.malformed .invalidEscape cs)
    | c :: rest =>
      if c.toNat < 0x20 then .error (.malformed .controlCharacter cs)
      else readString opening fuel (c :: read) rest

/-- The digits at the front of a text, and the rest. -/
def spanDigits (cs : List Char) : List Char × List Char :=
  (cs.takeWhile Char.isDigit, cs.dropWhile Char.isDigit)

/-- The digits after the point, if a point and a digit follow. -/
def readDecimals (cs : List Char) : Option (List Char × List Char) :=
  match cs with
  | '.' :: rest =>
    let (digits, rest) := spanDigits rest
    if digits.isEmpty then none else some (digits, rest)
  | _ => none

/-- The exponent, if an exponent mark, an optional sign and a digit follow. -/
def readExponent (cs : List Char) : Option (Int × List Char) :=
  match cs with
  | mark :: rest =>
    if mark = 'e' ∨ mark = 'E' then
      let (negative, rest) := match rest with
        | '-' :: rest => (true, rest)
        | '+' :: rest => (false, rest)
        | rest => (false, rest)
      let (digits, rest) := spanDigits rest
      if digits.isEmpty then none
      else
        let value : Int := Fixed.digitsValue digits
        some (if negative then -value else value, rest)
    else none
  | [] => none

/-- Reads what follows the sign of a number: digits without a leading zero, then perhaps
decimals and an exponent, either of which makes it a double. Only the digits of a whole number
are limited; a double may have any. It is refused if there is no digit. -/
def readUnsigned (negative : Bool) (cs : List Char) :
    Except (ReadFault Unit) (Json × List Char) :=
  let (digits, rest) := match cs with
    | '0' :: rest => (['0'], rest)
    | cs => spanDigits cs
  if digits.isEmpty then .error (.refused ())
  else
    let decimals := readDecimals rest
    let rest := (decimals.map (·.2)).getD rest
    let power := readExponent rest
    let rest := (power.map (·.2)).getD rest
    if decimals.isNone && power.isNone then
      let value : Int := Fixed.digitsValue digits
      if mostDigits < digits.length then .error (.overlong digits.length)
      else .ok (.whole (if negative then -value else value), rest)
    else
      let fraction := (decimals.map (·.1)).getD []
      let exponent := (power.map (·.1)).getD 0 - fraction.length
      .ok (.double (.ofDecimal negative ⟨Fixed.digitsValue (digits ++ fraction), exponent⟩), rest)

/-- A word that stands for a value. -/
def readWord (cs : List Char) : Option (Json × List Char) :=
  let words : List (String × Json) :=
    [("null", .null), ("true", .bool true), ("false", .bool false),
     ("NaN", .double ⟨0x7ff8000000000000⟩), ("Infinity", .double ⟨0x7ff0000000000000⟩),
     ("-Infinity", .double ⟨0xfff0000000000000⟩)]
  words.findSome? fun (word, value) =>
    if word.toList.isPrefixOf cs then some (value, cs.drop word.length) else none

/-- Reads what follows the sign of a number, of which there need not be one. -/
def readNumber : List Char → Except (ReadFault Unit) (Json × List Char)
  | '-' :: rest => readUnsigned true rest
  | cs => readUnsigned false cs

/-- Reads a word or a number. A word is tried first, because one of them has a sign. -/
def readScalar : Reader Json := fun cs =>
  match readWord cs with
  | some found => .ok found
  | none =>
    match readNumber cs with
    | .ok found => .ok found
    | .error (.refused _) => .error (.malformed .expectingValue cs)
    | .error (.overlong digits) => .error (.overlong digits)

/-- Reads the items of a list after its opening bracket, or after a comma; `read` holds those
before, the newest first. The fuel is at least the length of the text, and an item takes a
character of it at least. -/
def readItems (item : Reader Json) : (fuel : Nat) → (read : List Json) → Reader Json
  | 0, _, cs => .error (.malformed .expectingValue cs)
  | fuel + 1, read, cs =>
    match item cs with
    | .error refusal => .error refusal
    | .ok (value, rest) =>
      match skipSpaces rest with
      | ']' :: rest => .ok (.list (value :: read).reverse, rest)
      | ',' :: rest => readItems item fuel (value :: read) (skipSpaces rest)
      | rest => .error (.malformed .expectingComma rest)

/-- Reads a field: a name, a colon and a value. -/
def readField (item : Reader Json) : Reader (String × Json) := fun cs =>
  match cs with
  | '"' :: rest =>
    match readString cs rest.length [] rest with
    | .error refusal => .error refusal
    | .ok (name, rest) =>
      match skipSpaces rest with
      | ':' :: rest =>
        match item (skipSpaces rest) with
        | .error refusal => .error refusal
        | .ok (value, rest) => .ok ((name, value), rest)
      | rest => .error (.malformed .expectingColon rest)
  | cs => .error (.malformed .expectingName cs)

/-- Reads the fields of an object after its opening brace, or after a comma. A name that comes
again gets its new value at its old place. The fuel is as in `readItems`. -/
def readFields (item : Reader Json) :
    (fuel : Nat) → (read : List (String × Json)) → Reader Json
  | 0, _, cs => .error (.malformed .expectingName cs)
  | fuel + 1, read, cs =>
    match readField item cs with
    | .error refusal => .error refusal
    | .ok ((name, value), rest) =>
      let read := Bindings.put name value read
      match skipSpaces rest with
      | '}' :: rest => .ok (.object read, rest)
      | ',' :: rest => readFields item fuel read (skipSpaces rest)
      | rest => .error (.malformed .expectingComma rest)

/-- Reads a value of at most the given depth. Only lists and objects take a level; an empty one
needs a level too. The first character tells what the value is. -/
def readValue : (depth : Nat) → Reader Json
  | _, '"' :: rest =>
    match readString ('"' :: rest) rest.length [] rest with
    | .error refusal => .error refusal
    | .ok (string, rest) => .ok (.text string, rest)
  | 0, '[' :: _ => .error .tooDeep
  | 0, '{' :: _ => .error .tooDeep
  | depth + 1, '[' :: rest =>
    match skipSpaces rest with
    | ']' :: rest => .ok (.list [], rest)
    | rest => readItems (readValue depth) (rest.length + 1) [] rest
  | depth + 1, '{' :: rest =>
    match skipSpaces rest with
    | '}' :: rest => .ok (.object [], rest)
    | rest => readFields (readValue depth) (rest.length + 1) [] rest
  | _, cs => readScalar cs

/-- Line and column, both from one, of the character after the given ones. -/
def lineColumn (before : List Char) : Nat × Nat :=
  (before.count '\n' + 1, (before.reverse.takeWhile (· != '\n')).length + 1)

/-- Reads a text as one value whose lists and objects nest at most `limit` deep. What is wrong
is reported with its place in the text; a mark of the byte order is refused before anything is
read. -/
def read (limit : Nat) (text : String) : Except (ReadFault ReadError) Json :=
  let cs := text.toList
  let result : Except Refusal Json :=
    if cs.head? = some '\ufeff' then .error (.malformed .byteOrderMark cs)
    else match readValue limit (skipSpaces cs) with
      | .error refusal => .error refusal
      | .ok (value, rest) =>
        match skipSpaces rest with
        | [] => .ok value
        | rest => .error (.malformed .extraData rest)
  match result with
  | .ok value => .ok value
  | .error .tooDeep => .error (.refused .tooDeep)
  | .error (.overlong digits) => .error (.overlong digits)
  | .error (.malformed complaint rest) =>
    let position := cs.length - rest.length
    let (line, column) := lineColumn (cs.take position)
    .error (.refused (.malformed complaint line column position))

def ReadError.message : ReadError → String
  | malformed complaint line column position =>
    complaint.message ++ ": line " ++ toString line ++ " column " ++ toString column ++
      " (char " ++ toString position ++ ")"
  | tooDeep => "nested too deeply"

end YololChip.Json
