import YololChip.Fixed.Numeral
import YololChip.Text.Blank
import YololChip.Text.DecimalDigits

/-!
# Command-line arguments

The arguments of the command: at most one program, flags, and a number of ticks. An option
may stand before or after the program, and may be shortened as long as it fits one
option only. An argument that merely begins with a dash is no option if it is a negative
number or holds a blank. After two dashes alone everything is taken as it stands.
-/

namespace YololChip.Console

/-- For how many ticks a program is to run. -/
inductive Ticks where
  /-- One for each line of the program, which is what is meant if nothing is said. -/
  | onePass
  | count (number : Int)
  /-- The option was given, and two dashes stood in the place of its number. -/
  | blank
deriving DecidableEq

/-- What the command is asked to do. Any of it may be asked for together with any other; which
of it counts then is for the plan. -/
structure Arguments where
  program : Option String
  source : Bool
  verbose : Bool
  ticks : Ticks
  trace : Bool
  tracebackJson : Bool
  cylon : Bool
  fromCylon : Bool
deriving DecidableEq

/-- The options that take no value. One that is given twice is as one that is given once. -/
inductive Flag where
  | source
  | verbose
  | trace
  | tracebackJson
  | cylon
  | fromCylon
deriving DecidableEq

namespace Arguments

def none : Arguments := ⟨.none, false, false, .onePass, false, false, false, false⟩

def set (args : Arguments) : Flag → Arguments
  | .source => { args with source := true }
  | .verbose => { args with verbose := true }
  | .trace => { args with trace := true }
  | .tracebackJson => { args with tracebackJson := true }
  | .cylon => { args with cylon := true }
  | .fromCylon => { args with fromCylon := true }

/-- What an option is for. There is no help to give, but its names are taken: they are found as
the names of options are, and to ask for it is refused. -/
inductive Choice where
  | flag (flag : Flag)
  | ticks
  | help
deriving DecidableEq

/-- The options by their names. Their order is that in which they are looked through, and no
name stands twice. -/
def options : List (String × Choice) :=
  [("-h", .help), ("--help", .help),
   ("-source", .flag .source), ("--source", .flag .source),
   ("-verbose", .flag .verbose), ("--verbose", .flag .verbose),
   ("--ticks", .ticks), ("--trace", .flag .trace), ("--traceback-json", .flag .tracebackJson),
   ("--cylon", .flag .cylon), ("--from-cylon", .flag .fromCylon)]

def choice? (name : String) : Option Choice := (options.find? (·.1 = name)).map (·.2)

/-- Whether a character is a decimal digit of any script. -/
def isDecimalDigit (c : Char) : Bool := (Text.decimalDigit? c).isSome

/-- The characters without one line feed at their end. -/
def withoutLineEnd (cs : List Char) : List Char :=
  if cs.getLast? = some '\n' then cs.dropLast else cs

/-- Whether a text is a negative number: digits after a minus sign, with at least one digit
after a point if there is one. -/
def isNegativeNumber : List Char → Bool
  | '-' :: cs =>
    match cs.dropWhile isDecimalDigit with
    | [] => !cs.isEmpty
    | '.' :: decimals => !decimals.isEmpty && decimals.all isDecimalDigit
    | _ => false
  | _ => false

/-- The number that digits of any script write, with single underscores between digits. There is
none if an underscore stands at the end or beside another. -/
def underscored : (value : Nat) → List Char → Option Nat
  | value, [] => some value
  | value, '_' :: c :: cs => do underscored (value * 10 + (← Text.decimalDigit? c)) cs
  | value, c :: cs => do underscored (value * 10 + (← Text.decimalDigit? c)) cs

/-- The number that a row of digits writes. It begins with a digit, and has no more digits than
whole numbers are read of; underscores are not counted as such, and leading zeros are. -/
def natural? : List Char → Option Nat
  | [] => .none
  | c :: cs =>
    if mostDigits < ((c :: cs).filter (· != '_')).length then .none
    else do underscored (← Text.decimalDigit? c) cs

/-- Whether a character may stand around a whole number: a blank that is none of the four
control characters that part records. -/
def isPadding (c : Char) : Bool := Text.isBlank c && !(0x1c ≤ c.toNat && c.toNat ≤ 0x1f)

/-- The characters of a text without the padding at both ends. -/
def withoutPadding (text : String) : List Char :=
  ((text.toList.dropWhile isPadding).reverse.dropWhile isPadding).reverse

/-- The whole number that a text writes, between padding and with an optional sign. -/
def integer? (text : String) : Option Int :=
  match withoutPadding text with
  | '-' :: cs => (natural? cs).map fun n => -(n : Int)
  | '+' :: cs => (natural? cs).map fun n => (n : Int)
  | cs => (natural? cs).map fun n => (n : Int)

/-- What an argument is by its form, before it is known what stands around it. -/
inductive Shape where
  | plain
  | separator
  | flag (flag : Flag)
  | ticks
  | ticksValue (text : String)
  | refused

/-- The form of an option with or without a value of its own. Flags take none. -/
def Choice.shape : Choice → Option String → Shape
  | .flag meant, .none => .flag meant
  | .ticks, .none => .ticks
  | .ticks, some value => .ticksValue value
  | _, _ => .refused

/-- The part before an equals sign, and the part after it if there is an equals sign. -/
def splitValue (cs : List Char) : List Char × Option String :=
  (cs.takeWhile (· != '='),
   match cs.dropWhile (· != '=') with
   | [] => .none
   | _ :: value => some (String.ofList value))

/-- The options that a text may be short for, each with its value. After two dashes the value
stands behind an equals sign. After one dash an option of one letter has all that follows it as
its value, and the others have none. A text that may be short for several is refused by the
caller, even if they are one choice. -/
def completions : List Char → List (Choice × Option String)
  | '-' :: '-' :: cs =>
    let (start, value) := splitValue ('-' :: '-' :: cs)
    (options.filter fun entry => start.isPrefixOf entry.1.toList).map fun entry =>
      (entry.2, value)
  | cs =>
    options.filterMap fun (name, choice) =>
      if name.toList = cs.take 2 then some (choice, some (String.ofList (cs.drop 2)))
      else if cs.isPrefixOf name.toList then some (choice, .none)
      else .none

/-- The form of an argument that begins with a dash: an option by its name, an option cut
short, or else a number or a text after all. A line feed behind a number does not count. -/
def dashedShape (arg : String) : Shape :=
  let cs := arg.toList
  let (name, value) := splitValue cs
  match choice? (String.ofList name) with
  | some choice => choice.shape value
  | .none =>
    match completions cs with
    | [(choice, value)] => choice.shape value
    | _ :: _ => .refused
    | [] => if isNegativeNumber (withoutLineEnd cs) || cs.contains ' ' then .plain else .refused

/-- The form of an argument. A dash alone is no option, and neither is an empty text. -/
def shape (arg : String) : Shape :=
  if arg.toList.head? ≠ some '-' ∨ arg = "-" then .plain
  else if arg = "--" then .separator
  else dashedShape arg

/-- The number of ticks that a text writes. Two dashes leave it blank. -/
def ticks? (text : String) : Option Ticks :=
  if text = "--" then some .blank else (integer? text).map .count

def withTicks (args : Arguments) (text : String) : Option Arguments :=
  (ticks? text).map fun ticks => { args with ticks }

/-- The arguments with a program, if they have none yet. -/
def withProgram (args : Arguments) (program : String) : Option Arguments :=
  if args.program.isSome then .none else some { args with program := some program }

/-- What may follow two dashes: at most the program. -/
def afterSeparator (args : Arguments) : List String → Option Arguments
  | [] => if args.program.isSome then .none else some args
  | [program] => args.withProgram program
  | _ => .none

/-- Adds arguments, or gives up if they cannot be meant. What stands behind `--ticks` is its
number only if it is none of the options itself. Right after the program two dashes may stand at
the end. -/
def parseFrom (args : Arguments) : List String → Option Arguments
  | [] => some args
  | arg :: rest =>
    match shape arg, rest with
    | .plain, ["--"] => args.withProgram arg
    | .plain, rest => do parseFrom (← args.withProgram arg) rest
    | .separator, rest => afterSeparator args rest
    | .flag flag, rest => parseFrom (args.set flag) rest
    | .ticksValue text, rest => do parseFrom (← args.withTicks text) rest
    | .ticks, value :: rest =>
      match shape value with
      | .plain => do parseFrom (← args.withTicks value) rest
      | _ => .none
    | .ticks, [] => .none
    | .refused, _ => .none

/-- Reads the arguments of the command, or nothing if they cannot be meant. -/
def parse (args : List String) : Option Arguments := parseFrom none args

end Arguments

end YololChip.Console
