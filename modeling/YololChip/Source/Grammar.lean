import YololChip.Source.ParseError

/-!
# Grammar

A parser takes a tree off the front of a list of tokens and gives the tokens that
are left, or gives up at some token. The levels of expressions, from the loosest:
or, and, equality, comparison, sum, product, power, factorial, word or sign before an
operand, operand. Chains of one level lean to the left, powers to the right.

What nests (groups, powers, words and signs before operands, if statements) is read
one level down, and there is a greatest depth. So every parser is a plain
recursion on the depth and, in a chain, on the number of tokens.
-/

namespace YololChip.Grammar

/-- The greatest depth to which expressions, statements and documents nest. One limit serves
parsing, evaluation and documents, and each counts its own levels against it. It stands for a
stack of a fixed size, so the number has no meaning of its own. -/
def nestingLimit : Nat := 1000

/-- Where a parser gave up: the fault, and the tokens from the place on. All of them are kept,
because their number says how far the parser came; only the first is ever reported. -/
structure Stuck where
  fault : ParseFault
  rest : List Token
deriving DecidableEq

/-- A parser takes something off the front of a list of tokens and gives it with the tokens that
are left, or gives up. It has no state besides, so what it does depends on those tokens alone. -/
abbrev Parser (α : Type) : Type := List Token → Except Stuck (α × List Token)

/-- The file that tokens come from: its name, its lines without the blanks around them, and the
number of the first one. Tokens count their lines from one, whatever number the first line has. -/
structure Sheet where
  file : String
  lines : List String
  firstLine : Int

/-- The first token. A list of tokens is never empty: it ends in the token of its end. -/
def front (ts : List Token) : Token := ts.headD ⟨.finish, 1, 1⟩

/-- The location of the first token, with the text of the line that it is in. A token behind the
last line end is in no line of the sheet, and the text is then empty. -/
def Sheet.locate (sheet : Sheet) (ts : List Token) : Option Location :=
  let t := front ts
  some ⟨sheet.file, sheet.firstLine + (t.line - 1 : Int), t.column,
    (sheet.lines[t.line - 1]?).getD ""⟩

/-- Gives up at the first token, and takes nothing. -/
def stop {α : Type} (fault : ParseFault) : Parser α := fun ts => .error ⟨fault, ts⟩

/-- Whether two symbols stand side by side at the front, with no blank between them. No token
has two characters that are both symbols, so this is how operators such as `==` and `+=` are
told. -/
def isPair (first second : Symbol) : List Token → Bool
  | a :: b :: _ => a.lexeme = .symbol first && b.lexeme = .symbol second && a.isBeside b
  | _ => false

/-- An operator of a level at the front, and the number of its tokens. A matcher only looks: it
is the chain of its level that takes the tokens. -/
abbrev Matcher : Type := List Token → Option (BinaryOperator × Nat)

def matchOr : Matcher := fun ts =>
  if (front ts).lexeme = .keyword .or then some (.or, 1) else none

def matchAnd : Matcher := fun ts =>
  if (front ts).lexeme = .keyword .and then some (.and, 1) else none

/-- The operators of equality, each of two symbols. -/
def matchEquality : Matcher := fun ts =>
  if isPair .equals .equals ts then some (.equal, 2)
  else if isPair .bang .equals ts then some (.notEqual, 2)
  else none

/-- The operators of comparison. Two symbols side by side are taken before one. -/
def matchComparison : Matcher := fun ts =>
  if isPair .less .equals ts then some (.lessEqual, 2)
  else if isPair .greater .equals ts then some (.greaterEqual, 2)
  else match (front ts).lexeme with
    | .symbol .less => some (.less, 1)
    | .symbol .greater => some (.greater, 1)
    | _ => none

def matchSum : Matcher := fun ts =>
  match (front ts).lexeme with
  | .symbol .plus => some (.add, 1)
  | .symbol .minus => some (.sub, 1)
  | _ => none

def matchProduct : Matcher := fun ts =>
  match (front ts).lexeme with
  | .symbol .star => some (.mul, 1)
  | .symbol .slash => some (.div, 1)
  | .symbol .percent => some (.mod, 1)
  | _ => none

/-- The right operand of an operator. If not even its first token fits, the operator is what has
no operand, and the left operand is what was read by then. An operand that has begun keeps its
own fault, also where that is an unexpected token further on. -/
def rightOperand (operand : Parser Expr) (op : BinaryOperator) (left : Expr) : Parser Expr :=
  fun ts =>
    match operand ts with
    | .ok read => .ok read
    | .error stuck =>
      match stuck.fault with
      | .unexpected _ =>
        if stuck.rest.length = ts.length then .error ⟨.missingOperand op left, stuck.rest⟩
        else .error stuck
      | _ => .error stuck

/-- The operators of a level and their right operands, behind a first operand; the tree leans to
the left. A turn takes an operator and its operand off the front, so there are no more turns
than tokens. The list `most` is there to go by and holds nothing that is looked at: it is as
long as the tokens are at the beginning, and so it does not run out before the operators do. -/
def chain (sheet : Sheet) (operand : Parser Expr) (found : Matcher) :
    (most : List Token) → (left : Expr) → Parser Expr
  | [], left, ts => .ok (left, ts)
  | _ :: most, left, ts =>
    match found ts with
    | none => .ok (left, ts)
    | some (op, width) =>
      match rightOperand operand op left (ts.drop width) with
      | .error stuck => .error stuck
      | .ok (right, rest) =>
        chain sheet operand found most (.binary (sheet.locate ts) op left right) rest

/-- Operands with the operators of a level between them. The tokens behind the first operand are
what its chain goes by. -/
def level (sheet : Sheet) (operand : Parser Expr) (found : Matcher) : Parser Expr := fun ts =>
  match operand ts with
  | .error stuck => .error stuck
  | .ok (left, rest) => chain sheet operand found rest left rest

/-- The factorial signs behind an operand, each of which applies to all before it. A sign beside
an equals sign is none: the two make an inequality. -/
def factorials (sheet : Sheet) : Expr → List Token → Expr × List Token
  | operand, [] => (operand, [])
  | operand, t :: rest =>
    if t.lexeme = .symbol .bang ∧ isPair .bang .equals (t :: rest) = false then
      factorials sheet (.unary (sheet.locate (t :: rest)) .factorial operand) rest
    else (operand, t :: rest)

/-- The parsers of what nests, one level down: an expression in a group, a power as an exponent,
and an operand behind a word or a sign. -/
structure Nested where
  expression : Parser Expr
  power : Parser Expr
  signed : Parser Expr

/-- A variable with the step operator behind it, if one follows. The two characters of the
operator stand side by side; between them and the variable there may be blanks. -/
def stepped (sheet : Sheet) (name : String) : Parser Expr := fun ts =>
  let loc := sheet.locate ts
  let target : Expr := .var loc (Variable.named name)
  let rest := ts.drop 1
  if isPair .plus .plus rest then .ok (.unary loc .postIncrement target, rest.drop 2)
  else if isPair .minus .minus rest then .ok (.unary loc .postDecrement target, rest.drop 2)
  else .ok (target, rest)

/-- A number, a text, a variable or a group. Anything else is unexpected, and no token is taken
then. A group that does not close is reported at the token that stands in the place of its
closing sign, with what is inside. -/
def operand (sheet : Sheet) (nested : Nested) : Parser Expr := fun ts =>
  let loc := sheet.locate ts
  match (front ts).lexeme with
  | .number value => .ok (.number loc value, ts.drop 1)
  | .text value => .ok (.text loc value, ts.drop 1)
  | .name name => stepped sheet name ts
  | .field name => stepped sheet name ts
  | .symbol .leftParen =>
    match nested.expression (ts.drop 1) with
    | .error stuck => .error stuck
    | .ok (inner, rest) =>
      if (front rest).lexeme = .symbol .rightParen then .ok (.group loc inner, rest.drop 1)
      else stop (.unclosedGroup inner) rest
  | lexeme => stop (.unexpected lexeme) ts

/-- Whether a step sign and a variable stand at the front. A sign before anything but a variable
is no step. -/
def isStepBefore (sign : Symbol) (ts : List Token) : Bool :=
  isPair sign sign ts && (front (ts.drop 2)).lexeme.nameOf?.isSome

/-- The operator at the front that stands before its operand, and the number of its tokens. Two
minus signs side by side before a variable are a step, and otherwise the first of them is a
negation of its own; a plus sign alone stands before nothing. -/
def matchSign (ts : List Token) : Option (UnaryOperator × Nat) :=
  match (front ts).lexeme with
  | .keyword k => k.unary?.map (·, 1)
  | .symbol .plus => if isStepBefore .plus ts then some (.preIncrement, 2) else none
  | .symbol .minus =>
    if isStepBefore .minus ts then some (.preDecrement, 2) else some (.neg, 1)
  | _ => none

/-- An operand with a word or a sign before it, if there is one. What stands behind the sign is
read one level down, so a row of signs takes a level for each. -/
def signed (sheet : Sheet) (nested : Nested) : Parser Expr := fun ts =>
  match matchSign ts with
  | none => operand sheet nested ts
  | some (op, width) =>
    match nested.signed (ts.drop width) with
    | .error stuck => .error stuck
    | .ok (inner, rest) => .ok (.unary (sheet.locate ts) op inner, rest)

/-- A base with its factorials, and the power that it is raised to. A sign before the base
belongs to the base. The exponent is a power again, one level down, so powers lean to the right. -/
def power (sheet : Sheet) (nested : Nested) : Parser Expr := fun ts =>
  match signed sheet nested ts with
  | .error stuck => .error stuck
  | .ok (base, rest) =>
    let (left, rest) := factorials sheet base rest
    if (front rest).lexeme = .symbol .caret then
      match rightOperand nested.power .pow left (rest.drop 1) with
      | .error stuck => .error stuck
      | .ok (right, after) => .ok (.binary (sheet.locate rest) .pow left right, after)
    else .ok (left, rest)

/-- An expression of any level, over the parsers of what nests in it. The operands of each level
are of the next tighter one, down to powers. -/
def expressionOver (sheet : Sheet) (nested : Nested) : Parser Expr :=
  let product := level sheet (power sheet nested) matchProduct
  let sum := level sheet product matchSum
  let comparison := level sheet sum matchComparison
  let equality := level sheet comparison matchEquality
  let conjunction := level sheet equality matchAnd
  level sheet conjunction matchOr

/-- The parsers of what nests at most the given number of levels. With no level left they give
up at once, whatever token stands there. -/
def nested (sheet : Sheet) : (depth : Nat) → Nested
  | 0 => ⟨stop .tooDeep, stop .tooDeep, stop .tooDeep⟩
  | depth + 1 =>
    ⟨fun ts => expressionOver sheet (nested sheet depth) ts,
     fun ts => power sheet (nested sheet depth) ts,
     fun ts => signed sheet (nested sheet depth) ts⟩

/-- An expression, with all levels that there are to nest in. -/
def expression (sheet : Sheet) : Parser Expr := (nested sheet nestingLimit).expression

/-- The operator of a compound assignment that begins with a symbol. It takes an equals sign
right behind the symbol, which is for `matchAssign` to see. -/
def compound? : Symbol → Option AssignOperator
  | .plus => some .add
  | .minus => some .sub
  | .star => some .mul
  | .slash => some .div
  | .percent => some .mod
  | .caret => some .pow
  | _ => none

/-- The assignment operator at the front, and the number of its tokens. Two equals signs side by
side assign nothing: they compare. -/
def matchAssign : List Token → Option (AssignOperator × Nat)
  | first :: rest =>
    match first.lexeme with
    | .symbol .equals =>
      if isPair .equals .equals (first :: rest) then none else some (.assign, 1)
    | .symbol s =>
      match compound? s with
      | none => none
      | some op => if isPair s .equals (first :: rest) then some (op, 2) else none
    | _ => none
  | [] => none

/-- Whether a block ends at the first token: at the end of the line and, inside an if statement,
also at its else and its end. Outside, these two words end nothing, and are refused as the
beginning of a statement. -/
def endsBlock (inside : Bool) (ts : List Token) : Bool :=
  match (front ts).lexeme with
  | .newline | .finish => true
  | .keyword .elseWord | .keyword .endWord => inside
  | _ => false

/-- The statements up to the end of the block, of which there may be none. As in `chain`, the
list to go by only bounds the number of turns, because a statement takes a token at least. -/
def block (statement : Parser Stmt) (inside : Bool) :
    (most : List Token) → Parser (List Stmt)
  | [], ts => .ok ([], ts)
  | _ :: most, ts =>
    if endsBlock inside ts then .ok ([], ts)
    else match statement ts with
      | .error stuck => .error stuck
      | .ok (first, rest) =>
        match block statement inside most rest with
        | .error stuck => .error stuck
        | .ok (others, rest) => .ok (first :: others, rest)

/-- What follows the body of an if statement: perhaps an else part, which counts as absent if it
is empty, and the end. A second else and a missing end are faults that keep the whole statement
as far as it was read. -/
def closeBranch (inner : Parser (List Stmt)) (loc : Option Location) (condition : Expr)
    (body : List Stmt) : Parser Stmt := fun ts =>
  let close (otherwise : Option (List Stmt)) : Parser Stmt := fun ts =>
    let read := Stmt.branch loc condition body otherwise
    if (front ts).lexeme = .keyword .endWord then .ok (read, ts.drop 1)
    else stop (.missingEnd read) ts
  if (front ts).lexeme = .keyword .elseWord then
    match inner (ts.drop 1) with
    | .error stuck => .error stuck
    | .ok (statements, rest) =>
      let otherwise := if statements.isEmpty then none else some statements
      if (front rest).lexeme = .keyword .elseWord then
        stop (.repeatedElse (.branch loc condition body otherwise)) rest
      else close otherwise rest
  else close none ts

/-- An if statement, whose first word is at the front. Its condition has all levels to nest in;
its blocks are read by the parser that is given, one level down. -/
def branch (sheet : Sheet) (inner : Parser (List Stmt)) : Parser Stmt := fun ts =>
  match expression sheet (ts.drop 1) with
  | .error stuck => .error stuck
  | .ok (condition, rest) =>
    if (front rest).lexeme = .keyword .thenWord then
      match inner (rest.drop 1) with
      | .error stuck => .error stuck
      | .ok (body, rest) => closeBranch inner (sheet.locate ts) condition body rest
    else stop (.missingThen condition) rest

def plain (sheet : Sheet) : Parser Stmt := fun ts =>
  match expression sheet ts with
  | .error stuck => .error stuck
  | .ok (value, rest) => .ok (.expression (sheet.locate ts) value, rest)

/-- A statement, with the parser of the blocks inside it. The first token tells which one it is:
a variable begins an assignment if an assignment operator follows, and otherwise an expression,
as any token does that begins no other statement. -/
def statement (sheet : Sheet) (inner : Parser (List Stmt)) : Parser Stmt := fun ts =>
  let loc := sheet.locate ts
  match (front ts).lexeme with
  | .comment text => .ok (.comment loc text, ts.drop 1)
  | .keyword .goto =>
    match expression sheet (ts.drop 1) with
    | .error stuck => .error stuck
    | .ok (target, rest) => .ok (.jump loc target, rest)
  | .keyword .ifWord => branch sheet inner ts
  | lexeme =>
    match lexeme.nameOf?, matchAssign (ts.drop 1) with
    | some name, some (op, width) =>
      match expression sheet (ts.drop (1 + width)) with
      | .error stuck => .error stuck
      | .ok (value, rest) => .ok (.assign loc (.var loc (Variable.named name)) op value, rest)
    | _, _ => plain sheet ts

/-- A block inside an if statement, of at most the given depth. At the greatest depth a block
may still stand, but no statement in it. -/
def innerBlock (sheet : Sheet) : (depth : Nat) → Parser (List Stmt)
  | 0 => fun ts => block (stop .tooDeep) true ts ts
  | depth + 1 => fun ts =>
    block (statement sheet (innerBlock sheet depth)) true ts ts

/-- The statements of a line, up to its end and not beyond. -/
def statements (sheet : Sheet) : Parser (List Stmt) := fun ts =>
  block (statement sheet (innerBlock sheet nestingLimit)) false ts ts

end YololChip.Grammar
