import YololChip.Source.Token
import YololChip.Source.Tree

/-!
# Parse errors

Why a list of tokens is no line. A fault keeps what had been read when the parser gave
up: the left operand of an operator, the inside of an open group, a condition,
or an if statement as far as it goes.
-/

namespace YololChip

/-- Why a text is no line, or no program. A fault keeps what it is about, and that is all that
its message and its fragment are made of; where it shows is no part of it. -/
inductive ParseFault where
  | unexpected (lexeme : Lexeme)
  | missingOperand (op : BinaryOperator) (left : Expr)
  | unclosedGroup (inner : Expr)
  | missingThen (condition : Expr)
  | repeatedElse (read : Stmt)
  | missingEnd (read : Stmt)
  | tooDeep
  | tooManyLines (count : Nat)
deriving DecidableEq

/-- The kinds of parse faults. A missing end counts as a plain fault of the grammar, and not
with the other words that are missing. -/
inductive ParseKind where
  | noRule
  | unbalanced
  | repeatedElse
  | noExtension
deriving DecidableEq

namespace ParseKind

/-- The words for a kind. -/
def text : ParseKind → String
  | noRule => "no parse rule match"
  | unbalanced => "unbalanced parenthesis"
  | repeatedElse => "repeated else tokens"
  | noExtension => "no extension available"

/-- The name under which reports list a kind. -/
def tag : ParseKind → String
  | noRule => "NO_PARSE_RULE_MATCH"
  | unbalanced => "UNBALANCED_PARENTHESIS"
  | repeatedElse => "REPEATED_ELSE_TOKENS"
  | noExtension => "NO_EXTENSION_AVAILABLE"

end ParseKind

/-- The most lines that a chip holds. A program of more is refused whole, and gotos do not lead
past the last one. -/
def mostLines : Nat := 20

/-- What the parser had read when it gave up: an expression, or an if statement as far as it
goes. -/
inductive Fragment where
  | expression (e : Expr)
  | statement (s : Stmt)
deriving DecidableEq

namespace ParseFault

def kind : ParseFault → ParseKind
  | unexpected _ | missingEnd _ | tooDeep | tooManyLines _ => .noRule
  | missingOperand .. | missingThen _ => .noExtension
  | unclosedGroup _ => .unbalanced
  | repeatedElse _ => .repeatedElse

/-- What is wrong, without the kind. -/
def message : ParseFault → String
  | unexpected lexeme => "unexpected " ++ lexeme.kind ++ " token"
  | missingOperand op _ => "operator '" ++ op.symbol ++ "' has no right operand"
  | unclosedGroup _ => "expected ')'"
  | missingThen _ => "expected 'then' after if condition"
  | repeatedElse _ => "if statement has more than one else"
  | missingEnd _ => "if statement is missing 'end'"
  | tooDeep => "expression nested too deeply"
  | tooManyLines count =>
    "program has " ++ toString count ++ " lines, a chip holds at most " ++ toString mostLines

/-- What had been read when the parser gave up. A fault that stands before anything was read has
nothing, and so has one of too deep a nesting. -/
def fragment? : ParseFault → Option Fragment
  | unexpected _ | tooDeep | tooManyLines _ => none
  | missingOperand _ e | unclosedGroup e | missingThen e => some (.expression e)
  | repeatedElse s | missingEnd s => some (.statement s)

end ParseFault

/-- A parse fault and the token at which it shows. Only that a program has too many lines shows
at none. -/
structure ParseError where
  fault : ParseFault
  token : Option Token
deriving DecidableEq

/-- The sentence that reports a parse error. Its place is the line and the column of the token,
which are counted in the text that was scanned. -/
def ParseError.message (e : ParseError) : String :=
  e.fault.kind.text ++ ": " ++ e.fault.message ++
    match e.token with
    | none => ""
    | some t => " at " ++ toString t.line ++ ":" ++ toString t.column

end YololChip
