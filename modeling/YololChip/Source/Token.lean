import YololChip.Fixed.Basic
import YololChip.Source.Operator

/-!
# Tokens

A line of source is a list of tokens: words, numbers, texts, symbols of one character,
comments and line ends. A token knows where it starts. Operators of two characters
are two symbols that stand side by side.
-/

namespace YololChip

/-- The symbols of one character. -/
inductive Symbol where
  | equals | plus | minus | star | slash | leftParen | rightParen
  | less | greater | bang | caret | percent
deriving DecidableEq

namespace Symbol

def char : Symbol → Char
  | equals => '='
  | plus => '+'
  | minus => '-'
  | star => '*'
  | slash => '/'
  | leftParen => '('
  | rightParen => ')'
  | less => '<'
  | greater => '>'
  | bang => '!'
  | caret => '^'
  | percent => '%'

/-- The name of a symbol's kind of token. -/
def kind : Symbol → String
  | equals => "equals"
  | plus => "plus"
  | minus => "minus"
  | star => "star"
  | slash => "slash"
  | leftParen => "lparen"
  | rightParen => "rparen"
  | less => "less"
  | greater => "greater"
  | bang => "bang"
  | caret => "caret"
  | percent => "percent"

def all : List Symbol :=
  [equals, plus, minus, star, slash, leftParen, rightParen, less, greater, bang, caret, percent]

def ofChar? (c : Char) : Option Symbol := all.find? (·.char = c)

/-- The character of a symbol finds it again. -/
@[simp] theorem ofChar?_char (s : Symbol) : ofChar? s.char = some s := by cases s <;> decide

end Symbol

/-- The words that no variable can have as its name. A data field may have one behind its colon. -/
inductive Keyword where
  | goto | ifWord | thenWord | elseWord | endWord
  | abs | sqrt | sin | cos | tan | arcsin | arccos | arctan | not
  | and | or
deriving DecidableEq

namespace Keyword

def word : Keyword → String
  | goto => "goto"
  | ifWord => "if"
  | thenWord => "then"
  | elseWord => "else"
  | endWord => "end"
  | abs => "abs"
  | sqrt => "sqrt"
  | sin => "sin"
  | cos => "cos"
  | tan => "tan"
  | arcsin => "arcsin"
  | arccos => "arccos"
  | arctan => "arctan"
  | not => "not"
  | and => "and"
  | or => "or"

def all : List Keyword :=
  [goto, ifWord, thenWord, elseWord, endWord,
   abs, sqrt, sin, cos, tan, arcsin, arccos, arctan, not, and, or]

def ofWord? (word : String) : Option Keyword := all.find? (·.word = word)

/-- The word of a keyword finds it again. -/
@[simp] theorem ofWord?_word (k : Keyword) : ofWord? k.word = some k := by cases k <;> decide

/-- The operator that a word writes before its operand. -/
def unary? : Keyword → Option UnaryOperator
  | abs => some .abs
  | sqrt => some .sqrt
  | sin => some .sin
  | cos => some .cos
  | tan => some .tan
  | arcsin => some .arcsin
  | arccos => some .arccos
  | arctan => some .arctan
  | not => some .not
  | _ => none

end Keyword

/-- What a token is. Names are in lower case, and a field's name begins with its colon; a text
and a comment are without their signs. A number is its value, so two numerals of one value are
one lexeme. -/
inductive Lexeme where
  | newline
  | finish
  | comment (value : String)
  | symbol (value : Symbol)
  | text (value : String)
  | number (value : Fixed)
  | name (value : String)
  | field (value : String)
  | keyword (value : Keyword)
deriving DecidableEq

namespace Lexeme

/-- The name of a token's kind. -/
def kind : Lexeme → String
  | newline => "newline"
  | finish => "eof"
  | comment _ => "comment"
  | symbol s => s.kind
  | text _ => "string"
  | number _ => "number"
  | name _ => "ident"
  | field _ => "field"
  | keyword k => k.word

/-- The name of the variable that a token stands for, with the colon of a field. -/
def nameOf? : Lexeme → Option String
  | name n | field n => some n
  | _ => none

end Lexeme

/-- A token with the line and column at which it starts, both from one. How many characters it
has is not kept. -/
structure Token where
  lexeme : Lexeme
  line : Nat
  column : Nat
deriving DecidableEq

/-- Whether the second token starts right after the first, which is taken to be of one
character. So this is asked of symbols only. -/
def Token.isBeside (first second : Token) : Bool :=
  second.line = first.line && second.column = first.column + 1

end YololChip
