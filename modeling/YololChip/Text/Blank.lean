import YololChip.Text.Ranges

/-!
# Blank characters and lines

Which characters count as blank at the ends of a text, and where a text is cut into
lines. A line ends at any character that separates lines or paragraphs, and a carriage
return with the line feed after it is one end.
-/

namespace YololChip.Text

def blanks : List (Nat × Nat) :=
  [(0x0009, 0x000d), (0x001c, 0x0020), (0x0085, 0x0085), (0x00a0, 0x00a0), (0x1680, 0x1680),
   (0x2000, 0x200a), (0x2028, 0x2029), (0x202f, 0x202f), (0x205f, 0x205f), (0x3000, 0x3000)]

/-- Whether a character is blank. Lines end at some of these characters, and four of them part
records. -/
def isBlank (c : Char) : Bool := inRanges blanks c

/-- The characters without the blanks at both ends. -/
def stripChars (cs : List Char) : List Char :=
  ((cs.dropWhile isBlank).reverse.dropWhile isBlank).reverse

/-- A text without the blanks at both ends. Those inside stay as they are. -/
def strip (s : String) : String := String.ofList (stripChars s.toList)

/-- The code points of characters that end a line. -/
def lineEnds : List (Nat × Nat) :=
  [(0x000a, 0x000d), (0x001c, 0x001e), (0x0085, 0x0085), (0x2028, 0x2029)]

/-- Whether a character ends a line. These are more than those that end a line of source when it
is scanned, which are line feeds only. -/
def endsLine (c : Char) : Bool := inRanges lineEnds c

/-- Puts a character at the front of the first line. -/
def consFirst (c : Char) : List (List Char) → List (List Char)
  | [] => [[c]]
  | line :: lines => (c :: line) :: lines

/-- The lines of a row of characters, without their ends. After the last line end no line starts
unless a character follows, so an empty text has no lines. -/
def linesOf : List Char → List (List Char)
  | [] => []
  | '\r' :: '\n' :: cs => [] :: linesOf cs
  | c :: cs => if endsLine c then [] :: linesOf cs else consFirst c (linesOf cs)

def lines (s : String) : List String := (linesOf s.toList).map String.ofList

/-- A text with each carriage return, alone or with a line feed after it, turned into a line
feed. Other ends of lines are left. -/
def withLineFeeds : List Char → List Char
  | [] => []
  | '\r' :: '\n' :: cs => '\n' :: withLineFeeds cs
  | c :: cs => (if c = '\r' then '\n' else c) :: withLineFeeds cs

end YololChip.Text
