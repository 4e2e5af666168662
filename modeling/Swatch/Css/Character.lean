import Swatch.Text

/-!
# Characters of style sheets

The character classes that the syntax of style sheets is made of, and the
count of line ends. Every character outside ASCII may stand in a name, and so
may the NUL character, which later reads as the replacement character.
-/

namespace Swatch.Css

/-- Line feed, carriage return and form feed end a line. -/
def isLineEnd (c : Char) : Bool :=
  c == '\n' || c == '\r' || c == '\x0c'

/-- The white space of style sheet syntax. -/
def isBlank (c : Char) : Bool :=
  c == ' ' || c == '\t' || isLineEnd c

/-- Both quotes open a string. -/
def isQuote (c : Char) : Bool :=
  c == '"' || c == '\''

/-- The sixteen hexadecimal digits, the letters in either case. -/
def isHexDigit (c : Char) : Bool :=
  c.isDigit || ('a' ≤ c && c ≤ 'f') || ('A' ≤ c && c ≤ 'F')

/-- A character that may begin a name. -/
def isNameStart (c : Char) : Bool :=
  c.isAlpha || c == '_' || c == '\x00' || 128 ≤ c.toNat

/-- A character that may stand inside a name. -/
def isNameChar (c : Char) : Bool :=
  isNameStart c || c.isDigit || c == '-'

/-- Control characters that may not stand in an unquoted address. -/
def isNonPrinting (c : Char) : Bool :=
  let code := c.toNat
  (1 ≤ code && code ≤ 8) || code == 0x0B || (0x0E ≤ code && code ≤ 0x1F) || code == 0x7F

/--
How many characters the line end at the front takes: a carriage return with a line feed
is one line end.
-/
def lineEndLength : Text → Nat
  | '\r' :: '\n' :: _ => 2
  | c :: _ => if isLineEnd c then 1 else 0
  | [] => 0

/-- The number of line ends in a text; a carriage return followed by a line feed counts once. -/
def lineEnds : Text → Nat
  | [] => 0
  | '\r' :: '\n' :: rest => lineEnds rest + 1
  | c :: rest => if isLineEnd c then lineEnds rest + 1 else lineEnds rest

/-- How many blanks stand at the front. -/
def blankLength (text : Text) : Nat :=
  (text.takeWhile isBlank).length

/-- Does the text begin with a decimal digit? -/
def startsDigit : Text → Bool
  | c :: _ => c.isDigit
  | [] => false

end Swatch.Css
