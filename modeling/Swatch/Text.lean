/-!
# Text

Style sheets, property names, values and messages are all lists of characters.
A list is read from its front, so a reader of text is a recursion on the list
and what it leaves is again a list.

Letter case is the case of the ASCII letters only. White space, in contrast,
is every character that Unicode calls `White_Space`: this is the notion that
`trim` and the cleaning of selectors and values use. The narrower white space
of style sheet syntax is `Swatch.Css.isBlank`.
-/

namespace Swatch

/-- A piece of text, read from its first character on. -/
abbrev Text := List Char

/-- Drops the longest run of elements at the end that all satisfy `test`. -/
def dropEndWhile {α : Type} (test : α → Bool) (items : List α) : List α :=
  (items.reverse.dropWhile test).reverse

/-- The characters with the Unicode property `White_Space`. -/
def isWhite (c : Char) : Bool :=
  let code := c.toNat
  (9 ≤ code && code ≤ 13) || code == 0x20 || code == 0x85 || code == 0xA0 || code == 0x1680 ||
    (0x2000 ≤ code && code ≤ 0x200A) || code == 0x2028 || code == 0x2029 || code == 0x202F ||
    code == 0x205F || code == 0x3000

/-- Stands for what no character can be written for. -/
def replacement : Char := '\uFFFD'

/-- Removes white space at both ends. -/
def trim (text : Text) : Text :=
  dropEndWhile isWhite (text.dropWhile isWhite)

/-- Writes every ASCII letter in lower case. -/
def lower (text : Text) : Text :=
  text.map Char.toLower

/-- Writes every ASCII letter in upper case. -/
def upper (text : Text) : Text :=
  text.map Char.toUpper

/-- Equality up to the case of ASCII letters. -/
def sameLetters (left right : Text) : Bool :=
  lower left == lower right

/-- Does `part` stand somewhere in `text`, as neighbouring characters? -/
def occursIn (part : Text) : Text → Bool
  | [] => part.isEmpty
  | c :: rest => part.isPrefixOf (c :: rest) || occursIn part rest

/-- The pieces in order, with `separator` between any two neighbours. -/
def join (separator : Text) (pieces : List Text) : Text :=
  separator.intercalate pieces

/-- The decimal digits of a count. -/
def decimal (count : Nat) : Text :=
  Nat.toDigits 10 count

end Swatch
