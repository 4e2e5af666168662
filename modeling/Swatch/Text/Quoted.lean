import Swatch.Text.Printable

/-!
# Quoted text

Text from a style sheet is quoted in messages, so that a message never holds a
raw line end or any other character that cannot be seen. Characters that are
not printable are written by their codes in hexadecimal digits.
-/

namespace Swatch

/-- A character by its code. -/
def codeEscape (c : Char) : Text :=
  "\\u\x7b".toList ++ Nat.toDigits 16 c.toNat ++ "\x7d".toList

/-- How a character is written between double quotes. -/
def quotedChar (c : Char) : Text :=
  match c with
  | '"' => "\\\"".toList
  | '\\' => "\\\\".toList
  | '\t' => "\\t".toList
  | '\r' => "\\r".toList
  | '\n' => "\\n".toList
  | '\x00' => "\\0".toList
  | _ => if isPrintable c then [c] else codeEscape c

/-- A text between double quotes. -/
def quoted (text : Text) : Text :=
  '"' :: text.flatMap quotedChar ++ ['"']

end Swatch
