import Swatch.Css.Character

/-!
# Names and escapes

A name is a run of name characters and escapes. An escape is a backslash
followed by up to six hexadecimal digits, or by any other single character
except a line end; digits may be closed by one blank, which belongs to the
escape. At the end of the text a lone backslash is an escape too.

Here a reader of names answers with a length, so that the name is
`text.take (nameLength text)` and what follows it is the matching `drop`.
`resolve` gives the characters that a written name stands for.
-/

namespace Swatch.Css

/-- The hexadecimal digits of an escape: at most six. -/
def escapeDigits (text : Text) : Text :=
  (text.take 6).takeWhile isHexDigit

/-- How many characters the blank that closes a run of digits takes. -/
def closingBlankLength : Text → Nat
  | '\r' :: '\n' :: _ => 2
  | c :: _ => if isBlank c then 1 else 0
  | [] => 0

/-- How many characters an escape takes after its backslash. -/
def escapeLength (text : Text) : Nat :=
  match text with
  | [] => 0
  | c :: _ =>
    if isHexDigit c then
      let digits := (escapeDigits text).length
      digits + closingBlankLength (text.drop digits)
    else 1

/-- The value of a hexadecimal digit. -/
def hexDigitValue (c : Char) : Nat :=
  if c.isDigit then c.toNat - '0'.toNat else c.toLower.toNat - 'a'.toNat + 10

/-- The number that hexadecimal digits spell. -/
def hexValue (digits : Text) : Nat :=
  digits.foldl (fun value digit => 16 * value + hexDigitValue digit) 0

/-- The character with a given code; zero, surrogates and codes out of range have none. -/
def characterOfCode (code : Nat) : Char :=
  if code ≠ 0 ∧ code.isValidChar then Char.ofNat code else replacement

/-- The NUL character reads as the replacement character. -/
def withoutNul (c : Char) : Char :=
  if c == '\x00' then replacement else c

/-- The character that an escape stands for, from what follows its backslash. -/
def escapeValue (text : Text) : Char :=
  match text with
  | [] => replacement
  | c :: _ => if isHexDigit c then characterOfCode (hexValue (escapeDigits text)) else withoutNul c

/-- Is there an escape at the front? A backslash before a line end is none. -/
def startsEscape : Text → Bool
  | '\\' :: c :: _ => !isLineEnd c
  | ['\\'] => true
  | _ => false

/--
Does a name that is no number begin here? After a leading `-` a backslash
is enough, whatever follows it.
-/
def startsName : Text → Bool
  | '-' :: c :: _ => isNameStart c || c == '-' || c == '\\'
  | c :: rest => isNameStart c || startsEscape (c :: rest)
  | [] => false

/-- How many characters at the front are name characters and escapes. -/
def nameLength (text : Text) : Nat :=
  match text with
  | [] => 0
  | c :: rest =>
    if isNameChar c then 1 + nameLength rest
    else if startsEscape (c :: rest) then
      1 + escapeLength rest + nameLength (rest.drop (escapeLength rest))
    else 0
termination_by text.length

/-- The characters that a written name stands for. -/
def resolve (name : Text) : Text :=
  match name with
  | [] => []
  | c :: rest =>
    if c == '\\' then escapeValue rest :: resolve (rest.drop (escapeLength rest))
    else withoutNul c :: resolve rest
termination_by name.length

end Swatch.Css
