import Swatch.Css.Cleaning

/-!
# The letter case of hex colors

A value is copied character by character, except that the letters of its hex
colors are written in one case. A hex color is a `#` with 3, 4, 6 or 8
hexadecimal digits after which the name does not go on. Strings and addresses
are copied whole, so nothing inside them is taken for a color; here an address
ends at the first closing bracket.
-/

namespace Swatch

open Css

/-- The letter case that hex colors are written in. -/
inductive HexCase where
  | lower
  | upper
  | preserve
  deriving DecidableEq, Repr

namespace HexCase

/-- A character that would continue the name of a hash. Escapes and the NUL character do not. -/
def continuesHash (c : Char) : Bool :=
  c.isAlphanum || c == '-' || c == '_' || 128 ≤ c.toNat

/-- Do the digits after a `#`, followed by the rest of the text, make up a hex color? -/
def isColor (digits rest : Text) : Bool :=
  [3, 4, 6, 8].contains digits.length && !rest.head?.any continuesHash

/-- The digits in the wanted case. -/
def recase (hexCase : HexCase) (digits : Text) : Text :=
  match hexCase with
  | .lower => Swatch.lower digits
  | .upper => Swatch.upper digits
  | .preserve => digits

/-- The length of a text up to and with its first closing bracket. -/
def bracketLength : Text → Nat
  | [] => 0
  | c :: rest => if c == ')' then 1 else 1 + bracketLength rest

/-- Does the text begin with `url(`, in any letter case? -/
def startsAddress (text : Text) : Bool :=
  sameLetters (text.take 4) "url(".toList

/-- How many characters after the first one are copied together with it. -/
def copiedLength (first : Char) (rest : Text) : Nat :=
  if isQuote first then quotedLength first rest
  else if startsAddress (first :: rest) then bracketLength rest
  else 0

/-- A piece of a value: characters that are copied, or a `#` with the digits after it. -/
inductive Segment where
  | copied (text : Text)
  | hash (digits : Text) (color : Bool)
  deriving DecidableEq, Repr

/-- The piece as it stands in the value. -/
def Segment.text : Segment → Text
  | .copied text => text
  | .hash digits _ => '#' :: digits

/-- The piece with the digits of a hex color in the wanted case. -/
def Segment.written (hexCase : HexCase) : Segment → Text
  | .copied text => text
  | .hash digits color => '#' :: if color then recase hexCase digits else digits

/-- Cuts a value into its pieces. -/
def segments (value : Text) : List Segment :=
  match value with
  | [] => []
  | first :: rest =>
    if first == '#' then
      let digits := rest.takeWhile isHexDigit
      let after := rest.dropWhile isHexDigit
      .hash digits (isColor digits after) :: segments after
    else
      let copied := copiedLength first rest
      .copied (first :: rest.take copied) :: segments (rest.drop copied)
termination_by value.length
decreasing_by
  · have := (List.dropWhile_sublist isHexDigit (l := rest)).length_le
    simp only [List.length_cons]
    omega
  · simp only [List.length_drop, List.length_cons]
    omega

/-- Copies a value with its hex colors in the wanted case. -/
def apply (hexCase : HexCase) (value : Text) : Text :=
  (segments value).flatMap (Segment.written hexCase)

/-- The pieces of a value make it up. -/
theorem flatMap_text_segments (value : Text) : (segments value).flatMap Segment.text = value := by
  fun_induction segments value with
  | case1 => rfl
  | case2 first rest isHash digits after ih =>
    simp_all [Segment.text, digits, after]
  | case3 first rest isOther copied ih => simp [Segment.text, ih]

end HexCase

end Swatch
