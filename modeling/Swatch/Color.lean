import Swatch.Text

/-!
# Colors and how values are compared with them

The color that is looked for is given by the letters and digits of its hash.
A value of a declaration is accepted either when it is that hash and nothing
else, or when the letters and digits stand anywhere in it. Letter case never
matters. Asking for a color keeps the type honest: a `Color` always has at least
one character, and all of them are ASCII letters and digits.
-/

namespace Swatch

/-- A color to look for: the letters and digits that follow the `#` of its hash. -/
structure Color where
  token : Text
  token_ne_nil : token ≠ []
  token_alphanum : token.all Char.isAlphanum = true

namespace Color

/-- Leaves out a `#` at the front. -/
def withoutHash : Text → Text
  | '#' :: rest => rest
  | text => text

/-- Reads a color, with or without its `#` and with white space around it. -/
def parse? (text : Text) : Option Color :=
  let token := withoutHash (trim text)
  if given : token ≠ [] ∧ token.all Char.isAlphanum = true then some ⟨token, given.1, given.2⟩
  else none

/-- The color as it is written in a style sheet. -/
def hash (color : Color) : Text :=
  '#' :: color.token

end Color

/-- How the value of a declaration is compared with a color. -/
inductive Criterion where
  /-- The value is the hash of the color. -/
  | exact
  /-- The value holds the letters and digits of the color somewhere. -/
  | substring
  deriving DecidableEq, Repr

namespace Criterion

/-- Does a value count as a use of the color? -/
def accepts (criterion : Criterion) (value : Text) (color : Color) : Bool :=
  match criterion with
  | .exact =>
    match trim value with
    | '#' :: token => sameLetters token color.token
    | _ => false
  | .substring => occursIn (lower color.token) (lower (trim value))

/--
The value that is reported for a use. A value that was accepted for what it
holds is kept, unless it belongs to a shorthand, of which only the color goes
over to the longhand.
-/
def resolve (criterion : Criterion) (value : Text) (color : Color) (shorthand : Bool) : Text :=
  match criterion with
  | .exact => color.hash
  | .substring => if shorthand then color.hash else trim value

end Criterion

end Swatch
