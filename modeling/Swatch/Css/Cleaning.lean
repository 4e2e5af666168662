import Swatch.Css.Token

/-!
# Cleaned text

Selectors and values are kept in the spelling of the source, cleaned: a text is
a sequence of atoms with gaps between them, and the cleaned text has the same
atoms with one space for every gap between two of them and nothing at the ends.

An atom is a quoted string, a backslash with the character after it, or any
other single character. Gaps are made of Unicode white space and of comments.
A string or a comment that is never closed goes on to the end.
-/

namespace Swatch.Css

/--
The length of what follows an opening quote, up to and with the matching quote that no
backslash hides.
-/
def quotedLength (quote : Char) : Text → Nat
  | [] => 0
  | '\\' :: _ :: rest => 2 + quotedLength quote rest
  | c :: rest => if c == quote then 1 else 1 + quotedLength quote rest

/-- The length of the comment or the white space character at the front, zero when there is none. -/
def gapLength : Text → Nat
  | '/' :: '*' :: rest => 2 + commentTailLength rest
  | c :: _ => if isWhite c then 1 else 0
  | [] => 0

/-- The text from its first atom on. -/
def skipGap (text : Text) : Text :=
  match text with
  | [] => []
  | c :: rest =>
    match gapLength (c :: rest) with
    | 0 => c :: rest
    | further + 1 => skipGap (rest.drop further)
termination_by text.length

theorem skipGap_length_le (text : Text) : (skipGap text).length ≤ text.length := by
  fun_induction skipGap text with
  | case1 => simp
  | case2 => simp
  | case3 c rest further _ ih =>
    simp only [List.length_drop, List.length_cons] at ih ⊢
    omega

/-- How many characters of an atom follow its first one. -/
def atomTailLength (first : Char) (rest : Text) : Nat :=
  if isQuote first then quotedLength first rest
  else if first == '\\' then min 1 rest.length
  else 0

/-- The cleaned form of a text that begins with an atom. -/
def cleanAtoms (text : Text) : Text :=
  match text with
  | [] => []
  | first :: rest =>
    let tail := atomTailLength first rest
    let more := rest.drop tail
    let next := skipGap more
    let space := if gapLength more = 0 ∨ next = [] then [] else [' ']
    first :: rest.take tail ++ space ++ cleanAtoms next
termination_by text.length
decreasing_by
  have := skipGap_length_le (rest.drop (atomTailLength first rest))
  simp only [List.length_drop, List.length_cons] at this ⊢
  omega

/-- The atoms of a text in order, with one space for each gap between two of them. -/
def clean (text : Text) : Text :=
  cleanAtoms (skipGap text)

end Swatch.Css
