import Swatch.HexCase
import Swatch.Css.Stylesheet

/-!
# Layout of style sheets

A style sheet is laid out with one declaration on a line and an empty line
between rules. Only the spelling of white space and the letter case of hex
colors are a matter of layout: selectors, properties and values are those of
the rules.
-/

namespace Swatch

open Css

/-- The choices that a layout leaves open. -/
structure Layout where
  indent : Text
  delimiter : Text
  hexCase : HexCase
  deriving DecidableEq, Repr

namespace Layout

/-- Four spaces before a declaration, a comma between selectors, and hex colors in lower case. -/
def standard : Layout :=
  ⟨List.replicate 4 ' ', ",".toList, .lower⟩

/-- The layout with another number of spaces before a declaration. -/
def withIndent (layout : Layout) (width : Nat) : Layout :=
  { layout with indent := List.replicate width ' ' }

/-- The most bytes that one text can take, however large the memory is. -/
def maxBytes : Nat := 0x7FFFFFFFFFFFFFFF

/-- The layout with another number of spaces before a declaration, if one text can hold them. -/
def withIndent? (layout : Layout) (width : Nat) : Option Layout :=
  if width ≤ maxBytes then some (layout.withIndent width) else none

theorem withIndent?_eq_none_iff {layout : Layout} {width : Nat} :
    layout.withIndent? width = none ↔ maxBytes < width := by
  rw [withIndent?, ite_eq_right_iff, ← Nat.not_le]
  simp

/-- The line of a declaration. -/
def declaration (layout : Layout) (declared : Declaration) : Text :=
  layout.indent ++ declared.property ++ ": ".toList ++ layout.hexCase.apply declared.value ++
    (if declared.important then " !important".toList else []) ++ ";\n".toList

/-- The lines of a rule. -/
def rule (layout : Layout) (styleRule : Rule) : Text :=
  join layout.delimiter styleRule.selectors ++ " \x7b\n".toList ++
    styleRule.declarations.flatMap layout.declaration ++ "\x7d\n".toList

/-- The lines of a style sheet. -/
def sheet (layout : Layout) (stylesheet : Stylesheet) : Text :=
  join "\n".toList (stylesheet.rules.map layout.rule)

/-- Reads a text as a style sheet and lays it out. -/
def format (layout : Layout) (text : Text) : Text :=
  layout.sheet (Stylesheet.parse text)

end Layout

end Swatch
