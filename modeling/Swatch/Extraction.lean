import Swatch.Color
import Swatch.Property
import Swatch.Palette
import Swatch.Layout

/-!
# Extraction

A style sheet is scanned for uses of one color: the declarations, in the order
of the source, whose property can carry a color and whose value is accepted.
Every use is recorded in a palette under the longhand of its property.
-/

namespace Swatch

open Css

/--
A use of the color: the declaration, the rule that it stands in, and what the palette
records of it.
-/
structure Use where
  declaration : Declaration
  /-- The selectors of the rule. -/
  selector : Text
  /-- The property that the color belongs to. -/
  property : Text
  /-- The value that is reported. -/
  value : Text
  deriving DecidableEq, Repr

/-- The use that a declaration of a rule makes of a color. -/
def Use.of? (color : Color) (criterion : Criterion) (rule : Rule) (declaration : Declaration) :
    Option Use :=
  match Property.longhand? declaration.property with
  | none => none
  | some longhand =>
    if criterion.accepts declaration.value color then
      some
        { declaration := declaration
          selector := rule.selectorText
          property := longhand
          value :=
            criterion.resolve declaration.value color (Property.isShorthand declaration.property) }
    else none

/-- The uses of a color in a style sheet, in the order of the source. -/
def usesOf (sheet : Stylesheet) (color : Color) (criterion : Criterion) : List Use :=
  sheet.declarations.filterMap fun found => Use.of? color criterion found.1 found.2

namespace Palette

/-- Records uses one after the other. -/
def recordAll (palette : Palette) (uses : List Use) : Palette :=
  uses.foldl (fun current use => current.record use.property use.selector use.value) palette

/-- The palette of a color in a style sheet. -/
def extract (sheet : Stylesheet) (color : Color) (criterion : Criterion) : Palette :=
  empty.recordAll (usesOf sheet color criterion)

/-- The palette of a color in a text. -/
def ofText (text : Text) (color : Color) (criterion : Criterion) : Palette :=
  extract (Stylesheet.parse text) color criterion

/-- The palette as a style sheet, laid out if a layout is given; an empty palette has no text. -/
def render (palette : Palette) (layout : Option Layout) : Option Text :=
  if palette.isEmpty then none
  else
    match layout with
    | some layout => some (layout.format palette.css)
    | none => some palette.css

end Palette

end Swatch
