import Swatch.Text

/-!
# Properties that carry a color

Only these properties are looked at. The color of a shorthand such as `border`
belongs to one of its longhands, and uses are collected under the longhand.
-/

namespace Swatch.Property

/-- Every property that can carry a color, with the property that the color belongs to. -/
def table : List (Text × Text) :=
  [("color", "color"),
    ("background", "background"),
    ("background-color", "background-color"),
    ("background-image", "background-image"),
    ("border", "border-color"),
    ("border-top", "border-top-color"),
    ("border-right", "border-right-color"),
    ("border-bottom", "border-bottom-color"),
    ("border-left", "border-left-color"),
    ("border-color", "border-color"),
    ("border-top-color", "border-top-color"),
    ("border-right-color", "border-right-color"),
    ("border-bottom-color", "border-bottom-color"),
    ("border-left-color", "border-left-color"),
    ("outline", "outline-color"),
    ("outline-color", "outline-color"),
    ("text-shadow", "text-shadow"),
    ("box-shadow", "box-shadow")].map fun row => (row.1.toList, row.2.toList)

/-- The names of the properties that can carry a color. -/
def names : List Text :=
  table.map Prod.fst

/-- The property that the color of a property belongs to. -/
def longhand? (name : Text) : Option Text :=
  table.lookup name

/-- Can the property carry a color? -/
def carriesColor (name : Text) : Bool :=
  (longhand? name).isSome

/-- Does the color of the property belong to another property? -/
def isShorthand (name : Text) : Bool :=
  match longhand? name with
  | some longhand => longhand != name
  | none => false

end Swatch.Property
