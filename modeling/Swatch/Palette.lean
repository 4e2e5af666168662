import Swatch.Text

/-!
# Palettes

A palette collects the uses of one color by property. Its entries stand in the
order in which their properties were first met; every use adds its selector to
the entry, and the value of the latest use stands. No property has two entries.
-/

namespace Swatch

namespace Palette

/--
What is known of one property: the selectors of its uses, repeats included, and the
latest value.
-/
structure Entry where
  property : Text
  selectors : List Text
  value : Text
  deriving DecidableEq, Repr

/-- The entry as a style rule in one line. -/
def Entry.css (entry : Entry) : Text :=
  join ",".toList entry.selectors ++ " \x7b ".toList ++ entry.property ++ ": ".toList ++
    entry.value ++ " \x7d".toList

/--
The entries after one more use: that of the property is extended, or a new one stands at
the end.
-/
def extend (property selector value : Text) : List Entry → List Entry
  | [] => [⟨property, [selector], value⟩]
  | entry :: rest =>
    if entry.property = property then ⟨property, entry.selectors ++ [selector], value⟩ :: rest
    else entry :: extend property selector value rest

/-- A use changes the list of properties only by adding its own at the end. -/
theorem map_property_extend (property selector value : Text) (entries : List Entry) :
    (extend property selector value entries).map Entry.property =
      if property ∈ entries.map Entry.property then entries.map Entry.property
      else entries.map Entry.property ++ [property] := by
  induction entries with
  | nil => simp [extend]
  | cons entry rest ih =>
    by_cases same : entry.property = property
    · simp [extend, same]
    · simp only [extend, same, ↓reduceIte, List.map_cons, ih, List.mem_cons, Ne.symm same,
        false_or]
      split <;> simp

end Palette

/-- The uses of one color, collected by property. -/
structure Palette where
  entries : List Palette.Entry
  nodup : (entries.map Palette.Entry.property).Nodup

namespace Palette

/-- The palette of no uses. -/
def empty : Palette :=
  ⟨[], List.nodup_nil⟩

/-- Adds one use of the color. -/
def record (palette : Palette) (property selector value : Text) : Palette where
  entries := extend property selector value palette.entries
  nodup := by
    rw [map_property_extend]
    split
    · exact palette.nodup
    · next fresh =>
      simp only [List.nodup_append, palette.nodup, List.mem_singleton, true_and]
      exact ⟨by simp, fun earlier met later is_new same => fresh (is_new ▸ same ▸ met)⟩

/-- The entry of a property. -/
def get? (palette : Palette) (property : Text) : Option Entry :=
  palette.entries.find? fun entry => entry.property == property

/-- The number of properties. -/
def size (palette : Palette) : Nat :=
  palette.entries.length

/-- Was no use met? -/
def isEmpty (palette : Palette) : Bool :=
  palette.entries.isEmpty

/-- All entries as style rules, each followed by an empty line. -/
def css (palette : Palette) : Text :=
  palette.entries.flatMap fun entry => entry.css ++ "\n\n".toList

end Palette

end Swatch
