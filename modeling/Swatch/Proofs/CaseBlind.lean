import Swatch.Proofs.Outline
import Swatch.Proofs.Printing

/-!
# Letter case decides nothing

Two searches are compared: one for a color in a style sheet, and one for the same color
in another letter case in the sheet whose values were copied with their hex colors in one
case. Copying changes the case of letters and nothing else, whatever the strings and
addresses in a value hold, and a value is accepted for its letters. So the two searches
find the same declarations, and what they report differs in the case of letters only.
-/

namespace Swatch

open Css

/-! ## The same color in another case -/

section Color

variable {color other : Color}

theorem Criterion.accepts_of_sameLetters (criterion : Criterion)
    (same : lower color.token = lower other.token) (value : Text) :
    criterion.accepts value color = criterion.accepts value other := by
  cases criterion with
  | exact => simp only [accepts, sameLetters, same]
  | substring => simp only [accepts, same]

theorem Criterion.lower_resolve_of_sameLetters (criterion : Criterion)
    (same : lower color.token = lower other.token) (value : Text) (shorthand : Bool) :
    lower (criterion.resolve value color shorthand) =
      lower (criterion.resolve value other shorthand) := by
  have hash : lower color.hash = lower other.hash := congrArg ('#' :: ·) same
  cases criterion with
  | exact => exact hash
  | substring =>
    cases shorthand with
    | true => exact hash
    | false => rfl

namespace Palette

variable {criterion : Criterion}

theorem matching_of_sameLetters (sheet : Stylesheet)
    (same : lower color.token = lower other.token) :
    matching sheet color criterion = matching sheet other criterion := by
  apply List.filter_congr
  intro found _
  rw [isMatch, isMatch, criterion.accepts_of_sameLetters same]

theorem trace_of_sameLetters (same : lower color.token = lower other.token) :
    trace color criterion = trace other criterion := by
  funext found
  have values : lower (valueOf color criterion found) = lower (valueOf other criterion found) :=
    criterion.lower_resolve_of_sameLetters same _ _
  rw [trace, trace, values]

/-- The case of the color shows in the case of the values only. -/
theorem map_outline_of_sameLetters (sheet : Stylesheet)
    (same : lower color.token = lower other.token) :
    (extract sheet color criterion).entries.map Entry.outline =
      (extract sheet other criterion).entries.map Entry.outline := by
  rw [entries_extract, entries_extract, matching_of_sameLetters sheet same, List.map_map,
    List.map_map]
  apply List.map_congr_left
  intro key _
  rw [Function.comp_apply, Function.comp_apply, outline_group, outline_group,
    trace_of_sameLetters same]

end Palette

end Color

/-! ## The same values in another case -/

namespace Palette

theorem map_signature_recased (hexCase : HexCase) (sheet : Stylesheet) :
    (Stylesheet.declarations ⟨sheet.rules.map hexCase.rule⟩).map signature =
      sheet.declarations.map signature := by
  rw [Stylesheet.declarations, Stylesheet.declarations, List.flatMap_map, List.map_flatMap,
    List.map_flatMap]
  apply List.flatMap_congr
  intro styleRule _
  rw [HexCase.rule, List.map_map, List.map_map, List.map_map]
  apply List.map_congr_left
  intro declared _
  exact congrArg (fun letters => (styleRule.selectors, declared.property, letters))
    (hexCase.lower_apply declared.value)

/--
A search does not depend on letter case: with the hex colors of all values copied in any case
and the color given in any case, the same values are accepted, and the palette has the same
properties in the same order, the same selectors, and the same values up to letter case.
-/
theorem extract_ignores_case (sheet : Stylesheet) (hexCase : HexCase) (criterion : Criterion)
    {color other : Color} (same : sameLetters color.token other.token = true) :
    (∀ value, criterion.accepts (hexCase.apply value) other = criterion.accepts value color) ∧
      (extract ⟨sheet.rules.map hexCase.rule⟩ other criterion).entries.map Entry.outline =
        (extract sheet color criterion).entries.map Entry.outline := by
  have letters : lower color.token = lower other.token := eq_of_beq same
  constructor
  · intro value
    rw [criterion.accepts_of_lower_eq other (hexCase.lower_apply value),
      criterion.accepts_of_sameLetters letters]
  · rw [map_outline_extract (map_signature_recased hexCase sheet),
      map_outline_of_sameLetters sheet letters]

/-- What is never closed is copied to its end; the color is found in it and beside it. -/
theorem extract_ignores_case_unclosed :
    let color : Color := ⟨"aBc".toList, by decide, by decide⟩
    let other : Color := ⟨"AbC".toList, by decide, by decide⟩
    let sheet : Stylesheet :=
      ⟨[⟨[".a".toList], [⟨"color".toList, "#ABC 'é\\'#ABC".toList, false, 1⟩]⟩,
        ⟨[".b".toList, "p".toList], [⟨"border".toList, "url(#abc".toList, true, 2⟩,
          ⟨"color".toList, "#aBcd \"é#abc\" #ABC".toList, false, 3⟩]⟩]⟩
    sameLetters color.token other.token = true ∧
      (∀ value, Criterion.substring.accepts (HexCase.lower.apply value) other =
        Criterion.substring.accepts value color) ∧
      (extract ⟨sheet.rules.map HexCase.lower.rule⟩ other .substring).entries.map Entry.outline =
        (extract sheet color .substring).entries.map Entry.outline ∧
      (extract ⟨sheet.rules.map HexCase.lower.rule⟩ other .substring).entries =
        [⟨"color".toList, [".a".toList, ".b, p".toList], "#abcd \"é#abc\" #abc".toList⟩,
          ⟨"border-color".toList, [".b, p".toList], "#AbC".toList⟩] := by
  intro color other sheet
  have same : sameLetters color.token other.token = true := by decide
  have both := extract_ignores_case sheet .lower .substring same
  exact ⟨same, both.1, both.2, by decide +kernel⟩

end Palette

end Swatch
