import Swatch.Extraction
import Swatch.Proofs.Outline
import Swatch.Proofs.Printable

/-!
# When formatting is lossless

Formatting reads a text and prints its rules. Names are printed without escapes,
and values and selectors as they were cleaned, so what is printed may mean
something else. It means the same, and then formatting changes nothing more and
extraction finds the same, if and only if every rule is printable and the first
character is not taken for a byte order mark.
-/

namespace Swatch

open Css

namespace Layout

variable {layout : Layout}

theorem plain_standard (width : Nat) (hexCase : HexCase) :
    Plain { Layout.standard.withIndent width with hexCase := hexCase } [] := by
  refine ⟨?_, rfl, by simp⟩
  intro c met
  rw [List.eq_of_mem_replicate met]
  rfl

theorem rule_unplaced (layout : Layout) (styleRule : Rule) :
    layout.rule styleRule.unplaced = layout.rule styleRule := by
  rw [Layout.rule, Layout.rule, Rule.unplaced, List.flatMap_map]
  rfl

/-- Hex colors that are in the wanted case already are printed as they are. -/
theorem rule_recased (layout : Layout) (styleRule : Rule) :
    layout.rule (layout.hexCase.rule styleRule) = layout.rule styleRule := by
  rw [Layout.rule, Layout.rule, HexCase.rule, List.flatMap_map]
  have lines : (fun declared => layout.declaration (layout.hexCase.declaration declared)) =
      layout.declaration := by
    funext declared
    rw [Layout.declaration, Layout.declaration, HexCase.declaration,
      HexCase.apply_apply id]
  rw [lines]

/-- A sheet shows no lines of the source. -/
theorem sheet_unplaced (layout : Layout) (rules : List Rule) :
    layout.sheet ⟨rules.map Rule.unplaced⟩ = layout.sheet ⟨rules⟩ := by
  simp only [sheet, List.map_map, Function.comp_def, rule_unplaced]

/-- A sheet shows its rules with their hex colors in the wanted case, and no lines of the source. -/
theorem sheet_recased (layout : Layout) (rules : List Rule) :
    layout.sheet ⟨rules.map fun styleRule => (layout.hexCase.rule styleRule).unplaced⟩ =
      layout.sheet ⟨rules⟩ := by
  simp only [sheet, List.map_map, Function.comp_def, rule_unplaced, rule_recased]

theorem sheet_of_same {rules others : List Rule}
    (same : rules.map (fun styleRule => (layout.hexCase.rule styleRule).unplaced) =
      others.map fun styleRule => (layout.hexCase.rule styleRule).unplaced) :
    layout.sheet ⟨rules⟩ = layout.sheet ⟨others⟩ := by
  rw [← sheet_recased, same, sheet_recased]

theorem sheet_of_read {rules read : List Rule}
    (same : read.map Rule.unplaced =
      rules.map fun styleRule => (layout.hexCase.rule styleRule).unplaced) :
    layout.sheet ⟨read⟩ = layout.sheet ⟨rules⟩ := by
  rw [← sheet_unplaced, same, sheet_recased]

end Layout

namespace Palette

/-- What a rule says, declaration by declaration. -/
def rowsOf (styleRule : Rule) : List (List Text × Text × Text) :=
  styleRule.declarations.map fun declared => rowOf (styleRule, declared)

/-- What a sheet says is what its rules say, wherever they stand. -/
theorem map_rowOf_declarations (sheet : Stylesheet) :
    sheet.declarations.map rowOf = (sheet.rules.map Rule.unplaced).flatMap rowsOf := by
  have unplaced (styleRule : Rule) : rowsOf styleRule.unplaced = rowsOf styleRule := by
    rw [rowsOf, Rule.unplaced, List.map_map]
    rfl
  rw [Stylesheet.declarations, List.map_flatMap, List.flatMap_map]
  simp only [unplaced, List.map_map]
  rfl

theorem map_signature_of_read {sheet : Stylesheet} {rules : List Rule} {hexCase : HexCase}
    (same : sheet.rules.map Rule.unplaced =
      rules.map fun styleRule => (hexCase.rule styleRule).unplaced) :
    sheet.declarations.map signature = (Stylesheet.mk rules).declarations.map signature := by
  have parts : signature = (fun row => (row.1, row.2.1, lower row.2.2)) ∘ rowOf := rfl
  rw [parts, ← List.map_map, ← List.map_map, map_rowOf_declarations, map_rowOf_declarations, same,
    List.flatMap_map, List.flatMap_map, List.map_flatMap, List.map_flatMap]
  apply List.flatMap_congr
  intro styleRule _
  rw [rowsOf, rowsOf, Rule.unplaced, Rule.unplaced, HexCase.rule]
  simp only [List.map_map]
  apply List.map_congr_left
  intro declared _
  simp [rowOf, HexCase.declaration, HexCase.lower_apply, Declaration.unplaced]

end Palette

/--
Formatting gives back the rules with their hex colors in the wanted case, leaves a formatted
text alone and changes nothing for extraction, if and only if every rule that it prints is
printable and its text does not begin like a byte order mark.
-/
theorem format_lossless_iff (text : Text) (width : Nat) (hexCase : HexCase) :
    let layout := { Layout.standard.withIndent width with hexCase := hexCase }
    let rules := (Stylesheet.parse text).rules.map hexCase.rule
    let formatted := layout.format text
    ((Stylesheet.parse formatted).rules.map Rule.unplaced = rules.map Rule.unplaced ∧
        layout.format formatted = formatted ∧
        ∀ color criterion,
          (Palette.ofText formatted color criterion).entries.map
              (fun entry => (entry.property, entry.selectors)) =
            (Palette.ofText text color criterion).entries.map
              fun entry => (entry.property, entry.selectors)) ↔
      (∀ styleRule ∈ rules, styleRule.Printable) ∧ formatted.head? ≠ some '\uFEFF' := by
  intro layout rules formatted
  have selected : ∀ styleRule ∈ (Stylesheet.parse text).rules, styleRule.Selected :=
    fun styleRule met => selected_of_mem_parse met
  have lossless := (Layout.plain_standard width hexCase).parse_sheet_iff selected
  have printable : (∀ styleRule ∈ rules, styleRule.Printable) ↔
      ∀ styleRule ∈ (Stylesheet.parse text).rules, (hexCase.rule styleRule).Printable :=
    List.forall_mem_map
  rw [printable, List.map_map]
  constructor
  · rintro ⟨same, -, -⟩
    exact lossless.mp same
  · intro fine
    have same := lossless.mpr fine
    refine ⟨same, Layout.sheet_of_read same, fun color criterion => ?_⟩
    have outlines := Palette.map_outline_extract (Palette.map_signature_of_read same) color criterion
    have parts := congrArg (List.map fun outline => (outline.1, outline.2.1)) outlines
    rwa [List.map_map, List.map_map] at parts

/-- A name that needs its escape is printed without it, and is read back as something else. -/
theorem format_loses_escaped_colon :
    let text := ".a\x7ba\\:b:c\x7d".toList
    let formatted := Layout.standard.format text
    (Stylesheet.parse formatted).rules.map Rule.unplaced ≠
        ((Stylesheet.parse text).rules.map HexCase.lower.rule).map Rule.unplaced ∧
      Layout.standard.format formatted ≠ formatted := by
  decide +kernel

end Swatch
