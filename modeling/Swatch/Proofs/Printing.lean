import Swatch.Layout
import Swatch.Palette
import Swatch.Proofs.Css.Cleaned
import Swatch.Proofs.Css.Parts
import Mathlib.Data.List.Forall2

/-!
# Printed rules are read back

A declaration is printable when its name stands for itself and the text behind
the colon is whole and means the value. Selectors are printable when each of
them, with the blank that stands before the block behind the last one, is whole
and cleaned already, and the first one begins a style rule. Printable rules are
read back from every layout, and nothing else is read with them.
-/

namespace Swatch

open Css

namespace Css

/-- The text of a declaration after its colon. -/
def Declaration.valueText (declared : Declaration) : Text :=
  ' ' :: (declared.value ++ if declared.important then " !important".toList else [])

/-- The declaration comes back from its printed text. -/
structure Declaration.Printable (declared : Declaration) : Prop where
  name : isOwnName declared.property = true
  whole : Whole endsDeclaration declared.valueText
  means : valueIn declared.valueText = some (declared.value, declared.important)

/-- Selectors as they stand before a block: the last one has a blank behind it. -/
def selectorPieces : List Text → List Text
  | [] => [[' ']]
  | [last] => [last ++ [' ']]
  | selector :: next :: rest => selector :: selectorPieces (next :: rest)

/-- The rule comes back from its printed text. -/
structure Rule.Printable (rule : Rule) : Prop where
  selectors : SpellsSelectors (selectorPieces rule.selectors) rule.selectors
  declarations : ∀ declared ∈ rule.declarations, declared.Printable

end Css

/-! ## Selectors -/

/-- A text with blanks in front of it. -/
def Gapped (padded text : Text) : Prop :=
  ∃ gap, (∀ c ∈ gap, isBlank c = true) ∧ padded = gap ++ text

theorem Gapped.refl (text : Text) : Gapped text text :=
  ⟨[], by simp, rfl⟩

theorem selectorPieces_ne_nil (selectors : List Text) : selectorPieces selectors ≠ [] := by
  match selectors with
  | [] => exact List.cons_ne_nil _ _
  | [last] => exact List.cons_ne_nil _ _
  | selector :: next :: rest => exact List.cons_ne_nil _ _

theorem join_selectorPieces (separator : Text) (selectors : List Text) :
    join separator (selectorPieces selectors) = join separator selectors ++ [' '] := by
  match selectors with
  | [] => rfl
  | [last] => simp [selectorPieces]
  | selector :: next :: rest =>
    have later := join_selectorPieces separator (next :: rest)
    rw [selectorPieces]
    cases pieces : selectorPieces (next :: rest) with
    | nil => exact absurd pieces (selectorPieces_ne_nil _)
    | cons piece others =>
      rw [pieces] at later
      rw [join_cons_cons, later, join_cons_cons, List.append_assoc, List.append_assoc]

/-- Blanks in the separator are blanks before the selectors. -/
theorem join_cons_separator (c : Char) (gap first : Text) (rest : List Text) :
    join (c :: gap) (first :: rest) = join [c] (first :: rest.map (gap ++ ·)) := by
  induction rest generalizing first with
  | nil => rfl
  | cons next rest ih =>
    rw [join_cons_cons, ih, List.map_cons, join_cons_cons]
    cases rest with
    | nil => simp
    | cons other rest => simp [join_cons_cons]

theorem forall₂_gapped_map {gap : Text} (blanks : ∀ c ∈ gap, isBlank c = true)
    (selectors : List Text) : List.Forall₂ Gapped (selectors.map (gap ++ ·)) selectors := by
  induction selectors with
  | nil => exact .nil
  | cons selector rest ih => exact .cons ⟨gap, blanks, rfl⟩ ih

theorem Gapped.forall₂_selectorPieces {padded selectors : List Text}
    (gapped : List.Forall₂ Gapped padded selectors) :
    List.Forall₂ Gapped (selectorPieces padded) (selectorPieces selectors) := by
  induction gapped with
  | nil => exact .cons (Gapped.refl _) .nil
  | @cons piece selector others rest here later ih =>
    cases later with
    | nil =>
      rcases here with ⟨gap, blanks, rfl⟩
      exact .cons ⟨gap, blanks, List.append_assoc ..⟩ .nil
    | cons next rest => exact .cons here ih

theorem SpellsSelector.gapped_iff {padded piece selector : Text} (gapped : Gapped padded piece) :
    SpellsSelector padded selector ↔ SpellsSelector piece selector := by
  rcases gapped with ⟨gap, blanks, rfl⟩
  have whole : Whole endsSelector (gap ++ piece) ↔ Whole endsSelector piece :=
    Whole.blanks_append_iff blanks (fun _ _ => rfl) fun _ _ => rfl
  have cleaned := clean_append_of_white (fun c met => isWhite_of_blank (blanks c met)) piece
  constructor
  · intro spells
    exact ⟨whole.mp spells.whole, cleaned.symm.trans spells.cleaned, spells.filled⟩
  · intro spells
    exact ⟨whole.mpr spells.whole, cleaned.trans spells.cleaned, spells.filled⟩

theorem forall₂_spellsSelector_gapped {padded pieces : List Text}
    (gapped : List.Forall₂ Gapped padded pieces) {selectors : List Text} :
    List.Forall₂ SpellsSelector padded selectors ↔
      List.Forall₂ SpellsSelector pieces selectors := by
  induction gapped generalizing selectors with
  | nil => exact Iff.rfl
  | cons here later ih =>
    cases selectors with
    | nil => simp
    | cons selector rest =>
      rw [List.forall₂_cons, List.forall₂_cons, SpellsSelector.gapped_iff here, ih]

theorem headD_selectorPieces (first : Text) {padded selectors : List Text}
    (same : padded.length = selectors.length) :
    (selectorPieces (first :: padded)).headD [] = (selectorPieces (first :: selectors)).headD [] := by
  match padded, selectors, same with
  | [], [], _ => rfl
  | _ :: _, _ :: _, _ => rfl

/-- Blanks between a comma and the next selector make no difference. -/
theorem SpellsSelectors.gapped_iff {first : Text} {padded selectors given : List Text}
    (gaps : List.Forall₂ Gapped padded selectors) :
    SpellsSelectors (selectorPieces (first :: padded)) given ↔
      SpellsSelectors (selectorPieces (first :: selectors)) given := by
  have each : List.Forall₂ SpellsSelector (selectorPieces (first :: padded)) given ↔
      List.Forall₂ SpellsSelector (selectorPieces (first :: selectors)) given :=
    forall₂_spellsSelector_gapped (Gapped.forall₂_selectorPieces (.cons (Gapped.refl first) gaps))
  have head := headD_selectorPieces first gaps.length_eq
  constructor
  · intro spells
    exact ⟨selectorPieces_ne_nil _, each.mp spells.each, head ▸ spells.begins⟩
  · intro spells
    exact ⟨selectorPieces_ne_nil _, each.mpr spells.each, head ▸ spells.begins⟩

/-! ## Layouts -/

/-- The declaration with its hex colors in the wanted case. -/
def HexCase.declaration (hexCase : HexCase) (declared : Declaration) : Declaration :=
  { declared with value := hexCase.apply declared.value }

/-- The rule with its hex colors in the wanted case. -/
def HexCase.rule (hexCase : HexCase) (styleRule : Rule) : Rule :=
  { styleRule with declarations := styleRule.declarations.map hexCase.declaration }

namespace Layout

/-- A layout that only makes room: blanks before declarations, a comma and blanks between selectors. -/
structure Plain (layout : Layout) (gap : Text) : Prop where
  indent : ∀ c ∈ layout.indent, isBlank c = true
  delimiter : layout.delimiter = ',' :: gap
  gap : ∀ c ∈ gap, isBlank c = true

/-- The items in the block of a rule: its declarations, and the line end before the bracket. -/
def items (layout : Layout) (styleRule : Rule) : List Text :=
  (styleRule.declarations.map fun declared =>
    itemText ('\n' :: layout.indent) declared.property
      (layout.hexCase.declaration declared).valueText) ++ [['\n']]

theorem join_items (layout : Layout) (styleRule : Rule) :
    join [';'] (layout.items styleRule) =
      '\n' :: styleRule.declarations.flatMap layout.declaration := by
  rw [items]
  induction styleRule.declarations with
  | nil => rfl
  | cons declared rest ih =>
    have line : layout.declaration declared =
        layout.indent ++ (declared.property ++
          ':' :: (layout.hexCase.declaration declared).valueText) ++ [';', '\n'] := by
      rw [Layout.declaration, Declaration.valueText, HexCase.declaration,
        show ": ".toList = [':', ' '] from rfl, show ";\n".toList = [';', '\n'] from rfl]
      simp only [List.append_assoc, List.cons_append, List.nil_append]
    cases items : rest.map (fun declared => itemText ('\n' :: layout.indent) declared.property
        (layout.hexCase.declaration declared).valueText) ++ [['\n']] with
    | nil => simp at items
    | cons next others =>
      rw [items] at ih
      rw [List.map_cons, List.cons_append, items, join_cons_cons, ih, List.flatMap_cons, line,
        itemText]
      simp

theorem rule_eq (layout : Layout) (styleRule : Rule) {gapped : List Text}
    (same : join layout.delimiter styleRule.selectors = join [','] gapped) :
    layout.rule styleRule =
      ruleText (selectorPieces gapped) (layout.items styleRule) ++ ['\n'] := by
  rw [Layout.rule, ruleText, join_items, join_selectorPieces, same]
  simp

variable {layout : Layout} {gap : Text}

theorem Plain.blank_lead (plain : layout.Plain gap) :
    ∀ c ∈ '\n' :: layout.indent, isBlank c = true := by
  intro c met
  rcases List.mem_cons.mp met with rfl | inside
  · rfl
  · exact plain.indent c inside

theorem Plain.whole_items (plain : layout.Plain gap) {styleRule : Rule}
    (printable : (layout.hexCase.rule styleRule).Printable) :
    ∀ item ∈ layout.items styleRule, Whole endsDeclaration item := by
  intro item met
  rcases List.mem_append.mp met with inside | last
  · rcases List.mem_map.mp inside with ⟨declared, among, rfl⟩
    have comes := printable.declarations _ (List.mem_map_of_mem among)
    have own := comes.name
    rw [isOwnName, Bool.and_eq_true] at own
    exact whole_item plain.blank_lead own.1 comes.whole
  · rw [List.mem_singleton.mp last]
    exact whole_blanks (List.forall_mem_singleton.mpr rfl) (fun _ _ => rfl) endsDeclaration_down

theorem Plain.flatMap_items (plain : layout.Plain gap) {styleRule : Rule}
    (printable : (layout.hexCase.rule styleRule).Printable) :
    (layout.items styleRule).flatMap bodyDeclarations =
      (layout.hexCase.rule styleRule).unplaced.declarations := by
  rw [items, List.flatMap_append, List.flatMap_singleton,
    bodyDeclarations_blanks (List.forall_mem_singleton.mpr rfl), List.append_nil,
    List.flatMap_map]
  simp only [Rule.unplaced, HexCase.rule, List.map_map]
  rw [← List.flatMap_singleton' (List.map _ _), List.flatMap_map]
  apply List.flatMap_congr
  intro declared among
  have comes := printable.declarations _ (List.mem_map_of_mem among)
  exact bodyDeclarations_item plain.blank_lead comes.name comes.whole comes.means

/-- A printable rule is read back, and what follows it is read as if nothing stood before it. -/
theorem Plain.listedRules_rule (plain : layout.Plain gap) {styleRule : Rule}
    (printable : (layout.hexCase.rule styleRule).Printable) (fresh : Bool) (rest : Text) :
    listedRules fresh (layout.rule styleRule ++ rest) =
      (layout.hexCase.rule styleRule).unplaced :: listedRules false rest := by
  have selectors : (layout.hexCase.rule styleRule).selectors = styleRule.selectors := rfl
  have spells := printable.selectors
  rw [selectors] at spells
  cases given : styleRule.selectors with
  | nil =>
    rw [given] at spells
    cases spells.each
  | cons first others =>
    rw [given] at spells
    have same : join layout.delimiter styleRule.selectors =
        join [','] (first :: others.map (gap ++ ·)) := by
      rw [given, plain.delimiter, join_cons_separator]
    have padded := (SpellsSelectors.gapped_iff (forall₂_gapped_map plain.gap others)).mpr spells
    rw [layout.rule_eq styleRule same, List.append_assoc,
      listedRules_ruleText padded (plain.whole_items printable), plain.flatMap_items printable,
      listedRules_append_of_blank (List.all_eq_true.mp (by decide)), ← given]
    rfl

/-- Printable rules are read back from a sheet in their order. -/
theorem Plain.listedRules_sheet (plain : layout.Plain gap) {rules : List Rule}
    (printable : ∀ styleRule ∈ rules, (layout.hexCase.rule styleRule).Printable) (fresh : Bool) :
    listedRules fresh (layout.sheet ⟨rules⟩) =
      rules.map fun styleRule => (layout.hexCase.rule styleRule).unplaced := by
  rw [sheet]
  induction rules generalizing fresh with
  | nil => exact listedRules_nil fresh
  | cons styleRule rest ih =>
    have here := printable styleRule List.mem_cons_self
    have later := ih (fun other met => printable other (List.mem_cons_of_mem _ met)) false
    cases rest with
    | nil =>
      have alone := plain.listedRules_rule here fresh []
      rw [List.append_nil, listedRules_nil] at alone
      rw [List.map_singleton, join_singleton, alone, List.map_singleton]
    | cons next rest =>
      rw [List.map_cons] at later
      rw [List.map_cons, List.map_cons, join_cons_cons, plain.listedRules_rule here,
        listedRules_append_of_blank (List.all_eq_true.mp (by decide)), later, List.map_cons]
      rfl

end Layout

/-! ## Palettes -/

namespace Palette

/-- The text of a value in a palette, from its colon to the bracket. -/
def Entry.valueText (entry : Entry) : Text :=
  ' ' :: (entry.value ++ [' '])

theorem Entry.css_eq (entry : Entry) {gapped : List Text}
    (same : join [','] entry.selectors = join [','] gapped) :
    entry.css =
      ruleText (selectorPieces gapped) [itemText [' '] entry.property entry.valueText] := by
  rw [Entry.css, ruleText, join_selectorPieces, join_singleton, ← same, itemText, valueText,
    show " \x7b ".toList = [' ', '\x7b', ' '] from rfl, show ": ".toList = [':', ' '] from rfl,
    show " \x7d".toList = [' ', '\x7d'] from rfl, show ",".toList = [','] from rfl]
  simp only [List.append_assoc, List.cons_append, List.nil_append]

/-- The line of a palette is read as a rule with its property only. -/
theorem Entry.listedRules_css {entry : Entry} {gapped selectors : List Text} {value : Text}
    (same : join [','] entry.selectors = join [','] gapped)
    (spells : SpellsSelectors (selectorPieces gapped) selectors)
    (own : isOwnName entry.property = true) (whole : Whole endsDeclaration entry.valueText)
    (means : valueIn entry.valueText = some (value, false)) (fresh : Bool) (rest : Text) :
    listedRules fresh (entry.css ++ rest) =
      ⟨selectors, [⟨entry.property, value, false, 0⟩]⟩ :: listedRules false rest := by
  have blank : ∀ c ∈ [' '], isBlank c = true := List.forall_mem_singleton.mpr rfl
  have literal := own
  rw [isOwnName, Bool.and_eq_true] at literal
  have items : ∀ item ∈ [itemText [' '] entry.property entry.valueText],
      Whole endsDeclaration item := by
    intro item met
    rw [List.mem_singleton.mp met]
    exact whole_item blank literal.1 whole
  rw [entry.css_eq same, listedRules_ruleText spells items, List.flatMap_singleton,
    bodyDeclarations_item blank own whole means]

/-- The lines of a palette are read as the rules that they are. -/
theorem listedRules_lines {entries : List Entry} {ruleOf : Entry → Rule}
    (reads : ∀ entry ∈ entries, ∀ fresh rest,
      listedRules fresh (entry.css ++ rest) = ruleOf entry :: listedRules false rest)
    (fresh : Bool) :
    listedRules fresh (entries.flatMap fun entry => entry.css ++ "\n\n".toList) =
      entries.map ruleOf := by
  induction entries generalizing fresh with
  | nil => exact listedRules_nil fresh
  | cons entry rest ih =>
    have later := ih (fun other met => reads other (List.mem_cons_of_mem _ met)) false
    rw [List.flatMap_cons, List.append_assoc, reads entry List.mem_cons_self,
      listedRules_append_of_blank (List.all_eq_true.mp (by decide)), later, List.map_cons]

end Palette

end Swatch
