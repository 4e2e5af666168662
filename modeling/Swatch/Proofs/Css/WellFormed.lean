import Swatch.Proofs.Css.LineCount
import Swatch.Proofs.Css.NormalForm
import Swatch.Proofs.Css.Standing
import Swatch.Proofs.Printable

/-!
# Style sheets that were read are well formed

Whatever a text holds, the rules that reading keeps have selectors, which are not empty
and are cleaned already. Their declarations have a name in its letter case, a value that
is cleaned already, and a line of the text. In the order of the source the lines never
decrease, because the declarations stand in the tokens one behind the other.
-/

namespace Swatch.Css

/-- A text that says something and that cleaning does not change. -/
structure IsClean (text : Text) : Prop where
  filled : text ≠ []
  cleaned : clean text = text

/-- The name of a declaration is in its letter case, and the value is cleaned. -/
structure Declaration.WellFormed (declared : Declaration) : Prop where
  named : declared.property ≠ []
  cased : "--".toList.isPrefixOf declared.property = true ∨
    ∀ c ∈ declared.property, c.isUpper = false
  value : IsClean declared.value

/-- The rule has selectors, all of them cleaned, and its declarations are well formed. -/
structure Rule.WellFormed (rule : Rule) : Prop where
  some : rule.selectors ≠ []
  selectors : ∀ selector ∈ rule.selectors, IsClean selector
  declarations : ∀ declared ∈ rule.declarations, declared.WellFormed

/-- The lines of the declarations, in the order of the source. -/
def Stylesheet.lines (sheet : Stylesheet) : List Nat :=
  sheet.declarations.map fun found => found.2.line

/-- The rules are well formed, and the lines of their declarations run from the first to the last. -/
structure Stylesheet.WellFormed (last : Nat) (sheet : Stylesheet) : Prop where
  rules : ∀ rule ∈ sheet.rules, rule.WellFormed
  ordered : sheet.lines.Pairwise (· ≤ ·)
  within : ∀ line ∈ sheet.lines, 1 ≤ line ∧ line ≤ last

theorem IsClean.of_clean {text : Text} (filled : clean text ≠ []) : IsClean (clean text) :=
  ⟨filled, clean_clean text⟩

/-! ## Names -/

theorem resolve_ne_nil {name : Text} (some : name ≠ []) : resolve name ≠ [] := by
  cases name with
  | nil => contradiction
  | cons c rest =>
    rw [resolve]
    split <;> exact List.cons_ne_nil _ _

theorem propertyName_ne_nil {name : Text} (some : name ≠ []) : propertyName name ≠ [] := by
  rw [← List.length_pos_iff, propertyName_length]
  exact List.length_pos_iff.mpr some

theorem propertyName_cased (name : Text) :
    "--".toList.isPrefixOf (propertyName name) = true ∨
      ∀ c ∈ propertyName name, c.isUpper = false := by
  unfold propertyName
  split
  · rename_i custom
    exact .inl custom
  · right
    intro c met
    rcases List.mem_map.mp met with ⟨other, -, rfl⟩
    exact isUpper_toLower other

/-! ## Rules -/

variable {text : Text}

theorem name_mem_tokenize {declared : SourceDeclaration}
    (met : declared ∈ declaredBy (sourceRules text)) :
    declared.name ∈ tokenize 1 (withoutMark text) :=
  (stands_sourceRules text).names.subset (List.mem_map_of_mem met)

theorem wellFormed_declaration {declared : SourceDeclaration}
    (met : declared ∈ declaredBy (sourceRules text)) : declared.declaration.WellFormed := by
  rcases (stands_sourceRules text).of_mem met with ⟨kind, filled, -⟩
  have spelled := text_ne_nil_of_mem_tokenize (name_mem_tokenize met)
  have named : declared.name.name ≠ [] := by
    rw [Token.name, if_neg (by rw [kind]; decide)]
    exact resolve_ne_nil spelled
  exact ⟨propertyName_ne_nil named, propertyName_cased _, .of_clean filled⟩

theorem wellFormed_of_mem_parse {rule : Rule} (met : rule ∈ (Stylesheet.parse text).rules) :
    rule.WellFormed := by
  have selected := selected_of_mem_parse met
  rcases List.mem_map.mp met with ⟨found, kept, rfl⟩
  refine ⟨selected.some, fun selector among => ?_, fun declared among => ?_⟩
  · rcases selected.seen selector among with ⟨c, rest, shape, -⟩
    rcases List.mem_map.mp among with ⟨tokens, -, rfl⟩
    apply IsClean.of_clean
    rw [shape]
    exact List.cons_ne_nil c rest
  · rcases List.mem_map.mp among with ⟨declaredHere, here, rfl⟩
    exact wellFormed_declaration (mem_declaredBy kept here)

/-! ## Lines -/

theorem lines_parse (text : Text) :
    (Stylesheet.parse text).lines =
      (declaredBy (sourceRules text)).map fun declared => declared.name.line := by
  simp only [Stylesheet.lines, Stylesheet.declarations, Stylesheet.parse, declaredBy,
    List.map_flatMap, List.flatMap_map, List.map_map]
  rw [List.flatMap_def, List.flatMap_def]
  congr 1
  apply List.map_congr_left
  intro found _
  simp only [SourceRule.rule, List.map_map]
  rfl

/-- The lines of the declarations are lines of tokens, in the order of the tokens. -/
theorem lines_parse_sublist (text : Text) :
    (Stylesheet.parse text).lines.Sublist
      ((tokenize 1 (withoutMark text)).map Token.line) := by
  have names := (stands_sourceRules text).names.map Token.line
  rw [List.map_map] at names
  rw [lines_parse]
  exact names

/-- Every style sheet that is read from a text is well formed. -/
theorem wellFormed_parse (text : Text) :
    (Stylesheet.parse text).WellFormed (1 + lineEnds text) := by
  refine ⟨fun rule met => wellFormed_of_mem_parse met, ?_, fun line met => ?_⟩
  · have ordered := pairwise_line_tokenize 1 (withoutMark text)
    exact (List.pairwise_map.mpr ordered).sublist (lines_parse_sublist text)
  · rcases List.mem_map.mp ((lines_parse_sublist text).subset met) with ⟨token, among, rfl⟩
    have bounds := line_of_mem_tokenize among
    rwa [lineEnds_withoutMark] at bounds

end Swatch.Css
