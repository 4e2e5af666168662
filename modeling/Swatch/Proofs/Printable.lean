import Swatch.Proofs.Printing
import Swatch.Proofs.Css.Recovered

/-!
# Only printable rules are read back

A sheet holds the ink of the rules that it was printed from. When these rules come
back from it, reading has lost no ink, so every rule comes back from its own
lines and every declaration from its own line. Therefore a sheet is read back if
and only if all its rules are printable.
-/

namespace Swatch

open Css

/-! ## The ink of printed text -/

theorem ink_join_add_one {c : Char} (inked : ink [c] = 1) {pieces : List Text}
    (some : pieces ≠ []) : ink (join [c] pieces) + 1 = selectorWeight pieces := by
  induction pieces with
  | nil => contradiction
  | cons piece rest ih =>
    cases rest with
    | nil => rw [join_singleton, selectorWeight_cons]; rfl
    | cons next rest =>
      have later := ih (List.cons_ne_nil _ _)
      rw [join_cons_cons, selectorWeight_cons, ink_append, ink_append, inked]
      omega

theorem ink_join_of_white {separator : Text} (empty : ink separator = 0) (pieces : List Text) :
    ink (join separator pieces) = (pieces.map ink).sum := by
  induction pieces with
  | nil => rfl
  | cons piece rest ih =>
    cases rest with
    | nil => rw [join_singleton]; rfl
    | cons next rest =>
      rw [join_cons_cons, ink_append, ink_append, ih, empty, Nat.zero_add]
      rfl

theorem selectorWeight_of_same {pieces selectors : List Text}
    (same : List.Forall₂ (fun piece selector => ink piece = ink selector) pieces selectors) :
    selectorWeight pieces = selectorWeight selectors := by
  induction same with
  | nil => rfl
  | cons here _ ih => rw [selectorWeight_cons, selectorWeight_cons, here, ih]

theorem ink_of_gapped {padded text : Text} (gapped : Gapped padded text) : ink padded = ink text := by
  rcases gapped with ⟨gap, blanks, rfl⟩
  rw [ink_append, ink_of_blank blanks, Nat.zero_add]

theorem ink_selectorPieces {padded selectors : List Text} (some : selectors ≠ [])
    (gapped : List.Forall₂ Gapped padded selectors) :
    List.Forall₂ (fun piece selector => ink piece = ink selector) (selectorPieces padded)
      selectors := by
  induction gapped with
  | nil => contradiction
  | @cons piece selector others rest here later ih =>
    have same := ink_of_gapped here
    cases later with
    | nil =>
      refine .cons ?_ .nil
      rw [ink_append, same]
      rfl
    | cons next further => exact .cons same (ih (List.cons_ne_nil _ _))

theorem ink_itemText {lead : Text} (blanks : ∀ c ∈ lead, isBlank c = true) (name value : Text) :
    ink (itemText lead name value) = ink name + 1 + ink value := by
  rw [itemText, ink_append, ink_of_blank blanks, ink_append, ink_cons, show ink [':'] = 1 from rfl]
  omega

theorem Css.PrintedValue.ink_eq {value text : Text} {important : Bool}
    (printed : PrintedValue value important text) :
    ink text = ink value + if important then 10 else 0 := by
  cases printed with
  | plain seen => exact ink_eq_of_visible_eq seen
  | marked =>
    rw [ink_cons, ink_append, show ink [' '] = 0 from rfl, Nat.zero_add]
    rfl

theorem ink_ruleText {pieces items : List Text} (some : pieces ≠ []) :
    ink (ruleText pieces items) = selectorWeight pieces + (items.map ink).sum := by
  have pieces_ink := ink_join_add_one (show ink [','] = 1 from rfl) some
  rw [ruleText, ink_append, ink_cons, ink_append, ink_join_of_white (show ink [';'] = 0 from rfl),
    show ink ['\x7b'] = 1 from rfl, show ink ['\x7d'] = 0 from rfl]
  omega

/-! ## Selectors of rules that were read -/

/-- A rule that was read has selectors, and each of them begins with a character that is seen. -/
structure Css.Rule.Selected (rule : Rule) : Prop where
  some : rule.selectors ≠ []
  seen : ∀ selector ∈ rule.selectors, ∃ c rest, selector = c :: rest ∧ isWhite c = false

theorem selected_of_styleRule {first : Token} {statement : Statement} {rule : Rule}
    (met : rule ∈ rulesIn (styleRule first statement)) : rule.Selected := by
  rcases rulesIn_styleRule first statement with none | ⟨opening, contents, _, _, filled, one⟩
  · rw [none] at met
    contradiction
  · rw [one, List.mem_singleton] at met
    subst met
    refine ⟨?_, ?_⟩
    · intro empty
      exact piecesAt_ne_nil _ _ _ _ (List.map_eq_nil_iff.mp empty)
    · intro selector among
      have some := filled selector among
      rcases List.mem_map.mp among with ⟨piece, -, rfl⟩
      cases cleaned : clean (source piece.1) with
      | nil => exact absurd cleaned some
      | cons c rest => exact ⟨c, rest, rfl, isWhite_of_clean cleaned⟩

theorem selected_of_mem_rulesIn {fresh : Bool} {tokens : List Token} {rule : Rule}
    (met : rule ∈ rulesIn (readRules fresh tokens)) : rule.Selected := by
  fun_induction readRules fresh tokens with
  | case1 => contradiction
  | case2 fresh first rest between ih => exact ih met
  | case3 fresh first rest busy keyword statement findings inner ih =>
    rw [rulesIn_append, List.mem_append] at met
    rcases met with here | later
    · simp only [findings] at here
      split at here
      · contradiction
      · split at here
        · exact inner here
        · contradiction
    · exact ih later
  | case4 fresh first rest busy noKeyword ih =>
    rw [rulesIn_append, List.mem_append] at met
    rcases met with here | later
    · simp only [qualifiedRule] at here
      split at here
      · contradiction
      · exact selected_of_styleRule here
    · exact ih later

/-! ## Bodies -/

theorem Css.Declaration.printedValue (declared : Declaration) :
    PrintedValue declared.value declared.important declared.valueText := by
  rcases declared with ⟨property, value, important, line⟩
  cases important with
  | false =>
    refine .plain ?_
    rw [Declaration.valueText, visible_cons_of_white (by rfl), if_neg Bool.false_ne_true,
      List.append_nil]
  | true => exact .marked

/-- The items in a block with one declaration on each line. -/
def linesOf (lead : Text) (declared : List Declaration) : List Text :=
  (declared.map fun one => itemText lead one.property one.valueText) ++ [['\n']]

theorem linesOf_ne_nil (lead : Text) (declared : List Declaration) : linesOf lead declared ≠ [] :=
  List.append_ne_nil_of_right_ne_nil _ (List.cons_ne_nil _ _)

theorem join_linesOf_cons (lead : Text) (declared : Declaration) (rest : List Declaration) :
    join [';'] (linesOf lead (declared :: rest)) =
      itemText lead declared.property declared.valueText ++
        ';' :: join [';'] (linesOf lead rest) := by
  rw [linesOf, List.map_cons, List.cons_append]
  cases lines : (rest.map fun one => itemText lead one.property one.valueText) ++ [['\n']] with
  | nil => exact absurd lines (linesOf_ne_nil lead rest)
  | cons next others =>
    rw [join_cons_cons, linesOf, lines, List.singleton_append]

/-- Declarations that come back from their lines are printable. -/
theorem Css.Holds.lines {lead : Text} (some : lead ≠ []) (blanks : ∀ c ∈ lead, isBlank c = true)
    {declared : List Declaration} {line : Nat} {behind : Text} {contents outer : List Token}
    (tokens : tokenize line (join [';'] (linesOf lead declared) ++ '\x7d' :: behind) =
      contents ++ outer)
    (holds : Holds contents outer (declared.map Declaration.unplaced)) :
    (∀ one ∈ declared, one.Printable) ∧ ∃ later, outer = tokenize later ('\x7d' :: behind) := by
  induction declared generalizing line contents with
  | nil =>
    refine ⟨by simp, ?_⟩
    rw [linesOf, List.map_nil, List.nil_append, join_singleton] at tokens
    exact holds.block.close (List.forall_mem_singleton.mpr rfl) tokens
  | cons one rest ih =>
    rw [join_linesOf_cons, List.append_assoc, List.cons_append] at tokens
    have printed := one.printedValue
    rcases Holds.declaration some blanks printed (show isEnd ';' = true by decide) tokens holds with
      ⟨⟨own, whole, means⟩, later, after, further, none | ⟨mark, more, rfl, _, inside⟩⟩
    · rw [none.1, List.nil_append, tokenize_punctuation (by rfl)] at further
      rcases holds.block.outer with nothing | ⟨-, closing, _, same, kind⟩
      · rw [nothing] at further
        contradiction
      · rw [same, List.cons.injEq] at further
        rw [← further.1] at kind
        contradiction
    · rw [tokenize_punctuation (by rfl), List.cons_append, List.cons.injEq] at further
      rcases ih further.2 inside with ⟨others, closes⟩
      refine ⟨?_, closes⟩
      intro other met
      rcases List.mem_cons.mp met with rfl | inRest
      · exact ⟨own, whole, means⟩
      · exact others other inRest

/-! ## Sheets -/

theorem weight_unplaced (rule : Rule) : rule.unplaced.weight = rule.weight := by
  rw [Rule.weight, Rule.unplaced, weightOf, List.map_map]
  rfl

theorem Css.Rule.Selected.of_unplaced {rule : Rule} (selected : rule.unplaced.Selected) :
    rule.Selected :=
  ⟨selected.some, selected.seen⟩

theorem head?_join_of_seen {selectors : List Text} {separator behind : Text} (some : selectors ≠ [])
    (seen : ∀ selector ∈ selectors, ∃ c rest, selector = c :: rest ∧ isWhite c = false) :
    (join separator selectors ++ behind).head?.any isBlank = false := by
  cases selectors with
  | nil => contradiction
  | cons selector others =>
    rcases seen selector List.mem_cons_self with ⟨c, rest, rfl, notWhite⟩
    have notBlank : isBlank c = false := by
      rw [Bool.eq_false_iff]
      intro blank
      rw [isWhite_of_blank blank] at notWhite
      contradiction
    rw [head?_join_cons, Option.any_some, notBlank]

namespace Layout

variable {layout : Layout} {gap : Text}

theorem items_eq (layout : Layout) (styleRule : Rule) :
    layout.items styleRule =
      linesOf ('\n' :: layout.indent) (layout.hexCase.rule styleRule).declarations := by
  rw [items, linesOf, HexCase.rule, List.map_map]
  rfl

theorem ink_linesOf {lead : Text} (blanks : ∀ c ∈ lead, isBlank c = true)
    (declared : List Declaration) :
    ((linesOf lead declared).map ink).sum = weightOf declared := by
  induction declared with
  | nil => rfl
  | cons one rest ih =>
    have line : ink (itemText lead one.property one.valueText) = one.weight := by
      rw [ink_itemText blanks, one.printedValue.ink_eq, ← Nat.add_assoc]
      rfl
    rw [linesOf] at ih
    rw [linesOf, List.map_cons, List.cons_append, List.map_cons, List.sum_cons, ih, line,
      weightOf_cons]

/-- A rule is its selectors with blanks before all but the first of them, and its lines. -/
theorem Plain.rule_eq_ruleText (plain : layout.Plain gap) {styleRule : Rule} {first : Text}
    {others : List Text} (given : styleRule.selectors = first :: others) :
    layout.rule styleRule =
      ruleText (selectorPieces (first :: others.map (gap ++ ·)))
        (linesOf ('\n' :: layout.indent) (layout.hexCase.rule styleRule).declarations) ++ ['\n'] := by
  rw [← items_eq, layout.rule_eq styleRule]
  rw [given, plain.delimiter, join_cons_separator]

theorem Plain.same_ink (plain : layout.Plain gap) (first : Text) (others : List Text) :
    List.Forall₂ (fun piece selector => ink piece = ink selector)
      (selectorPieces (first :: others.map (gap ++ ·))) (first :: others) :=
  ink_selectorPieces (List.cons_ne_nil _ _)
    (.cons (Gapped.refl first) (forall₂_gapped_map plain.gap others))

theorem Plain.ink_rule (plain : layout.Plain gap) {styleRule : Rule}
    (some : styleRule.selectors ≠ []) :
    ink (layout.rule styleRule) = (layout.hexCase.rule styleRule).weight := by
  cases given : styleRule.selectors with
  | nil => contradiction
  | cons first others =>
    have weight : (layout.hexCase.rule styleRule).weight =
        selectorWeight (first :: others) +
          weightOf (layout.hexCase.rule styleRule).declarations := by
      rw [Rule.weight, ← given]
      rfl
    rw [plain.rule_eq_ruleText given, ink_append, ink_ruleText (selectorPieces_ne_nil _),
      selectorWeight_of_same (plain.same_ink first others), ink_linesOf plain.blank_lead, weight]
    rfl

/-- A rule that comes back from the front of a sheet is printable. -/
theorem Plain.printable_of_rule (plain : layout.Plain gap) {styleRule : Rule} {fresh : Bool}
    {behind : Text} {others : List Rule} (selected : styleRule.Selected)
    (read : listedRules fresh (layout.rule styleRule ++ behind) =
      (layout.hexCase.rule styleRule).unplaced :: others)
    (tight : rulesWeight ((layout.hexCase.rule styleRule).unplaced :: others) =
      ink (layout.rule styleRule ++ behind)) :
    (layout.hexCase.rule styleRule).Printable ∧ listedRules false behind = others := by
  cases given : styleRule.selectors with
  | nil => exact absurd given selected.some
  | cons first more =>
    have text : layout.rule styleRule ++ behind =
        join [','] (selectorPieces (first :: more.map (gap ++ ·))) ++ '\x7b' ::
          (join [';'] (linesOf ('\n' :: layout.indent)
            (layout.hexCase.rule styleRule).declarations) ++ '\x7d' :: ('\n' :: behind)) := by
      rw [plain.rule_eq_ruleText given, ruleText]
      simp
    have notBlank : (layout.rule styleRule ++ behind).head?.any isBlank = false := by
      rw [Layout.rule, List.append_assoc, List.append_assoc, List.append_assoc]
      exact head?_join_of_seen selected.some selected.seen
    have selectors : (layout.hexCase.rule styleRule).unplaced.selectors = first :: more := given
    rw [text] at read tight notBlank
    rcases rule_of_tight notBlank read tight (selectors ▸ plain.same_ink first more) with
      ⟨spells, line, contents, outer, tokens, holds, further⟩
    rcases holds.lines (List.cons_ne_nil _ _) plain.blank_lead tokens with ⟨printable, later, closes⟩
    have rest := (further later closes).1
    rw [show '\n' :: behind = ['\n'] ++ behind from rfl,
      listedRules_append_of_blank (List.all_eq_true.mp (by decide))] at rest
    refine ⟨⟨?_, printable⟩, rest⟩
    rw [selectors] at spells
    have padded := (SpellsSelectors.gapped_iff (forall₂_gapped_map plain.gap more)).mp spells
    rwa [show (layout.hexCase.rule styleRule).selectors = first :: more from given]

/-- The ink of a sheet is the weight of the rules that are read back from it. -/
theorem Plain.ink_sheet (plain : layout.Plain gap) {rules : List Rule}
    (some : ∀ styleRule ∈ rules, styleRule.selectors ≠ []) :
    ink (layout.sheet ⟨rules⟩) =
      rulesWeight (rules.map fun styleRule => (layout.hexCase.rule styleRule).unplaced) := by
  rw [sheet, ink_join_of_white (by rfl), List.map_map, rulesWeight, List.map_map]
  congr 1
  apply List.map_congr_left
  intro styleRule met
  rw [Function.comp_apply, plain.ink_rule (some styleRule met), Function.comp_apply,
    weight_unplaced]

/-- Rules that come back from a sheet are printable. -/
theorem Plain.printable_of_sheet (plain : layout.Plain gap) {rules : List Rule} {fresh : Bool}
    (selected : ∀ styleRule ∈ rules, styleRule.Selected)
    (read : listedRules fresh (layout.sheet ⟨rules⟩) =
      rules.map fun styleRule => (layout.hexCase.rule styleRule).unplaced) :
    ∀ styleRule ∈ rules, (layout.hexCase.rule styleRule).Printable := by
  induction rules generalizing fresh with
  | nil => simp
  | cons styleRule rest ih =>
    have tight := plain.ink_sheet fun other met => (selected other met).some
    have later (other : Rule) (met : other ∈ rest) : other.Selected :=
      selected other (List.mem_cons_of_mem _ met)
    rw [List.map_cons] at read tight
    rw [sheet] at read tight
    cases rest with
    | nil =>
      rw [List.map_singleton, join_singleton, ← List.append_nil (layout.rule styleRule)]
        at read tight
      have here := plain.printable_of_rule (selected styleRule List.mem_cons_self) read tight.symm
      intro other met
      rw [List.mem_singleton.mp met]
      exact here.1
    | cons next others =>
      rw [List.map_cons, List.map_cons, join_cons_cons] at read tight
      have here := plain.printable_of_rule (selected styleRule List.mem_cons_self) read tight.symm
      rcases here with ⟨printable, behind⟩
      rw [listedRules_append_of_blank (List.all_eq_true.mp (by decide))] at behind
      intro other met
      rcases List.mem_cons.mp met with rfl | inRest
      · exact printable
      · exact ih later behind other inRest

/-- A sheet that is read back does not begin with a byte order mark. -/
theorem withoutMark_of_tight {text : Text} {rules : List Rule}
    (read : listedRules true (withoutMark text) = rules) (tight : ink text = rulesWeight rules) :
    text.head? ≠ some '\uFEFF' := by
  intro marked
  rcases List.head?_eq_some_iff.mp marked with ⟨rest, rfl⟩
  have bound : rulesWeight rules ≤ ink rest := by
    rw [← read]
    have spelled : ∀ token ∈ tokenize 0 rest, token.Spelled :=
      fun token met => spelled_of_mem_tokenize met
    have held := weight_readRules_le true spelled
    rwa [source_tokenize] at held
  rw [ink_cons, show ink ['\uFEFF'] = 1 from rfl] at tight
  omega

/-- A sheet gives its rules back if and only if they are printable and it begins with no mark. -/
theorem Plain.parse_sheet_iff (plain : layout.Plain gap) {rules : List Rule}
    (selected : ∀ styleRule ∈ rules, styleRule.Selected) :
    (Stylesheet.parse (layout.sheet ⟨rules⟩)).rules.map Rule.unplaced =
        rules.map (fun styleRule => (layout.hexCase.rule styleRule).unplaced) ↔
      (∀ styleRule ∈ rules, (layout.hexCase.rule styleRule).Printable) ∧
        (layout.sheet ⟨rules⟩).head? ≠ some '\uFEFF' := by
  rw [map_unplaced_parse_eq_listedRules]
  constructor
  · intro read
    have noMark := withoutMark_of_tight read
      (plain.ink_sheet fun styleRule met => (selected styleRule met).some)
    rw [withoutMark_of_head noMark] at read
    exact ⟨plain.printable_of_sheet selected read, noMark⟩
  · rintro ⟨printable, noMark⟩
    rw [withoutMark_of_head noMark]
    exact plain.listedRules_sheet printable true

end Layout

/-- Every rule of a style sheet was read as a style rule. -/
theorem selected_of_mem_parse {text : Text} {styleRule : Rule}
    (met : styleRule ∈ (Stylesheet.parse text).rules) : styleRule.Selected := by
  apply Css.Rule.Selected.of_unplaced
  have among : styleRule.unplaced ∈ (Stylesheet.parse text).rules.map Rule.unplaced :=
    List.mem_map_of_mem met
  rw [map_unplaced_parse] at among
  exact selected_of_mem_rulesIn among

end Swatch
