import Swatch.Proofs.Outline
import Swatch.Proofs.Printable

/-!
# When the lines of a palette are read back

An entry of a palette is printed on one line, as a rule with one declaration. The
selectors of the entry are lines themselves, each with the selectors of one rule,
so what stands before the bracket is the list of all these pieces. A line is
readable when the pieces and the value, each by itself, are read as what they are.
The lines of a palette are read back if and only if all of them are readable.
-/

namespace Swatch

open Css

/-! ## Lists of lists -/

theorem join_append {separator : Text} {front back : List Text} (first : front ≠ [])
    (second : back ≠ []) :
    join separator (front ++ back) = join separator front ++ (separator ++ join separator back) := by
  induction front with
  | nil => contradiction
  | cons piece rest ih =>
    cases rest with
    | nil =>
      cases back with
      | nil => contradiction
      | cons next others => rw [List.singleton_append, join_cons_cons, join_singleton]
    | cons next others =>
      rw [List.cons_append, List.cons_append, join_cons_cons, ← List.cons_append,
        ih (List.cons_ne_nil _ _), join_cons_cons, List.append_assoc, List.append_assoc]

/-- Joining lists that are joined is joining what is in them. -/
theorem join_map_join {separator : Text} {lists : List (List Text)}
    (filled : ∀ list ∈ lists, list ≠ []) :
    join separator (lists.map (join separator)) = join separator lists.flatten := by
  induction lists with
  | nil => rfl
  | cons list rest ih =>
    have later := ih fun other met => filled other (List.mem_cons_of_mem _ met)
    cases rest with
    | nil => simp
    | cons next others =>
      have further : (next :: others).flatten ≠ [] := by
        have some := filled next (List.mem_cons_of_mem _ List.mem_cons_self)
        rw [List.flatten_cons]
        exact List.append_ne_nil_of_left_ne_nil some _
      rw [List.map_cons] at later
      have parts : (list :: next :: others).flatten = list ++ (next :: others).flatten := rfl
      rw [List.map_cons, List.map_cons, join_cons_cons, later, parts,
        join_append (filled list List.mem_cons_self) further]

/-- The pieces of a line, each with the space that stands before it. -/
def spaced : List Text → List Text
  | [] => []
  | first :: rest => first :: rest.map ([' '] ++ ·)

theorem join_spaced (list : List Text) : join [','] (spaced list) = join ", ".toList list := by
  cases list with
  | nil => rfl
  | cons first rest => exact (join_cons_separator ',' [' '] first rest).symm

theorem forall₂_gapped_spaced (list : List Text) : List.Forall₂ Gapped (spaced list) list := by
  cases list with
  | nil => exact .nil
  | cons first rest =>
    exact .cons (Gapped.refl first) (forall₂_gapped_map (List.forall_mem_singleton.mpr rfl) rest)

theorem forall₂_gapped_flatMap (lists : List (List Text)) :
    List.Forall₂ Gapped (lists.flatMap spaced) lists.flatten := by
  induction lists with
  | nil => exact .nil
  | cons list rest ih => exact List.rel_append (forall₂_gapped_spaced list) ih

/-- Lines of pieces are a list of all the pieces, with spaces before some of them. -/
theorem exists_gapped {lists : List (List Text)} (some : lists ≠ [])
    (filled : ∀ list ∈ lists, list ≠ []) :
    ∃ first padded others, lists.flatten = first :: others ∧ List.Forall₂ Gapped padded others ∧
      join [','] (lists.map (join ", ".toList)) = join [','] (first :: padded) := by
  cases lists with
  | nil => contradiction
  | cons list rest =>
    cases list with
    | nil => exact absurd rfl (filled [] List.mem_cons_self)
    | cons first others =>
      refine ⟨first, others.map ([' '] ++ ·) ++ rest.flatMap spaced, others ++ rest.flatten, rfl,
        List.rel_append (forall₂_gapped_map (List.forall_mem_singleton.mpr rfl) others)
          (forall₂_gapped_flatMap rest), ?_⟩
      have lines : ((first :: others) :: rest).map (join ", ".toList) =
          (((first :: others) :: rest).map spaced).map (join [',']) := by
        rw [List.map_map]
        exact List.map_congr_left fun one _ => (join_spaced one).symm
      rw [lines, join_map_join]
      · rfl
      · intro one met
        rcases List.mem_map.mp met with ⟨list, among, rfl⟩
        cases list with
        | nil => exact absurd rfl (filled [] among)
        | cons piece pieces => exact List.cons_ne_nil _ _

namespace Palette

/-- The selectors of an entry are lines, and these are the pieces in them. -/
structure Entry.Lists (entry : Entry) (pieces : List Text) : Prop where
  lines : ∃ lists : List (List Text), entry.selectors = lists.map (join ", ".toList) ∧
    pieces = lists.flatten ∧ lists ≠ [] ∧ ∀ list ∈ lists, list ≠ []
  seen : ∀ piece ∈ pieces, ∃ c rest, piece = c :: rest ∧ isWhite c = false

/-- The rule says what the entry says: all its pieces, its property and its value. -/
structure Entry.ReadAs (entry : Entry) (pieces : List Text) (rule : Rule) : Prop where
  selectors : rule.selectors = pieces
  declarations : ∃ value line, trim value = entry.value ∧
    rule.declarations = [⟨entry.property, value, false, line⟩]

/-- The line of the entry, taken apart, is read as what the entry says. -/
structure Entry.Readable (entry : Entry) (pieces : List Text) : Prop where
  selectors : SpellsSelectors (selectorPieces pieces) pieces
  whole : Whole endsDeclaration entry.valueText
  means : ∃ value, trim value = entry.value ∧ valueIn entry.valueText = some (value, false)

variable {entry : Entry} {pieces : List Text} {rule : Rule}

theorem Entry.Lists.gapped (lists : entry.Lists pieces) :
    ∃ first padded others, pieces = first :: others ∧ List.Forall₂ Gapped padded others ∧
      join [','] entry.selectors = join [','] (first :: padded) := by
  rcases lists.lines with ⟨lists, selectors, rfl, some, filled⟩
  rw [selectors]
  exact exists_gapped some filled

theorem Entry.ReadAs.unplaced_iff :
    entry.ReadAs pieces rule.unplaced ↔ entry.ReadAs pieces rule := by
  constructor
  · rintro ⟨selectors, value, line, trimmed, declarations⟩
    refine ⟨selectors, value, ?_⟩
    rw [Rule.unplaced] at declarations
    rcases List.map_eq_singleton_iff.mp declarations with ⟨declared, alone, same⟩
    simp only [Declaration.unplaced, Declaration.mk.injEq] at same
    rcases declared with ⟨property, other, important, line⟩
    rcases same with ⟨rfl, rfl, rfl, -⟩
    exact ⟨line, trimmed, alone⟩
  · rintro ⟨selectors, value, line, trimmed, declarations⟩
    refine ⟨selectors, value, 0, trimmed, ?_⟩
    rw [Rule.unplaced, declarations]
    rfl

/-- The rule that the line of an entry is read as, if it is readable. -/
def Entry.asRule (entry : Entry) (pieces : List Text) : Rule :=
  ⟨pieces, [⟨entry.property, ((valueIn entry.valueText).map Prod.fst).getD [], false, 0⟩]⟩

theorem Entry.Readable.readAs (readable : entry.Readable pieces) :
    entry.ReadAs pieces (entry.asRule pieces) := by
  rcases readable.means with ⟨value, trimmed, means⟩
  refine ⟨rfl, value, 0, trimmed, ?_⟩
  rw [Entry.asRule, means]
  rfl

/-- A readable line at the front of a palette is read as its rule. -/
theorem Entry.Readable.listedRules_css (readable : entry.Readable pieces)
    (lists : entry.Lists pieces) (own : isOwnName entry.property = true) (fresh : Bool)
    (rest : Text) :
    listedRules fresh (entry.css ++ rest) = entry.asRule pieces :: listedRules false rest := by
  rcases lists.gapped with ⟨first, padded, others, rfl, gaps, same⟩
  rcases readable.means with ⟨value, -, means⟩
  have spells := (SpellsSelectors.gapped_iff gaps).mpr readable.selectors
  rw [Entry.listedRules_css same spells own readable.whole means, Entry.asRule, means]
  rfl

/-! ## Ink -/

theorem visible_trim (text : Text) : visible (trim text) = visible text := by
  rcases trim_parts text with ⟨front, back, parts, before, behind⟩
  conv => rhs; rw [parts]
  rw [visible_append, visible_append, visible_of_white before, visible_of_white behind,
    List.nil_append, List.append_nil]

theorem Entry.visible_valueText (entry : Entry) : visible entry.valueText = visible entry.value := by
  rw [Entry.valueText, visible_cons_of_white (by rfl), visible_append,
    visible_of_white (List.forall_mem_singleton.mpr rfl), List.append_nil]

theorem Entry.visible_of_trimmed {value : Text} (trimmed : trim value = entry.value) :
    visible entry.valueText = visible value := by
  rw [entry.visible_valueText, ← trimmed, visible_trim]

/-- The line of an entry holds the ink of the rule that it is read as. -/
theorem Entry.ReadAs.weight (readAs : entry.ReadAs pieces rule) (lists : entry.Lists pieces) :
    rule.weight = ink entry.css := by
  rcases lists.gapped with ⟨first, padded, others, rfl, gaps, same⟩
  rcases readAs.declarations with ⟨value, line, trimmed, declarations⟩
  have blank : ∀ c ∈ [' '], isBlank c = true := List.forall_mem_singleton.mpr rfl
  have heads := ink_selectorPieces (List.cons_ne_nil _ _) (.cons (Gapped.refl first) gaps)
  rw [entry.css_eq same, ink_ruleText (selectorPieces_ne_nil _), selectorWeight_of_same heads,
    List.map_singleton, List.sum_singleton, ink_itemText blank,
    ink_eq_of_visible_eq (Entry.visible_of_trimmed trimmed), Rule.weight, readAs.selectors,
    declarations]
  rfl

/-! ## Lines -/

theorem Entry.head?_css (lists : entry.Lists pieces) (behind : Text) :
    ∃ c rest others, pieces = (c :: rest) :: others ∧ isWhite c = false ∧
      (entry.css ++ behind).head? = some c := by
  rcases lists.gapped with ⟨first, padded, others, rfl, -, same⟩
  rcases lists.seen first List.mem_cons_self with ⟨c, rest, rfl, notWhite⟩
  refine ⟨c, rest, others, rfl, notWhite, ?_⟩
  rw [Entry.css, show ",".toList = [','] from rfl, same]
  simp only [List.append_assoc, head?_join_cons]

/-- A line that comes back from the front of a palette is readable. -/
theorem Entry.readable_of_line {fresh : Bool} {behind : Text} {rules : List Rule}
    (lists : entry.Lists pieces) (readAs : entry.ReadAs pieces rule)
    (read : listedRules fresh (entry.css ++ behind) = rule.unplaced :: rules)
    (tight : rulesWeight (rule.unplaced :: rules) = ink (entry.css ++ behind)) :
    entry.Readable pieces ∧ listedRules false behind = rules := by
  rcases lists.gapped with ⟨first, padded, others, rfl, gaps, same⟩
  rcases readAs with ⟨selectors, value, line, trimmed, declarations⟩
  have declared : rule.unplaced.declarations = [⟨entry.property, value, false, 0⟩] := by
    rw [Rule.unplaced, declarations]
    rfl
  have unplaced : rule.unplaced.selectors = first :: others := selectors
  have text : entry.css ++ behind =
      join [','] (selectorPieces (first :: padded)) ++ '\x7b' ::
        (itemText [' '] entry.property entry.valueText ++ '\x7d' :: behind) := by
    rw [entry.css_eq same, ruleText, join_singleton]
    simp
  have notBlank : (entry.css ++ behind).head?.any isBlank = false := by
    rcases entry.head?_css lists behind with ⟨c, rest, _, -, notWhite, begins⟩
    rw [begins, Option.any_some, Bool.eq_false_iff]
    intro blank
    rw [isWhite_of_blank blank] at notWhite
    contradiction
  have heads := ink_selectorPieces (List.cons_ne_nil _ _) (.cons (Gapped.refl first) gaps)
  rw [text] at read tight notBlank
  rcases rule_of_tight notBlank read tight (unplaced ▸ heads) with
    ⟨spells, line, contents, outer, tokens, holds, further⟩
  have printed : PrintedValue value false entry.valueText :=
    .plain (Entry.visible_of_trimmed trimmed)
  rw [declared] at holds
  rcases Holds.declaration (List.cons_ne_nil _ _) (List.forall_mem_singleton.mpr rfl)
    printed (show isEnd '\x7d' = true by decide) tokens holds with
    ⟨⟨-, whole, means⟩, later, after, tail, ⟨rfl, -⟩ | ⟨mark, rest, rfl, kind, -⟩⟩
  · rw [unplaced] at spells
    exact ⟨⟨(SpellsSelectors.gapped_iff gaps).mp spells, whole, value, trimmed, means⟩,
      (further later tail.symm).1⟩
  · rw [tokenize_punctuation (by rfl), List.cons_append, List.cons.injEq] at tail
    rw [← tail.1] at kind
    contradiction

variable {entries : List Entry} {piecesOf : Entry → List Text}

/-- The ink of the lines is the weight of the rules that they are read as. -/
theorem ink_lines (lists : ∀ entry ∈ entries, entry.Lists (piecesOf entry)) {rules : List Rule}
    (readAs : List.Forall₂ (fun rule entry => entry.ReadAs (piecesOf entry) rule) rules entries) :
    ink (entries.flatMap fun entry => entry.css ++ "\n\n".toList) =
      rulesWeight (rules.map Rule.unplaced) := by
  induction readAs with
  | nil => rfl
  | @cons rule entry rules entries here _ ih =>
    have later := ih fun other met => lists other (List.mem_cons_of_mem _ met)
    rw [List.flatMap_cons, ink_append, ink_append, later, List.map_cons, rulesWeight_cons,
      weight_unplaced, here.weight (lists entry List.mem_cons_self)]
    rfl

theorem readable_of_lines {fresh : Bool} (lists : ∀ entry ∈ entries, entry.Lists (piecesOf entry))
    {rules : List Rule}
    (readAs : List.Forall₂ (fun rule entry => entry.ReadAs (piecesOf entry) rule) rules entries)
    (read : listedRules fresh (entries.flatMap fun entry => entry.css ++ "\n\n".toList) =
      rules.map Rule.unplaced) :
    ∀ entry ∈ entries, entry.Readable (piecesOf entry) := by
  induction readAs generalizing fresh with
  | nil => exact List.forall_mem_nil _
  | @cons rule entry rules entries here later ih =>
    have tight := ink_lines lists (.cons here later)
    rw [List.map_cons] at read tight
    rw [List.flatMap_cons, List.append_assoc] at read tight
    rcases entry.readable_of_line (lists entry List.mem_cons_self) here read tight.symm with
      ⟨readable, behind⟩
    rw [listedRules_append_of_blank (List.all_eq_true.mp (by decide))] at behind
    intro other met
    rcases List.mem_cons.mp met with rfl | inRest
    · exact readable
    · exact ih (fun one among => lists one (List.mem_cons_of_mem _ among)) behind other inRest

/-- The lines of a palette as one text. -/
def lines (entries : List Entry) : Text :=
  entries.flatMap fun entry => entry.css ++ "\n\n".toList

/-- Readable lines are read as their rules. -/
theorem map_unplaced_parse_lines (lists : ∀ entry ∈ entries, entry.Lists (piecesOf entry))
    (own : ∀ entry ∈ entries, isOwnName entry.property = true)
    (readable : ∀ entry ∈ entries, entry.Readable (piecesOf entry))
    (noMark : (lines entries).head? ≠ some '\uFEFF') :
    (Stylesheet.parse (lines entries)).rules.map Rule.unplaced =
      entries.map fun entry => entry.asRule (piecesOf entry) := by
  rw [map_unplaced_parse_eq_listedRules, withoutMark_of_head noMark]
  exact listedRules_lines (fun entry met =>
    (readable entry met).listedRules_css (lists entry met) (own entry met)) true

/-- The lines of a palette are read back if and only if each of them is readable. -/
theorem parse_lines_iff (lists : ∀ entry ∈ entries, entry.Lists (piecesOf entry))
    (own : ∀ entry ∈ entries, isOwnName entry.property = true) :
    List.Forall₂ (fun rule entry => entry.ReadAs (piecesOf entry) rule)
        (Stylesheet.parse (lines entries)).rules entries ↔
      (∀ entry ∈ entries, entry.Readable (piecesOf entry)) ∧
        (lines entries).head? ≠ some '\uFEFF' := by
  constructor
  · intro readAs
    have parsed := map_unplaced_parse_eq_listedRules (lines entries)
    have noMark := Layout.withoutMark_of_tight parsed.symm (ink_lines lists readAs)
    rw [withoutMark_of_head noMark] at parsed
    exact ⟨readable_of_lines lists readAs parsed.symm, noMark⟩
  · rintro ⟨readable, noMark⟩
    have parsed := map_unplaced_parse_lines lists own readable noMark
    have each : List.Forall₂ (fun rule entry => entry.ReadAs (piecesOf entry) rule)
        (entries.map fun entry => entry.asRule (piecesOf entry)) entries := by
      rw [List.forall₂_map_left_iff, List.forall₂_same]
      exact fun entry met => (readable entry met).readAs
    rw [← parsed, List.forall₂_map_left_iff] at each
    exact each.imp fun _ _ => Entry.ReadAs.unplaced_iff.mp

theorem head?_lines (lists : ∀ entry ∈ entries, entry.Lists (piecesOf entry)) :
    (lines entries).head? =
      entries.head?.bind fun entry => (piecesOf entry).head?.bind List.head? := by
  cases entries with
  | nil => rfl
  | cons entry rest =>
    rw [lines, List.flatMap_cons, List.append_assoc]
    rcases entry.head?_css (lists entry List.mem_cons_self) ("\n\n".toList ++ lines rest) with
      ⟨c, piece, others, same, -, begins⟩
    refine begins.trans ?_
    rw [List.head?_cons, Option.bind_some, same]
    rfl

end Palette

end Swatch
