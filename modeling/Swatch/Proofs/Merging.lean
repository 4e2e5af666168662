import Swatch.Proofs.Css.Concatenation
import Swatch.Proofs.Grouping

/-!
# Palettes of concatenated style sheets

When two style sheets are put one behind the other, so are the uses of a color. The
palette of the whole is the first palette, in which every entry has taken in the entry
of its property in the second, and behind it the entries that only the second has.
-/

namespace Swatch

open Css

namespace Palette

/-- The entry after those uses that a later entry of the same property holds. -/
def Entry.extendedBy (entry : Entry) (later : Option Entry) : Entry :=
  match later with
  | some other => ⟨entry.property, entry.selectors ++ other.selectors, other.value⟩
  | none => entry

/--
The entries of a palette, each with what another palette holds for its property, and the
entries of properties that only the other one has.
-/
def merge (first second : List Entry) : List Entry :=
  (first.map fun entry =>
      entry.extendedBy (second.find? fun other => other.property == entry.property)) ++
    second.filter fun other => !(first.map Entry.property).contains other.property

variable {color : Color} {criterion : Criterion}

/-- The groups of some matches, in the order in which their properties first occur. -/
def groups (color : Color) (criterion : Criterion) (found : List (Rule × Declaration)) :
    List Entry :=
  (found.map keyOf).eraseDups.map (group color criterion found)

theorem eraseDups_filter (test : Text → Bool) (keys : List Text) :
    (keys.filter test).eraseDups = keys.eraseDups.filter test := by
  induction keys using List.reverseRecOn with
  | nil => rfl
  | append_singleton keys key ih =>
    rw [List.filter_append, eraseDups_concat]
    by_cases passes : test key = true
    · rw [List.filter_cons_of_pos passes, List.filter_nil, eraseDups_concat, ih]
      by_cases known : key ∈ keys
      · rw [if_pos known, if_pos (List.mem_filter.mpr ⟨known, passes⟩)]
      · have fresh : key ∉ keys.filter test := fun met => known (List.mem_filter.mp met).1
        rw [if_neg known, if_neg fresh, List.filter_append, List.filter_cons_of_pos passes,
          List.filter_nil]
    · rw [List.filter_cons_of_neg passes, List.filter_nil, List.append_nil, ih]
      by_cases known : key ∈ keys
      · rw [if_pos known]
      · rw [if_neg known, List.filter_append, List.filter_cons_of_neg passes, List.filter_nil,
          List.append_nil]

theorem membersOf_append (key : Text) (first second : List (Rule × Declaration)) :
    membersOf key (first ++ second) = membersOf key first ++ membersOf key second :=
  List.filter_append first second

theorem membersOf_ne_nil {found : List (Rule × Declaration)} {key : Text}
    (present : key ∈ found.map keyOf) : membersOf key found ≠ [] := by
  rcases List.mem_map.mp present with ⟨member, met, rfl⟩
  apply List.ne_nil_of_mem (a := member)
  exact List.mem_filter.mpr ⟨met, beq_self_eq_true _⟩

/-- The group of a property among matches that follow each other. -/
theorem group_append (first second : List (Rule × Declaration)) (key : Text) :
    group color criterion (first ++ second) key =
      if key ∈ second.map keyOf then
        ⟨key, (group color criterion first key).selectors ++
          (group color criterion second key).selectors, (group color criterion second key).value⟩
      else group color criterion first key := by
  by_cases present : key ∈ second.map keyOf
  · rw [if_pos present, group, membersOf_append, List.map_append, List.getLast?_append_of_ne_nil _
      (membersOf_ne_nil present)]
    rfl
  · rw [if_neg present, group, membersOf_append, membersOf_eq_nil present, List.append_nil]
    rfl

theorem group_append_of_absent {first : List (Rule × Declaration)} {key : Text}
    (absent : key ∉ first.map keyOf) (second : List (Rule × Declaration)) :
    group color criterion (first ++ second) key = group color criterion second key := by
  rw [group, membersOf_append, membersOf_eq_nil absent, List.nil_append]
  rfl

theorem map_property_groups (found : List (Rule × Declaration)) :
    (groups color criterion found).map Entry.property = (found.map keyOf).eraseDups := by
  rw [groups, List.map_map]
  exact List.map_id'' (fun _ => rfl) _

/-- The groups of matches that follow each other are merged groups. -/
theorem groups_append (first second : List (Rule × Declaration)) :
    groups color criterion (first ++ second) =
      merge (groups color criterion first) (groups color criterion second) := by
  have extended : ∀ key ∈ (first.map keyOf).eraseDups,
      group color criterion (first ++ second) key =
        (group color criterion first key).extendedBy
          ((groups color criterion second).find? fun other => other.property == key) := by
    intro key _
    rw [groups, find?_map_group, group_append]
    by_cases present : key ∈ second.map keyOf
    · rw [if_pos present, if_pos (List.mem_eraseDups.mpr present)]
      rfl
    · rw [if_neg present, if_neg (fun met => present (List.mem_eraseDups.mp met))]
      rfl
  have fresh : ∀ key ∈ (second.map keyOf).eraseDups.filter
      (fun key => !(first.map keyOf).contains key),
      group color criterion (first ++ second) key = group color criterion second key := by
    intro key met
    apply group_append_of_absent
    have outside := (List.mem_filter.mp met).2
    simpa using outside
  have known : (fun key => !(first.map keyOf).eraseDups.contains key) =
      fun key => !(first.map keyOf).contains key := by
    funext key
    congr 1
    rw [Bool.eq_iff_iff, List.contains_iff_mem, List.contains_iff_mem, List.mem_eraseDups]
  -- The properties of the first part are extended, then the fresh ones of the second follow.
  rw [merge, map_property_groups, groups, List.map_append, List.eraseDups_append, List.map_append]
  congr 1
  · have shape : groups color criterion first =
        (first.map keyOf).eraseDups.map (group color criterion first) := rfl
    rw [shape, List.map_map]
    exact List.map_congr_left extended
  · rw [List.removeAll, eraseDups_filter, List.map_congr_left fresh, groups, List.filter_map]
    congr 1
    exact congrArg (fun test => (second.map keyOf).eraseDups.filter test) known.symm

/-! ## Matches on later lines -/

/-- The match on later lines. -/
def downMatch (lines : Nat) (found : Rule × Declaration) : Rule × Declaration :=
  (found.1.down lines, found.2.down lines)

theorem declarations_down (lines : Nat) (rules : List Rule) :
    (Stylesheet.mk (rules.map (Rule.down lines))).declarations =
      (Stylesheet.mk rules).declarations.map (downMatch lines) := by
  simp only [Stylesheet.declarations, List.flatMap_map, List.map_flatMap, List.map_map]
  congr 1
  funext rule
  exact List.map_map

theorem matching_append (first second : List Rule) :
    matching ⟨first ++ second⟩ color criterion =
      matching ⟨first⟩ color criterion ++ matching ⟨second⟩ color criterion := by
  simp only [matching, Stylesheet.declarations, List.flatMap_append, List.filter_append]

theorem matching_down (lines : Nat) (rules : List Rule) :
    matching ⟨rules.map (Rule.down lines)⟩ color criterion =
      (matching ⟨rules⟩ color criterion).map (downMatch lines) := by
  rw [matching, declarations_down, matching, List.filter_map]
  rfl

theorem groups_down (lines : Nat) (found : List (Rule × Declaration)) :
    groups color criterion (found.map (downMatch lines)) = groups color criterion found := by
  have same (key : Text) : group color criterion (found.map (downMatch lines)) key =
      group color criterion found key := by
    have members : membersOf key (found.map (downMatch lines)) =
        (membersOf key found).map (downMatch lines) := by
      rw [membersOf, List.filter_map]
      rfl
    rw [group, members, List.map_map, List.getLast?_map, Option.map_map]
    rfl
  have keys : (found.map (downMatch lines)).map keyOf = found.map keyOf := by
    rw [List.map_map]
    rfl
  rw [groups, keys, groups]
  exact List.map_congr_left fun key _ => same key

/--
When complete items stand before a text, their rules stand before its rules, which are moved down
by their lines, and the palette of both is the merged palette.
-/
theorem concatenation_merges {front back : Text} (complete : Complete front)
    (noReturn : front.getLast? ≠ some '\r') (noMark : back.head? ≠ some '\uFEFF') :
    (Stylesheet.parse (front ++ back)).rules =
        (Stylesheet.parse front).rules ++
          (Stylesheet.parse back).rules.map (Rule.down (lineEnds front)) ∧
      ∀ color criterion, (ofText (front ++ back) color criterion).entries =
        merge (ofText front color criterion).entries (ofText back color criterion).entries := by
  have rules := complete.rules_append noReturn noMark
  refine ⟨rules, fun color criterion => ?_⟩
  have sheet : Stylesheet.parse (front ++ back) = ⟨_⟩ := congrArg Stylesheet.mk rules
  have matches_eq : matching (Stylesheet.parse (front ++ back)) color criterion =
      matching (Stylesheet.parse front) color criterion ++
        (matching (Stylesheet.parse back) color criterion).map (downMatch (lineEnds front)) := by
    rw [sheet, matching_append, matching_down]
  rw [ofText, ofText, ofText, entries_extract, entries_extract, entries_extract, ← groups,
    matches_eq, groups_append, groups_down]
  rfl

/-- A passed-over at-rule and a comment stand before a rule whose property is used again. -/
theorem concatenation_merges_repeated :
    let front := "/**/@x y;.a\x7bcolor:#fff\x7d\n".toList
    let back := "@charset z;.b\x7bcolor:#FFF\x7d".toList
    let color : Color := ⟨"fff".toList, by decide, by decide⟩
    Complete front ∧
      (Stylesheet.parse (front ++ back)).rules =
        (Stylesheet.parse front).rules ++ (Stylesheet.parse back).rules.map (Rule.down 1) ∧
      (ofText (front ++ back) color .exact).entries =
        [⟨"color".toList, [".a".toList, ".b".toList], "#fff".toList⟩] := by
  intro front back color
  have tokens : tokenize 1 (withoutMark front) =
      ⟨.comment, "/**/".toList, 1⟩ ::
        ([⟨.atKeyword, "@x".toList, 1⟩, ⟨.blank, [' '], 1⟩, ⟨.identifier, ['y'], 1⟩,
            ⟨.semicolon, [';'], 1⟩] ++
          ([⟨.delimiter, ['.'], 1⟩, ⟨.identifier, ['a'], 1⟩, ⟨.opening .curly, ['\x7b'], 1⟩,
              ⟨.identifier, "color".toList, 1⟩, ⟨.colon, [':'], 1⟩, ⟨.hash, "#fff".toList, 1⟩,
              ⟨.closing .curly, ['\x7d'], 1⟩] ++
            [⟨.blank, ['\n'], 1⟩])) := by
    decide +kernel
  have atRule : Item [⟨.atKeyword, "@x".toList, 1⟩, ⟨.blank, [' '], 1⟩, ⟨.identifier, ['y'], 1⟩,
      ⟨.semicolon, [';'], 1⟩] :=
    @Item.atRule _ [⟨.blank, [' '], 1⟩, ⟨.identifier, ['y'], 1⟩] _ rfl ⟨rfl, rfl⟩ (.semicolon rfl)
  have styleRule : Item [⟨.delimiter, ['.'], 1⟩, ⟨.identifier, ['a'], 1⟩,
      ⟨.opening .curly, ['\x7b'], 1⟩, ⟨.identifier, "color".toList, 1⟩, ⟨.colon, [':'], 1⟩,
      ⟨.hash, "#fff".toList, 1⟩, ⟨.closing .curly, ['\x7d'], 1⟩] :=
    @Item.styleRule _ ⟨.opening .curly, ['\x7b'], 1⟩
      [⟨.delimiter, ['.'], 1⟩, ⟨.identifier, ['a'], 1⟩]
      [⟨.identifier, "color".toList, 1⟩, ⟨.colon, [':'], 1⟩, ⟨.hash, "#fff".toList, 1⟩] _
      (some ⟨.closing .curly, ['\x7d'], 1⟩) rfl (by decide) ⟨rfl, rfl⟩ (.block rfl ⟨rfl, rfl⟩ rfl) rfl
  have complete : Complete front := by
    rw [Complete, tokens]
    apply Items.idle ⟨rfl, fun _ => ⟨[], rfl⟩⟩
    apply Items.item atRule
    apply Items.item styleRule
    exact .idle ⟨rfl, fun same => absurd same (by decide)⟩ .nil
  have merged := concatenation_merges complete (by decide) (show back.head? ≠ some '\uFEFF' by decide)
  refine ⟨complete, merged.1, ?_⟩
  rw [merged.2]
  decide +kernel

end Palette

end Swatch
