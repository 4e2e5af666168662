import Swatch.Extraction
import Mathlib.Data.List.Induction
import Mathlib.Data.List.Nodup
import Mathlib.Algebra.BigOperators.Group.List.Basic
import Mathlib.Algebra.GroupWithZero.Nat

/-!
# Palettes are groupings

A palette is built by one scan that changes its entries in place. What the scan
arrives at is described here without any scan: among the declarations that match
a color, those of one property form a group; the groups stand in the order in
which their properties first occur, a group holds the selectors of all its
members, and the last member decides the value.

The invariant of the scan is `extend_map_group`: recording one more use turns
the groups of the uses so far into the groups of these uses and the new one.
-/

namespace Swatch

open Css

namespace Palette

/-- Does the declaration of a rule use the color? -/
def isMatch (color : Color) (criterion : Criterion) (found : Rule × Declaration) : Bool :=
  Property.carriesColor found.2.property && criterion.accepts found.2.value color

/-- The declarations that use a color, with their rules, in the order of the source. -/
def matching (sheet : Stylesheet) (color : Color) (criterion : Criterion) :
    List (Rule × Declaration) :=
  sheet.declarations.filter (isMatch color criterion)

/-- The property that the color of a declaration belongs to. -/
def keyOf (found : Rule × Declaration) : Text :=
  (Property.longhand? found.2.property).getD []

/-- The value that a match reports. -/
def valueOf (color : Color) (criterion : Criterion) (found : Rule × Declaration) : Text :=
  criterion.resolve found.2.value color (Property.isShorthand found.2.property)

/-- The matches of one property. -/
def membersOf (key : Text) (found : List (Rule × Declaration)) : List (Rule × Declaration) :=
  found.filter fun member => keyOf member == key

/-- The entry that the matches of one property make up: the last of them decides the value. -/
def group (color : Color) (criterion : Criterion) (found : List (Rule × Declaration))
    (key : Text) : Entry :=
  { property := key
    selectors := (membersOf key found).map fun member => member.1.selectorText
    value := ((membersOf key found).getLast?.map (valueOf color criterion)).getD [] }

variable {color : Color} {criterion : Criterion}

theorem nodup_eraseDups (keys : List Text) : keys.eraseDups.Nodup := by
  induction keys using List.reverseRecOn with
  | nil => exact List.nodup_nil
  | append_singleton keys key ih =>
    rw [List.eraseDups_append]
    by_cases known : key ∈ keys
    · simpa [List.removeAll, known] using ih
    · simpa [List.removeAll, known, List.eraseDups_cons, List.nodup_append] using
        ⟨ih, fun other met same => known (same ▸ met)⟩

theorem eraseDups_concat (keys : List Text) (key : Text) :
    (keys ++ [key]).eraseDups =
      if key ∈ keys then keys.eraseDups else keys.eraseDups ++ [key] := by
  rw [List.eraseDups_append]
  by_cases known : key ∈ keys <;> simp [List.removeAll, known, List.eraseDups_cons]

/-- Extending a list of entries that is indexed by distinct properties changes one index only. -/
theorem extend_map (entryOf : Text → Entry) (named : ∀ key, (entryOf key).property = key)
    (property selector value : Text) {keys : List Text} (distinct : keys.Nodup) :
    extend property selector value (keys.map entryOf) =
      if property ∈ keys then
        keys.map fun key =>
          if key = property then ⟨property, (entryOf key).selectors ++ [selector], value⟩
          else entryOf key
      else keys.map entryOf ++ [⟨property, [selector], value⟩] := by
  induction keys with
  | nil => simp [extend]
  | cons key keys ih =>
    rw [List.nodup_cons] at distinct
    by_cases same : key = property
    · subst same
      have others : keys.map (fun other =>
          if other = key then ⟨key, (entryOf other).selectors ++ [selector], value⟩
          else entryOf other) = keys.map entryOf := by
        apply List.map_congr_left
        intro other met
        have : other ≠ key := fun equal => distinct.1 (equal ▸ met)
        simp [this]
      simp [extend, named, others]
    · simp only [List.map_cons, extend, named, same, ↓reduceIte, ih distinct.2, List.mem_cons,
        Ne.symm same, false_or]
      split <;> simp

theorem membersOf_concat_self (found : List (Rule × Declaration)) (member : Rule × Declaration) :
    membersOf (keyOf member) (found ++ [member]) = membersOf (keyOf member) found ++ [member] := by
  simp [membersOf]

theorem membersOf_concat_of_ne (found : List (Rule × Declaration)) {member : Rule × Declaration}
    {key : Text} (other : key ≠ keyOf member) :
    membersOf key (found ++ [member]) = membersOf key found := by
  simp [membersOf, Ne.symm other]

theorem membersOf_eq_nil {found : List (Rule × Declaration)} {key : Text}
    (absent : key ∉ found.map keyOf) : membersOf key found = [] := by
  rw [membersOf, List.filter_eq_nil_iff]
  intro member met same
  exact absent (List.mem_map.mpr ⟨member, met, beq_iff_eq.mp same⟩)

/-- One more use turns the groups of the uses so far into the groups with the new use. -/
theorem extend_map_group (found : List (Rule × Declaration)) (member : Rule × Declaration) :
    extend (keyOf member) member.1.selectorText (valueOf color criterion member)
        ((found.map keyOf).eraseDups.map (group color criterion found)) =
      ((found ++ [member]).map keyOf).eraseDups.map (group color criterion (found ++ [member])) := by
  have changed : group color criterion (found ++ [member]) (keyOf member) =
      ⟨keyOf member, (group color criterion found (keyOf member)).selectors ++
        [member.1.selectorText], valueOf color criterion member⟩ := by
    simp [group, membersOf_concat_self]
  have unchanged : ∀ key, key ≠ keyOf member →
      group color criterion (found ++ [member]) key = group color criterion found key := by
    intro key other
    simp [group, membersOf_concat_of_ne found other]
  rw [extend_map _ (fun _ => rfl) _ _ _ (nodup_eraseDups _), List.map_append, List.map_singleton,
    eraseDups_concat]
  simp only [List.mem_eraseDups]
  by_cases known : keyOf member ∈ found.map keyOf
  · rw [if_pos known, if_pos known]
    apply List.map_congr_left
    intro key _
    by_cases same : key = keyOf member
    · rw [if_pos same, same, changed]
    · rw [if_neg same, unchanged key same]
  · rw [if_neg known, if_neg known, List.map_append, List.map_singleton]
    have others : (found.map keyOf).eraseDups.map (group color criterion (found ++ [member])) =
        (found.map keyOf).eraseDups.map (group color criterion found) := by
      apply List.map_congr_left
      intro key met
      exact unchanged key fun same => known (same ▸ List.mem_eraseDups.mp met)
    have first : group color criterion (found ++ [member]) (keyOf member) =
        ⟨keyOf member, [member.1.selectorText], valueOf color criterion member⟩ := by
      rw [changed]
      simp [group, membersOf_eq_nil known]
    rw [others, first]

/-- What the palette records of a match. -/
theorem use_of_match {rule : Rule} {declaration : Declaration}
    (holds : isMatch color criterion (rule, declaration) = true) :
    Use.of? color criterion rule declaration =
      some ⟨declaration, rule.selectorText, keyOf (rule, declaration),
        valueOf color criterion (rule, declaration)⟩ := by
  unfold isMatch Property.carriesColor at holds
  rw [Bool.and_eq_true] at holds
  obtain ⟨longhand, found⟩ := Option.isSome_iff_exists.mp holds.1
  simp [Use.of?, found, holds.2, keyOf, valueOf]

theorem use_of_not_match {rule : Rule} {declaration : Declaration}
    (fails : isMatch color criterion (rule, declaration) = false) :
    Use.of? color criterion rule declaration = none := by
  unfold isMatch Property.carriesColor at fails
  unfold Use.of?
  split
  · rfl
  · rename_i longhand found
    have refused : criterion.accepts declaration.value color = false := by simpa [found] using fails
    simp [refused]

theorem usesOf_eq_map_matching (sheet : Stylesheet) :
    usesOf sheet color criterion =
      (matching sheet color criterion).map fun found =>
        ⟨found.2, found.1.selectorText, keyOf found, valueOf color criterion found⟩ := by
  unfold usesOf matching
  induction sheet.declarations with
  | nil => rfl
  | cons found rest ih =>
    rcases found with ⟨rule, declaration⟩
    cases counted : isMatch color criterion (rule, declaration) with
    | true => simp [counted, use_of_match counted, ih]
    | false => simp [counted, use_of_not_match counted, ih]

theorem recordAll_append (palette : Palette) (first second : List Use) :
    palette.recordAll (first ++ second) = (palette.recordAll first).recordAll second :=
  List.foldl_append

/-- The invariant of the scan, for any list of matches. -/
theorem entries_recordAll_matches (found : List (Rule × Declaration)) :
    (empty.recordAll (found.map fun member =>
        ⟨member.2, member.1.selectorText, keyOf member, valueOf color criterion member⟩)).entries =
      (found.map keyOf).eraseDups.map (group color criterion found) := by
  induction found using List.reverseRecOn with
  | nil => rfl
  | append_singleton found member ih =>
    rw [List.map_append, recordAll_append, ← extend_map_group, ← ih]
    rfl

/-- A palette is the grouping of the matches of its color. -/
theorem entries_extract (sheet : Stylesheet) (color : Color) (criterion : Criterion) :
    (extract sheet color criterion).entries =
      ((matching sheet color criterion).map keyOf).eraseDups.map
        (group color criterion (matching sheet color criterion)) := by
  rw [extract, usesOf_eq_map_matching]
  exact entries_recordAll_matches (matching sheet color criterion)

/-! ## Properties that are used once -/

/-- What a declaration and its rule say: selectors, property and value. -/
def rowOf (found : Rule × Declaration) : List Text × Text × Text :=
  (found.1.selectors, found.2.property, found.2.value)

/-- The selectors of the rules that a property is collected from, rule by rule. -/
def collected (sheet : Stylesheet) (color : Color) (criterion : Criterion) (property : Text) :
    List (List Text) :=
  (membersOf property (matching sheet color criterion)).map fun member => member.1.selectors

theorem membersOf_of_distinct {found : List (Rule × Declaration)}
    (distinct : (found.map keyOf).Nodup) {member : Rule × Declaration} (met : member ∈ found) :
    membersOf (keyOf member) found = [member] := by
  induction found with
  | nil => contradiction
  | cons first rest ih =>
    rw [List.map_cons, List.nodup_cons] at distinct
    rcases List.mem_cons.mp met with rfl | later
    · have others := membersOf_eq_nil distinct.1
      rw [membersOf] at others
      rw [membersOf, List.filter_cons_of_pos (by simp), others]
    · have other : keyOf first ≠ keyOf member := by
        intro same
        exact distinct.1 (same ▸ List.mem_map_of_mem later)
      have single := ih distinct.2 later
      rw [membersOf] at single
      rw [membersOf, List.filter_cons_of_neg (by simpa using other), single]

theorem eraseDups_of_nodup {keys : List Text} (distinct : keys.Nodup) : keys.eraseDups = keys := by
  induction keys using List.reverseRecOn with
  | nil => rfl
  | append_singleton keys key ih =>
    rw [List.nodup_append] at distinct
    have fresh : key ∉ keys := fun met => distinct.2.2 key met key List.mem_cons_self rfl
    rw [eraseDups_concat, if_neg fresh, ih distinct.1]

/-- When every declaration uses the color and no property is used twice, each use is an entry. -/
theorem extract_of_distinct {sheet : Stylesheet} {rows : List (List Text × Text × Text)}
    (given : sheet.declarations.map rowOf = rows)
    (longhands : ∀ row ∈ rows, Property.longhand? row.2.1 = some row.2.1)
    (accepted : ∀ row ∈ rows, criterion.accepts row.2.2 color = true)
    (distinct : (rows.map fun row => row.2.1).Nodup) :
    (extract sheet color criterion).entries =
        rows.map (fun row =>
          ⟨row.2.1, [join ", ".toList row.1], criterion.resolve row.2.2 color false⟩) ∧
      ∀ row ∈ rows, collected sheet color criterion row.2.1 = [row.1] := by
  subst given
  have whole (found : Rule × Declaration) (met : found ∈ sheet.declarations) :
      Property.longhand? found.2.property = some found.2.property ∧
        criterion.accepts found.2.value color = true :=
    ⟨longhands _ (List.mem_map_of_mem met), accepted _ (List.mem_map_of_mem met)⟩
  have key (found : Rule × Declaration) (met : found ∈ sheet.declarations) :
      keyOf found = found.2.property := by
    rw [keyOf, (whole found met).1, Option.getD_some]
  have all : matching sheet color criterion = sheet.declarations := by
    apply List.filter_eq_self.mpr
    intro found met
    rw [isMatch, Property.carriesColor, (whole found met).1, (whole found met).2]
    rfl
  have keys : sheet.declarations.map keyOf = sheet.declarations.map fun found => found.2.property :=
    List.map_congr_left key
  rw [List.map_map] at distinct
  have once : (sheet.declarations.map keyOf).Nodup := keys ▸ distinct
  refine ⟨?_, ?_⟩
  · rw [entries_extract, all, eraseDups_of_nodup once, List.map_map, List.map_map]
    apply List.map_congr_left
    intro found met
    have longhand : Property.isShorthand found.2.property = false := by
      rw [Property.isShorthand, (whole found met).1]
      exact bne_self_eq_false _
    rw [Function.comp_apply, group, membersOf_of_distinct once met, key found met]
    simp [rowOf, valueOf, longhand, Rule.selectorText]
  · intro row met
    rcases List.mem_map.mp met with ⟨found, among, rfl⟩
    have single := membersOf_of_distinct once among
    rw [key found among] at single
    rw [collected, all, rowOf, single]
    rfl

theorem find?_map_group (found : List (Rule × Declaration)) (keys : List Text) (property : Text) :
    (keys.map (group color criterion found)).find? (fun entry => entry.property == property) =
      if property ∈ keys then some (group color criterion found property) else none := by
  induction keys with
  | nil => rfl
  | cons key keys ih =>
    by_cases same : key = property
    · subst same
      simp [group]
    · have named : ((group color criterion found key).property == property) = false := by
        simpa [group] using same
      simp [named, ih, Ne.symm same]

/-- Every match belongs to exactly one of the groups. -/
theorem sum_membersOf_length (found : List (Rule × Declaration)) {keys : List Text}
    (distinct : keys.Nodup) (covered : ∀ member ∈ found, keyOf member ∈ keys) :
    (keys.map fun key => (membersOf key found).length).sum = found.length := by
  induction found with
  | nil => simp [membersOf]
  | cons member found ih =>
    have step : ∀ key, (membersOf key (member :: found)).length =
        (membersOf key found).length + if key = keyOf member then 1 else 0 := by
      intro key
      by_cases same : key = keyOf member
      · simp [membersOf, same]
      · simp [membersOf, same, Ne.symm same]
    have once : (keys.map fun key => if key = keyOf member then 1 else 0).sum = 1 := by
      rw [List.sum_map_ite]
      simpa [← List.countP_eq_length_filter, List.count, beq_eq_decide] using
        List.count_eq_one_of_mem distinct (covered member (by simp))
    simp only [step, List.sum_map_add, once]
    rw [ih fun other met => covered other (List.mem_cons_of_mem _ met), List.length_cons]

/--
The palette of a color in a style sheet is the grouping of its matches, and looking up a
property, counting and summing over the entries all agree with that grouping.
-/
theorem extract_is_grouping (sheet : Stylesheet) (color : Color) (criterion : Criterion) :
    let found := matching sheet color criterion
    let keys := (found.map keyOf).eraseDups
    let palette := extract sheet color criterion
    palette.entries = keys.map (group color criterion found) ∧
      palette.size = keys.length ∧
      (∀ property, palette.get? property =
        if property ∈ keys then some (group color criterion found property) else none) ∧
      (palette.entries.map fun entry => entry.selectors.length).sum = found.length := by
  intro found keys palette
  have entries : palette.entries = keys.map (group color criterion found) :=
    entries_extract sheet color criterion
  refine ⟨entries, ?_, ?_, ?_⟩
  · simp [size, entries]
  · intro property
    rw [get?, entries]
    exact find?_map_group found keys property
  · have members : (fun key => (group color criterion found key).selectors.length) =
        fun key => (membersOf key found).length := by
      funext key
      simp [group]
    rw [entries, List.map_map]
    refine (congrArg (fun count => (keys.map count).sum) members).trans ?_
    apply sum_membersOf_length found (nodup_eraseDups _)
    intro member met
    exact List.mem_eraseDups.mpr (List.mem_map_of_mem met)

end Palette

end Swatch
