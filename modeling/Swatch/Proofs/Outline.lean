import Swatch.Proofs.Grouping
import Swatch.Proofs.Recase

/-!
# Palettes up to letter case

Whether a value is accepted, and what is reported for it, depends on its letters
only up to their case. So the outline of a palette, which forgets the case of its
values, is determined by what a sheet says up to that case, and no line of the
source has a part in it.
-/

namespace Swatch

open Css

theorem trim_lower (text : Text) : trim (lower text) = lower (trim text) := by
  have same : isWhite ∘ Char.toLower = isWhite := funext isWhite_toLower
  rw [trim, lower, List.dropWhile_map, dropEndWhile_map, same]
  rfl

section LetterCase

variable {left right : Text}

theorem lower_trim_eq (same : lower left = lower right) : lower (trim left) = lower (trim right) := by
  rw [← trim_lower, same, trim_lower]

theorem accepts_exact_hash {value token : Text} (trimmed : trim value = '#' :: token)
    (color : Color) : Criterion.exact.accepts value color = sameLetters token color.token := by
  simp only [Criterion.accepts, trimmed]

theorem accepts_exact_other {value : Text} (trimmed : (trim value).head? ≠ some '#')
    (color : Color) : Criterion.exact.accepts value color = false := by
  simp only [Criterion.accepts]
  split
  · rename_i token same
    rw [same] at trimmed
    exact absurd rfl trimmed
  · rfl

/-- The letters of a value decide whether it is accepted. -/
theorem Criterion.accepts_of_lower_eq (criterion : Criterion) (color : Color)
    (same : lower left = lower right) :
    criterion.accepts left color = criterion.accepts right color := by
  have trimmed := lower_trim_eq same
  cases criterion with
  | substring => rw [accepts, accepts, trimmed]
  | exact =>
    have heads : (trim left).head?.map Char.toLower = (trim right).head?.map Char.toLower := by
      rw [← List.head?_map, ← List.head?_map]
      exact congrArg List.head? trimmed
    have hash := fun c : Char => toLower_eq_iff (show isCaseless '#' = true by rfl) c
    by_cases begins : (trim left).head? = some '#'
    · rcases List.head?_eq_some_iff.mp begins with ⟨token, first⟩
      rw [begins] at heads
      rcases Option.map_eq_some_iff.mp heads.symm with ⟨c, found, low⟩
      rw [show Char.toLower '#' = '#' from rfl, hash] at low
      rcases List.head?_eq_some_iff.mp (low ▸ found) with ⟨other, second⟩
      rw [first, second] at trimmed
      have tokens : lower token = lower other := (List.cons.inj trimmed).2
      rw [accepts_exact_hash first, accepts_exact_hash second, sameLetters, sameLetters, tokens]
    · have other : (trim right).head? ≠ some '#' := by
        intro second
        rw [second] at heads
        rcases Option.map_eq_some_iff.mp heads with ⟨c, found, low⟩
        rw [show Char.toLower '#' = '#' from rfl, hash] at low
        exact begins (low ▸ found)
      rw [accepts_exact_other begins, accepts_exact_other other]

theorem Criterion.lower_resolve (criterion : Criterion) (color : Color) (shorthand : Bool)
    (same : lower left = lower right) :
    lower (criterion.resolve left color shorthand) =
      lower (criterion.resolve right color shorthand) := by
  cases criterion with
  | exact => rfl
  | substring =>
    rw [resolve, resolve]
    split
    · rfl
    · exact lower_trim_eq same

end LetterCase

namespace Palette

/-- An entry up to the case of the letters of its value. -/
def Entry.outline (entry : Entry) : Text × List Text × Text :=
  (entry.property, entry.selectors, lower entry.value)

/-- What a declaration and its rule say, up to the case of the letters of its value. -/
def signature (found : Rule × Declaration) : List Text × Text × Text :=
  (found.1.selectors, found.2.property, lower found.2.value)

variable {color : Color} {criterion : Criterion}

/-- What a match contributes to the outline of a palette. -/
def trace (color : Color) (criterion : Criterion) (found : Rule × Declaration) :
    Text × Text × Text :=
  (keyOf found, found.1.selectorText, lower (valueOf color criterion found))

theorem isMatch_of_signature_eq {found other : Rule × Declaration}
    (same : signature found = signature other) :
    isMatch color criterion found = isMatch color criterion other := by
  simp only [signature, Prod.mk.injEq] at same
  rw [isMatch, isMatch, same.2.1, criterion.accepts_of_lower_eq color same.2.2]

theorem trace_of_signature_eq {found other : Rule × Declaration}
    (same : signature found = signature other) :
    trace color criterion found = trace color criterion other := by
  simp only [signature, Prod.mk.injEq] at same
  rw [trace, trace, keyOf, keyOf, Rule.selectorText, Rule.selectorText, same.1, same.2.1, valueOf,
    valueOf, same.2.1, criterion.lower_resolve color _ same.2.2]

theorem map_trace_filter {found other : List (Rule × Declaration)}
    (same : found.map signature = other.map signature) :
    (found.filter (isMatch color criterion)).map (trace color criterion) =
      (other.filter (isMatch color criterion)).map (trace color criterion) := by
  induction found generalizing other with
  | nil =>
    rw [List.map_nil, eq_comm, List.map_eq_nil_iff] at same
    rw [same]
  | cons first rest ih =>
    cases other with
    | nil => contradiction
    | cons second others =>
      rw [List.map_cons, List.map_cons, List.cons.injEq] at same
      have further := ih same.2
      have matches_same : isMatch color criterion first = isMatch color criterion second :=
        isMatch_of_signature_eq same.1
      by_cases holds : isMatch color criterion first = true
      · rw [List.filter_cons_of_pos holds, List.filter_cons_of_pos (matches_same ▸ holds),
          List.map_cons, List.map_cons, further, trace_of_signature_eq same.1]
      · rw [List.filter_cons_of_neg holds, List.filter_cons_of_neg (matches_same ▸ holds), further]

/-- The outline of a group is a selection from the traces of the matches. -/
theorem outline_group (found : List (Rule × Declaration)) (key : Text) :
    (group color criterion found key).outline =
      let members := (found.map (trace color criterion)).filter fun one => one.1 == key
      (key, members.map (·.2.1), (members.getLast?.map (·.2.2)).getD []) := by
  have members : (found.map (trace color criterion)).filter (fun one => one.1 == key) =
      (membersOf key found).map (trace color criterion) := by
    rw [List.filter_map, membersOf]
    rfl
  simp only [members, List.map_map, List.getLast?_map, Option.map_map]
  rw [Entry.outline, group]
  refine Prod.ext rfl (Prod.ext rfl ?_)
  cases (membersOf key found).getLast? <;> rfl

/-- Sheets that say the same up to letter case give palettes that are the same up to letter case. -/
theorem map_outline_extract {sheet other : Stylesheet}
    (same : sheet.declarations.map signature = other.declarations.map signature)
    (color : Color) (criterion : Criterion) :
    (extract sheet color criterion).entries.map Entry.outline =
      (extract other color criterion).entries.map Entry.outline := by
  have traces : (matching sheet color criterion).map (trace color criterion) =
      (matching other color criterion).map (trace color criterion) := map_trace_filter same
  have keys : (matching sheet color criterion).map keyOf =
      (matching other color criterion).map keyOf := by
    have firsts := congrArg (List.map Prod.fst) traces
    rwa [List.map_map, List.map_map] at firsts
  rw [entries_extract, entries_extract, keys, List.map_map, List.map_map]
  apply List.map_congr_left
  intro key _
  rw [Function.comp_apply, Function.comp_apply, outline_group, outline_group, traces]

end Palette

end Swatch
