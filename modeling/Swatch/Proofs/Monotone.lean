import Swatch.Proofs.Outline
import Mathlib.Data.List.Infix

/-!
# More matches with a looser search

Searching for a part of a color, or for the color anywhere in a value, accepts every
value that the stricter search accepts. Nothing follows for the values that are reported
or for the order of the properties, which later uses decide. But every property of the
stricter search is found again, and its selectors are found among those of the looser
search, in the same order.
-/

namespace Swatch

open Css

/-! ## Parts of a text -/

theorem occursIn_iff_isInfix (part text : Text) : occursIn part text = true ↔ part <:+: text := by
  induction text with
  | nil => simp [occursIn]
  | cons c rest ih =>
    rw [occursIn, Bool.or_eq_true, List.isPrefixOf_iff_prefix, ih, List.infix_cons_iff]

namespace Criterion

/-- A value that is the hash of a color holds the color. -/
theorem accepts_substring_of_exact {value : Text} {color : Color}
    (accepted : Criterion.exact.accepts value color = true) :
    Criterion.substring.accepts value color = true := by
  cases trimmed : trim value with
  | nil =>
    rw [accepts_exact_other (by simp [trimmed])] at accepted
    contradiction
  | cons c token =>
    by_cases hash : c = '#'
    · subst hash
      have letters : lower token = lower color.token := by
        simpa [accepts_exact_hash trimmed, sameLetters] using accepted
      have held : lower color.token <:+: lower (trim value) := by
        rw [trimmed, lower_cons, letters]
        exact List.infix_cons (List.infix_refl _)
      exact (occursIn_iff_isInfix _ _).mpr held
    · rw [accepts_exact_other (by simpa [trimmed] using hash)] at accepted
      contradiction

/-- A value that holds a color holds every part of the color. -/
theorem accepts_substring_of_part {value : Text} {part whole : Color}
    (within : lower part.token <:+: lower whole.token)
    (accepted : Criterion.substring.accepts value whole = true) :
    Criterion.substring.accepts value part = true := by
  simp only [accepts, occursIn_iff_isInfix] at accepted ⊢
  exact within.trans accepted

end Criterion

namespace Palette

/--
Every property of the palette is one of the other palette, where its selectors stand in the
same order, with others among them.
-/
def Within (palette other : Palette) : Prop :=
  ∀ entry ∈ palette.entries, ∃ found, other.get? entry.property = some found ∧
    entry.selectors.Sublist found.selectors

/-- The criterion accepts a value for one color only if the other accepts it for the other color. -/
def Implies (strict loose : Color × Criterion) : Prop :=
  ∀ value, strict.2.accepts value strict.1 = true → loose.2.accepts value loose.1 = true

variable {strict loose : Color × Criterion}

theorem matching_sublist (sheet : Stylesheet) (implies : Implies strict loose) :
    (matching sheet strict.1 strict.2).Sublist (matching sheet loose.1 loose.2) := by
  apply List.monotone_filter_right
  intro found holds
  rw [isMatch, Bool.and_eq_true] at holds ⊢
  exact ⟨holds.1, implies _ holds.2⟩

/-- A search that accepts more finds every property again, with at least the same selectors. -/
theorem within_of_implies (sheet : Stylesheet) (implies : Implies strict loose) :
    Within (extract sheet strict.1 strict.2) (extract sheet loose.1 loose.2) := by
  intro entry met
  have among := matching_sublist sheet implies
  rw [entries_extract] at met
  rcases List.mem_map.mp met with ⟨key, known, rfl⟩
  have still : key ∈ ((matching sheet loose.1 loose.2).map keyOf).eraseDups := by
    rw [List.mem_eraseDups] at known ⊢
    exact (among.map keyOf).subset known
  refine ⟨group loose.1 loose.2 (matching sheet loose.1 loose.2) key, ?_, ?_⟩
  · rw [get?, entries_extract, find?_map_group]
    exact if_pos still
  · exact (among.filter _).map _

/--
The palette of a color that has to be the whole value lies within that of the color anywhere in
the value, and this one within that of any part of the color.
-/
theorem extract_monotone (sheet : Stylesheet) {part whole : Color}
    (within : lower part.token <:+: lower whole.token) :
    Within (extract sheet whole .exact) (extract sheet whole .substring) ∧
      Within (extract sheet whole .substring) (extract sheet part .substring) := by
  have anywhere : Implies (whole, .exact) (whole, .substring) :=
    fun _ => Criterion.accepts_substring_of_exact
  have shorter : Implies (whole, .substring) (part, .substring) :=
    fun _ => Criterion.accepts_substring_of_part within
  exact ⟨within_of_implies sheet anywhere, within_of_implies sheet shorter⟩

/-- The strict search meets the second rule only, and the loose ones meet the properties in turn. -/
theorem extract_monotone_zeros :
    let part : Color := ⟨"0".toList, by decide, by decide⟩
    let whole : Color := ⟨"A00".toList, by decide, by decide⟩
    let sheet : Stylesheet :=
      ⟨[⟨[".a".toList], [⟨"border".toList, "1px #a00".toList, false, 1⟩]⟩,
        ⟨[".b".toList, "p".toList], [⟨"color".toList, "#a00".toList, false, 2⟩,
          ⟨"border-color".toList, "#100".toList, false, 3⟩]⟩]⟩
    lower part.token <:+: lower whole.token ∧
      (Within (extract sheet whole .exact) (extract sheet whole .substring) ∧
        Within (extract sheet whole .substring) (extract sheet part .substring)) ∧
      (extract sheet whole .exact).entries.map Entry.property = ["color".toList] ∧
      (extract sheet part .substring).entries.map Entry.selectors =
        [[".a".toList, ".b, p".toList], [".b, p".toList]] := by
  intro part whole sheet
  have within : lower part.token <:+: lower whole.token := by decide
  exact ⟨within, extract_monotone sheet within, by decide +kernel, by decide +kernel⟩

end Palette

end Swatch
