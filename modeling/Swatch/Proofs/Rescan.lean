import Swatch.Proofs.Rerun

/-!
# Scanning what a scan found

A palette can be stated as a style sheet again, without printing it: every entry is a
rule with the selectors of the entry and its value as the only declaration. A scan of
this sheet meets every property once, as a longhand whose value is accepted and
reported unchanged. It finds the entries again, each with its selectors in one line,
and from then on nothing changes any more.
-/

namespace Swatch

open Css

namespace Palette

/-- The rule that an entry stands for. -/
def Entry.stated (entry : Entry) (important : Bool) (line : Nat) : Rule :=
  ⟨entry.selectors, [⟨entry.property, entry.value, important, line⟩]⟩

/--
A style sheet with one rule for each entry. The entries say nothing of marks and lines, so
these are chosen freely.
-/
def stated (palette : Palette) (choice : Entry → Bool × Nat) : Stylesheet :=
  ⟨palette.entries.map fun entry => entry.stated (choice entry).1 (choice entry).2⟩

/-- The entry with all its selectors in one line. -/
def Entry.joined (entry : Entry) : Entry :=
  ⟨entry.property, [join ", ".toList entry.selectors], entry.value⟩

theorem Entry.joined_joined (entry : Entry) : entry.joined.joined = entry.joined := by
  rw [joined, joined, join_singleton]

theorem map_rowOf_stated (palette : Palette) (choice : Entry → Bool × Nat) :
    (palette.stated choice).declarations.map rowOf =
      palette.entries.map fun entry => (entry.selectors, entry.property, entry.value) := by
  rw [Stylesheet.declarations, stated, List.flatMap_map, List.map_flatMap]
  exact List.flatMap_pure_eq_map _ palette.entries

variable {color : Color} {criterion : Criterion}

/-- A scan of a stated palette finds its entries again when each of them would be made again. -/
theorem entries_extract_stated {palette : Palette} (choice : Entry → Bool × Nat)
    (settled : ∀ entry ∈ palette.entries, entry.Settled color criterion) :
    (extract (palette.stated choice) color criterion).entries =
      palette.entries.map Entry.joined := by
  have found := extract_of_distinct (map_rowOf_stated palette choice)
    (List.forall_mem_map.mpr fun entry met => (settled entry met).longhand)
    (List.forall_mem_map.mpr fun entry met => (settled entry met).accepted)
    (by rw [List.map_map]; exact palette.nodup)
  rw [found.1, List.map_map]
  apply List.map_congr_left
  intro entry met
  rw [Function.comp_apply, (settled entry met).resolved, Entry.joined]

/--
A scan of a stated palette keeps its properties, their order and their values and puts the
selectors of each property in one line; a scan of the sheet that states the result changes nothing.
-/
theorem rescan_is_settled (sheet : Stylesheet) (color : Color) (criterion : Criterion)
    (choice later : Entry → Bool × Nat) :
    let palette := extract sheet color criterion
    let again := extract (palette.stated choice) color criterion
    again.entries = palette.entries.map Entry.joined ∧
      extract (again.stated later) color criterion = again := by
  intro palette again
  have first : again.entries = palette.entries.map Entry.joined :=
    entries_extract_stated choice fun _ met => settled_of_mem_extract met
  have second : (extract (again.stated later) color criterion).entries =
      again.entries.map Entry.joined :=
    entries_extract_stated later fun _ met => settled_of_mem_extract met
  refine ⟨first, eq_of_entries_eq ?_⟩
  rw [second, first, List.map_map]
  exact List.map_congr_left fun entry _ => entry.joined_joined

end Palette

end Swatch
