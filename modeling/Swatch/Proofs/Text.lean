import Swatch.Text
import Mathlib.Data.List.DropRight

/-!
# Lemmas on lists of characters

Joining pieces and dropping from the end, step by step, and what trimming leaves.
-/

namespace Swatch

@[simp]
theorem join_nil (separator : Text) : join separator [] = [] := rfl

@[simp]
theorem join_singleton (separator piece : Text) : join separator [piece] = piece :=
  List.intercalate_singleton

theorem join_cons_cons (separator piece next : Text) (rest : List Text) :
    join separator (piece :: next :: rest) = piece ++ (separator ++ join separator (next :: rest)) := by
  rw [join, join, List.intercalate_cons_cons, List.append_assoc]

theorem join_cons_append (separator front piece : Text) (rest : List Text) :
    join separator ((front ++ piece) :: rest) = front ++ join separator (piece :: rest) := by
  cases rest with
  | nil => rw [join_singleton, join_singleton]
  | cons next others => rw [join_cons_cons, join_cons_cons, List.append_assoc]

theorem head?_join_cons (separator rest behind : Text) (c : Char) (others : List Text) :
    (join separator ((c :: rest) :: others) ++ behind).head? = some c := by
  cases others with
  | nil => rw [join_singleton]; rfl
  | cons next others => rw [join_cons_cons]; rfl

theorem dropEndWhile_map {α β : Type} (test : β → Bool) (f : α → β) (items : List α) :
    dropEndWhile test (items.map f) = (dropEndWhile (test ∘ f) items).map f := by
  simp [dropEndWhile, ← List.map_reverse, List.dropWhile_map]

theorem dropEndWhile_append {α : Type} {test : α → Bool} {items dropped : List α}
    (all : ∀ item ∈ dropped, test item = true) :
    dropEndWhile test (items ++ dropped) = dropEndWhile test items := by
  have reversed : ∀ item ∈ dropped.reverse, test item = true := fun item met =>
    all item (List.mem_reverse.mp met)
  rw [dropEndWhile, List.reverse_append, List.dropWhile_append_of_pos reversed, dropEndWhile]

theorem dropEndWhile_concat {α : Type} {test : α → Bool} {last : α} (stays : test last = false)
    (items : List α) : dropEndWhile test (items ++ [last]) = items ++ [last] := by
  rw [dropEndWhile, List.reverse_append, List.reverse_singleton, List.singleton_append,
    List.dropWhile_cons_of_neg (by rw [stays]; decide), List.reverse_cons, List.reverse_reverse]

theorem dropEndWhile_cons {α : Type} (test : α → Bool) (item : α) (items : List α) :
    dropEndWhile test (item :: items) =
      if (dropEndWhile test items).isEmpty && test item then []
      else item :: dropEndWhile test items := by
  rw [dropEndWhile, dropEndWhile, List.reverse_cons, List.dropWhile_append, List.isEmpty_reverse]
  cases left : items.reverse.dropWhile test with
  | nil => cases holds : test item <;> simp [holds]
  | cons last others => simp

/-! ## Trimmed text -/

/-- What is trimmed off is white space in front and behind. -/
theorem trim_parts (text : Text) :
    ∃ front back, text = front ++ (trim text ++ back) ∧ (∀ c ∈ front, isWhite c = true) ∧
      ∀ c ∈ back, isWhite c = true := by
  refine ⟨text.takeWhile isWhite, (text.dropWhile isWhite).rtakeWhile isWhite, ?_,
    fun c met => List.mem_takeWhile_imp met, fun c met => List.mem_rtakeWhile_imp met⟩
  have back : trim text ++ (text.dropWhile isWhite).rtakeWhile isWhite = text.dropWhile isWhite :=
    List.rdropWhile_append_rtakeWhile
  rw [back, List.takeWhile_append_dropWhile]

theorem trim_append_white {text white : Text} (each : ∀ c ∈ white, isWhite c = true) :
    trim (text ++ white) = trim text := by
  rw [trim, trim, List.dropWhile_append]
  split
  · rename_i nothing
    rw [List.isEmpty_iff] at nothing
    rw [nothing, List.dropWhile_eq_nil_iff.mpr each]
  · exact dropEndWhile_append each

theorem trim_trim (text : Text) : trim (trim text) = trim text := by
  have front : (trim text).dropWhile isWhite = trim text := by
    cases trimmed : trim text with
    | nil => rfl
    | cons c rest =>
      have inside : c :: rest <+: text.dropWhile isWhite := trimmed ▸ List.rdropWhile_prefix _ _
      rcases inside with ⟨behind, whole⟩
      have outside := List.head?_dropWhile_not isWhite text
      rw [← whole] at outside
      exact List.dropWhile_cons_of_neg (by simpa using outside)
  have back : dropEndWhile isWhite (trim text) = trim text := List.rdropWhile_idempotent _ _
  rw [trim, front, back]

theorem trim_of_seen {text : Text} (seen : ∀ c ∈ text, isWhite c = false) : trim text = text := by
  rcases trim_parts text with ⟨front, back, parts, before, behind⟩
  have none {part : Text} (inside : ∀ c ∈ part, c ∈ text) (white : ∀ c ∈ part, isWhite c = true) :
      part = [] := by
    apply List.eq_nil_iff_forall_not_mem.mpr
    intro c met
    have notWhite := seen c (inside c met)
    rw [white c met] at notWhite
    contradiction
  have noFront : front = [] := none (fun c met => by rw [parts]; simp [met]) before
  have noBack : back = [] := none (fun c met => by rw [parts]; simp [met]) behind
  rw [noFront, noBack, List.append_nil, List.nil_append] at parts
  exact parts.symm

theorem trim_eq_self_of_length {text : Text} (same : (trim text).length = text.length) :
    trim text = text := by
  rcases trim_parts text with ⟨front, back, parts, -, -⟩
  have lengths := congrArg List.length parts
  rw [List.length_append, List.length_append] at lengths
  rw [List.eq_nil_of_length_eq_zero (show front.length = 0 by omega),
    List.eq_nil_of_length_eq_zero (show back.length = 0 by omega), List.append_nil,
    List.nil_append] at parts
  exact parts.symm

end Swatch
