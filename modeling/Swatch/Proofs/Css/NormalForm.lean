import Swatch.Proofs.Css.Characters
import Swatch.Proofs.Css.Cleaned

/-!
# Cleaned text is clean

A cleaned text has the atoms of the text it comes from, with at most one space
between two of them. Reading it again finds the same atoms: a string that is closed
is closed at the same quote, one that is not closed is the last atom, and a slash
never comes to stand before a star, because whatever was dropped between them left a
space. So cleaning a second time changes nothing.
-/

namespace Swatch.Css

theorem head?_cleanAtoms (text : Text) : (cleanAtoms text).head? = text.head? := by
  cases text with
  | nil => rw [cleanAtoms]
  | cons first rest =>
    rw [cleanAtoms]
    rfl

theorem cleanAtoms_eq_nil {text : Text} : cleanAtoms text = [] ↔ text = [] := by
  rw [← List.head?_eq_none_iff, head?_cleanAtoms, List.head?_eq_none_iff]

/-- A string that is closed before the end is closed there whatever follows it. -/
theorem quotedLength_take {quote : Char} (isQuote : isQuote quote = true) {text : Text}
    (closed : text.drop (quotedLength quote text) ≠ []) (tail : Text) :
    quotedLength quote (text.take (quotedLength quote text) ++ tail) = quotedLength quote text := by
  fun_induction quotedLength quote text with
  | case1 => contradiction
  | case2 c rest ih =>
    rw [Nat.add_comm, List.drop_succ_cons, List.drop_succ_cons] at closed
    rw [Nat.add_comm, List.take_succ_cons, List.take_succ_cons, List.cons_append, List.cons_append,
      quotedLength, ih closed, Nat.add_comm]
  | case3 c rest noEscape closes =>
    have other : c ≠ '\\' := by
      rw [beq_iff_eq] at closes
      exact closes ▸ ne_of_class isQuote (by decide)
    rw [List.take_succ_cons, List.take_zero, List.cons_append, quotedLength_cons, if_pos closes]
    exact fun _ _ slash _ => other slash
  | case4 c rest noEscape stays ih =>
    rw [Nat.add_comm, List.drop_succ_cons] at closed
    rw [Nat.add_comm, List.take_succ_cons, List.cons_append, quotedLength_cons, if_neg stays,
      ih closed, Nat.add_comm]
    intro d more slash _
    cases rest with
    | nil => exact closed (List.drop_nil)
    | cons e others => exact noEscape e others slash rfl

theorem atomTailLength_le (first : Char) (rest : Text) : atomTailLength first rest ≤ rest.length := by
  unfold atomTailLength
  split
  · exact quotedLength_le first rest
  · split
    · exact Nat.min_le_right _ _
    · exact Nat.zero_le _

/-- An atom is the same atom in its cleaned place. -/
theorem atomTailLength_take {first : Char} {rest tail : Text}
    (last : rest.drop (atomTailLength first rest) = [] → tail = []) :
    atomTailLength first (rest.take (atomTailLength first rest) ++ tail) =
      atomTailLength first rest := by
  by_cases ends : rest.drop (atomTailLength first rest) = []
  · rw [last ends, List.append_nil, List.take_of_length_le (List.drop_eq_nil_iff.mp ends)]
  · unfold atomTailLength at ends ⊢
    split
    · rename_i quote
      rw [if_pos quote] at ends
      exact quotedLength_take quote ends tail
    · split
      · cases rest with
        | nil => exact absurd List.drop_nil ends
        | cons c others => simp
      · rfl

theorem cleanAtoms_cons (first : Char) (rest : Text) :
    cleanAtoms (first :: rest) =
      first :: (rest.take (atomTailLength first rest) ++
        afterAtom (rest.drop (atomTailLength first rest))) := by
  rw [cleanAtoms, afterAtom, List.append_assoc]
  rfl

theorem afterAtom_nil : afterAtom [] = [] := by
  rw [afterAtom, skipGap, cleanAtoms]
  rfl

/-- No star comes to the front of what follows an atom. -/
theorem head?_afterAtom {rest : Text} (noStar : rest.head? ≠ some '*') :
    (afterAtom rest).head? ≠ some '*' := by
  unfold afterAtom
  split
  · rename_i plain
    rw [List.nil_append, head?_cleanAtoms]
    rcases plain with atom | ends
    · rwa [skipGap_of_gapLength_eq_zero atom]
    · rw [ends]
      decide
  · rw [List.cons_append, List.head?_cons]
    decide

/-- A cleaned text begins with no gap. -/
theorem gapLength_cleanAtoms {text : Text} (atom : gapLength text = 0) :
    gapLength (cleanAtoms text) = 0 := by
  cases text with
  | nil =>
    rw [cleanAtoms]
    rfl
  | cons first rest =>
    rcases gapLength_eq_zero_iff.mp atom with ⟨notWhite, noMark⟩
    rw [cleanAtoms_cons, gapLength_eq_zero_iff]
    refine ⟨notWhite, fun slash => ?_⟩
    have alone : atomTailLength first rest = 0 := by
      rw [slash]
      rfl
    rw [alone]
    exact head?_afterAtom (noMark slash)

/-- What follows an atom is clean when its own atoms are. -/
theorem afterAtom_afterAtom {rest : Text}
    (later : cleanAtoms (cleanAtoms (skipGap rest)) = cleanAtoms (skipGap rest)) :
    afterAtom (afterAtom rest) = afterAtom rest := by
  have atom : gapLength (cleanAtoms (skipGap rest)) = 0 :=
    gapLength_cleanAtoms (gapLength_skipGap rest)
  have same : skipGap (cleanAtoms (skipGap rest)) = cleanAtoms (skipGap rest) :=
    skipGap_of_gapLength_eq_zero atom
  by_cases plain : gapLength rest = 0 ∨ skipGap rest = []
  · have shape : afterAtom rest = cleanAtoms (skipGap rest) := by
      rw [afterAtom, if_pos plain, List.nil_append]
    rw [shape, afterAtom, if_pos (.inl atom), same, later, List.nil_append]
  · have shape : afterAtom rest = ' ' :: cleanAtoms (skipGap rest) := by
      rw [afterAtom, if_neg plain]
      rfl
    have further : ¬(gapLength (' ' :: cleanAtoms (skipGap rest)) = 0 ∨
        cleanAtoms (skipGap rest) = []) := by
      rw [not_or, gapLength_of_white rfl, cleanAtoms_eq_nil]
      exact ⟨Nat.one_ne_zero, fun ends => plain (.inr ends)⟩
    rw [shape, afterAtom, skipGap_of_white rfl, same, if_neg further, later]
    rfl

theorem cleanAtoms_cleanAtoms (text : Text) : cleanAtoms (cleanAtoms text) = cleanAtoms text := by
  fun_induction cleanAtoms text with
  | case1 => rw [cleanAtoms]
  | case2 first rest tail more next space later =>
    have shape : first :: rest.take tail ++ space ++ cleanAtoms next =
        first :: (rest.take tail ++ afterAtom more) := by
      rw [List.append_assoc]
      rfl
    have size : (rest.take tail).length = tail :=
      List.length_take_of_le (atomTailLength_le first rest)
    -- A gap behind a slash leaves a space or no star, so no comment begins with the atom.
    have sameTail : atomTailLength first (rest.take tail ++ afterAtom more) = tail := by
      apply atomTailLength_take
      intro ends
      rw [show more = [] from ends, afterAtom_nil]
    rw [shape, cleanAtoms_cons, sameTail, List.take_left' size, List.drop_left' size,
      afterAtom_afterAtom later]

/-- Cleaning a cleaned text changes nothing. -/
theorem clean_clean (text : Text) : clean (clean text) = clean text := by
  have atom := gapLength_cleanAtoms (gapLength_skipGap text)
  unfold clean
  rw [skipGap_of_gapLength_eq_zero atom, cleanAtoms_cleanAtoms]

end Swatch.Css
