import Swatch.Css.Cleaning
import Swatch.Proofs.Css.Characters

/-!
# What cleaning does to a text

Cleaning drops white space and comments and adds nothing but the spaces that
stand for them. A cleaned text therefore begins with an atom, is never longer
than the text it comes from, and does not depend on white space at the front.
-/

namespace Swatch.Css

/-- A backslash hides the character after it, if there is one. -/
theorem quotedLength_cons (quote c : Char) (rest : Text)
    (plain : ∀ d more, c = '\\' → rest = d :: more → False) :
    quotedLength quote (c :: rest) = if c == quote then 1 else 1 + quotedLength quote rest := by
  rw [quotedLength]
  exact plain

theorem quotedLength_le (quote : Char) (text : Text) : quotedLength quote text ≤ text.length := by
  fun_induction quotedLength quote text with
  | case1 => exact Nat.le_refl 0
  | case2 d rest ih =>
    rw [List.length_cons, List.length_cons]
    omega
  | case3 c rest plain ends => exact Nat.succ_le_succ (Nat.zero_le _)
  | case4 c rest plain goesOn ih =>
    rw [List.length_cons]
    omega

theorem skipGap_of_gapLength_eq_zero {text : Text} (atom : gapLength text = 0) :
    skipGap text = text := by
  cases text with
  | nil => rw [skipGap]
  | cons c rest =>
    rw [skipGap]
    simp only [atom]

theorem gapLength_skipGap (text : Text) : gapLength (skipGap text) = 0 := by
  fun_induction skipGap text with
  | case1 => rfl
  | case2 c rest atom => exact atom
  | case3 c rest further gap ih => exact ih

theorem gapLength_comment (rest : Text) :
    gapLength ('/' :: '*' :: rest) = 2 + commentTailLength rest := rfl

theorem gapLength_of_noMark {c : Char} {rest : Text} (noMark : c = '/' → rest.head? ≠ some '*') :
    gapLength (c :: rest) = if isWhite c = true then 1 else 0 := by
  unfold gapLength
  split
  · rename_i same
    rcases List.cons.inj same with ⟨slash, rfl⟩
    exact absurd rfl (noMark slash)
  · rename_i same
    rw [(List.cons.inj same).1]
  · contradiction

theorem gapLength_of_white {c : Char} (white : isWhite c = true) (rest : Text) :
    gapLength (c :: rest) = 1 := by
  rw [gapLength_of_noMark (by rintro rfl; contradiction), if_pos white]

/-- A text begins with an atom unless white space or the mark of a comment stands there. -/
theorem gapLength_eq_zero_iff {c : Char} {rest : Text} :
    gapLength (c :: rest) = 0 ↔ isWhite c = false ∧ (c = '/' → rest.head? ≠ some '*') := by
  by_cases mark : c = '/' → rest.head? ≠ some '*'
  · rw [gapLength_of_noMark mark]
    cases isWhite c with
    | false => exact iff_of_true rfl ⟨rfl, mark⟩
    | true => exact iff_of_false Nat.one_ne_zero fun both => absurd both.1.symm Bool.false_ne_true
  · rw [Classical.not_imp, not_not] at mark
    rcases mark with ⟨rfl, star⟩
    rcases List.head?_eq_some_iff.mp star with ⟨more, rfl⟩
    rw [gapLength_comment]
    simp

theorem isWhite_of_gapLength {c : Char} {rest : Text} (atom : gapLength (c :: rest) = 0) :
    isWhite c = false :=
  (gapLength_eq_zero_iff.mp atom).1

theorem skipGap_of_white {c : Char} (white : isWhite c = true) (rest : Text) :
    skipGap (c :: rest) = skipGap rest := by
  rw [skipGap]
  simp [gapLength_of_white white]

theorem skipGap_append_of_white {lead : Text} (white : ∀ c ∈ lead, isWhite c = true) (text : Text) :
    skipGap (lead ++ text) = skipGap text := by
  induction lead with
  | nil => rfl
  | cons c rest ih =>
    rw [List.cons_append, skipGap_of_white (white c List.mem_cons_self)]
    exact ih fun other met => white other (List.mem_cons_of_mem _ met)

/-- White space in front of a text does not show in its cleaned form. -/
theorem clean_append_of_white {lead : Text} (white : ∀ c ∈ lead, isWhite c = true) (text : Text) :
    clean (lead ++ text) = clean text := by
  rw [clean, skipGap_append_of_white white, clean]

/-- A cleaned text begins with an atom. -/
theorem isWhite_of_clean {text rest : Text} {c : Char} (cleaned : clean text = c :: rest) :
    isWhite c = false := by
  have atom := gapLength_skipGap text
  rw [clean] at cleaned
  cases found : skipGap text with
  | nil =>
    rw [found, cleanAtoms] at cleaned
    contradiction
  | cons first more =>
    rw [found] at atom
    rw [found, cleanAtoms, List.append_assoc, List.cons_append] at cleaned
    rw [← (List.cons.inj cleaned).1]
    exact isWhite_of_gapLength atom

/-! ## Words -/

/-- Is the character an atom by itself, whatever stands around it? -/
def isAtom (c : Char) : Bool :=
  !isQuote c && c != '\\' && c != '/' && !isWhite c

theorem isAtom_iff (c : Char) :
    isAtom c = true ↔ ¬isQuote c = true ∧ c.toNat ≠ 92 ∧ c.toNat ≠ 47 ∧ ¬isWhite c = true := by
  simp only [isAtom, Bool.and_eq_true, Bool.not_eq_true', bne_iff_ne, ne_eq, eq_iff_toNat,
    Bool.not_eq_true]
  simp only [Char.reduceToNat, and_assoc]

theorem isQuote_of_atom {c : Char} (atom : isAtom c = true) : isQuote c = false :=
  Bool.eq_false_iff.mpr ((isAtom_iff c).mp atom).1

theorem isWhite_of_atom {c : Char} (atom : isAtom c = true) : isWhite c = false :=
  Bool.eq_false_iff.mpr ((isAtom_iff c).mp atom).2.2.2

theorem gapLength_of_atom {c : Char} (atom : isAtom c = true) (rest : Text) :
    gapLength (c :: rest) = 0 := by
  simp only [isAtom, Bool.and_eq_true, bne_iff_ne, Bool.not_eq_true'] at atom
  exact gapLength_eq_zero_iff.mpr ⟨atom.2, fun slash => absurd slash atom.1.2⟩

/-- The cleaned form of what follows an atom. -/
def afterAtom (rest : Text) : Text :=
  (if gapLength rest = 0 ∨ skipGap rest = [] then [] else [' ']) ++ cleanAtoms (skipGap rest)

theorem cleanAtoms_cons_of_atom {c : Char} (atom : isAtom c = true) (rest : Text) :
    cleanAtoms (c :: rest) = c :: afterAtom rest := by
  simp only [isAtom, Bool.and_eq_true, bne_iff_ne, Bool.not_eq_true'] at atom
  have tail : atomTailLength c rest = 0 := by simp [atomTailLength, atom.1.1.1, atom.1.1.2]
  rw [cleanAtoms, tail]
  rfl

theorem afterAtom_of_gapLength {rest : Text} (atom : gapLength rest = 0) :
    afterAtom rest = cleanAtoms rest := by
  rw [afterAtom, if_pos (.inl atom), skipGap_of_gapLength_eq_zero atom, List.nil_append]

theorem afterAtom_of_atom {c : Char} (atom : isAtom c = true) (rest : Text) :
    afterAtom (c :: rest) = cleanAtoms (c :: rest) :=
  afterAtom_of_gapLength (gapLength_of_atom atom rest)

/-- A word is kept as it is. -/
theorem cleanAtoms_word {word : Text} (some : word ≠ []) (atoms : ∀ c ∈ word, isAtom c = true)
    (rest : Text) : cleanAtoms (word ++ rest) = word ++ afterAtom rest := by
  induction word with
  | nil => contradiction
  | cons c more ih =>
    rw [List.cons_append, cleanAtoms_cons_of_atom (atoms c List.mem_cons_self)]
    cases more with
    | nil => rfl
    | cons other more =>
      have later := ih (List.cons_ne_nil _ _) fun c met => atoms c (List.mem_cons_of_mem _ met)
      rw [List.cons_append] at later ⊢
      rw [afterAtom_of_atom (atoms other (List.mem_cons_of_mem _ List.mem_cons_self)), later]
      rfl

theorem skipGap_of_all_white {trail : Text} (white : ∀ c ∈ trail, isWhite c = true) :
    skipGap trail = [] := by
  have all := skipGap_append_of_white white []
  rw [List.append_nil] at all
  rw [all, skipGap]

/-- Words with one space between them are cleaned already, also with white space around them. -/
theorem cleanAtoms_words {words : List Text}
    (each : ∀ word ∈ words, word ≠ [] ∧ ∀ c ∈ word, isAtom c = true) {trail : Text}
    (white : ∀ c ∈ trail, isWhite c = true) :
    cleanAtoms (skipGap (join [' '] words ++ trail)) = join [' '] words := by
  induction words with
  | nil =>
    rw [join_nil, List.nil_append, skipGap_of_all_white white, cleanAtoms]
  | cons word rest ih =>
    have later := ih fun other met => each other (List.mem_cons_of_mem _ met)
    obtain ⟨some, atoms⟩ := each word List.mem_cons_self
    have begins (back : Text) : skipGap (word ++ back) = word ++ back := by
      cases word with
      | nil => contradiction
      | cons c more =>
        exact skipGap_of_gapLength_eq_zero (gapLength_of_atom (atoms c List.mem_cons_self) _)
    cases rest with
    | nil =>
      rw [join_singleton, begins, cleanAtoms_word some atoms, afterAtom,
        skipGap_of_all_white white, if_pos (.inr rfl), cleanAtoms]
      exact List.append_nil word
    | cons next others =>
      have space : gapLength (' ' :: (join [' '] (next :: others) ++ trail)) = 1 :=
        gapLength_of_white rfl _
      have filled : join [' '] (next :: others) ≠ [] := by
        obtain ⟨filled, -⟩ := each next (List.mem_cons_of_mem _ List.mem_cons_self)
        cases others with
        | nil => simpa using filled
        | cons other others => simp [join_cons_cons]
      have further : skipGap (join [' '] (next :: others) ++ trail) ≠ [] := by
        intro empty
        rw [empty, cleanAtoms] at later
        exact filled later.symm
      have whole : join [' '] (word :: next :: others) ++ trail =
          word ++ ' ' :: (join [' '] (next :: others) ++ trail) := by
        simp [join_cons_cons]
      rw [whole, begins, cleanAtoms_word some atoms, afterAtom, skipGap_of_white rfl, space, later,
        if_neg (by simp [further])]
      simp [join_cons_cons]

theorem clean_words {words : List Text}
    (each : ∀ word ∈ words, word ≠ [] ∧ ∀ c ∈ word, isAtom c = true) {lead trail : Text}
    (before : ∀ c ∈ lead, isWhite c = true) (behind : ∀ c ∈ trail, isWhite c = true) :
    clean (lead ++ (join [' '] words ++ trail)) = join [' '] words := by
  rw [clean_append_of_white before, clean, cleanAtoms_words each behind]

end Swatch.Css
