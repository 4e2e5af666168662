import Swatch.Proofs.Css.Atoms

/-!
# The normal form of a text

Every text is divided in exactly one way into atoms and gaps, and no gap follows another.
Its cleaned form has the atoms in order with one space for each gap between two of them.
What a gap is made of does not matter: with another gap in its place every atom is still
the same atom, so the text is divided at the same places.
-/

namespace Swatch.Css

/-- A piece of a text. -/
inductive Piece where
  | atom (text : Text)
  | gap (text : Text)
  deriving DecidableEq, Repr

namespace Piece

/-- Is the piece a gap? -/
def isGap : Piece → Bool
  | atom _ => false
  | gap _ => true

/-- The characters of the piece. -/
def text : Piece → Text
  | atom text => text
  | gap text => text

/-- How the piece stands in a cleaned text, when it is not a gap at one of the ends. -/
def cleaned : Piece → Text
  | atom text => text
  | gap _ => [' ']

/-- The text that the pieces make up. -/
def textOf (pieces : List Piece) : Text :=
  pieces.flatMap Piece.text

/-- The atoms in order, with one space for each gap between two of them. -/
def normalForm (pieces : List Piece) : Text :=
  (dropEndWhile isGap (pieces.dropWhile isGap)).flatMap cleaned

/--
Each piece is an atom or a gap in front of the pieces behind it, and each gap is as long as it
can be.
-/
inductive Division : List Piece → Prop
  | nil : Division []
  | atom {spelling : Text} {more : List Piece} (stands : AtomAt spelling (textOf more))
      (further : Division more) : Division (atom spelling :: more)
  | gap {spelling : Text} {more : List Piece} (stands : GapAt spelling (textOf more))
      (longest : more.head?.any isGap = false) (further : Division more) :
      Division (gap spelling :: more)

/-- The pieces are those of the text as it is read from left to right. -/
structure Divide (pieces : List Piece) (text : Text) : Prop where
  whole : textOf pieces = text
  division : Division pieces

variable {pieces others : List Piece}

theorem textOf_nil : textOf [] = [] := rfl

theorem textOf_cons (piece : Piece) (more : List Piece) :
    textOf (piece :: more) = piece.text ++ textOf more :=
  List.flatMap_cons

theorem Division.gapLength_cons {piece : Piece} {more : List Piece}
    (division : Division (piece :: more)) :
    gapLength (textOf (piece :: more)) = 0 ↔ piece.isGap = false := by
  rw [textOf_cons]
  cases division with
  | atom stands further =>
    rcases stands.taken with ⟨first, tail, rfl, noGap, -⟩
    exact iff_of_true noGap rfl
  | gap stands longest further =>
    exact iff_of_false stands.skipped.1 (by simp [isGap])

theorem Division.text_ne_nil {piece : Piece} {more : List Piece}
    (division : Division (piece :: more)) : piece.text ≠ [] := by
  cases division with
  | atom stands further =>
    rcases stands.taken with ⟨first, tail, rfl, -, -⟩
    exact List.cons_ne_nil _ _
  | gap stands longest further => exact stands.ne_nil

theorem Division.textOf_ne_nil {piece : Piece} {more : List Piece}
    (division : Division (piece :: more)) : textOf (piece :: more) ≠ [] := by
  rw [textOf_cons]
  exact List.append_ne_nil_of_left_ne_nil division.text_ne_nil _

/-- No gap follows a gap. -/
theorem Division.gapLength_of_longest (division : Division pieces)
    (longest : pieces.head?.any isGap = false) : gapLength (textOf pieces) = 0 := by
  cases pieces with
  | nil => rfl
  | cons piece more => exact division.gapLength_cons.mpr longest

/-- A text can be divided in one way only. -/
theorem Division.unique (division : Division pieces) (other : Division others)
    (same : textOf pieces = textOf others) : pieces = others := by
  induction division generalizing others with
  | nil =>
    cases others with
    | nil => rfl
    | cons piece more => exact absurd same.symm other.textOf_ne_nil
  | @atom spelling more stands further ih =>
    cases others with
    | nil => exact absurd same (Division.atom stands further).textOf_ne_nil
    | cons piece rest =>
      have noGap : piece.isGap = false := by
        rw [← other.gapLength_cons, ← same]
        exact (Division.atom stands further).gapLength_cons.mpr rfl
      cases other with
      | gap _ _ _ => contradiction
      | @atom word _ meets later =>
        have taken := stands.taken
        have met := meets.taken
        rw [textOf_cons, textOf_cons] at same
        change spelling ++ textOf more = word ++ textOf rest at same
        rcases taken with ⟨first, tail, rfl, -, size⟩
        rcases met with ⟨second, back, rfl, -, length⟩
        rw [List.cons_append, List.cons_append, List.cons.injEq] at same
        rcases same with ⟨rfl, behind⟩
        rw [behind, length] at size
        rcases List.append_inj behind size.symm with ⟨rfl, left⟩
        rw [ih later left]
  | @gap spelling more stands longest further ih =>
    cases others with
    | nil => exact absurd same (Division.gap stands longest further).textOf_ne_nil
    | cons piece rest =>
      have some : piece.isGap = true := by
        rw [← Bool.not_eq_false, ← other.gapLength_cons, ← same]
        exact stands.skipped.1
      cases other with
      | atom _ _ => contradiction
      | @gap word _ meets most later =>
        rw [textOf_cons, textOf_cons] at same
        change spelling ++ textOf more = word ++ textOf rest at same
        have left : textOf more = textOf rest := by
          have front := stands.skipped.2
          rw [same, meets.skipped.2,
            skipGap_of_gapLength_eq_zero (later.gapLength_of_longest most),
            skipGap_of_gapLength_eq_zero (further.gapLength_of_longest longest)] at front
          exact front.symm
        rw [left] at same
        rw [List.append_cancel_right same, ih later left]

/-- Every text can be divided. -/
theorem exists_divide (text : Text) : ∃ pieces, Divide pieces text := by
  induction size : text.length using Nat.strong_induction_on generalizing text with
  | h length ih =>
    cases text with
    | nil => exact ⟨[], rfl, .nil⟩
    | cons first rest =>
      by_cases noGap : gapLength (first :: rest) = 0
      · have stands := atomAt_of_gapLength noGap
        have shorter : (rest.drop (atomTailLength first rest)).length < length := by
          rw [List.length_drop, ← size, List.length_cons]
          omega
        rcases ih _ shorter _ rfl with ⟨more, whole, division⟩
        rw [← whole] at stands
        refine ⟨_, ?_, .atom stands division⟩
        rw [textOf_cons, whole]
        exact congrArg (first :: ·) (List.take_append_drop _ _)
      · rcases gapAt_skipGap (first :: rest) with ⟨gap, parts, rfl | stands⟩
        · rw [List.nil_append] at parts
          rw [parts, gapLength_skipGap] at noGap
          contradiction
        · have some : gap ≠ [] := by
            rintro rfl
            rw [List.nil_append] at parts
            rw [parts, gapLength_skipGap] at noGap
            contradiction
          have shorter : (skipGap (first :: rest)).length < length := by
            have lengths := congrArg List.length parts
            have filled := List.length_pos_iff.mpr some
            rw [List.length_append] at lengths
            omega
          rcases ih _ shorter _ rfl with ⟨more, whole, division⟩
          have longest : more.head?.any isGap = false := by
            cases more with
            | nil => rfl
            | cons piece others =>
              rw [List.head?_cons, Option.any_some, ← division.gapLength_cons, whole]
              exact gapLength_skipGap _
          rw [← whole] at stands
          refine ⟨_, ?_, .gap stands longest division⟩
          rw [textOf_cons, whole]
          exact parts.symm

/-! ## Normal form -/

/-- What follows an atom is cleaned piece by piece. -/
theorem Division.afterAtom_textOf (division : Division pieces) :
    afterAtom (textOf pieces) = (dropEndWhile isGap pieces).flatMap cleaned := by
  induction division with
  | nil => exact afterAtom_nil
  | @atom spelling more stands further ih =>
    have noGap := (Division.atom stands further).gapLength_cons.mpr rfl
    rcases stands.taken with ⟨first, tail, rfl, -, size⟩
    have same : atomTailLength first (tail ++ textOf more) = tail.length := size
    rw [afterAtom_of_gapLength noGap, dropEndWhile_cons, textOf_cons]
    change cleanAtoms (first :: (tail ++ textOf more)) = _
    rw [cleanAtoms_cons, same, List.take_left, List.drop_left, ih]
    simp [isGap, cleaned]
  | @gap spelling more stands longest further ih =>
    have seen := further.gapLength_of_longest longest
    have behind : skipGap (spelling ++ textOf more) = textOf more := by
      rw [stands.skipped.2, skipGap_of_gapLength_eq_zero seen]
    rw [dropEndWhile_cons, textOf_cons, afterAtom]
    change (if gapLength (spelling ++ textOf more) = 0 ∨ skipGap (spelling ++ textOf more) = []
      then [] else [' ']) ++ cleanAtoms (skipGap (spelling ++ textOf more)) = _
    rw [behind]
    cases more with
    | nil =>
      rw [textOf_nil, if_pos (.inr rfl), cleanAtoms]
      rfl
    | cons piece others =>
      have atom : piece.isGap = false := longest
      have between : ¬(gapLength (spelling ++ textOf (piece :: others)) = 0 ∨
          textOf (piece :: others) = []) := by
        rw [not_or]
        exact ⟨stands.skipped.1, further.textOf_ne_nil⟩
      rw [if_neg between, ← afterAtom_of_gapLength seen, ih, dropEndWhile_cons, atom]
      simp [cleaned]

/-- A text is cleaned to the normal form of its pieces. -/
theorem Divide.clean_eq {text : Text} (divide : Divide pieces text) :
    clean text = normalForm pieces := by
  rcases divide with ⟨rfl, division⟩
  rw [clean, normalForm]
  cases division with
  | nil =>
    rw [textOf_nil, skipGap, cleanAtoms]
    rfl
  | @atom spelling more stands further =>
    have division := Division.atom stands further
    have noGap := division.gapLength_cons.mpr rfl
    rw [skipGap_of_gapLength_eq_zero noGap, ← afterAtom_of_gapLength noGap,
      division.afterAtom_textOf, List.dropWhile_cons_of_neg (by simp [isGap])]
  | @gap spelling more stands longest further =>
    have seen := further.gapLength_of_longest longest
    have front : more.dropWhile isGap = more := by
      cases more with
      | nil => rfl
      | cons piece others => exact List.dropWhile_cons_of_neg (by simpa using longest)
    have behind : skipGap (textOf (gap spelling :: more)) = textOf more :=
      stands.skipped.2.trans (skipGap_of_gapLength_eq_zero seen)
    rw [behind, ← afterAtom_of_gapLength seen, further.afterAtom_textOf,
      List.dropWhile_cons_of_pos (by rfl), front]

/-! ## Other gaps -/

/-- Atoms are kept, and a gap is kept or filled with white space and closed comments. -/
inductive Refilled : Piece → Piece → Prop
  | kept (piece : Piece) : Refilled piece piece
  | filled (old : Text) {filler : Text} (some : filler ≠ []) (fills : Filler filler) :
      Refilled (gap old) (gap filler)

theorem Refilled.isGap_eq {piece other : Piece} (refilled : Refilled piece other) :
    other.isGap = piece.isGap := by
  cases refilled <;> rfl

theorem Refilled.cleaned_eq {piece other : Piece} (refilled : Refilled piece other) :
    other.cleaned = piece.cleaned := by
  cases refilled <;> rfl

theorem normalForm_refilled (refilled : List.Forall₂ Refilled pieces others) :
    normalForm others = normalForm pieces := by
  have sketch (pieces : List Piece) : normalForm pieces =
      (dropEndWhile Prod.fst ((pieces.map fun piece =>
        (piece.isGap, piece.cleaned)).dropWhile Prod.fst)).flatMap Prod.snd := by
    rw [List.dropWhile_map, dropEndWhile_map, List.flatMap_map]
    rfl
  have same : others.map (fun piece => (piece.isGap, piece.cleaned)) =
      pieces.map fun piece => (piece.isGap, piece.cleaned) := by
    induction refilled with
    | nil => rfl
    | cons first rest ih =>
      rw [List.map_cons, List.map_cons, ih, first.isGap_eq, first.cleaned_eq]
  rw [sketch, sketch, same]

/-- Another gap brings no star to the front. -/
theorem Division.head?_refilled (division : Division pieces)
    (refilled : List.Forall₂ Refilled pieces others)
    (noStar : (textOf pieces).head? ≠ some '*') : (textOf others).head? ≠ some '*' := by
  cases refilled with
  | nil => exact noStar
  | @cons piece other rest more first further =>
    rw [textOf_cons] at noStar ⊢
    cases first with
    | kept =>
      rcases List.exists_cons_of_ne_nil division.text_ne_nil with ⟨c, tail, spelled⟩
      rw [spelled] at noStar ⊢
      exact noStar
    | filled old some fills =>
      cases fills with
      | nil => contradiction
      | @white c _ white =>
        rintro star
        rw [Option.some.inj star] at white
        contradiction
      | comment first further =>
        rintro star
        exact absurd (Option.some.inj star) (by decide)

theorem Division.refilled (division : Division pieces)
    (refilled : List.Forall₂ Refilled pieces others) : Division others := by
  induction division generalizing others with
  | nil =>
    cases refilled
    exact .nil
  | @atom spelling more stands further ih =>
    cases refilled with
    | @cons _ _ _ rest first behind =>
      cases first with
      | kept =>
        refine .atom (stands.beside (fun nothing => ?_) (further.head?_refilled behind)) (ih behind)
        cases behind with
        | nil => rfl
        | cons _ _ => exact absurd nothing further.textOf_ne_nil
  | @gap spelling more stands longest further ih =>
    cases refilled with
    | @cons _ _ _ rest first behind =>
      have still : rest.head?.any isGap = false := by
        cases behind with
        | nil => rfl
        | cons next _ => exact next.isGap_eq.trans longest
      cases first with
      | filled _ some fills => exact .gap (.closed some fills _) still (ih behind)
      | kept =>
        refine .gap (stands.beside fun nothing => ?_) still (ih behind)
        cases behind with
        | nil => rfl
        | cons _ _ => exact absurd nothing further.textOf_ne_nil

/--
Every text is divided into atoms and gaps in exactly one way, and cleaning it gives the normal
form of its pieces, whatever the gaps are made of; a text in normal form is its own.
-/
theorem clean_is_normalForm (text : Text) :
    (∃! pieces, Divide pieces text) ∧
      (∀ pieces, Divide pieces text → clean text = normalForm pieces ∧
        ∀ others, List.Forall₂ Refilled pieces others → clean (textOf others) = clean text) ∧
      clean (clean text) = clean text := by
  refine ⟨?_, fun pieces divide => ⟨divide.clean_eq, fun others refilled => ?_⟩, clean_clean text⟩
  · rcases exists_divide text with ⟨pieces, divide⟩
    refine ⟨pieces, divide, fun others other => ?_⟩
    exact other.division.unique divide.division (other.whole.trans divide.whole.symm)
  · have again : Divide others (textOf others) := ⟨rfl, divide.division.refilled refilled⟩
    rw [again.clean_eq, divide.clean_eq, normalForm_refilled refilled]

/-- A comment for the space keeps the slash from the star, and the string is never closed. -/
theorem clean_is_normalForm_slash :
    let text := "/ *'\\' /*".toList
    let pieces := [atom "/".toList, gap " ".toList, atom "*".toList, atom "'\\' /*".toList]
    let others := [atom "/".toList, gap "/*/ */".toList, atom "*".toList, atom "'\\' /*".toList]
    Divide pieces text ∧ List.Forall₂ Refilled pieces others ∧
      clean text = normalForm pieces ∧ clean (textOf others) = clean text ∧
      textOf others = "//*/ */*'\\' /*".toList ∧ clean text = "/ *'\\' /*".toList := by
  intro text pieces others
  have inside : Inside '\'' "\\' /*".toList :=
    .hidden _ (.seen (by decide) (by decide) (.seen (by decide) (by decide)
      (.seen (by decide) (by decide) .nil)))
  have string := @AtomAt.unclosed '\'' "\\' /*".toList [] (by decide) inside (.inl rfl)
  have space : Filler [' '] := .white (by decide) .nil
  have comment := @Filler.comment "/ ".toList [] (by simp [unended_cons, unended_nil]) .nil
  have divide : Divide pieces text := by
    refine ⟨by decide, .atom (.single ?_ ?_ ?_ ?_) (.gap (.closed ?_ space _) ?_
      (.atom (.single ?_ ?_ ?_ ?_) (.atom string .nil)))⟩ <;> decide
  have refilled : List.Forall₂ Refilled pieces others :=
    .cons (.kept _) (.cons (.filled _ (by decide) comment) (.cons (.kept _) (.cons (.kept _) .nil)))
  have normal := (clean_is_normalForm text).2.1 pieces divide
  exact ⟨divide, refilled, normal.1, normal.2 others refilled, by decide, by decide +kernel⟩

end Piece

end Swatch.Css
