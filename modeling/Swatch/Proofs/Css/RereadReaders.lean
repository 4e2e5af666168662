import Swatch.Proofs.Css.RereadAddresses
import Swatch.Proofs.Css.Gaps

/-!
# The choice of a reader in cleaned text

The first characters of a token choose its reader, and cleaning keeps what this choice looks
at: marks and the beginning of a number are copied, and a name begins again where a steady
name began. No mark and no name begins where there was none, since between characters that
stood apart there is a space now.
-/

namespace Swatch.Css

/-! ## The beginning of a name -/

theorem startsName_dash (rest : Text) :
    startsName ('-' :: rest) =
      rest.head?.any fun c => isNameStart c || c == '-' || c == '\\' := by
  cases rest with
  | nil => rfl
  | cons c more => rfl

theorem startsName_other {text : Text} (other : text.head? ≠ some '-') :
    startsName text = (text.head?.any isNameStart || startsEscape text) := by
  cases text with
  | nil => rfl
  | cons c rest =>
    have noDash : c ≠ '-' := by simpa using other
    simp [startsName, noDash]

/-- A backslash begins a name, or it hides nothing. -/
theorem readerOf_slash (rest : Text) :
    readerOf '\\' rest =
      if startsEscape ('\\' :: rest) then .name else .fixed .delimiter 1 := by
  have name : startsName ('\\' :: rest) = startsEscape ('\\' :: rest) := startsName_other (by simp)
  have known : punctuation '\\' = none := rfl
  rw [readerOf, known, ← name]
  rfl

/-- Only the first two characters count. -/
theorem startsName_take (text : Text) : startsName (text.take 2) = startsName text := by
  match text with
  | [] => rfl
  | [c] => rfl
  | c :: d :: more =>
    by_cases dash : c = '-'
    · subst dash
      rfl
    · have other (more : Text) : (c :: d :: more).head? ≠ some '-' := by simpa using dash
      have escape : startsEscape [c, d] = startsEscape (c :: d :: more) :=
        (startsEscape_cons_append (List.cons_ne_nil d []) c more).symm
      rw [List.take_succ_cons, List.take_succ_cons, List.take_zero, startsName_other (other []),
        startsName_other (other more), escape]
      rfl

/-- No name begins where none began. -/
theorem startsName_afterAtom_of_none {text : Text} (none : startsName text = false) :
    startsName (afterAtom text) = false := by
  by_cases dash : text.head? = some '-'
  · rcases List.head?_eq_some_iff.mp dash with ⟨rest, rfl⟩
    rw [startsName_dash] at none
    rw [afterAtom_cons_of_atom rfl, startsName_dash]
    exact head?_any_afterAtom_of rfl none
  · rw [startsName_other dash, Bool.or_eq_false_iff] at none
    rw [startsName_other (head?_ne_afterAtom dash (by decide)), Bool.or_eq_false_iff]
    exact ⟨head?_any_afterAtom_of rfl none.1, (startsEscape_afterAtom text).trans none.2⟩

/-- A steady name begins again. -/
theorem startsName_afterAtom {text : Text} (starts : startsName text = true)
    (steady : isSteady (text.take (nameLength text)) = true) :
    startsName (afterAtom text) = true := by
  by_cases dash : text.head? = some '-'
  · rcases List.head?_eq_some_iff.mp dash with ⟨rest, rfl⟩
    have inName : isNameChar '-' = true := by decide
    rw [nameLength, if_pos inName, Nat.add_comm, List.take_succ_cons,
      isSteady_cons (by decide) (by decide), Bool.and_eq_true] at steady
    rw [startsName_dash] at starts
    have atom : gapLength rest = 0 := by
      by_contra gap
      have none := (nameLength_eq_zero_iff rest).mp (nameLength_of_gap gap steady.2)
      cases rest with
      | nil => contradiction
      | cons c more =>
        rw [List.head?_cons, Option.any_some, Bool.or_eq_true, Bool.or_eq_true] at starts
        rcases starts with (begins | again) | slash
        · rw [List.head?_cons, Option.any_some, isNameChar_of_nameStart begins] at none
          exact absurd none.1 (by decide)
        · rw [beq_iff_eq] at again
          subst again
          have outside : isNameChar '-' = false := none.1
          contradiction
        · rw [beq_iff_eq] at slash
          subst slash
          exact gap (gapLength_eq_zero_iff.mpr ⟨by decide, fun mark => absurd mark (by decide)⟩)
    rw [afterAtom_cons_of_atom rfl, startsName_dash, head?_afterAtom_of_noGap atom, starts]
  · have atom : gapLength text = 0 := by
      by_contra gap
      have some := nameLength_pos starts
      rw [nameLength_of_gap gap steady] at some
      contradiction
    rw [startsName_other dash] at starts
    rw [startsName_other (head?_ne_afterAtom dash (by decide)), head?_afterAtom_of_noGap atom,
      startsEscape_afterAtom, starts]

theorem startsHashName_eq (text : Text) :
    startsHashName text =
      (startsName text || text.head?.any fun c => c.isDigit || c == '-') := by
  cases text with
  | nil => rfl
  | cons c rest => rw [startsHashName, List.head?_cons, Option.any_some, Bool.or_assoc]

theorem startsHashName_afterAtom_of_none {text : Text} (none : startsHashName text = false) :
    startsHashName (afterAtom text) = false := by
  rw [startsHashName_eq, Bool.or_eq_false_iff] at none ⊢
  exact ⟨startsName_afterAtom_of_none none.1, head?_any_afterAtom_of rfl none.2⟩

theorem startsHashName_afterAtom {text : Text} (starts : startsHashName text = true)
    (steady : isSteady (text.take (nameLength text)) = true) :
    startsHashName (afterAtom text) = true := by
  have atoms (c : Char) (inside : (c.isDigit || c == '-') = true) : isAtom c = true := by
    rw [Bool.or_eq_true, beq_iff_eq] at inside
    rcases inside with digit | rfl
    · exact isAtom_of_digit digit
    · rfl
  rw [startsHashName_eq, Bool.or_eq_true] at starts ⊢
  rw [head?_any_afterAtom rfl atoms]
  exact starts.imp_left fun name => startsName_afterAtom name steady

/-! ## The choice of the reader -/

/-- What is needed to choose the reader of the token at the front again. -/
structure Chosen (first : Char) (rest more : Text) : Prop where
  shape : afterAtom (first :: rest) = first :: more
  alone : first ≠ '\\' → isQuote first = false → more = afterAtom rest
  atom : gapLength (first :: rest) = 0
  name : readerOf first rest = .name → startsName (first :: more) = true
  hash : readerOf first rest = .marked .hash → startsHashName more = true
  atKeyword : readerOf first rest = .marked .atKeyword → startsName more = true

theorem isPrefixOf_comment {text : Text} (atom : gapLength text = 0) :
    "/*".toList.isPrefixOf text = false := by
  rw [Bool.eq_false_iff, ne_eq, List.isPrefixOf_iff_prefix]
  rintro ⟨more, rfl⟩
  have mark : gapLength ('/' :: '*' :: more) = 0 := atom
  rw [gapLength_comment] at mark
  omega

section Chosen

variable {first : Char} {rest more : Text}

theorem Chosen.equals (chosen : Chosen first rest more) :
    ("$*^|~".toList.contains first && more.head? == some '=') =
      ("$*^|~".toList.contains first && rest.head? == some '=') := by
  by_cases mark : "$*^|~".toList.contains first = true
  · have atoms : "$*^|~".toList.all isAtom = true := by decide
    have atom := List.all_eq_true.mp atoms first (List.contains_iff_mem.mp mark)
    rw [chosen.alone (ne_of_class atom rfl) (isQuote_of_atom atom), head?_beq_afterAtom rfl]
  · rw [Bool.eq_false_iff.mpr mark, Bool.false_and, Bool.false_and]

/-- What has to begin behind a mark begins again behind it. -/
theorem Chosen.behind_mark (chosen : Chosen first rest more) (mark : Char) (starts : Text → Bool)
    (atom : isAtom mark = true)
    (none : ∀ {text}, starts text = false → starts (afterAtom text) = false)
    (again : (first == mark && starts rest) = true → starts more = true) :
    (first == mark && starts more) = (first == mark && starts rest) := by
  by_cases same : first = mark
  · subst same
    rw [beq_self_eq_true, Bool.true_and] at again
    rw [beq_self_eq_true, Bool.true_and, Bool.true_and]
    cases begins : starts rest with
    | true => exact again begins
    | false => rw [chosen.alone (ne_of_class atom rfl) (isQuote_of_atom atom), none begins]
  · rw [beq_eq_false_iff_ne.mpr same, Bool.false_and, Bool.false_and]

theorem Chosen.readerOf_eq (chosen : Chosen first rest more) :
    readerOf first more = readerOf first rest := by
  have atom : gapLength (first :: more) = 0 := by
    rw [← chosen.shape, afterAtom_of_noGap chosen.atom]
    exact gapLength_cleanAtoms chosen.atom
  have mark (mark : Text) (atoms : mark.all isAtom = true) :
      mark.isPrefixOf (first :: more) = mark.isPrefixOf (first :: rest) := by
    rw [← chosen.shape, isPrefixOf_afterAtom (List.all_eq_true.mp atoms)]
  have number : startsNumber (first :: more) = startsNumber (first :: rest) := by
    rw [← chosen.shape, startsNumber_afterAtom]
  have comment := isPrefixOf_comment atom
  have noComment := isPrefixOf_comment chosen.atom
  have name := chosen.name
  have hash := chosen.hash
  have atKeyword := chosen.atKeyword
  unfold readerOf at name hash atKeyword ⊢
  rw [comment, number, mark "<!--".toList (by decide), mark "-->".toList (by decide)]
  rw [noComment] at name hash atKeyword ⊢
  cases known : punctuation first with
  | some kind => rfl
  | none =>
    simp only [known] at name hash atKeyword ⊢
    -- The tests before the one for a name are the same for both texts.
    refine ite_congr rfl (fun _ => rfl) fun noBlank => ?_
    refine ite_congr rfl (fun _ => rfl) fun noQuote => ?_
    rw [if_neg noBlank, if_neg noQuote] at name hash atKeyword
    refine ite_congr rfl (fun _ => rfl) fun goesOn => ?_
    refine ite_congr rfl (fun _ => rfl) fun noNumber => ?_
    refine ite_congr rfl (fun _ => rfl) fun noOpen => ?_
    refine ite_congr rfl (fun _ => rfl) fun noClose => ?_
    rw [if_neg goesOn, if_neg noNumber, if_neg noOpen, if_neg noClose] at name hash atKeyword
    cases starts : startsName (first :: rest) with
    | true =>
      rw [starts] at name
      rw [name rfl, if_pos rfl, if_pos rfl]
    | false =>
      have noName : startsName (first :: more) = false := by
        rw [← chosen.shape]
        exact startsName_afterAtom_of_none starts
      rw [starts, if_neg Bool.false_ne_true] at hash atKeyword
      rw [noName, if_neg Bool.false_ne_true, if_neg Bool.false_ne_true, chosen.equals]
      rw [chosen.behind_mark '#' startsHashName rfl startsHashName_afterAtom_of_none fun marked =>
        hash (by rw [if_pos marked])]
      refine ite_congr rfl (fun _ => rfl) fun noHash => ?_
      rw [if_neg noHash] at atKeyword
      rw [chosen.behind_mark '@' startsName rfl startsName_afterAtom_of_none fun marked =>
        atKeyword (by rw [if_pos marked])]

end Chosen

end Swatch.Css
