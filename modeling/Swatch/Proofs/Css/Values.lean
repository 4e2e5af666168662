import Swatch.Proofs.Css.LetterCase
import Swatch.Proofs.Css.Weight

/-!
# Values

A value without the mark is made of the characters of its text, and cleaning adds
nothing to them but spaces. Whether a text is whole, and what it means as a value,
depends on its letters only up to their case, and the value has the letters of the
text.
-/

namespace Swatch.Css

/-! ## Characters of a value -/

theorem skipGap_sublist (text : Text) : (skipGap text).Sublist text := by
  fun_induction skipGap text with
  | case1 => exact List.Sublist.refl _
  | case2 => exact List.Sublist.refl _
  | case3 c rest further _ ih => exact (ih.trans (List.drop_sublist _ _)).cons c

/-- Cleaning adds no character but spaces. -/
theorem count_cleanAtoms_le {c : Char} (other : c ≠ ' ') (text : Text) :
    (cleanAtoms text).count c ≤ text.count c := by
  fun_induction cleanAtoms text with
  | case1 => exact Nat.le_refl _
  | case2 first rest tail more next space ih =>
    have none : space.count c = 0 := by
      simp only [space]
      split
      · rfl
      · exact List.count_eq_zero.mpr fun met => other (List.mem_singleton.mp met)
    have left : next.count c ≤ more.count c := (skipGap_sublist more).count_le c
    have parts : first :: rest = first :: rest.take tail ++ more := by
      rw [List.cons_append, List.take_append_drop]
    rw [parts, List.count_append, List.count_append, List.count_append, none]
    omega

theorem count_clean_le {c : Char} (other : c ≠ ' ') (text : Text) :
    (clean text).count c ≤ text.count c :=
  Nat.le_trans (count_cleanAtoms_le other _) ((skipGap_sublist text).count_le c)

/-- A value without the mark is the cleaned front of its text, which fades into it. -/
theorem valueIn_eq_unmarked {text value : Text} (means : valueIn text = some (value, false)) :
    ∃ spelling, spelling <+: text ∧ clean spelling = value ∧ value ≠ [] ∧ Fades text value := by
  rw [valueIn_eq] at means
  simp only at means
  split at means
  · contradiction
  · rename_i fine
    rw [Option.some.injEq, Prod.mk.injEq] at means
    rcases means with ⟨same, unmarked⟩
    rw [Option.isSome_eq_false_iff, Option.isNone_iff_eq_none] at unmarked
    have all := splitImportant_eq_none unmarked
    rw [all] at same
    refine ⟨source (withoutEndGaps (tokenize 0 text)), ?_, same, ?_, ?_⟩
    · unfold withoutEndGaps
      split
      · have front : dropEndWhile Token.isGap (tokenize 0 text) <+: tokenize 0 text :=
          List.rdropWhile_prefix _ _
        rcases front with ⟨gaps, parts⟩
        refine ⟨source gaps, ?_⟩
        rw [← source_append, parts, source_tokenize]
      · exact ⟨[], (List.append_nil _).trans (source_tokenize 0 text)⟩
    · rw [not_or, all, same] at fine
      exact fine.1
    · have fades := (fades_withoutEndGaps fun token met => spelled_of_mem_tokenize met).trans
        (fades_clean (source (withoutEndGaps (tokenize 0 text))))
      rwa [source_tokenize, same] at fades

/-! ## Letter case -/

theorem lower_eq_singleton {mark : Char} (caseless : isCaseless mark = true) {text : Text} :
    lower text = [mark] ↔ text = [mark] := by
  match text with
  | [] => exact Iff.rfl
  | [c] => simp [toLower_eq_iff caseless]
  | c :: d :: rest => simp

theorem keeps_lower : Keeps Token.lower := by
  refine ⟨fun _ => rfl, fun token => lower_eq_singleton (by rfl), fun token word => ?_⟩
  rw [Token.name, Token.name]
  split
  · rename_i keyword
    rw [if_pos (show token.kind = .atKeyword from keyword)]
    change sameLetters (resolve ((lower token.text).drop 1)) word = _
    rw [lower_drop, sameLetters_lower_resolve]
  · rename_i other
    rw [if_neg (show ¬token.kind = .atKeyword from other)]
    exact sameLetters_lower_resolve token.text word

theorem source_lower (tokens : List Token) :
    source (tokens.map Token.lower) = lower (source tokens) := by
  induction tokens with
  | nil => rfl
  | cons token rest ih => rw [List.map_cons, source_cons, source_cons, lower_append, ih]; rfl

theorem isDetached_lower (text : Text) : isDetached (lower text) = isDetached text := by
  have same : lower text ++ [';'] = lower (text ++ [';']) := (lower_append text [';']).symm
  rw [isDetached, same, tokenize_lower, List.getLast?_map, isDetached, Option.any_map]
  congr 1
  funext token
  rw [Bool.eq_iff_iff, beq_iff_eq, beq_iff_eq]
  exact lower_eq_singleton (by rfl)

theorem Whole.lower_iff {test : Token → Bool}
    (blind : ∀ token, test (Token.lower token) = test token) (text : Text) :
    Whole test (lower text) ↔ Whole test text := by
  have balanced := keeps_lower.foldl_nest [] (tokenize 0 text)
  have uncut := congrArg Prod.snd (keeps_lower.cutAt blind [] (tokenize 0 text))
  rw [← tokenize_lower] at balanced uncut
  constructor
  · intro whole
    refine ⟨(isDetached_lower text).symm.trans whole.detached, balanced.symm.trans whole.balanced, ?_⟩
    exact List.map_eq_nil_iff.mp (uncut.symm.trans whole.uncut)
  · intro whole
    refine ⟨(isDetached_lower text).trans whole.detached, balanced.trans whole.balanced, ?_⟩
    exact uncut.trans (List.map_eq_nil_iff.mpr whole.uncut)

/-- A text in lower case means its value in lower case. -/
theorem valueIn_lower (text : Text) :
    valueIn (lower text) = (valueIn text).map (Prod.map lower id) := by
  rw [valueIn_eq, valueIn_eq, tokenize_lower, keeps_lower.splitImportant]
  simp only [keeps_lower.withoutEndGaps, source_lower, clean_lower, lower_eq_nil, Option.isSome_map,
    Option.map_map]
  cases (splitImportant [] (tokenize 0 text)).2 with
  | none =>
    simp only [Option.map_none, Option.getD_none, ne_eq, not_true_eq_false, or_false]
    split <;> rfl
  | some mark =>
    simp only [Option.map_some, Option.getD_some, Function.comp_apply, Prod.map_snd,
      keeps_lower.skipGaps, ne_eq, List.map_eq_nil_iff]
    split <;> rfl

section

variable {left right : Text}

theorem Whole.of_lower_eq {test : Token → Bool}
    (blind : ∀ token, test (Token.lower token) = test token) (same : lower left = lower right)
    (whole : Whole test left) : Whole test right := by
  rw [← Whole.lower_iff blind] at whole ⊢
  exact same ▸ whole

/-- Texts with the same letters mean values with the same letters. -/
theorem valueIn_of_lower_eq (same : lower left = lower right) {value : Text} {important : Bool}
    (means : valueIn left = some (value, important)) :
    ∃ other, valueIn right = some (other, important) ∧ lower other = lower value := by
  have letters : (valueIn right).map (Prod.map lower id) = some (lower value, important) := by
    rw [← valueIn_lower, ← same, valueIn_lower, means]
    rfl
  rcases Option.map_eq_some_iff.mp letters with ⟨⟨other, mark⟩, found, parts⟩
  rw [Prod.map_apply, Prod.mk.injEq] at parts
  rcases parts with ⟨lowered, rfl⟩
  exact ⟨other, found, lowered⟩

end

/-- Texts with the same characters that are seen and the same letters up to case are the same. -/
theorem eq_of_lower_eq_of_visible_eq {left right : Text} (letters : lower left = lower right)
    (seen : visible left = visible right) : left = right := by
  induction left generalizing right with
  | nil => exact (lower_eq_nil.mp letters.symm).symm
  | cons c left ih =>
    cases right with
    | nil => contradiction
    | cons d right =>
      rw [lower_cons, lower_cons, List.cons.injEq] at letters
      have white : isWhite c = isWhite d := by
        rw [← isWhite_toLower c, letters.1, isWhite_toLower]
      cases space : isWhite c with
      | true =>
        have none {e : Char} (blank : isWhite e = true) : e.toLower = e := by
          rw [isWhite_iff] at blank
          exact toLower_of_small (by omega)
        rw [visible_cons_of_white space, visible_cons_of_white (white ▸ space)] at seen
        rw [ih letters.2 seen, ← none space, letters.1, none (white ▸ space)]
      | false =>
        have first {e : Char} (inked : isWhite e = false) (rest : Text) :
            visible (e :: rest) = e :: visible rest :=
          List.filter_cons_of_pos (by rw [inked]; rfl)
        rw [first space, first (white ▸ space), List.cons.injEq] at seen
        rw [ih letters.2 seen.2, seen.1]

end Swatch.Css
