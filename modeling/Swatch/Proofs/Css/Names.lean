import Swatch.Proofs.Css.Reading
import Swatch.Proofs.Css.Spelling

/-!
# Names that stand for themselves

A name is literal when it is spelled without escapes. Before a stop it is one
identifier, and it stands for its own spelling. The name of a declaration that is
also in the right letter case comes back as it was written.
-/

namespace Swatch.Css

/-- Is the name spelled without escapes? -/
def isLiteralName (name : Text) : Bool :=
  startsName name && name.all fun c => isNameChar c && c != '\x00'

/-- Is the name the property that it is read as? -/
def isOwnName (name : Text) : Bool :=
  isLiteralName name && propertyName name == name

/-- Without a backslash, a name is a run of name characters. -/
theorem nameLength_plain {text : Text} (noSlash : '\\' ∉ text) {tail : Text}
    (halted : Halted tail) : nameLength (text ++ tail) = (text.takeWhile isNameChar).length := by
  induction text with
  | nil =>
    cases tail with
    | nil => simp [nameLength]
    | cons c rest =>
      have noSlash : c ≠ '\\' := ne_of_halt halted _ (by decide)
      simp [nameLength, isNameChar_of_halt halted, startsEscape, noSlash]
  | cons first rest ih =>
    rw [List.mem_cons, not_or] at noSlash
    by_cases inName : isNameChar first = true
    · rw [List.cons_append, nameLength, if_pos inName, ih noSlash.2,
        List.takeWhile_cons_of_pos inName, List.length_cons, Nat.add_comm]
    · have noEscape : startsEscape (first :: (rest ++ tail)) = false := by
        simp [startsEscape, Ne.symm noSlash.1]
      rw [List.cons_append, nameLength, if_neg inName, noEscape,
        List.takeWhile_cons_of_neg inName]
      rfl

theorem nameLength_literal {name : Text} (chars : ∀ c ∈ name, isNameChar c = true) {tail : Text}
    (halted : Halted tail) : nameLength (name ++ tail) = name.length := by
  have noSlash : '\\' ∉ name := fun met => absurd (chars _ met) (by decide)
  rw [nameLength_plain noSlash halted, List.takeWhile_eq_self_iff.mpr chars]

theorem resolve_literal {name : Text} (chars : ∀ c ∈ name, isNameChar c = true)
    (noNul : '\x00' ∉ name) : resolve name = name := by
  induction name with
  | nil => rw [resolve]
  | cons first rest ih =>
    have noSlash : (first == '\\') = false := by
      rw [beq_eq_false_iff_ne]
      exact ne_of_class (chars first List.mem_cons_self) (by decide)
    rw [List.mem_cons, not_or] at noNul
    have plain : (first == '\x00') = false := beq_eq_false_iff_ne.mpr (Ne.symm noNul.1)
    rw [resolve, noSlash, withoutNul, plain,
      ih (fun c met => chars c (List.mem_cons_of_mem _ met)) noNul.2]
    rfl

section Literal

variable {name : Text}

theorem isNameChar_of_literal (literal : isLiteralName name = true) :
    ∀ c ∈ name, isNameChar c = true := by
  intro c met
  rw [isLiteralName, Bool.and_eq_true, List.all_eq_true] at literal
  exact (Bool.and_eq_true _ _ ▸ literal.2 c met).1

theorem resolve_of_literal (literal : isLiteralName name = true) : resolve name = name := by
  refine resolve_literal (isNameChar_of_literal literal) ?_
  intro met
  rw [isLiteralName, Bool.and_eq_true, List.all_eq_true] at literal
  simpa using literal.2 _ met

/-- A literal name does not begin like a number. -/
theorem startsNumber_of_literal (literal : isLiteralName name = true) :
    startsNumber name = false := by
  have chars := isNameChar_of_literal literal
  rw [isLiteralName, Bool.and_eq_true] at literal
  have starts := literal.1
  cases name with
  | nil => simp [startsName] at starts
  | cons first rest =>
    have noSlash : first ≠ '\\' := ne_of_class (chars _ List.mem_cons_self) (by decide)
    have noPlus : first ≠ '+' := ne_of_class (chars _ List.mem_cons_self) (by decide)
    have noPoint : first ≠ '.' := ne_of_class (chars _ List.mem_cons_self) (by decide)
    by_cases dash : first = '-'
    · subst dash
      cases rest with
      | nil => exact absurd starts (by decide)
      | cons second rest =>
        have inName := chars second (List.mem_cons_of_mem _ List.mem_cons_self)
        have noSlash : second ≠ '\\' := ne_of_class inName (by decide)
        have noPoint : second ≠ '.' := ne_of_class inName (by decide)
        simp only [startsName, Bool.or_eq_true, beq_iff_eq, noSlash, or_false] at starts
        have noDigit : second.isDigit = false := by
          rcases starts with begins | rfl
          · exact isDigit_of_nameStart begins
          · decide
        simp [startsNumber, signLength, startsUnsigned, noPoint, startsDigit, noDigit]
    · have begins : isNameStart first = true := by
        simpa [startsName, dash, startsEscape, noSlash] using starts
      simp [startsNumber, signLength, noPlus, dash, startsUnsigned, noPoint, startsDigit,
        isDigit_of_nameStart begins]

/-- A literal name before a stop is one identifier. -/
theorem tokenize_name (literal : isLiteralName name = true) (line : Nat) {tail : Text}
    (stopped : Stopped tail) :
    tokenize line (name ++ tail) =
      ⟨.identifier, name, line⟩ :: tokenize (line + lineEnds name) tail := by
  have chars := isNameChar_of_literal literal
  have noNumber := startsNumber_of_literal literal
  have size := nameLength_literal chars stopped.halted
  rw [isLiteralName, Bool.and_eq_true] at literal
  rw [← startsName_append name stopped] at literal
  rw [← startsNumber_append name stopped.halted] at noNumber
  have noMark (mark : Text) (plain : mark.all (fun c => !isStop c) = true)
      (outside : mark.any (fun c => !isNameChar c) = true) :
      mark.isPrefixOf (name ++ tail) = false := by
    rw [isPrefixOf_append mark plain name stopped, Bool.eq_false_iff]
    intro begins
    obtain ⟨c, met, other⟩ := List.any_eq_true.mp outside
    rw [chars c ((List.isPrefixOf_iff_prefix.mp begins).subset met)] at other
    contradiction
  have noComment := noMark "/*".toList (by decide) (by decide)
  have noOpen := noMark "<!--".toList (by decide) (by decide)
  have noClose := noMark "-->".toList (by decide) (by decide)
  have ends : named (name ++ tail) = (.identifier, name.length) := by
    rw [named, size, List.drop_left]
    cases tail with
    | nil => rfl
    | cons c rest =>
      have noBracket : c ≠ '(' := ne_of_stop stopped _ (by decide)
      simp [noBracket]
  cases name with
  | nil =>
    have starts := literal.1
    rw [startsName_append [] stopped] at starts
    exact absurd starts (by decide)
  | cons first rest =>
    have inName := chars first List.mem_cons_self
    rw [List.cons_append] at noNumber noComment noOpen noClose ends literal ⊢
    have found : lexeme first (rest ++ tail) = (.identifier, rest.length + 1) := by
      rw [lexeme, punctuation_of_nameChar inName]
      simp only [isBlank_of_nameChar inName, isQuote_of_nameChar inName, noComment, noNumber,
        noOpen, noClose, literal.1, ends, Bool.false_eq_true, ↓reduceIte, List.length_cons]
    rw [tokenize_cons, found]
    simp

end Literal

/-! ## What a name stands for -/

theorem resolve_length_le (name : Text) : (resolve name).length ≤ name.length := by
  fun_induction resolve name with
  | case1 => exact Nat.le_refl 0
  | case2 c rest slash ih =>
    rw [List.length_drop] at ih
    rw [List.length_cons, List.length_cons]
    omega
  | case3 c rest other ih =>
    rw [List.length_cons, List.length_cons]
    omega

theorem resolve_length_of_noSlash {name : Text} (noSlash : '\\' ∉ name) :
    (resolve name).length = name.length := by
  fun_induction resolve name with
  | case1 => rfl
  | case2 c rest slash ih =>
    rw [beq_iff_eq] at slash
    exact absurd (slash ▸ List.mem_cons_self) noSlash
  | case3 c rest other ih =>
    rw [List.mem_cons, not_or] at noSlash
    rw [List.length_cons, List.length_cons, ih noSlash.2]

theorem withoutNul_ne_nul (c : Char) : withoutNul c ≠ '\x00' := by
  unfold withoutNul
  split
  · decide
  · rename_i other
    simpa using other

theorem escapeValue_ne_nul (text : Text) : escapeValue text ≠ '\x00' := by
  unfold escapeValue
  split
  · decide
  · split
    · unfold characterOfCode
      split
      · rename_i valid
        intro same
        have code := congrArg Char.toNat same
        rw [Char.ofNat, dif_pos valid.2] at code
        exact valid.1 code
      · decide
    · exact withoutNul_ne_nul _

theorem nul_not_mem_resolve (name : Text) : '\x00' ∉ resolve name := by
  fun_induction resolve name with
  | case1 => simp
  | case2 c rest slash ih =>
    rw [List.mem_cons, not_or]
    exact ⟨(escapeValue_ne_nul rest).symm, ih⟩
  | case3 c rest other ih =>
    rw [List.mem_cons, not_or]
    exact ⟨(withoutNul_ne_nul c).symm, ih⟩

/-- An escape is longer than the character that it stands for, unless it stands for nothing. -/
theorem noSlash_of_map_resolve {name : Text} {change : Char → Char}
    (visible : change replacement ≠ '\\') (same : (resolve name).map change = name) :
    '\\' ∉ name := by
  fun_induction resolve name with
  | case1 => simp
  | case2 c rest slash ih =>
    rw [beq_iff_eq] at slash
    subst slash
    rw [List.map_cons, List.cons.injEq] at same
    have shorter := resolve_length_le (rest.drop (escapeLength rest))
    have lengths := congrArg List.length same.2
    rw [List.length_map] at lengths
    rw [List.length_drop] at shorter
    cases rest with
    | nil => exact absurd same.1 visible
    | cons d more =>
      have taken : 0 < escapeLength (d :: more) := by
        rw [escapeLength]
        split
        · rename_i hex
          have digits : 0 < (escapeDigits (d :: more)).length := by
            simp [escapeDigits, hex]
          simp only
          omega
        · exact Nat.one_pos
      rw [List.length_cons] at lengths shorter
      omega
  | case3 c rest other ih =>
    rw [List.map_cons, List.cons.injEq] at same
    rw [List.mem_cons, not_or]
    refine ⟨?_, ih same.2⟩
    intro slash
    exact other (by rw [← slash]; rfl)

theorem propertyName_eq_map (name : Text) :
    propertyName name = name.map id ∨ propertyName name = name.map Char.toLower := by
  unfold propertyName
  split
  · exact .inl (List.map_id name).symm
  · exact .inr rfl

/-- A name that is the property that it is read as is spelled without escapes. -/
theorem plain_of_own {name : Text} (own : propertyName (resolve name) = name) :
    '\\' ∉ name ∧ '\x00' ∉ name := by
  have noNul := nul_not_mem_resolve name
  rcases propertyName_eq_map (resolve name) with kept | lowered
  · rw [kept] at own
    refine ⟨noSlash_of_map_resolve (by decide) own, ?_⟩
    rw [List.map_id] at own
    rwa [own] at noNul
  · rw [lowered] at own
    refine ⟨noSlash_of_map_resolve (by decide) own, ?_⟩
    intro met
    rw [← own] at met
    rcases List.mem_map.mp met with ⟨c, among, low⟩
    rw [eq_iff_toNat, toNat_toLower] at low
    apply noNul
    have nul : c = '\x00' := by
      rw [eq_iff_toNat]
      split at low <;> simp_all
    rwa [nul] at among

theorem propertyName_length (name : Text) : (propertyName name).length = name.length := by
  rcases propertyName_eq_map name with same | same <;> rw [same, List.length_map]

/-- An identifier before a stop that is the property that it is read as is an own name. -/
theorem isOwnName_of_token {name rest : Text} {c : Char} {line : Nat} {token : Token}
    {more : List Token} (stop : isStop c = true)
    (tokens : tokenize line (name ++ c :: rest) = token :: more) (spelled : token.text = name)
    (kind : token.kind = .identifier) (own : propertyName token.name = name) :
    isOwnName name = true := by
  cases name with
  | nil =>
    have met : token ∈ tokenize line ([] ++ c :: rest) := tokens ▸ List.mem_cons_self
    exact absurd spelled (text_ne_nil_of_mem_tokenize met)
  | cons first tail =>
    rw [List.cons_append, tokenize_cons, List.cons.injEq] at tokens
    rcases tokens with ⟨rfl, -⟩
    rcases lexeme_identifier kind with ⟨starts, size⟩
    have resolved := own
    rw [Token.name, if_neg (by rw [kind]; decide), spelled] at resolved
    rcases plain_of_own resolved with ⟨noSlash, noNul⟩
    have positive := nameLength_pos starts
    have taken : (first :: (tail ++ c :: rest)).take (nameLength (first :: (tail ++ c :: rest))) =
        first :: tail := by
      obtain ⟨more, length⟩ := Nat.exists_eq_add_of_lt positive
      rw [← spelled, size, length, Nat.zero_add, List.take_succ_cons, Nat.add_sub_cancel]
    have chars := isNameChar_of_noSlash (taken ▸ noSlash)
    rw [taken] at chars
    rw [← List.cons_append, startsName_append _ (stopped_cons stop rest)] at starts
    have literal := resolve_literal chars noNul
    rw [literal] at resolved
    rw [isOwnName, isLiteralName, starts, resolved, beq_self_eq_true, Bool.and_true,
      Bool.true_and, List.all_eq_true]
    intro d met
    rw [Bool.and_eq_true, bne_iff_ne]
    refine ⟨chars d met, ?_⟩
    rintro rfl
    exact noNul met

end Swatch.Css
