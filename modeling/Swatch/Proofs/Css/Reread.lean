import Swatch.Proofs.Css.Kinds
import Swatch.Proofs.Css.Lookahead
import Swatch.Proofs.Css.NormalForm
import Swatch.Proofs.Css.Phrases

/-!
# Reading cleaned text again

What cleaning puts behind an atom begins with the same character as what stood there, or
with the space for a gap, or with nothing. The readers of tokens look no further than
that: characters of numbers and marks are copied, so they are found again, and where a
reader stopped at a character or a gap it stops again.
-/

namespace Swatch.Css

/-! ## What cleaning puts behind an atom -/

theorem afterAtom_of_noGap {text : Text} (atom : gapLength text = 0) :
    afterAtom text = cleanAtoms text := by
  rw [afterAtom, if_pos (.inl atom), skipGap_of_gapLength_eq_zero atom, List.nil_append]

theorem afterAtom_of_gap {text : Text} (gap : gapLength text ≠ 0) :
    afterAtom text = if skipGap text = [] then [] else ' ' :: cleanAtoms (skipGap text) := by
  rw [afterAtom]
  by_cases nothing : skipGap text = []
  · rw [if_pos (.inr nothing), if_pos nothing, nothing, cleanAtoms]
    rfl
  · rw [if_neg (not_or.mpr ⟨gap, nothing⟩), if_neg nothing]
    rfl

/-- An atom of one character is copied. -/
theorem afterAtom_cons {c : Char} {rest : Text} (atom : gapLength (c :: rest) = 0)
    (noQuote : isQuote c = false) (noSlash : c ≠ '\\') :
    afterAtom (c :: rest) = c :: afterAtom rest := by
  have alone : atomTailLength c rest = 0 := by
    rw [atomTailLength, noQuote, if_neg Bool.false_ne_true, if_neg (by simpa using noSlash)]
  rw [afterAtom_of_noGap atom, cleanAtoms_cons, alone]
  rfl

theorem afterAtom_cons_of_atom {c : Char} (atom : isAtom c = true) (rest : Text) :
    afterAtom (c :: rest) = c :: afterAtom rest := by
  rw [afterAtom_of_atom atom, cleanAtoms_cons_of_atom atom]

theorem afterAtom_append {word : Text} (atoms : ∀ c ∈ word, isAtom c = true) (rest : Text) :
    afterAtom (word ++ rest) = word ++ afterAtom rest := by
  induction word with
  | nil => rfl
  | cons c more ih =>
    rw [List.cons_append, afterAtom_cons_of_atom (atoms c List.mem_cons_self),
      ih fun other met => atoms other (List.mem_cons_of_mem _ met), List.cons_append]

/-- A backslash is copied with the character that it hides. -/
theorem afterAtom_escape (c : Char) (rest : Text) :
    afterAtom ('\\' :: c :: rest) = '\\' :: c :: afterAtom rest := by
  have atom : gapLength ('\\' :: c :: rest) = 0 :=
    gapLength_eq_zero_iff.mpr ⟨by decide, fun slash => absurd slash (by decide)⟩
  have two : atomTailLength '\\' (c :: rest) = 1 := by simp [atomTailLength, isQuote]
  rw [afterAtom_of_noGap atom, cleanAtoms_cons, two]
  rfl

theorem afterAtom_slash : afterAtom ['\\'] = ['\\'] := by
  have atom : gapLength ['\\'] = 0 := by decide
  rw [afterAtom_of_noGap atom, cleanAtoms_cons]
  simp [atomTailLength, isQuote, afterAtom_nil]

/-- Every character but the space is where it was. -/
theorem eq_cons_of_afterAtom {text more : Text} {c : Char} (found : afterAtom text = c :: more)
    (solid : c ≠ ' ') : ∃ rest, text = c :: rest ∧ gapLength (c :: rest) = 0 := by
  by_cases atom : gapLength text = 0
  · have head := head?_cleanAtoms text
    rw [← afterAtom_of_noGap atom, found, List.head?_cons] at head
    rcases List.head?_eq_some_iff.mp head.symm with ⟨rest, rfl⟩
    exact ⟨rest, rfl, atom⟩
  · rw [afterAtom_of_gap atom] at found
    split at found
    · contradiction
    · exact absurd (List.cons.inj found).1.symm solid

theorem head?_afterAtom_of_noGap {text : Text} (atom : gapLength text = 0) :
    (afterAtom text).head? = text.head? := by
  rw [afterAtom_of_noGap atom, head?_cleanAtoms]

theorem head?_ne_afterAtom {text : Text} {c : Char} (other : text.head? ≠ some c) (solid : c ≠ ' ') :
    (afterAtom text).head? ≠ some c := by
  intro same
  rcases List.head?_eq_some_iff.mp same with ⟨rest, found⟩
  rcases eq_cons_of_afterAtom found solid with ⟨before, rfl, -⟩
  exact other rfl

/-! ## Characters and marks -/

section Tests

variable {test : Char → Bool} (space : test ' ' = false) (atoms : ∀ c, test c = true → isAtom c = true)

include space

/-- A character that fails the test stays away. -/
theorem head?_any_afterAtom_of {text : Text} (outside : text.head?.any test = false) :
    (afterAtom text).head?.any test = false := by
  cases found : afterAtom text with
  | nil => rfl
  | cons c more =>
    by_cases blank : c = ' '
    · rw [blank]
      exact space
    · rcases eq_cons_of_afterAtom found blank with ⟨rest, rfl, -⟩
      exact outside

include atoms

theorem head?_any_afterAtom (text : Text) :
    (afterAtom text).head?.any test = text.head?.any test := by
  cases inside : text.head?.any test with
  | false => exact head?_any_afterAtom_of space inside
  | true =>
    cases text with
    | nil => contradiction
    | cons c rest =>
      rw [afterAtom_cons_of_atom (atoms c inside)]
      exact inside

theorem takeWhile_afterAtom (text : Text) :
    (afterAtom text).takeWhile test = text.takeWhile test := by
  induction text with
  | nil => rw [afterAtom_nil]
  | cons c rest ih =>
    by_cases inside : test c = true
    · rw [afterAtom_cons_of_atom (atoms c inside), List.takeWhile_cons_of_pos inside,
        List.takeWhile_cons_of_pos inside, ih]
    · rw [List.takeWhile_cons_of_neg inside]
      have here : (c :: rest).head?.any test = false := by simpa using inside
      have outside := head?_any_afterAtom_of space here
      cases found : afterAtom (c :: rest) with
      | nil => rfl
      | cons d more =>
        rw [found] at outside
        exact List.takeWhile_cons_of_neg (by simpa using outside)

end Tests

theorem head?_beq_afterAtom {mark : Char} (atom : isAtom mark = true) (text : Text) :
    ((afterAtom text).head? == some mark) = (text.head? == some mark) := by
  have head (text : Text) : (text.head? == some mark) = text.head?.any (· == mark) := by
    cases text <;> rfl
  rw [head, head, head?_any_afterAtom]
  · exact beq_eq_false_iff_ne.mpr fun same => by rw [← same] at atom; contradiction
  · intro c same
    rwa [eq_of_beq same]

theorem isPrefixOf_afterAtom {mark : Text} (atoms : ∀ c ∈ mark, isAtom c = true) (text : Text) :
    mark.isPrefixOf (afterAtom text) = mark.isPrefixOf text := by
  induction mark generalizing text with
  | nil => simp
  | cons m more ih =>
    have solid : isAtom m = true := atoms m List.mem_cons_self
    by_cases head : text.head? = some m
    · rcases List.head?_eq_some_iff.mp head with ⟨rest, rfl⟩
      rw [afterAtom_cons_of_atom solid, List.isPrefixOf, List.isPrefixOf,
        ih fun c met => atoms c (List.mem_cons_of_mem _ met)]
    · have other (text : Text) (head : text.head? ≠ some m) : (m :: more).isPrefixOf text = false := by
        cases text with
        | nil => rfl
        | cons c rest =>
          have differs : m ≠ c := fun same => head (by rw [same]; rfl)
          rw [List.isPrefixOf, beq_eq_false_iff_ne.mpr differs, Bool.false_and]
      rw [other text head, other]
      intro same
      rcases List.head?_eq_some_iff.mp same with ⟨rest, found⟩
      have noSpace : m ≠ ' ' := by
        rintro rfl
        contradiction
      rcases eq_cons_of_afterAtom found noSpace with ⟨before, rfl, -⟩
      exact head rfl

/-- A character of a name is copied by itself, unless it is white space. -/
theorem isAtom_of_nameChar {c : Char} (inName : isNameChar c = true) (seen : isWhite c = false) :
    isAtom c = true := by
  rw [isNameChar_iff] at inName
  rw [isAtom_iff, isQuote_iff, seen]
  exact ⟨by omega, by omega, by omega, Bool.false_ne_true⟩

theorem isAtom_of_digit {c : Char} (digit : c.isDigit = true) : isAtom c = true := by
  rw [isDigit_iff] at digit
  apply isAtom_of_nameChar
  · rw [isNameChar_iff]
    omega
  · rw [Bool.eq_false_iff, ne_eq, isWhite_iff]
    omega

/-! ## Numbers -/

/-- Some characters at the front are copied one by one. -/
def Solid (count : Nat) (text : Text) : Prop :=
  count ≤ text.length ∧ ∀ c ∈ text.take count, isAtom c = true

namespace Solid

variable {count : Nat} {text : Text}

theorem zero (text : Text) : Solid 0 text :=
  ⟨Nat.zero_le _, by simp⟩

theorem afterAtom_eq (solid : Solid count text) :
    afterAtom text = text.take count ++ afterAtom (text.drop count) := by
  conv => lhs; rw [← List.take_append_drop count text]
  exact afterAtom_append solid.2 _

theorem drop_afterAtom (solid : Solid count text) :
    (afterAtom text).drop count = afterAtom (text.drop count) := by
  rw [solid.afterAtom_eq, List.drop_left' (List.length_take_of_le solid.1)]

theorem add (solid : Solid count text) {more : Nat} (further : Solid more (text.drop count)) :
    Solid (count + more) text := by
  refine ⟨?_, ?_⟩
  · have := further.1
    rw [List.length_drop] at this
    have := solid.1
    omega
  · intro c met
    rw [List.take_add, List.mem_append] at met
    exact met.elim (solid.2 c) (further.2 c)

theorem one {c : Char} (atom : isAtom c = true) (rest : Text) : Solid 1 (c :: rest) :=
  ⟨Nat.le_add_left _ _, by simpa using atom⟩

theorem cons {c : Char} (atom : isAtom c = true) {rest : Text} (further : Solid count rest) :
    Solid (1 + count) (c :: rest) :=
  (one atom rest).add further

theorem digits (text : Text) : Solid (digitsLength text) text := by
  refine ⟨digitsLength_le text, fun c met => isAtom_of_digit ?_⟩
  rw [digitsLength, ← List.prefix_iff_eq_take.mp (List.takeWhile_prefix Char.isDigit)] at met
  exact List.mem_takeWhile_imp met

end Solid

theorem isAtom_of_sign {c : Char} (sign : (c == '+' || c == '-') = true) : isAtom c = true := by
  rw [Bool.or_eq_true, beq_iff_eq, beq_iff_eq] at sign
  rcases sign with rfl | rfl <;> rfl

theorem signLength_afterAtom (text : Text) : signLength (afterAtom text) = signLength text := by
  have eq (text : Text) :
      signLength text = if text.head?.any (fun c => c == '+' || c == '-') then 1 else 0 := by
    cases text <;> rfl
  rw [eq, eq, head?_any_afterAtom rfl fun c => isAtom_of_sign]

theorem Solid.sign (text : Text) : Solid (signLength text) text := by
  cases text with
  | nil => exact .zero []
  | cons c rest =>
    simp only [signLength]
    split
    · exact .one (isAtom_of_sign ‹_›) rest
    · exact .zero _

theorem startsDigit_afterAtom (text : Text) : startsDigit (afterAtom text) = startsDigit text := by
  have eq (text : Text) : startsDigit text = text.head?.any Char.isDigit := by
    cases text <;> rfl
  rw [eq, eq, head?_any_afterAtom rfl fun c => isAtom_of_digit]

theorem digitsLength_afterAtom (text : Text) : digitsLength (afterAtom text) = digitsLength text := by
  rw [digitsLength, takeWhile_afterAtom rfl fun c => isAtom_of_digit, digitsLength]

/-- A text that does not begin with a character is not made to begin with it. -/
theorem ne_cons_of_afterAtom {c : Char} {text : Text} (other : ∀ rest, text ≠ c :: rest)
    (solid : c ≠ ' ') (rest : Text) : afterAtom text ≠ c :: rest := by
  intro found
  rcases eq_cons_of_afterAtom found solid with ⟨before, same, -⟩
  exact other before same

theorem fractionLength_of_ne {text : Text} (other : ∀ rest, text ≠ '.' :: rest) :
    fractionLength text = 0 := by
  unfold fractionLength
  split
  · exact absurd rfl (other _)
  · rfl

theorem fractionLength_afterAtom (text : Text) :
    fractionLength (afterAtom text) = fractionLength text := by
  by_cases point : ∃ rest, text = '.' :: rest
  · rcases point with ⟨rest, rfl⟩
    rw [afterAtom_cons_of_atom rfl, fractionLength, fractionLength, startsDigit_afterAtom,
      digitsLength_afterAtom]
  · rw [not_exists] at point
    rw [fractionLength_of_ne point, fractionLength_of_ne (ne_cons_of_afterAtom point (by decide))]

theorem Solid.fraction (text : Text) : Solid (fractionLength text) text := by
  unfold fractionLength
  split
  · split
    · exact .cons rfl (.digits _)
    · exact .zero _
  · exact .zero _

theorem isAtom_of_exponent {c : Char} (letter : (c == 'e' || c == 'E') = true) : isAtom c = true := by
  rw [Bool.or_eq_true, beq_iff_eq, beq_iff_eq] at letter
  rcases letter with rfl | rfl <;> rfl

theorem exponentLength_of_not {text : Text}
    (other : text.head?.any (fun c => c == 'e' || c == 'E') = false) : exponentLength text = 0 := by
  cases text with
  | nil => rfl
  | cons c rest =>
    have noLetter : (c == 'e' || c == 'E') = false := other
    simp only [exponentLength, noLetter, Bool.false_and, Bool.false_eq_true, ↓reduceIte]

theorem exponentLength_afterAtom (text : Text) :
    exponentLength (afterAtom text) = exponentLength text := by
  cases letter : text.head?.any fun c => c == 'e' || c == 'E' with
  | false => rw [exponentLength_of_not letter, exponentLength_of_not (head?_any_afterAtom_of rfl letter)]
  | true =>
    cases text with
    | nil => contradiction
    | cons c rest =>
      rw [afterAtom_cons_of_atom (isAtom_of_exponent letter)]
      simp only [exponentLength, signLength_afterAtom, (Solid.sign rest).drop_afterAtom,
        startsDigit_afterAtom, digitsLength_afterAtom]

theorem Solid.exponent (text : Text) : Solid (exponentLength text) text := by
  cases text with
  | nil => exact .zero []
  | cons c rest =>
    simp only [exponentLength]
    split
    · rename_i found
      rw [Nat.add_assoc]
      exact .cons (isAtom_of_exponent (Bool.and_eq_true_iff.mp found).1)
        ((Solid.sign rest).add (.digits _))
    · exact .zero _

/-- The characters of a number are copied one by one. -/
theorem Solid.number (text : Text) : Solid (numberLength text) text := by
  have whole := (Solid.sign text).add (.digits _)
  have decimal := whole.add (.fraction _)
  exact decimal.add (.exponent _)

/-- A number is found again. -/
theorem numberLength_afterAtom (text : Text) : numberLength (afterAtom text) = numberLength text := by
  have sign := Solid.sign text
  have whole := sign.add (.digits _)
  have decimal := whole.add (.fraction _)
  simp only [numberLength, signLength_afterAtom, sign.drop_afterAtom, digitsLength_afterAtom,
    whole.drop_afterAtom, fractionLength_afterAtom, decimal.drop_afterAtom,
    exponentLength_afterAtom]

theorem startsUnsigned_of_ne {text : Text} (other : ∀ rest, text ≠ '.' :: rest) :
    startsUnsigned text = startsDigit text := by
  unfold startsUnsigned
  split
  · exact absurd rfl (other _)
  · rfl

theorem startsUnsigned_afterAtom (text : Text) :
    startsUnsigned (afterAtom text) = startsUnsigned text := by
  by_cases point : ∃ rest, text = '.' :: rest
  · rcases point with ⟨rest, rfl⟩
    rw [afterAtom_cons_of_atom rfl, startsUnsigned, startsUnsigned, startsDigit_afterAtom]
  · rw [not_exists] at point
    rw [startsUnsigned_of_ne point, startsUnsigned_of_ne (ne_cons_of_afterAtom point (by decide)),
      startsDigit_afterAtom]

theorem startsNumber_afterAtom (text : Text) : startsNumber (afterAtom text) = startsNumber text := by
  rw [startsNumber, signLength_afterAtom, (Solid.sign text).drop_afterAtom,
    startsUnsigned_afterAtom, startsNumber]

end Swatch.Css
