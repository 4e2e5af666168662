import Swatch.Proofs.Css.Cleaned
import Swatch.Proofs.Css.Parts

/-!
# How much a text holds

The ink of a text is the number of its characters that are seen, apart from
semicolons and closing curly brackets, which may be missing at the end of a text
or stand where nothing has to be ended. Reading never finds more than was
written: the ink of the rules that are read is at most the ink of the text. Where
the two are equal nothing was lost, and what was read tells how the text was
spelled.
-/

namespace Swatch.Css

/-- Is the character seen, and needed wherever it stands? -/
def isInk (c : Char) : Bool :=
  !isWhite c && c != ';' && c != '\x7d'

/-- The amount of ink in a text. -/
def ink (text : Text) : Nat :=
  text.countP isInk

/-- The characters that are seen. -/
def visible (text : Text) : Text :=
  text.filter fun c => !isWhite c

@[simp]
theorem ink_nil : ink [] = 0 := rfl

@[simp]
theorem ink_append (front back : Text) : ink (front ++ back) = ink front + ink back :=
  List.countP_append

theorem ink_cons (c : Char) (text : Text) : ink (c :: text) = ink [c] + ink text :=
  ink_append [c] text

theorem ink_of_white {text : Text} (white : ∀ c ∈ text, isWhite c = true) : ink text = 0 := by
  apply List.countP_eq_zero.mpr
  intro c met
  simp [isInk, white c met]

theorem ink_of_blank {text : Text} (blanks : ∀ c ∈ text, isBlank c = true) : ink text = 0 :=
  ink_of_white fun c met => isWhite_of_blank (blanks c met)

theorem visible_append (front back : Text) :
    visible (front ++ back) = visible front ++ visible back :=
  List.filter_append front back

theorem visible_cons_of_white {c : Char} (white : isWhite c = true) (text : Text) :
    visible (c :: text) = visible text :=
  List.filter_cons_of_neg (by rw [white]; decide)

theorem visible_of_white {text : Text} (white : ∀ c ∈ text, isWhite c = true) :
    visible text = [] := by
  apply List.filter_eq_nil_iff.mpr
  intro c met
  simp [white c met]

/-- White space holds no ink. -/
theorem ink_visible (text : Text) : ink (visible text) = ink text := by
  rw [ink, visible, List.countP_filter, ink]
  apply List.countP_congr
  intro c _
  simp only [isInk, Bool.and_eq_true]
  constructor
  · rintro ⟨inked, -⟩
    exact inked
  · intro inked
    exact ⟨inked, inked.1.1⟩

theorem ink_eq_of_visible_eq {left right : Text} (same : visible left = visible right) :
    ink left = ink right := by
  rw [← ink_visible left, same, ink_visible]

/-- Two marks with the same number of such characters before them are the same mark. -/
theorem eq_of_countP_eq {test : Char → Bool} {left right back rest : Text} {c d : Char}
    (same : left ++ c :: back = right ++ d :: rest) (first : test c = true)
    (second : test d = true) (counts : left.countP test = right.countP test) :
    left = right ∧ c = d ∧ back = rest := by
  rcases List.append_eq_append_iff.mp same with ⟨between, longer, later⟩ | ⟨between, longer, later⟩
  · cases between with
    | nil =>
      rw [List.append_nil] at longer
      rw [List.nil_append, List.cons.injEq] at later
      exact ⟨longer.symm, later⟩
    | cons other more =>
      rw [List.cons_append, List.cons.injEq] at later
      rw [longer, List.countP_append, List.countP_cons, ← later.1, first] at counts
      simp at counts
  · cases between with
    | nil =>
      rw [List.append_nil] at longer
      rw [List.nil_append, List.cons.injEq] at later
      exact ⟨longer, later.1.symm, later.2.symm⟩
    | cons other more =>
      rw [List.cons_append, List.cons.injEq] at later
      rw [longer, List.countP_append, List.countP_cons, ← later.1, second] at counts
      simp at counts

/-! ## Texts that fade -/

/-- From the text before to the text after, only white space changes or ink is lost. -/
def Fades (before after : Text) : Prop :=
  visible after = visible before ∨ ink after < ink before

namespace Fades

variable {first second third fourth : Text}

theorem refl (text : Text) : Fades text text :=
  .inl rfl

theorem ink_le (fades : Fades first second) : ink second ≤ ink first := by
  rcases fades with same | less
  · exact Nat.le_of_eq (ink_eq_of_visible_eq same)
  · exact Nat.le_of_lt less

/-- When no ink is lost, only white space has changed. -/
theorem visible_eq (fades : Fades first second) (kept : ink second = ink first) :
    visible second = visible first := by
  rcases fades with same | less
  · exact same
  · omega

theorem trans (fades : Fades first second) (further : Fades second third) :
    Fades first third := by
  by_cases kept : ink third = ink first
  · have here := fades.ink_le
    have there := further.ink_le
    exact .inl ((further.visible_eq (by omega)).trans (fades.visible_eq (by omega)))
  · have here := fades.ink_le
    have there := further.ink_le
    exact .inr (by omega)

theorem append (fades : Fades first second) (others : Fades third fourth) :
    Fades (first ++ third) (second ++ fourth) := by
  have here := fades.ink_le
  have there := others.ink_le
  by_cases kept : ink (second ++ fourth) = ink (first ++ third)
  · rw [ink_append, ink_append] at kept
    left
    rw [visible_append, visible_append, fades.visible_eq (by omega), others.visible_eq (by omega)]
  · right
    rw [ink_append, ink_append] at kept ⊢
    omega

theorem of_white (white : ∀ c ∈ first, isWhite c = true) : Fades first [] :=
  .inl (visible_of_white white).symm

end Fades

theorem fades_skipGap (text : Text) : Fades text (skipGap text) := by
  fun_induction skipGap text with
  | case1 => exact Fades.refl _
  | case2 => exact Fades.refl _
  | case3 c rest further gap ih =>
    unfold gapLength at gap
    split at gap
    · rename_i more same
      obtain ⟨rfl, rfl⟩ := List.cons.inj same
      right
      have lost := ih.ink_le
      have part : ink (more.drop (1 + commentTailLength more - 1)) ≤ ink more :=
        List.Sublist.countP_le (List.drop_sublist _ _)
      have size : further = 1 + commentTailLength more := by omega
      subst size
      rw [show 1 + commentTailLength more = (1 + commentTailLength more - 1) + 1 by omega,
        List.drop_succ_cons] at lost ⊢
      rw [ink_cons '/', ink_cons '*', show ink ['/'] = 1 from rfl, show ink ['*'] = 1 from rfl]
      omega
    · rename_i same
      obtain ⟨rfl, rfl⟩ := List.cons.inj same
      by_cases white : isWhite c = true
      · rw [if_pos white] at gap
        have none : further = 0 := by omega
        subst none
        have dropped : Fades [c] [] := Fades.of_white (by simpa using white)
        exact dropped.append ih
      · rw [if_neg white] at gap
        contradiction
    · contradiction

theorem fades_cleanAtoms (text : Text) : Fades text (cleanAtoms text) := by
  fun_induction cleanAtoms text with
  | case1 => exact Fades.refl _
  | case2 first rest tail more next space ih =>
    have atom := Fades.refl (first :: rest.take tail)
    have gap : Fades more (space ++ cleanAtoms next) := by
      have spaces : ∀ c ∈ space, isWhite c = true := by
        intro c met
        simp only [space] at met
        split at met
        · cases met
        · rw [List.mem_singleton.mp met]
          rfl
      have added : Fades [] space := .inl (visible_of_white spaces)
      exact added.append ((fades_skipGap more).trans ih)
    have together := atom.append gap
    rw [List.cons_append, List.take_append_drop, ← List.append_assoc] at together
    exact together

/-- Cleaning changes only white space, or loses ink. -/
theorem fades_clean (text : Text) : Fades text (clean text) :=
  (fades_skipGap text).trans (fades_cleanAtoms _)

/-! ## Names -/

theorem isInk_toLower (c : Char) : isInk c.toLower = isInk c := by
  by_cases capital : 65 ≤ c.toNat ∧ c.toNat ≤ 90
  · have letter (d : Char) (range : 65 ≤ d.toNat ∧ d.toNat ≤ 90 ∨ 97 ≤ d.toNat ∧ d.toNat ≤ 122) :
        isInk d = true := by
      have notWhite : isWhite d = false := by
        rw [Bool.eq_false_iff, ne_eq, isWhite_iff]
        omega
      rw [isInk, notWhite, Bool.and_eq_true, Bool.and_eq_true, bne_iff_ne, bne_iff_ne, ne_eq,
        ne_eq, eq_iff_toNat, eq_iff_toNat, show ';'.toNat = 59 from rfl,
        show '\x7d'.toNat = 125 from rfl]
      exact ⟨⟨rfl, by omega⟩, by omega⟩
    have lowered := toNat_toLower c
    rw [if_pos capital] at lowered
    rw [letter c (.inl capital), letter c.toLower (.inr (by omega))]
  · rw [toLower_of_small (by omega)]

theorem ink_lower (text : Text) : ink (lower text) = ink text := by
  rw [ink, lower, List.countP_map, ink]
  exact List.countP_congr fun c _ => by rw [Function.comp_apply, isInk_toLower]

theorem ink_propertyName (name : Text) : ink (propertyName name) = ink name := by
  unfold propertyName
  split
  · rfl
  · exact ink_lower name

/-- A name stands for no more than it is spelled with. -/
theorem ink_resolve_le (name : Text) : ink (resolve name) ≤ ink name := by
  fun_induction resolve name with
  | case1 => exact Nat.le_refl 0
  | case2 c rest slash ih =>
    rw [beq_iff_eq] at slash
    subst slash
    have one : ink [escapeValue rest] ≤ 1 := List.countP_le_length
    have part : ink (rest.drop (escapeLength rest)) ≤ ink rest :=
      (List.drop_sublist _ _).countP_le
    rw [ink_cons (escapeValue rest), ink_cons '\\', show ink ['\\'] = 1 from rfl]
    omega
  | case3 c rest other ih =>
    have same : ink [withoutNul c] = ink [c] := by
      by_cases nul : c = '\x00'
      · subst nul
        rfl
      · rw [withoutNul, if_neg (by simpa using nul)]
    rw [ink_cons (withoutNul c), ink_cons c, same]
    omega

/-! ## Tokens -/

theorem ink_le_of_mem {c : Char} (inked : isInk c = true) {text : Text} (met : c ∈ text) :
    0 < ink text :=
  List.countP_pos_iff.mpr ⟨c, met, inked⟩

namespace Token.Spelled

variable {token : Token}

theorem ink_pos (spelled : token.Spelled) {first : Char} (inked : isInk first = true)
    (begins : ∀ other length, Spells other length token.kind → other = first) :
    0 < ink token.text := by
  rcases spelled.begins with ⟨other, tail, same, spells⟩
  apply ink_le_of_mem inked
  rw [same, begins other _ spells]
  exact List.mem_cons_self

theorem ink_keyword_pos (spelled : token.Spelled) (keyword : token.kind = .atKeyword) :
    0 < ink token.text :=
  spelled.ink_pos (show isInk '@' = true from rfl) fun other _ spells => by
    rwa [keyword] at spells

theorem fades_gap (spelled : token.Spelled) (gap : token.isGap = true) : Fades token.text [] := by
  rw [Token.isGap, Bool.or_eq_true, beq_iff_eq, beq_iff_eq] at gap
  rcases gap with blank | comment
  · exact Fades.of_white fun c met => isWhite_of_blank (spelled.blank blank c met)
  · right
    exact spelled.ink_pos (show isInk '/' = true from rfl) fun other _ spells => by rwa [comment] at spells

theorem blank_of_between (spelled : token.Spelled) (between : isBetweenRules token = true)
    (empty : ink token.text = 0) : token.kind = .blank := by
  have seen {first : Char} (inked : isInk first = true)
      (begins : ∀ other length, Spells other length token.kind → other = first) : False := by
    have := spelled.ink_pos inked begins
    omega
  rw [isBetweenRules, Token.isGap, Bool.or_eq_true, Bool.or_eq_true, Bool.or_eq_true, beq_iff_eq,
    beq_iff_eq, beq_iff_eq, beq_iff_eq] at between
  rcases between with ((blank | comment) | opens) | closes
  · exact blank
  · exact (seen (show isInk '/' = true from rfl) fun _ _ spells => by rwa [comment] at spells).elim
  · exact (seen (show isInk '<' = true from rfl) fun _ _ spells => by rwa [opens] at spells).elim
  · exact (seen (show isInk '-' = true from rfl) fun _ _ spells => by rwa [closes] at spells).elim

end Token.Spelled

theorem fades_gaps {gaps : List Token} (spelled : ∀ token ∈ gaps, token.Spelled)
    (each : ∀ token ∈ gaps, token.isGap = true) : Fades (source gaps) [] := by
  induction gaps with
  | nil => exact Fades.refl _
  | cons token rest ih =>
    have here := (spelled token List.mem_cons_self).fades_gap (each token List.mem_cons_self)
    exact here.append (ih (fun other met => spelled other (List.mem_cons_of_mem _ met))
      fun other met => each other (List.mem_cons_of_mem _ met))

end Swatch.Css
