import Swatch.Proofs.Css.Gaps
import Swatch.Proofs.Css.NormalForm
import Swatch.Proofs.Css.Standing
import Swatch.Proofs.Outline

/-!
# Values that are a hash

A color is looked for in the cleaned text of a value. The tokens of the value say more:
they tell whether the value is one hash with the letters of the color, with nothing
beside it but blanks and comments. Every such value is accepted. A value that is accepted
is such a hash, unless one of its tokens holds white space that is no blank: cleaning
drops it, although it belongs to the hash or stands beside it.
-/

namespace Swatch

open Css

namespace Css

/-- The tokens of the value that mean something. -/
def SourceDeclaration.words (found : SourceDeclaration) : List Token :=
  found.value.filter fun token => !token.isGap

/-- The token is a hash with the letters of the color, in any letter case. -/
structure Token.IsHashOf (color : Color) (token : Token) : Prop where
  kind : token.kind = .hash
  spelled : ∃ letters, token.text = '#' :: letters ∧ sameLetters letters color.token = true

/-- The value is a hash with the letters of the color and nothing else. -/
def SourceDeclaration.IsHashOf (color : Color) (found : SourceDeclaration) : Prop :=
  ∃ token, found.words = [token] ∧ token.IsHashOf color

/-- No token of the value holds white space, except for the blanks and comments between them. -/
def SourceDeclaration.Seen (found : SourceDeclaration) : Prop :=
  ∀ token ∈ found.words, ∀ c ∈ token.text, isWhite c = false

/-! ## Letters -/

section Letters

variable {c : Char}

theorem isAlphanum_of_toLower (lowered : c.toLower.isAlphanum = true) : c.isAlphanum = true := by
  rw [isAlphanum_iff, toNat_toLower] at lowered
  rw [isAlphanum_iff]
  split at lowered <;> omega

theorem isAlphanum_toLower (alphanum : c.isAlphanum = true) : c.toLower.isAlphanum = true := by
  rw [isAlphanum_iff] at alphanum
  rw [isAlphanum_iff, toNat_toLower]
  split <;> omega

theorem isNameChar_of_alphanum (alphanum : c.isAlphanum = true) : isNameChar c = true := by
  rw [isAlphanum_iff] at alphanum
  rw [isNameChar_iff]
  omega

theorem isAtom_of_alphanum (alphanum : c.isAlphanum = true) : isAtom c = true := by
  rw [isAlphanum_iff] at alphanum
  rw [isAtom_iff, isQuote_iff, isWhite_iff]
  omega

end Letters

theorem isAlphanum_of_sameLetters {letters : Text} {color : Color}
    (same : sameLetters letters color.token = true) : ∀ c ∈ letters, c.isAlphanum = true := by
  rw [sameLetters, beq_iff_eq] at same
  intro c met
  have among : c.toLower ∈ lower color.token := by
    rw [← same]
    exact List.mem_map_of_mem met
  rcases List.mem_map.mp among with ⟨d, inside, lowered⟩
  apply isAlphanum_of_toLower
  rw [← lowered]
  exact isAlphanum_toLower (List.all_eq_true.mp color.token_alphanum d inside)

theorem ne_nil_of_sameLetters {letters : Text} {color : Color}
    (same : sameLetters letters color.token = true) : letters ≠ [] := by
  rintro rfl
  rw [sameLetters, beq_iff_eq] at same
  exact color.token_ne_nil (List.map_eq_nil_iff.mp same.symm)

/-! ## Hashes -/

theorem nameLength_append_chars {name : Text} (chars : ∀ c ∈ name, isNameChar c = true)
    (tail : Text) : nameLength (name ++ tail) = name.length + nameLength tail := by
  induction name with
  | nil => rw [List.nil_append, List.length_nil, Nat.zero_add]
  | cons c rest ih =>
    rw [List.cons_append, nameLength, if_pos (chars c List.mem_cons_self),
      ih fun other met => chars other (List.mem_cons_of_mem _ met), List.length_cons]
    omega

theorem lexeme_hash {rest : Text} (begins : startsHashName rest = true) :
    lexeme '#' rest = (.hash, 1 + nameLength rest) := by
  have noMark (mark : Text) (filled : mark ≠ []) (other : mark.head? ≠ some '#') :=
    isPrefixOf_of_head? filled other rest
  simp only [lexeme, punctuation, isBlank, isLineEnd, isQuote, begins,
    noMark "/*".toList (by decide) (by decide), noMark "<!--".toList (by decide) (by decide),
    noMark "-->".toList (by decide) (by decide)]
  rfl

theorem startsHashName_of_alphanum {letters : Text} (some : letters ≠ [])
    (alphanum : ∀ c ∈ letters, c.isAlphanum = true) (tail : Text) :
    startsHashName (letters ++ tail) = true := by
  cases letters with
  | nil => contradiction
  | cons c rest =>
    have first := (isAlphanum_iff c).mp (alphanum c List.mem_cons_self)
    rw [List.cons_append, startsHashName, Bool.or_eq_true, Bool.or_eq_true]
    by_cases digit : c.isDigit = true
    · exact .inl (.inr digit)
    · left
      left
      have starts : isNameStart c = true := by
        rw [isDigit_iff] at digit
        rw [isNameStart_iff]
        omega
      have noDash : c ≠ '-' := ne_of_class starts (by decide)
      simp [startsName, noDash, starts]

/-- A gap that begins with no white space begins with a comment. -/
theorem slash_of_gap {c : Char} {rest : Text} (skipped : skipGap (c :: rest) = [])
    (seen : isWhite c = false) : c = '/' := by
  by_contra noSlash
  have atom : gapLength (c :: rest) = 0 :=
    gapLength_eq_zero_iff.mpr ⟨seen, fun slash => absurd slash noSlash⟩
  rw [skipGap_of_gapLength_eq_zero atom] at skipped
  contradiction

variable {line : Nat} {text : Text} {token : Token} {value more back : List Token}

/-- A token that begins a hash ends where the gap behind its letters begins. -/
theorem hash_of_source {letters gap : Text} (tokens : tokenize line text = token :: (more ++ back))
    (spelled : source (token :: more) = '#' :: (letters ++ gap)) (some : letters ≠ [])
    (alphanum : ∀ c ∈ letters, c.isAlphanum = true) (skipped : skipGap gap = [])
    (seen : ∀ c ∈ token.text, isWhite c = false) :
    token.kind = .hash ∧ token.text = '#' :: letters ∧ source more = gap := by
  have whole : text = '#' :: (letters ++ (gap ++ source back)) := by
    rw [← source_tokenize line text, tokens, ← List.cons_append, source_append, spelled,
      List.cons_append, List.append_assoc]
  have size : nameLength (letters ++ (gap ++ source back)) =
      letters.length + nameLength (gap ++ source back) :=
    nameLength_append_chars (fun c met => isNameChar_of_alphanum (alphanum c met)) _
  rw [whole, tokenize_cons, lexeme_hash (startsHashName_of_alphanum some alphanum _), size,
    Nat.add_sub_cancel_left, List.take_length_add_append] at tokens
  rcases List.cons.inj tokens with ⟨rfl, -⟩
  simp only [source_cons, List.cons_append, List.append_assoc, List.cons.injEq, true_and,
    List.append_cancel_left_eq] at spelled
  have ends : nameLength (gap ++ source back) = 0 := by
    by_contra further
    rcases Nat.exists_eq_succ_of_ne_zero further with ⟨count, succ⟩
    cases gap with
    | nil =>
      cases behind : source back with
      | nil => exact further (by rw [behind, List.nil_append, nameLength])
      | cons c rest =>
        rw [behind] at succ
        rw [behind, List.nil_append, ← List.nil_append (c :: rest), succ] at spelled
        contradiction
    | cons c rest =>
      have met : c ∈ (c :: rest ++ source back).take (nameLength (c :: rest ++ source back)) := by
        rw [succ]
        exact List.mem_cons_self
      have slash := slash_of_gap skipped
        (seen c (List.mem_cons_of_mem _ (List.mem_append_right letters met)))
      subst slash
      rw [List.cons_append, nameLength] at further
      exact further rfl
  rw [ends, List.take_zero] at spelled ⊢
  rw [List.append_nil]
  exact ⟨rfl, rfl, spelled⟩

/-! ## Cleaned values -/

/-- What cleaning leaves of the text behind an atom shows the text up to a gap at its end. -/
theorem eq_append_of_afterAtom {letters white rest : Text}
    (atoms : ∀ c ∈ letters, isAtom c = true) (blanks : ∀ c ∈ white, isWhite c = true)
    (same : afterAtom rest = letters ++ white) : ∃ gap, rest = letters ++ gap ∧ skipGap gap = [] := by
  induction letters generalizing rest with
  | nil =>
    refine ⟨rest, rfl, ?_⟩
    cases found : skipGap rest with
    | nil => rfl
    | cons c more =>
      have atom := gapLength_skipGap rest
      rw [found] at atom
      have among : c ∈ afterAtom rest := by
        rw [afterAtom, found, cleanAtoms_cons]
        exact List.mem_append_right _ List.mem_cons_self
      rw [same] at among
      have notWhite := isWhite_of_gapLength atom
      rw [blanks c among] at notWhite
      exact absurd notWhite (by decide)
  | cons c letters ih =>
    have atom := atoms c List.mem_cons_self
    by_cases plain : gapLength rest = 0 ∨ skipGap rest = []
    · rw [afterAtom, if_pos plain, List.nil_append] at same
      have first := head?_cleanAtoms (skipGap rest)
      rw [same, List.cons_append, List.head?_cons] at first
      rcases List.head?_eq_some_iff.mp first.symm with ⟨more, begins⟩
      have stays : skipGap rest = rest := by
        rcases plain with none | ends
        · exact skipGap_of_gapLength_eq_zero none
        · rw [ends] at begins
          contradiction
      rw [begins, cleanAtoms_cons_of_atom atom, List.cons_append] at same
      rcases ih (fun d met => atoms d (List.mem_cons_of_mem _ met)) (List.cons.inj same).2 with
        ⟨gap, parts, skipped⟩
      exact ⟨gap, by rw [← stays, begins, parts]; rfl, skipped⟩
    · rw [afterAtom, if_neg plain] at same
      rw [← (List.cons.inj same).1] at atom
      contradiction

/-- The text of a value that is accepted begins with the hash, and a gap follows. -/
theorem source_of_accepted {source letters : Text} (seen : skipGap source = source)
    (alphanum : ∀ c ∈ letters, c.isAlphanum = true) (trimmed : trim (clean source) = '#' :: letters) :
    ∃ gap, source = '#' :: (letters ++ gap) ∧ skipGap gap = [] := by
  rcases trim_parts (clean source) with ⟨front, behind, parts, before, after⟩
  rw [trimmed] at parts
  cases front with
  | cons c rest =>
    have notWhite := isWhite_of_clean parts
    rw [before c List.mem_cons_self] at notWhite
    contradiction
  | nil =>
    rw [List.nil_append, clean, seen] at parts
    have first := head?_cleanAtoms source
    rw [parts, List.cons_append, List.head?_cons] at first
    rcases List.head?_eq_some_iff.mp first.symm with ⟨rest, begins⟩
    rw [begins, cleanAtoms_cons_of_atom (by decide), List.cons_append] at parts
    rcases eq_append_of_afterAtom (fun c met => isAtom_of_alphanum (alphanum c met)) after
      (List.cons.inj parts).2 with ⟨gap, rfl, skipped⟩
    exact ⟨gap, begins, skipped⟩

/-- A value that is read as the hash, without any other white space, consists of the hash. -/
theorem filter_of_accepted {letters : Text} (tokens : tokenize line text = value ++ back)
    (seen : ∀ token ∈ value, token.isGap = false → ∀ c ∈ token.text, isWhite c = false)
    (some : letters ≠ []) (alphanum : ∀ c ∈ letters, c.isAlphanum = true)
    (trimmed : trim (clean (source value)) = '#' :: letters) :
    ∃ token, value.filter (fun token => !token.isGap) = [token] ∧ token.kind = .hash ∧
      token.text = '#' :: letters := by
  have shown := skipGap_source_of_seen tokens seen
  have atom := gapLength_skipGap (source value)
  rw [shown] at atom
  have stays := skipGap_of_gapLength_eq_zero atom
  have trimmedHere : trim (clean (source (skipGaps value))) = '#' :: letters := by
    rwa [clean, stays, ← shown, ← clean]
  rcases source_of_accepted stays alphanum trimmedHere with ⟨gap, parts, skipped⟩
  -- Cleaning can only have dropped gaps, so the hash is the first token behind the gaps in
  -- front, and the tokens behind it make up a gap.
  cases found : skipGaps value with
  | nil =>
    rw [found] at parts
    contradiction
  | cons token more =>
    rcases skipGaps_eq_cons found with ⟨noGap, gaps, rfl, before⟩
    rcases tokenize_skipGaps tokens with ⟨later, rest, remaining⟩
    rw [found] at parts remaining
    rcases hash_of_source remaining parts some alphanum skipped
      (seen token (List.mem_append_right gaps List.mem_cons_self) noGap) with ⟨kind, spelled, behind⟩
    rcases tokenize_behind remaining with ⟨lineBehind, left, further⟩
    have after : ∀ other ∈ more, other.isGap = true := by
      apply isGap_of_skipGap_source further
      · exact fun other met => seen other (List.mem_append_right gaps (List.mem_cons_of_mem _ met))
      · rw [behind, skipped]
    refine ⟨token, ?_, kind, spelled⟩
    rw [List.filter_append, List.filter_cons_of_pos (by rw [noGap]; rfl),
      List.filter_eq_nil_iff.mpr fun gap met => by rw [before gap met]; exact Bool.false_ne_true,
      List.filter_eq_nil_iff.mpr fun gap met => by rw [after gap met]; exact Bool.false_ne_true,
      List.nil_append]

/-- A value that consists of a hash is read as the hash. -/
theorem clean_of_filter {letters : Text} {token : Token}
    (tokens : tokenize line text = value ++ back)
    (word : value.filter (fun token => !token.isGap) = [token])
    (spelled : token.text = '#' :: letters) (alphanum : ∀ c ∈ letters, c.isAlphanum = true) :
    clean (source value) = '#' :: letters := by
  rcases List.filter_eq_cons_iff.mp word with ⟨gaps, more, rfl, before, noGap, behind⟩
  rw [Bool.not_eq_true'] at noGap
  have passed : skipGaps (gaps ++ token :: more) = token :: more := by
    rw [skipGaps, List.dropWhile_append_of_pos,
      List.dropWhile_cons_of_neg (by rw [noGap]; exact Bool.false_ne_true)]
    exact fun gap met => by simpa using before gap met
  rcases tokenize_skipGaps tokens with ⟨later, rest, remaining⟩
  rw [passed] at remaining
  rcases tokenize_behind remaining with ⟨after, left, further⟩
  have skipped : skipGap (source more) = [] := by
    apply skipGap_source_of_gaps further
    exact fun gap met => by simpa using List.filter_eq_nil_iff.mp behind gap met
  have atom : gapLength ('#' :: (letters ++ source more)) = 0 :=
    gapLength_eq_zero_iff.mpr ⟨rfl, fun slash => absurd slash (by decide)⟩
  have word : cleanAtoms ('#' :: letters ++ source more) = '#' :: letters ++ afterAtom (source more) := by
    apply cleanAtoms_word (List.cons_ne_nil _ _)
    intro c met
    rcases List.mem_cons.mp met with rfl | inside
    · rfl
    · exact isAtom_of_alphanum (alphanum c inside)
  rw [clean, skipGap_source tokens, passed, source_cons, spelled, List.cons_append,
    skipGap_of_gapLength_eq_zero atom, ← List.cons_append, word, afterAtom, skipped, if_pos (.inr rfl),
    cleanAtoms, List.append_nil, List.append_nil]

/-! ## Declarations -/

variable {color : Color} {found : SourceDeclaration}

/-- The letters of a hash are accepted, and none of them is white space. -/
theorem SourceDeclaration.IsHashOf.accepted (isHash : found.IsHashOf color)
    (tokens : tokenize line text = found.value ++ back) :
    Criterion.exact.accepts found.text color = true ∧ found.Seen := by
  rcases isHash with ⟨token, words, -, letters, spelled, same⟩
  have alphanum := isAlphanum_of_sameLetters same
  have notWhite : ∀ c ∈ '#' :: letters, isWhite c = false := by
    intro c met
    rcases List.mem_cons.mp met with rfl | inside
    · rfl
    · have atom := isAtom_of_alphanum (alphanum c inside)
      simp only [isAtom, Bool.and_eq_true, Bool.not_eq_true'] at atom
      exact atom.2
  constructor
  · have cleaned : found.text = '#' :: letters := clean_of_filter tokens words spelled alphanum
    rw [cleaned, accepts_exact_hash (trim_of_seen notWhite)]
    exact same
  · intro other met c inside
    rw [words, List.mem_singleton] at met
    rw [met, spelled] at inside
    exact notWhite c inside

/-- A value without further white space that is accepted is the hash. -/
theorem isHashOf_of_accepted (tokens : tokenize line text = found.value ++ back)
    (accepted : Criterion.exact.accepts found.text color = true) (seen : found.Seen) :
    found.IsHashOf color := by
  have shape : ∃ letters, trim found.text = '#' :: letters ∧ sameLetters letters color.token = true := by
    simp only [Criterion.accepts] at accepted
    split at accepted
    · rename_i letters trimmed
      exact ⟨letters, trimmed, accepted⟩
    · contradiction
  rcases shape with ⟨letters, trimmed, same⟩
  have visible : ∀ token ∈ found.value, token.isGap = false → ∀ c ∈ token.text, isWhite c = false :=
    fun token met noGap => seen token (List.mem_filter.mpr ⟨met, by rw [noGap]; rfl⟩)
  rcases filter_of_accepted tokens visible (ne_nil_of_sameLetters same)
    (isAlphanum_of_sameLetters same) trimmed with ⟨token, words, kind, spelled⟩
  exact ⟨token, words, kind, letters, spelled, same⟩

/-- The tokens of a declaration that is kept are tokens of a text, with more tokens behind them. -/
theorem tokenize_value {rule : SourceRule} (kept : rule ∈ sourceRules text)
    (met : found ∈ rule.declarations) :
    ∃ line rest back, tokenize line rest = found.value ++ back := by
  rcases (stands_sourceRules text).of_mem (mem_declaredBy kept met) with ⟨-, -, front, back, parts⟩
  rw [List.append_assoc] at parts
  rcases tokenize_split parts.symm with ⟨rest, -, remaining⟩
  exact ⟨_, rest, back, remaining.symm⟩

end Css

theorem exists_use_iff {color : Color} {criterion : Criterion} {rule : Rule}
    {declared : Declaration} :
    (∃ use, Use.of? color criterion rule declared = some use) ↔
      Property.carriesColor declared.property = true ∧
        criterion.accepts declared.value color = true := by
  rw [← Bool.and_eq_true]
  cases holds : Palette.isMatch color criterion (rule, declared) with
  | true =>
    rw [Palette.use_of_match holds]
    exact iff_of_true ⟨_, rfl⟩ holds
  | false =>
    rw [Palette.use_of_not_match holds]
    refine iff_of_false nofun fun both => ?_
    rw [Palette.isMatch, both] at holds
    contradiction

/--
A declaration that is kept has a property for colors and the hash of the color as its value, if
and only if it counts as a use of the color and no token of its value holds white space.
-/
theorem hash_iff_use {text : Text} {color : Color} {rule : SourceRule}
    {found : SourceDeclaration} (kept : rule ∈ sourceRules text) (met : found ∈ rule.declarations) :
    (Property.carriesColor found.declaration.property = true ∧ found.IsHashOf color) ↔
      (∃ use, Use.of? color .exact rule.rule found.declaration = some use) ∧ found.Seen := by
  rcases tokenize_value kept met with ⟨line, rest, back, tokens⟩
  rw [exists_use_iff, and_assoc]
  apply and_congr_right
  intro _
  constructor
  · intro isHash
    exact isHash.accepted tokens
  · rintro ⟨accepted, seen⟩
    exact isHashOf_of_accepted tokens accepted seen

/-- A hash between comments is found although its letters are in the other case. -/
theorem hash_iff_use_commented :
    let text := ".a\x7bcolor: /*x*/ #FFF !important\x7d".toList
    let color : Color := ⟨"fff".toList, by decide, by decide⟩
    ∃ rule ∈ sourceRules text, ∃ found ∈ rule.declarations,
      Property.carriesColor found.declaration.property = true ∧ found.IsHashOf color := by
  intro text color
  let found : SourceDeclaration :=
    ⟨⟨.identifier, "color".toList, 1⟩,
      [⟨.blank, [' '], 1⟩, ⟨.comment, "/*x*/".toList, 1⟩, ⟨.blank, [' '], 1⟩,
        ⟨.hash, "#FFF".toList, 1⟩], true⟩
  let rule : SourceRule := ⟨[[⟨.delimiter, ['.'], 1⟩, ⟨.identifier, ['a'], 1⟩]], [found]⟩
  have kept : rule ∈ sourceRules text := by decide +kernel
  have met : found ∈ rule.declarations := List.mem_cons_self
  have used : (Use.of? color .exact rule.rule found.declaration).isSome = true := by decide +kernel
  have seen : ∀ token ∈ found.words, ∀ c ∈ token.text, isWhite c = false := by
    have none : found.words.all (fun token => token.text.all fun c => !isWhite c) = true := by
      decide +kernel
    intro token among c inside
    have here := List.all_eq_true.mp (List.all_eq_true.mp none token among) c inside
    rwa [Bool.not_eq_true'] at here
  exact ⟨rule, kept, found, met, (hash_iff_use kept met).mpr ⟨Option.isSome_iff_exists.mp used, seen⟩⟩

/-- A wide space belongs to the hash that it follows, and cleaning drops it all the same. -/
theorem wide_space_counts_as_use :
    let text := ".a\x7bcolor:#fff\u00a0\x7d".toList
    let color : Color := ⟨"fff".toList, by decide, by decide⟩
    ∃ rule ∈ sourceRules text, ∃ found ∈ rule.declarations,
      (∃ use, Use.of? color .exact rule.rule found.declaration = some use) ∧
        ¬found.IsHashOf color := by
  intro text color
  let found : SourceDeclaration :=
    ⟨⟨.identifier, "color".toList, 1⟩, [⟨.hash, "#fff\u00a0".toList, 1⟩], false⟩
  let rule : SourceRule := ⟨[[⟨.delimiter, ['.'], 1⟩, ⟨.identifier, ['a'], 1⟩]], [found]⟩
  have kept : rule ∈ sourceRules text := by decide +kernel
  have used : (Use.of? color .exact rule.rule found.declaration).isSome = true := by decide +kernel
  refine ⟨rule, kept, found, List.mem_cons_self, Option.isSome_iff_exists.mp used, ?_⟩
  rintro ⟨token, words, -, letters, spelled, same⟩
  have only : found.words = [⟨.hash, "#fff\u00a0".toList, 1⟩] := by decide
  rw [only] at words
  cases words
  cases spelled
  exact absurd same (by decide)

end Swatch
