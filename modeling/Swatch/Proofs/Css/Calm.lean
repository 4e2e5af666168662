import Swatch.Proofs.Css.Parts

/-!
# Calm texts

A calm text is written with letters, digits and a few marks that neither open
anything nor hide anything. Its tokens are names, numbers, hashes, blanks,
commas and single characters. None of them reaches over the end of the text when
a halt follows, so a calm text is whole as long as no test minds its tokens.
-/

namespace Swatch.Css

/-- The characters of calm texts. -/
def isCalm (c : Char) : Bool :=
  c.isAlphanum || " .#*%_-,!".toList.contains c

theorem isCalm_iff (c : Char) :
    isCalm c = true ↔ 65 ≤ c.toNat ∧ c.toNat ≤ 90 ∨ 97 ≤ c.toNat ∧ c.toNat ≤ 122 ∨
      48 ≤ c.toNat ∧ c.toNat ≤ 57 ∨ c.toNat = 32 ∨ c.toNat = 46 ∨ c.toNat = 35 ∨
      c.toNat = 42 ∨ c.toNat = 37 ∨ c.toNat = 95 ∨ c.toNat = 45 ∨ c.toNat = 44 ∨
      c.toNat = 33 := by
  have marks : " .#*%_-,!".toList = [' ', '.', '#', '*', '%', '_', '-', ',', '!'] := rfl
  rw [isCalm, marks]
  simp only [Bool.or_eq_true, isAlphanum_iff, List.contains_cons, List.contains_nil, Bool.or_false,
    beq_iff_eq, eq_iff_toNat]
  simp only [Char.reduceToNat]
  omega

/-- The kinds of the tokens of calm texts. -/
def TokenKind.isCalm : TokenKind → Bool
  | .blank | .identifier | .hash | .number | .percentage | .dimension | .comma | .delimiter => true
  | _ => false

section Lexeme

variable {c first : Char} {text tail : Text}

theorem isQuote_of_calm (calm : isCalm c = true) : isQuote c = false := by
  rw [isCalm_iff] at calm
  rw [Bool.eq_false_iff, ne_eq, isQuote_iff]
  omega

theorem punctuation_of_calm (calm : isCalm c = true) (other : c ≠ ',') : punctuation c = none := by
  unfold punctuation
  split <;> first | rfl | contradiction

theorem startsName_append_plain (noSlash : '\\' ∉ text) (halted : Halted tail) :
    startsName (text ++ tail) = startsName text := by
  cases text with
  | nil =>
    cases tail with
    | nil => rfl
    | cons c rest =>
      have noDash : c ≠ '-' := ne_of_halt halted _ (by decide)
      have noSlash : c ≠ '\\' := ne_of_halt halted _ (by decide)
      simp [startsName, startsEscape, noDash, noSlash, isNameStart_of_halt halted]
  | cons first rest =>
    have noEscape : first ≠ '\\' := fun same => noSlash (same ▸ List.mem_cons_self)
    by_cases dash : first = '-'
    · subst dash
      cases rest with
      | cons second rest => rfl
      | nil =>
        cases tail with
        | nil => rfl
        | cons c rest =>
          have noDash : c ≠ '-' := ne_of_halt halted _ (by decide)
          have noSlash : c ≠ '\\' := ne_of_halt halted _ (by decide)
          have noStart : isNameStart '-' = false := by decide
          simp [startsName, startsEscape, noDash, noSlash, isNameStart_of_halt halted, noStart]
    · simp [startsName, dash, startsEscape, noEscape]

theorem startsHashName_append_plain (noSlash : '\\' ∉ text) (halted : Halted tail) :
    startsHashName (text ++ tail) = startsHashName text := by
  have name := startsName_append_plain noSlash halted
  cases text with
  | nil =>
    cases tail with
    | nil => rfl
    | cons c rest =>
      have noDash : c ≠ '-' := ne_of_halt halted _ (by decide)
      rw [List.nil_append] at name
      simp only [List.nil_append, startsHashName, name]
      simp [startsName, noDash, isDigit_of_halt halted]
  | cons first rest =>
    simp only [List.cons_append] at name ⊢
    simp only [startsHashName, name]

theorem nameLength_plain_le (noSlash : '\\' ∉ text) (halted : Halted tail) :
    nameLength (text ++ tail) = nameLength text ∧ nameLength text ≤ text.length := by
  have alone := nameLength_plain noSlash (show Halted [] from trivial)
  rw [List.append_nil] at alone
  exact ⟨(nameLength_plain noSlash halted).trans alone.symm, nameLength_le text⟩

theorem numeric_append_plain (noSlash : '\\' ∉ text) (halted : Halted tail) :
    numeric (text ++ tail) = numeric text ∧
      (startsNumber text = true → (numeric text).2 ≤ text.length) := by
  have within := (numberLength_parts text).2.2.2
  have left : '\\' ∉ text.drop (numberLength text) := fun met =>
    noSlash (List.mem_of_mem_drop met)
  have unit := nameLength_plain_le left halted
  have percent : ((text.drop (numberLength text) ++ tail).head? == some '%') =
      ((text.drop (numberLength text)).head? == some '%') :=
    head?_append_headed _ halted (by decide)
  constructor
  · simp only [numeric, numberLength_append text halted, List.drop_append_of_le_length within,
      percent, startsName_append_plain left halted, unit.1]
  · intro _
    have room := List.length_drop (i := numberLength text) (l := text)
    simp only [numeric]
    split
    · rename_i marked
      cases rest : text.drop (numberLength text) with
      | nil => simp [rest] at marked
      | cons c more =>
        rw [rest, List.length_cons] at room
        simp only
        omega
    · split
      · have := unit.2
        simp only
        omega
      · exact within

theorem named_calm (calm : ∀ c ∈ text, isCalm c = true) (halted : Halted tail) :
    named (text ++ tail) = (.identifier, nameLength text) := by
  have noSlash : '\\' ∉ text := fun met => absurd (calm _ met) (by decide)
  have size := nameLength_plain_le noSlash halted
  have noBracket : ∀ rest, (text.drop (nameLength text) ++ tail) ≠ '(' :: rest := by
    intro rest same
    cases left : text.drop (nameLength text) with
    | nil =>
      rw [left, List.nil_append] at same
      subst same
      exact ne_of_halt halted '(' (by decide) rfl
    | cons c more =>
      rw [left, List.cons_append] at same
      have among : c ∈ text := List.mem_of_mem_drop (left ▸ List.mem_cons_self)
      rw [(List.cons.inj same).1] at among
      exact absurd (calm _ among) (by decide)
  rw [named, size.1, List.drop_append_of_le_length size.2]
  split
  · rename_i rest same
    exact absurd same (noBracket rest)
  · rfl

theorem isPrefixOf_calm (calm : ∀ c ∈ text, isCalm c = true) (halted : Halted tail) (mark : Text)
    {other : Char} {index : Nat} (stands : mark[index]? = some other)
    (outside : isCalm other = false) (noHalt : mark.all (fun c => !isHalt c) = true) :
    mark.isPrefixOf (text ++ tail) = false := by
  rw [isPrefixOf_append mark noHalt text halted, Bool.eq_false_iff]
  intro begins
  have among : other ∈ text :=
    (List.isPrefixOf_iff_prefix.mp begins).subset (List.mem_of_getElem? stands)
  rw [calm _ among] at outside
  contradiction

theorem not_mem_of_calm (calm : ∀ c ∈ text, isCalm c = true) {other : Char}
    (outside : isCalm other = false) : other ∉ text := by
  intro among
  rw [calm _ among] at outside
  contradiction

/-- The token at the front of a calm text, when the blanks behind the first character are known. -/
def calmLexeme (first : Char) (text : Text) (blanks : Nat) : TokenKind × Nat :=
  match punctuation first with
  | some kind => (kind, 1)
  | none =>
    if isBlank first then (.blank, 1 + blanks)
    else if startsNumber (first :: text) then numeric (first :: text)
    else if startsName (first :: text) then (.identifier, nameLength (first :: text))
    else if first == '#' && startsHashName text then (.hash, 1 + nameLength text)
    else (.delimiter, 1)

/-- The token at the front of a calm text sees at most the blanks that follow the text. -/
theorem lexeme_calm (calm : ∀ c ∈ first :: text, isCalm c = true) (halted : Halted tail) :
    lexeme first (text ++ tail) = calmLexeme first text (blankLength (text ++ tail)) := by
  have here := calm first List.mem_cons_self
  have later : ∀ c ∈ text, isCalm c = true := fun c met => calm c (List.mem_cons_of_mem _ met)
  have noSlash : '\\' ∉ text := not_mem_of_calm later (by decide)
  have noSlashes : '\\' ∉ first :: text := not_mem_of_calm calm (by decide)
  have mark (mark : Text) {other : Char} {index : Nat} (stands : mark[index]? = some other)
      (outside : isCalm other = false) (noHalt : mark.all (fun c => !isHalt c) = true) :
      mark.isPrefixOf (first :: (text ++ tail)) = false :=
    isPrefixOf_calm calm halted mark stands outside noHalt
  have comment := mark "/*".toList (show "/*".toList[0]? = some '/' from rfl) rfl rfl
  have shows := mark "-->".toList (show "-->".toList[2]? = some '>' from rfl) rfl rfl
  have hides : "<!--".toList.isPrefixOf (first :: (text ++ tail)) = false := by
    have other : ('<' == first) = false :=
      beq_eq_false_iff_ne.mpr fun same => absurd (same ▸ here) (by decide)
    rw [show "<!--".toList = ['<', '!', '-', '-'] from rfl, List.isPrefixOf, other]
    rfl
  have numbers := startsNumber_append (first :: text) halted
  have names := startsName_append_plain noSlashes halted
  have number := (numeric_append_plain noSlashes halted).1
  have identifier := named_calm calm halted
  have noEquals : ((text ++ tail).head? == some '=') = false := by
    rw [head?_append_headed text halted (by decide)]
    cases text with
    | nil => rfl
    | cons c more =>
      have other : c ≠ '=' := fun same => absurd (same ▸ later c List.mem_cons_self) (by decide)
      simpa using other
  have noKeyword : (first == '@') = false :=
    beq_eq_false_iff_ne.mpr fun same => absurd (same ▸ here) (by decide)
  rw [List.cons_append] at numbers names number identifier
  rw [lexeme, calmLexeme]
  cases punctuation first with
  | some kind => rfl
  | none =>
    simp only [isQuote_of_calm here, comment, hides, shows, numbers, names, number, identifier,
      startsHashName_append_plain noSlash halted, (nameLength_plain_le noSlash halted).1, noKeyword,
      noEquals, Bool.false_and, Bool.and_false, Bool.false_eq_true, ↓reduceIte]

/-- The token stays in the text, and it is of a calm kind. -/
theorem calmLexeme_spec (calm : ∀ c ∈ first :: text, isCalm c = true) :
    (calmLexeme first text (blankLength text)).2 ≤ text.length + 1 ∧
      (calmLexeme first text (blankLength text)).1.isCalm = true ∧
      ((calmLexeme first text (blankLength text)).1 = .comma → first = ',') ∧
      ((calmLexeme first text (blankLength text)).1 = .blank → isBlank first = true) := by
  have here := calm first List.mem_cons_self
  have noSlashes : '\\' ∉ first :: text := not_mem_of_calm calm (by decide)
  have other {found : TokenKind × Nat} (fits : found.2 ≤ text.length + 1)
      (kind : found.1.isCalm = true) (noComma : found.1 ≠ .comma) (noBlank : found.1 ≠ .blank) :
      found.2 ≤ text.length + 1 ∧ found.1.isCalm = true ∧ (found.1 = .comma → first = ',') ∧
        (found.1 = .blank → isBlank first = true) :=
    ⟨fits, kind, fun comma => absurd comma noComma, fun blank => absurd blank noBlank⟩
  by_cases comma : first = ','
  · subst comma
    exact ⟨Nat.succ_le_succ (Nat.zero_le _), rfl, fun _ => rfl, by rintro ⟨⟩⟩
  rw [calmLexeme, punctuation_of_calm here comma]
  simp only
  by_cases blank : isBlank first = true
  · have within := blankLength_le text
    rw [if_pos blank]
    exact ⟨by simp only; omega, rfl, by rintro ⟨⟩, fun _ => blank⟩
  rw [if_neg blank]
  by_cases begins : startsNumber (first :: text) = true
  · have within := (numeric_append_plain noSlashes (show Halted [] from trivial)).2 begins
    rw [if_pos begins]
    refine other within ?_ ?_ ?_
    all_goals rcases numeric_kind (first :: text) with same | same | same <;> rw [same] <;> decide
  rw [if_neg begins]
  by_cases named : startsName (first :: text) = true
  · rw [if_pos named]
    exact other (nameLength_le (first :: text)) rfl (by rintro ⟨⟩) (by rintro ⟨⟩)
  rw [if_neg named]
  have within := nameLength_le text
  by_cases hash : (first == '#' && startsHashName text) = true
  · rw [if_pos hash]
    exact other (by simp only; omega) rfl (by rintro ⟨⟩) (by rintro ⟨⟩)
  · rw [if_neg hash]
    exact other (by simp only; omega) rfl (by rintro ⟨⟩) (by rintro ⟨⟩)

end Lexeme

/-! ## Tokens -/

/-- A token of a calm text. -/
structure Token.Calm (token : Token) : Prop where
  kind : token.kind.isCalm = true
  chars : ∀ c ∈ token.text, isCalm c = true
  comma : token.kind = .comma → ',' ∈ token.text
  blank : token.kind = .blank → ∀ c ∈ token.text, isBlank c = true

/-- A blank token does not run together with what follows the text. -/
def Apart (text tail : Text) : Prop :=
  text.getLast?.any isBlank = false ∨ tail.head?.any isBlank = false

theorem Apart.drop {text tail : Text} (apart : Apart text tail) (count : Nat) :
    Apart (text.drop count) tail := by
  rcases apart with inside | outside
  · left
    rw [List.getLast?_drop]
    split
    · rfl
    · exact inside
  · exact .inr outside

theorem blankLength_append_of_apart {first : Char} {text tail : Text}
    (apart : Apart (first :: text) tail) (blank : isBlank first = true) :
    blankLength (text ++ tail) = blankLength text := by
  rw [blankLength, blankLength, List.takeWhile_append]
  split
  · rename_i all
    have blanks : ∀ c ∈ text, isBlank c = true :=
      List.takeWhile_eq_self_iff.mp ((List.takeWhile_prefix isBlank).eq_of_length all)
    rcases apart with inside | outside
    · have last := List.getLast?_eq_some_getLast (List.cons_ne_nil first text)
      rw [last, Option.any_some] at inside
      have among : isBlank ((first :: text).getLast (List.cons_ne_nil first text)) = true := by
        rcases List.mem_cons.mp (List.getLast_mem (List.cons_ne_nil first text)) with same | later
        · rw [same, blank]
        · exact blanks _ later
      rw [among] at inside
      contradiction
    · cases tail with
      | nil => simp [List.takeWhile_eq_self_iff.mpr blanks]
      | cons c rest =>
        rw [List.head?_cons, Option.any_some] at outside
        rw [List.takeWhile_cons_of_neg (by rw [outside]; decide), List.append_nil,
          List.takeWhile_eq_self_iff.mpr blanks]
  · rfl

theorem lexeme_append_calm {first : Char} {text tail : Text}
    (calm : ∀ c ∈ first :: text, isCalm c = true) (halted : Halted tail)
    (apart : Apart (first :: text) tail) : lexeme first (text ++ tail) = lexeme first text := by
  have alone := lexeme_calm calm (show Halted [] from trivial)
  rw [List.append_nil] at alone
  rw [lexeme_calm calm halted, alone]
  by_cases blank : isBlank first = true
  · rw [blankLength_append_of_apart apart blank]
  · simp only [calmLexeme, blank]
    rfl

theorem lexeme_length_le_calm {first : Char} {text : Text}
    (calm : ∀ c ∈ first :: text, isCalm c = true) :
    (lexeme first text).2 - 1 ≤ text.length := by
  have alone := lexeme_calm calm (show Halted [] from trivial)
  rw [List.append_nil] at alone
  have within := (calmLexeme_spec calm).1
  rw [alone]
  omega

/-- The tokens of a calm text do not depend on what follows it. -/
theorem tokenize_calm {text tail : Text} (calm : ∀ c ∈ text, isCalm c = true)
    (halted : Halted tail) (apart : Apart text tail) (line : Nat) :
    tokenize line (text ++ tail) =
      tokenize line text ++ tokenize (lineAfter line (tokenize line text)) tail := by
  fun_induction tokenize line text with
  | case1 => rfl
  | case2 line first rest found spelling ih =>
    have within := lexeme_length_le_calm calm
    have later : ∀ c ∈ rest.drop (found.2 - 1), isCalm c = true := fun c met =>
      calm c (List.mem_cons_of_mem _ (List.mem_of_mem_drop met))
    have still : Apart (rest.drop (found.2 - 1)) tail := apart.drop (found.2 - 1 + 1)
    rw [List.cons_append, tokenize_cons, lexeme_append_calm calm halted apart,
      List.take_append_of_le_length within, List.drop_append_of_le_length within, ih later still]
    rfl

theorem calm_of_mem_tokenize {text : Text} (calm : ∀ c ∈ text, isCalm c = true) {line : Nat}
    {token : Token} (met : token ∈ tokenize line text) : token.Calm := by
  fun_induction tokenize line text with
  | case1 => cases met
  | case2 line first rest found spelling ih =>
    have later : ∀ c ∈ rest.drop (found.2 - 1), isCalm c = true := fun c among =>
      calm c (List.mem_cons_of_mem _ (List.mem_of_mem_drop among))
    rcases List.mem_cons.mp met with rfl | further
    · have alone : found = calmLexeme first rest (blankLength rest) := by
        have whole := lexeme_calm calm (show Halted [] from trivial)
        rwa [List.append_nil] at whole
      obtain ⟨-, kind, comma, blank⟩ := calmLexeme_spec calm
      rw [← alone] at kind comma blank
      refine ⟨kind, ?_, ?_, ?_⟩
      · intro c among
        apply calm
        rcases List.mem_cons.mp among with rfl | inside
        · exact List.mem_cons_self
        · exact List.mem_cons_of_mem _ (List.mem_of_mem_take inside)
      · intro isComma
        rw [← comma isComma]
        exact List.mem_cons_self
      · intro isGap c among
        exact isBlank_of_mem_first (blank isGap) among
    · exact ih later further

theorem Token.Calm.opens {token : Token} (calm : token.Calm) : token.opens = none := by
  have kind := calm.kind
  cases same : token.kind <;> simp_all [Token.opens, TokenKind.isCalm]

theorem Token.Calm.endsDeclaration {token : Token} (calm : token.Calm) :
    endsDeclaration token = false := by
  have kind := calm.kind
  cases same : token.kind <;>
    simp_all [Css.endsDeclaration, endsItem, Token.closes, TokenKind.isCalm]

theorem Token.Calm.endsSelector {token : Token} (calm : token.Calm) (noComma : ',' ∉ token.text) :
    endsSelector token = false := by
  have kind := calm.kind
  have comma := fun isComma => noComma (calm.comma isComma)
  cases same : token.kind <;>
    simp_all [Css.endsSelector, isComma, Token.opensBlock, TokenKind.isCalm]

theorem Token.Calm.isBetweenRules {token : Token} (calm : token.Calm)
    (noBlank : token.kind ≠ .blank) : isBetweenRules token = false := by
  have kind := calm.kind
  cases same : token.kind <;>
    simp_all [Css.isBetweenRules, Token.isGap, TokenKind.isCalm]

theorem Token.Calm.kind_ne_atKeyword {token : Token} (calm : token.Calm) :
    token.kind ≠ .atKeyword := by
  intro keyword
  have kind := calm.kind
  rw [keyword] at kind
  contradiction

theorem startsCustomProperty_calm (first : Token) {rest : List Token}
    (calm : ∀ token ∈ rest, token.Calm) : startsCustomProperty first rest = false := by
  have noColon : ((skipGaps rest).head?.map Token.kind == some .colon) = false := by
    cases left : skipGaps rest with
    | nil => rfl
    | cons token more =>
      have among : token ∈ rest :=
        (List.dropWhile_sublist _).subset (show token ∈ skipGaps rest from
          left ▸ List.mem_cons_self)
      have kind := (calm token among).kind
      rw [List.head?_cons, Option.map_some, beq_eq_false_iff_ne]
      intro colon
      rw [Option.some.inj colon] at kind
      contradiction
  rw [startsCustomProperty, noColon, Bool.and_false]

theorem mem_of_mem_token {line : Nat} {text : Text} {token : Token}
    (met : token ∈ tokenize line text) {c : Char} (among : c ∈ token.text) : c ∈ text := by
  rw [← source_tokenize line text]
  exact List.mem_flatMap.mpr ⟨token, met, among⟩

/-- A calm text is whole for every test that passes over its tokens. -/
theorem whole_calm {test : Token → Bool} {text : Text} (calm : ∀ c ∈ text, isCalm c = true)
    (passes : ∀ token ∈ tokenize 0 text, test token = false) : Whole test text := by
  refine ⟨?_, ?_, ?_⟩
  · have cut := tokenize_calm calm (stopped_cons (show isStop ';' = true by decide) []).halted
      (.inr (by decide)) 0
    exact isDetached_of_cut rfl cut (source_tokenize 0 text)
  · exact foldl_nest_of_flat fun token met => (calm_of_mem_tokenize calm met).opens
  · exact uncut_of_passes passes []

/-! ## Values -/

/-- A list of flat tokens without an exclamation mark is passed over in search of the mark. -/
theorem splitImportant_append_of_flat {front : List Token}
    (flat : ∀ token ∈ front, token.opens = none) (noMark : ∀ token ∈ front, token.text ≠ ['!'])
    (back : List Token) :
    splitImportant [] (front ++ back) =
      (front ++ (splitImportant [] back).1, (splitImportant [] back).2) := by
  have noBang : ∀ token ∈ front, isBang token = false := by
    intro token met
    rw [isBang, beq_eq_false_iff_ne.mpr (noMark token met), Bool.and_false]
  rw [splitImportant_append (uncut_of_passes noBang []), foldl_nest_of_flat flat]

/-- The last token of a calm text is no gap when the last character is no blank. -/
theorem isGap_last_calm {text : Text} {last : Char} (calm : ∀ c ∈ text ++ [last], isCalm c = true)
    (ends : isBlank last = false) {line : Nat} {front : List Token} {token : Token}
    (split : tokenize line (text ++ [last]) = front ++ [token]) : token.isGap = false := by
  have met : token ∈ tokenize line (text ++ [last]) :=
    split ▸ List.mem_append_right _ List.mem_cons_self
  have tokenCalm := calm_of_mem_tokenize calm met
  have filled := text_ne_nil_of_mem_tokenize met
  have spelled := source_tokenize line (text ++ [last])
  rw [split, source_append, source_cons, source_nil, List.append_nil] at spelled
  have lastChar : token.text.getLast filled = last := by
    have whole := congrArg List.getLast? spelled
    rw [List.getLast?_append_of_ne_nil _ filled, List.getLast?_concat,
      List.getLast?_eq_some_getLast filled] at whole
    exact Option.some.inj whole
  have noBlank : token.kind ≠ .blank := by
    intro blank
    have isLast := tokenCalm.blank blank _ (List.getLast_mem filled)
    rw [lastChar, ends] at isLast
    contradiction
  have noComment : token.kind ≠ .comment := by
    intro comment
    have kind := tokenCalm.kind
    rw [comment] at kind
    contradiction
  simp [Token.isGap, noBlank, noComment]

/-- Gaps behind a calm text that does not end with a blank are the gaps that are left out. -/
theorem withoutEndGaps_calm {text : Text} {last : Char} (calm : ∀ c ∈ text ++ [last], isCalm c = true)
    (ends : isBlank last = false) (line : Nat) {gaps : List Token}
    (gap : ∀ token ∈ gaps, token.isGap = true) :
    withoutEndGaps (tokenize line (text ++ [last]) ++ gaps) = tokenize line (text ++ [last]) := by
  have flat : ∀ token ∈ tokenize line (text ++ [last]), token.opens = none := fun token met =>
    (calm_of_mem_tokenize calm met).opens
  have flatGaps : ∀ token ∈ gaps, token.opens = none := fun token met =>
    opens_of_idle (by rw [gap token met, Bool.true_or])
  have balanced : (tokenize line (text ++ [last]) ++ gaps).foldl nest [] = [] := by
    rw [List.foldl_append, foldl_nest_of_flat flat, foldl_nest_of_flat flatGaps]
  rw [withoutEndGaps, if_pos balanced, dropEndWhile_append gap]
  rcases (tokenize line (text ++ [last])).eq_nil_or_concat with empty | ⟨front, token, split⟩
  · rw [empty]
    rfl
  · rw [List.concat_eq_append] at split
    rw [split, dropEndWhile_concat (isGap_last_calm calm ends split)]

end Swatch.Css
