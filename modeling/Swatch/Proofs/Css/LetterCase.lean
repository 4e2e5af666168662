import Swatch.Proofs.Css.Cleaned
import Swatch.Proofs.Css.Boundary

/-!
# Tokens and letter case

How a text is cut into tokens, and what kind each token has, depends on its
letters only up to their case: the tokens of a text in lower case are its tokens
in lower case, one for one. Names stand for the same characters up to case, so
what is recognised by its name is recognised in any case. Cleaning takes a text
apart at the same places in any case as well.
-/

namespace Swatch

@[simp]
theorem lower_nil : lower [] = [] := rfl

@[simp]
theorem lower_cons (c : Char) (text : Text) : lower (c :: text) = c.toLower :: lower text := rfl

@[simp]
theorem lower_length (text : Text) : (lower text).length = text.length :=
  List.length_map _

theorem lower_take (count : Nat) (text : Text) : (lower text).take count = lower (text.take count) :=
  List.map_take.symm

theorem lower_drop (count : Nat) (text : Text) : (lower text).drop count = lower (text.drop count) :=
  List.map_drop.symm

theorem lower_eq_nil {text : Text} : lower text = [] ↔ text = [] :=
  List.map_eq_nil_iff

theorem lower_append (front back : Text) : lower (front ++ back) = lower front ++ lower back :=
  List.map_append

theorem takeWhile_lower {test : Char → Bool} (blind : ∀ c, test c.toLower = test c) (text : Text) :
    (lower text).takeWhile test = lower (text.takeWhile test) := by
  rw [lower, List.takeWhile_map, show test ∘ Char.toLower = test from funext blind]
  rfl

namespace Css

/-! ## Characters -/

theorem isDigit_toLower (c : Char) : c.toLower.isDigit = c.isDigit := by
  rw [Bool.eq_iff_iff, isDigit_iff, isDigit_iff, toNat_toLower]
  split <;> omega

theorem isHexDigit_toLower (c : Char) : isHexDigit c.toLower = isHexDigit c := by
  rw [Bool.eq_iff_iff, isHexDigit_iff, isHexDigit_iff, toNat_toLower]
  split <;> omega

theorem isLineEnd_toLower (c : Char) : isLineEnd c.toLower = isLineEnd c := by
  rw [Bool.eq_iff_iff, isLineEnd_iff, isLineEnd_iff, toNat_toLower]
  split <;> omega

theorem isBlank_toLower (c : Char) : isBlank c.toLower = isBlank c := by
  rw [Bool.eq_iff_iff, isBlank_iff, isBlank_iff, toNat_toLower]
  split <;> omega

theorem isQuote_toLower (c : Char) : isQuote c.toLower = isQuote c := by
  rw [Bool.eq_iff_iff, isQuote_iff, isQuote_iff, toNat_toLower]
  split <;> omega

theorem isWhite_toLower (c : Char) : isWhite c.toLower = isWhite c := by
  rw [Bool.eq_iff_iff, isWhite_iff, isWhite_iff, toNat_toLower]
  split <;> omega

theorem isNameStart_toLower (c : Char) : isNameStart c.toLower = isNameStart c := by
  rw [Bool.eq_iff_iff, isNameStart_iff, isNameStart_iff, toNat_toLower]
  split <;> omega

theorem isNameChar_toLower (c : Char) : isNameChar c.toLower = isNameChar c := by
  rw [Bool.eq_iff_iff, isNameChar_iff, isNameChar_iff, toNat_toLower]
  split <;> omega

theorem isNonPrinting_toLower (c : Char) : isNonPrinting c.toLower = isNonPrinting c := by
  rw [Bool.eq_iff_iff]
  simp only [isNonPrinting, Bool.or_eq_true, Bool.and_eq_true, decide_eq_true_eq, beq_iff_eq,
    toNat_toLower]
  split <;> omega

/-- No letter: the character is its own lower case form and no other character has it. -/
def isCaseless (c : Char) : Bool :=
  c.toNat < 65 || (90 < c.toNat && c.toNat < 97) || 122 < c.toNat

theorem toLower_eq_iff {mark : Char} (caseless : isCaseless mark = true) (c : Char) :
    c.toLower = mark ↔ c = mark := by
  simp only [isCaseless, Bool.or_eq_true, Bool.and_eq_true, decide_eq_true_eq] at caseless
  rw [eq_iff_toNat, eq_iff_toNat, toNat_toLower]
  split <;> omega

theorem toLower_beq {mark : Char} (caseless : isCaseless mark = true) (c : Char) :
    (c.toLower == mark) = (c == mark) := by
  rw [Bool.eq_iff_iff, beq_iff_eq, beq_iff_eq, toLower_eq_iff caseless]

theorem toLower_ne {mark c : Char} (caseless : isCaseless mark = true) (other : c ≠ mark) :
    c.toLower ≠ mark :=
  fun same => other ((toLower_eq_iff caseless c).mp same)

theorem isPrefixOf_lower {mark : Text} (caseless : ∀ c ∈ mark, isCaseless c = true) (text : Text) :
    mark.isPrefixOf (lower text) = mark.isPrefixOf text := by
  induction mark generalizing text with
  | nil => rfl
  | cons c mark ih =>
    cases text with
    | nil => rfl
    | cons d rest =>
      have here := toLower_beq (caseless c List.mem_cons_self) d
      rw [lower_cons, List.isPrefixOf_cons_cons, List.isPrefixOf_cons_cons,
        ih (fun other met => caseless other (List.mem_cons_of_mem _ met)), Bool.beq_comm, here,
        Bool.beq_comm]

theorem blankLength_lower (text : Text) : blankLength (lower text) = blankLength text := by
  rw [blankLength, takeWhile_lower isBlank_toLower, lower_length, blankLength]

theorem startsDigit_lower (text : Text) : startsDigit (lower text) = startsDigit text := by
  cases text with
  | nil => rfl
  | cons c rest => exact isDigit_toLower c

/-- A line end of two characters has no letters. -/
theorem pair_toLower_iff (c d : Char) :
    c.toLower = '\r' ∧ d.toLower = '\n' ↔ c = '\r' ∧ d = '\n' := by
  rw [toLower_eq_iff (by rfl), toLower_eq_iff (by rfl)]

/-- No line end of two characters stands in front of a text in lower case but did before. -/
theorem single_lower {c : Char} {rest : Text}
    (single : ∀ more, c = '\r' → rest = '\n' :: more → False) (more : Text) (same : c.toLower = '\r') :
    lower rest = '\n' :: more → False := by
  intro further
  cases rest with
  | nil => contradiction
  | cons d rest =>
    rw [lower_cons, List.cons.injEq] at further
    rcases (pair_toLower_iff c d).mp ⟨same, further.1⟩ with ⟨first, rfl⟩
    exact single rest first rfl

theorem lineEndLength_lower (text : Text) : lineEndLength (lower text) = lineEndLength text := by
  match text with
  | [] => rfl
  | [c] => simp [lineEndLength, isLineEnd_toLower]
  | c :: d :: rest =>
    have pair := pair_toLower_iff c d
    by_cases here : c = '\r' ∧ d = '\n'
    · rcases here with ⟨rfl, rfl⟩
      rfl
    · simp_all [lineEndLength, isLineEnd_toLower]

theorem lineEnds_lower (text : Text) : lineEnds (lower text) = lineEnds text := by
  fun_induction lineEnds text with
  | case1 => rfl
  | case2 rest ih => exact congrArg (· + 1) ih
  | case3 c rest single ends ih =>
    rw [lower_cons, lineEnds, isLineEnd_toLower, if_pos ends, ih]
    exact single_lower single
  | case4 c rest single goesOn ih =>
    rw [lower_cons, lineEnds, isLineEnd_toLower, if_neg goesOn, ih]
    exact single_lower single

/-! ## Names and escapes -/

theorem escapeDigits_lower (text : Text) : escapeDigits (lower text) = lower (escapeDigits text) := by
  rw [escapeDigits, lower_take, takeWhile_lower isHexDigit_toLower, escapeDigits]

theorem closingBlankLength_lower (text : Text) :
    closingBlankLength (lower text) = closingBlankLength text := by
  match text with
  | [] => rfl
  | [c] => simp [closingBlankLength, isBlank_toLower]
  | c :: d :: rest =>
    have pair := pair_toLower_iff c d
    by_cases here : c = '\r' ∧ d = '\n'
    · rcases here with ⟨rfl, rfl⟩
      rfl
    · simp_all [closingBlankLength, isBlank_toLower]

theorem escapeLength_lower (text : Text) : escapeLength (lower text) = escapeLength text := by
  cases text with
  | nil => rfl
  | cons c rest =>
    rw [lower_cons, escapeLength, escapeLength, isHexDigit_toLower, ← lower_cons,
      escapeDigits_lower]
    simp only [lower_length, lower_drop, closingBlankLength_lower]

theorem hexDigitValue_toLower (c : Char) : hexDigitValue c.toLower = hexDigitValue c := by
  rw [hexDigitValue, hexDigitValue, isDigit_toLower, toLower_toLower]
  split
  · rename_i decimal
    rw [isDigit_iff] at decimal
    rw [toLower_of_small (by omega)]
  · rfl

theorem hexValue_lower (digits : Text) : hexValue (lower digits) = hexValue digits := by
  rw [hexValue, hexValue, lower, List.foldl_map]
  simp only [hexDigitValue_toLower]

theorem escapeValue_lower (text : Text) :
    (escapeValue (lower text)).toLower = (escapeValue text).toLower := by
  cases text with
  | nil => rfl
  | cons c rest =>
    rw [lower_cons, escapeValue, escapeValue, isHexDigit_toLower, ← lower_cons, escapeDigits_lower,
      hexValue_lower]
    split
    · rfl
    · rw [withoutNul, withoutNul, toLower_beq (by rfl)]
      split
      · rfl
      · exact toLower_toLower c

theorem startsEscape_lower (text : Text) : startsEscape (lower text) = startsEscape text := by
  match text with
  | [] => rfl
  | [c] =>
    by_cases slash : c = '\\'
    · rw [slash]
      rfl
    · simp [startsEscape, slash, toLower_ne (by rfl) slash]
  | c :: d :: rest =>
    by_cases slash : c = '\\'
    · rw [slash]
      exact congrArg (! ·) (isLineEnd_toLower d)
    · simp [startsEscape, slash, toLower_ne (by rfl) slash]

theorem startsName_lower (text : Text) : startsName (lower text) = startsName text := by
  have escape := startsEscape_lower text
  match text with
  | [] => rfl
  | [c] =>
    rw [lower_cons, startsName, startsName, isNameStart_toLower, ← lower_cons, escape]
    · exact fun _ _ _ longer => absurd longer (List.cons_ne_nil _ _).symm
    · exact fun _ _ _ longer => absurd longer (List.cons_ne_nil _ _).symm
  | c :: d :: rest =>
    by_cases dash : c = '-'
    · rw [dash]
      change (isNameStart d.toLower || d.toLower == '-' || d.toLower == '\\') = _
      rw [isNameStart_toLower, toLower_beq (by rfl), toLower_beq (by rfl)]
      rfl
    · rw [lower_cons, startsName, startsName, isNameStart_toLower, ← lower_cons, escape]
      · exact fun _ _ same => absurd same dash
      · exact fun _ _ same => absurd same (toLower_ne (by rfl) dash)

theorem nameLength_lower (text : Text) : nameLength (lower text) = nameLength text := by
  fun_induction nameLength text with
  | case1 => rw [lower_nil, nameLength]
  | case2 c rest inName ih =>
    rw [lower_cons, nameLength, isNameChar_toLower, if_pos inName, ih]
  | case3 c rest notName escape ih =>
    rw [lower_cons, nameLength, isNameChar_toLower, if_neg notName, ← lower_cons,
      startsEscape_lower, if_pos escape, escapeLength_lower, lower_drop, ih]
  | case4 c rest notName noEscape =>
    rw [lower_cons, nameLength, isNameChar_toLower, if_neg notName, ← lower_cons,
      startsEscape_lower, if_neg noEscape]

theorem lower_resolve (name : Text) : lower (resolve (lower name)) = lower (resolve name) := by
  fun_induction resolve name with
  | case1 => rw [lower_nil, resolve, lower_nil]
  | case2 c rest slash ih =>
    rw [lower_cons, resolve, toLower_beq (by rfl), if_pos slash, lower_cons, lower_cons,
      escapeValue_lower, escapeLength_lower, lower_drop, ih]
  | case3 c rest other ih =>
    have same : (withoutNul c.toLower).toLower = (withoutNul c).toLower := by
      rw [withoutNul, withoutNul, toLower_beq (by rfl)]
      split
      · rfl
      · exact toLower_toLower c
    rw [lower_cons, resolve, toLower_beq (by rfl), if_neg other, lower_cons, lower_cons, same, ih]

/-! ## Numbers -/

theorem signLength_lower (text : Text) : signLength (lower text) = signLength text := by
  cases text with
  | nil => rfl
  | cons c rest =>
    rw [lower_cons, signLength, signLength, toLower_beq (by rfl), toLower_beq (by rfl)]

theorem digitsLength_lower (text : Text) : digitsLength (lower text) = digitsLength text := by
  rw [digitsLength, takeWhile_lower isDigit_toLower, lower_length, digitsLength]

theorem fractionLength_lower (text : Text) : fractionLength (lower text) = fractionLength text := by
  cases text with
  | nil => rfl
  | cons c rest =>
    by_cases point : c = '.'
    · rw [point]
      change (if startsDigit (lower rest) then 1 + digitsLength (lower rest) else 0) = _
      rw [startsDigit_lower, digitsLength_lower]
      rfl
    · rw [lower_cons, fractionLength, fractionLength]
      · exact fun _ same => absurd (List.cons.inj same).1 point
      · exact fun _ same => absurd (List.cons.inj same).1 (toLower_ne (by rfl) point)

theorem isExponent_toLower (c : Char) :
    (c.toLower == 'e' || c.toLower == 'E') = (c == 'e' || c == 'E') := by
  rw [Bool.eq_iff_iff]
  simp only [Bool.or_eq_true, beq_iff_eq, eq_iff_toNat, toNat_toLower, Char.reduceToNat]
  split <;> omega

theorem exponentLength_lower (text : Text) : exponentLength (lower text) = exponentLength text := by
  cases text with
  | nil => rfl
  | cons c rest =>
    rw [lower_cons, exponentLength, exponentLength, isExponent_toLower]
    simp only [signLength_lower, lower_drop, startsDigit_lower, digitsLength_lower]

theorem startsUnsigned_lower (text : Text) : startsUnsigned (lower text) = startsUnsigned text := by
  cases text with
  | nil => rfl
  | cons c rest =>
    by_cases point : c = '.'
    · rw [point]
      exact startsDigit_lower rest
    · rw [lower_cons, startsUnsigned, startsUnsigned, ← lower_cons, startsDigit_lower]
      · exact fun _ same => absurd (List.cons.inj same).1 point
      · exact fun _ same => absurd (List.cons.inj same).1 (toLower_ne (by rfl) point)

theorem startsNumber_lower (text : Text) : startsNumber (lower text) = startsNumber text := by
  rw [startsNumber, signLength_lower, lower_drop, startsUnsigned_lower, startsNumber]

theorem numberLength_lower (text : Text) : numberLength (lower text) = numberLength text := by
  simp only [numberLength, signLength_lower, lower_drop, digitsLength_lower, fractionLength_lower,
    exponentLength_lower]

theorem head?_lower_beq {mark : Char} (caseless : isCaseless mark = true) (text : Text) :
    ((lower text).head? == some mark) = (text.head? == some mark) := by
  cases text with
  | nil => rfl
  | cons c rest => exact toLower_beq caseless c

theorem numeric_lower (text : Text) : numeric (lower text) = numeric text := by
  simp only [numeric, numberLength_lower, lower_drop, head?_lower_beq (show isCaseless '%' = true by rfl),
    startsName_lower, nameLength_lower]

/-! ## Strings and comments -/

theorem stringEscapeLength_lower (text : Text) :
    stringEscapeLength (lower text) = stringEscapeLength text := by
  rw [stringEscapeLength, lineEndLength_lower, escapeLength_lower, stringEscapeLength]

theorem isCaseless_of_quote {quote : Char} (isQuote : isQuote quote = true) :
    isCaseless quote = true := by
  rw [isQuote_iff] at isQuote
  simp only [isCaseless, Bool.or_eq_true, decide_eq_true_eq]
  omega

theorem stringTail_lower {quote : Char} (isQuote : isQuote quote = true) (text : Text) :
    stringTail quote (lower text) = stringTail quote text := by
  have caseless := isCaseless_of_quote isQuote
  fun_induction stringTail quote text with
  | case1 => rw [lower_nil, stringTail]
  | case2 c rest closes => rw [lower_cons, stringTail, toLower_beq caseless, if_pos closes]
  | case3 c rest goesOn ends =>
    rw [lower_cons, stringTail, toLower_beq caseless, if_neg goesOn, isLineEnd_toLower, if_pos ends]
  | case4 c rest goesOn stays skipped tail ih =>
    rw [lower_cons, stringTail, toLower_beq caseless, if_neg goesOn, isLineEnd_toLower,
      if_neg stays, toLower_beq (by rfl), stringEscapeLength_lower]
    simp only [tail, skipped, dite_eq_ite, lower_drop] at ih ⊢
    rw [ih]

theorem commentTailLength_lower (text : Text) :
    commentTailLength (lower text) = commentTailLength text := by
  fun_induction commentTailLength text with
  | case1 rest => rfl
  | case2 c rest goesOn ih =>
    rw [lower_cons, commentTailLength, ih]
    intro more star further
    cases rest with
    | nil => contradiction
    | cons d rest =>
      rw [lower_cons, List.cons.injEq] at further
      exact goesOn rest ((toLower_eq_iff (by rfl) c).mp star)
        (by rw [(toLower_eq_iff (by rfl) d).mp further.1])
  | case3 => rfl

/-! ## Addresses -/

theorem badAddressLength_lower (text : Text) :
    badAddressLength (lower text) = badAddressLength text := by
  fun_induction badAddressLength text with
  | case1 => rfl
  | case2 rest => rfl
  | case3 rest ih => exact congrArg (2 + ·) ih
  | case4 rest ih => exact congrArg (2 + ·) ih
  | case5 c rest noClose noEscapedClose noEscapedSlash ih =>
    have second {d : Char} {more : Text} (caseless : isCaseless d = true)
        (further : lower rest = d :: more) : ∃ others, rest = d :: others := by
      cases rest with
      | nil => contradiction
      | cons other others =>
        rw [lower_cons, List.cons.injEq] at further
        exact ⟨others, by rw [(toLower_eq_iff caseless other).mp further.1]⟩
    rw [lower_cons, badAddressLength, ih]
    · exact fun same => noClose ((toLower_eq_iff (by rfl) c).mp same)
    · intro more slash further
      rcases second (by rfl) further with ⟨others, same⟩
      exact noEscapedClose others ((toLower_eq_iff (by rfl) c).mp slash) same
    · intro more slash further
      rcases second (by rfl) further with ⟨others, same⟩
      exact noEscapedSlash others ((toLower_eq_iff (by rfl) c).mp slash) same

theorem addressEnd_lower (text : Text) : addressEnd (lower text) = addressEnd text := by
  cases text with
  | nil => rfl
  | cons c rest =>
    rw [lower_cons, addressEnd, addressEnd, toLower_beq (by rfl), badAddressLength_lower]

theorem addressTail_lower (text : Text) : addressTail (lower text) = addressTail text := by
  fun_induction addressTail text with
  | case1 => rw [lower_nil, addressTail]
  | case2 c rest closes => rw [lower_cons, addressTail, toLower_beq (by rfl), if_pos closes]
  | case3 c rest stays blank blanks close =>
    rw [lower_cons, addressTail, toLower_beq (by rfl), if_neg stays, isBlank_toLower, if_pos blank]
    simp only [blankLength_lower, lower_drop, addressEnd_lower]
    rfl
  | case4 c rest stays noBlank bad =>
    rw [lower_cons, addressTail, toLower_beq (by rfl), if_neg stays, isBlank_toLower,
      if_neg noBlank, isQuote_toLower, toLower_beq (by rfl), isNonPrinting_toLower, if_pos bad,
      badAddressLength_lower]
  | case5 c rest stays noBlank fine bad =>
    rw [lower_cons, addressTail, toLower_beq (by rfl), if_neg stays, isBlank_toLower,
      if_neg noBlank, isQuote_toLower, toLower_beq (by rfl), isNonPrinting_toLower, if_neg fine,
      toLower_beq (by rfl), ← lower_cons, startsEscape_lower, if_pos bad, badAddressLength_lower]
  | case6 c rest stays noBlank fine good skipped tail ih =>
    rw [lower_cons, addressTail, toLower_beq (by rfl), if_neg stays, isBlank_toLower,
      if_neg noBlank, isQuote_toLower, toLower_beq (by rfl), isNonPrinting_toLower, if_neg fine,
      toLower_beq (by rfl), ← lower_cons, startsEscape_lower, if_neg good, escapeLength_lower]
    simp only [tail, skipped, dite_eq_ite, lower_drop] at ih ⊢
    rw [ih]

theorem addressAfterOpening_lower (text : Text) :
    addressAfterOpening (lower text) = addressAfterOpening text := by
  simp only [addressAfterOpening, blankLength_lower, lower_drop]
  cases text.drop (blankLength text) with
  | nil => rfl
  | cons c rest =>
    rw [lower_cons]
    simp only [isQuote_toLower]
    rw [← lower_cons, addressTail_lower]

/-! ## Tokens -/

theorem sameLetters_lower_resolve (name word : Text) :
    sameLetters (resolve (lower name)) word = sameLetters (resolve name) word := by
  rw [sameLetters, lower_resolve, sameLetters]

theorem named_lower (text : Text) : named (lower text) = named text := by
  simp only [named, nameLength_lower, lower_drop, lower_take, sameLetters_lower_resolve]
  cases text.drop (nameLength text) with
  | nil => rfl
  | cons c rest =>
    by_cases bracket : c = '('
    · have opens : lower ('(' :: rest) = '(' :: lower rest := rfl
      rw [bracket, opens]
      simp only [addressAfterOpening_lower]
    · simp [bracket, toLower_ne (show isCaseless '(' = true by rfl) bracket]

theorem punctuation_toLower (c : Char) : punctuation c.toLower = punctuation c := by
  by_cases capital : 65 ≤ c.toNat ∧ c.toNat ≤ 90
  · have inName : isNameChar c = true := by
      rw [isNameChar_iff]
      omega
    rw [punctuation_of_nameChar inName, punctuation_of_nameChar]
    rw [isNameChar_toLower, inName]
  · rw [toLower_of_small (by omega)]

theorem startsHashName_lower (text : Text) : startsHashName (lower text) = startsHashName text := by
  cases text with
  | nil => rfl
  | cons c rest =>
    rw [lower_cons, startsHashName, startsHashName, ← lower_cons, startsName_lower,
      isDigit_toLower, toLower_beq (by rfl)]

theorem contains_toLower {marks : Text} (caseless : ∀ c ∈ marks, isCaseless c = true) (c : Char) :
    marks.contains c.toLower = marks.contains c := by
  rw [Bool.eq_iff_iff, List.contains_iff_mem, List.contains_iff_mem]
  constructor
  · intro met
    have same := (toLower_eq_iff (caseless _ met) c).mp rfl
    exact same ▸ met
  · intro met
    rwa [(toLower_eq_iff (caseless c met) c).mpr rfl]

/-- The token at the front has its kind and its length in any letter case. -/
theorem readerOf_lower (first : Char) (rest : Text) :
    readerOf first.toLower (lower rest) = readerOf first rest := by
  have mark {mark : Text} (caseless : mark.all isCaseless = true) :
      mark.isPrefixOf (lower (first :: rest)) = mark.isPrefixOf (first :: rest) :=
    isPrefixOf_lower (List.all_eq_true.mp caseless) _
  have marks : "$*^|~".toList.all isCaseless = true := by decide
  have equals := contains_toLower (List.all_eq_true.mp marks)
  unfold readerOf
  rw [punctuation_toLower, isBlank_toLower, isQuote_toLower, ← lower_cons, mark (by decide),
    mark (by decide), mark (by decide), startsNumber_lower, startsName_lower, startsName_lower,
    startsHashName_lower, toLower_beq (by rfl), toLower_beq (by rfl), equals,
    head?_lower_beq (by rfl)]

theorem lexeme_lower (first : Char) (rest : Text) :
    lexeme first.toLower (lower rest) = lexeme first rest := by
  rw [lexeme_eq_read, lexeme_eq_read, readerOf_lower]
  cases reader : readerOf first rest with
  | fixed kind size => rfl
  | blanks => rw [Reader.read, Reader.read, blankLength_lower]
  | string =>
    have quote := isQuote_of_string reader
    have same : first.toLower = first := (toLower_eq_iff (isCaseless_of_quote quote) first).mpr rfl
    rw [Reader.read, Reader.read, same, stringTail_lower quote]
  | comment => rw [Reader.read, Reader.read, lower_drop, commentTailLength_lower]
  | number => rw [Reader.read, Reader.read, ← lower_cons, numeric_lower]
  | name => rw [Reader.read, Reader.read, ← lower_cons, named_lower]
  | marked kind => rw [Reader.read, Reader.read, nameLength_lower]

/-- The token with its text in lower case. -/
def Token.lower (token : Token) : Token :=
  { token with text := Swatch.lower token.text }

/-- A text in lower case has the tokens of the text in lower case. -/
theorem tokenize_lower (line : Nat) (text : Text) :
    tokenize line (lower text) = (tokenize line text).map Token.lower := by
  fun_induction tokenize line text with
  | case1 => rw [lower_nil, tokenize_nil]; rfl
  | case2 line first rest found spelling ih =>
    have spelled : first.toLower :: (lower rest).take (found.2 - 1) = lower spelling := by
      rw [lower_take]
      rfl
    rw [lower_cons, tokenize_cons, lexeme_lower, lower_drop, List.map_cons, ← ih]
    rw [show lexeme first rest = found from rfl, spelled, lineEnds_lower]
    rfl

/-! ## Cleaning -/

theorem quotedLength_lower {quote : Char} (isQuote : isQuote quote = true) (text : Text) :
    quotedLength quote (lower text) = quotedLength quote text := by
  have caseless := isCaseless_of_quote isQuote
  have plain_lower {c : Char} {rest : Text}
      (plain : ∀ d more, c = '\\' → rest = d :: more → False) (d : Char) (more : Text)
      (slash : c.toLower = '\\') (further : lower rest = d :: more) : False := by
    cases rest with
    | nil => contradiction
    | cons other others => exact plain other others ((toLower_eq_iff (by rfl) c).mp slash) rfl
  fun_induction quotedLength quote text with
  | case1 => rfl
  | case2 d rest ih => exact congrArg (2 + ·) ih
  | case3 c rest plain ends =>
    rw [lower_cons, quotedLength_cons _ _ _ (plain_lower plain), toLower_beq caseless, if_pos ends]
  | case4 c rest plain goesOn ih =>
    rw [lower_cons, quotedLength_cons _ _ _ (plain_lower plain), toLower_beq caseless,
      if_neg goesOn, ih]

theorem gapLength_lower (text : Text) : gapLength (lower text) = gapLength text := by
  cases text with
  | nil => rfl
  | cons c rest =>
    by_cases opens : c = '/' ∧ rest.head? = some '*'
    · rcases opens with ⟨rfl, star⟩
      rcases List.head?_eq_some_iff.mp star with ⟨more, rfl⟩
      exact congrArg (2 + ·) (commentTailLength_lower more)
    · have noMark : c = '/' → rest.head? ≠ some '*' := fun slash star => opens ⟨slash, star⟩
      have noMarkLower : c.toLower = '/' → (lower rest).head? ≠ some '*' := by
        intro slash star
        cases rest with
        | nil => contradiction
        | cons d more =>
          apply noMark ((toLower_eq_iff (by rfl) c).mp slash)
          rw [lower_cons] at star
          rw [List.head?_cons, (toLower_eq_iff (by rfl) d).mp (Option.some.inj star)]
      rw [lower_cons, gapLength_of_noMark noMark, gapLength_of_noMark noMarkLower, isWhite_toLower]

theorem skipGap_lower (text : Text) : skipGap (lower text) = lower (skipGap text) := by
  fun_induction skipGap text with
  | case1 => rw [lower_nil, skipGap]
  | case2 c rest none =>
    have same := gapLength_lower (c :: rest)
    rw [none, lower_cons] at same
    rw [lower_cons, skipGap, same]
  | case3 c rest further gap ih =>
    have same := gapLength_lower (c :: rest)
    rw [gap, lower_cons] at same
    rw [lower_cons, skipGap, same]
    simp only [lower_drop, ih]

theorem atomTailLength_lower (first : Char) (rest : Text) :
    atomTailLength first.toLower (lower rest) = atomTailLength first rest := by
  rw [atomTailLength, atomTailLength, isQuote_toLower, toLower_beq (by rfl), lower_length]
  by_cases quote : isQuote first = true
  · rw [if_pos quote, if_pos quote,
      (toLower_eq_iff (isCaseless_of_quote quote) first).mpr rfl, quotedLength_lower quote]
  · rw [if_neg quote, if_neg quote]

theorem cleanAtoms_lower (text : Text) : cleanAtoms (lower text) = lower (cleanAtoms text) := by
  fun_induction cleanAtoms text with
  | case1 => rw [lower_nil, cleanAtoms]
  | case2 first rest tail more next space ih =>
    have spaces : lower space = space := by
      simp only [space]
      split <;> rfl
    rw [lower_append, lower_append, lower_cons, spaces, ← ih]
    rw [lower_cons, cleanAtoms, atomTailLength_lower]
    simp only [lower_drop, lower_take, gapLength_lower, skipGap_lower, lower_eq_nil, space, next, more,
      tail, dite_eq_ite]

/-- Cleaning keeps the case of letters and does not look at it. -/
theorem clean_lower (text : Text) : clean (lower text) = lower (clean text) := by
  rw [clean, skipGap_lower, cleanAtoms_lower, clean]

end Css

end Swatch
