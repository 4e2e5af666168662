import Swatch.Proofs.Hashes
import Swatch.Proofs.Recolor

/-!
# Scanning in step

The scan for hex colors is in step with the tokens of a value while its pieces end where
tokens end. Whether it stays in step can be read off one token after the other: behind
each token the scan stands at the next one, except in an address in quotes, which it
copies as one piece up to the first closing bracket. A scan in step finds the colors that
the tokens are and no others.
-/

namespace Swatch

open Css

namespace HexCase

/-- Does the scan copy these characters one by one, when the text goes on with `behind`? -/
def passes (behind : Text) : Text → Bool
  | [] => true
  | c :: more =>
    !isQuote c && c != '#' && !startsAddress (c :: more ++ behind) && passes behind more

/--
Does a scan that stands at the token arrive at its end, and has it found a color exactly
if the token is one?
-/
def follows (behind : Text) (token : Token) : Bool :=
  match token.kind with
  | .string => true
  | .address | .badAddress =>
    startsAddress token.text && bracketLength (token.text ++ behind) == token.text.length
  | .hash =>
    let name := token.text.drop 1
    let more := name.dropWhile isHexDigit
    passes behind more &&
      isColor (name.takeWhile isHexDigit) (more ++ behind) == token.colorDigits?.isSome
  | .delimiter => token.text == ['#'] || passes behind token.text
  | _ => passes behind token.text

/--
Does the scan stay in step? Inside an address in quotes the first closing bracket has to be
a token by itself, and no other bracket may be opened before it.
-/
def inStep : Bool → List Token → Bool
  | _, [] => true
  | false, token :: rest =>
    if token.opensAddress then sameLetters token.text "url(".toList && inStep true rest
    else follows (source rest) token && inStep false rest
  | true, token :: rest =>
    if token.text.contains ')' then token.kind == .closing .round && inStep false rest
    else token.opens == none && inStep true rest

/-! ## Letters of pieces -/

theorem colorLetters_cons (segment : Segment) (rest : List Segment) :
    colorLetters (segment :: rest) = colorLetters [segment] ++ colorLetters rest := by
  simp [colorLetters]

theorem colorLetters_append_copied (front back : Text) (rest : List Segment) :
    colorLetters (.copied (front ++ back) :: rest) =
      colorLetters (.copied front :: .copied back :: rest) := by
  simp [colorLetters, Segment.marked]

theorem colorLetters_other {digits : Text} (rest : List Segment) :
    colorLetters (.hash digits false :: rest) = colorLetters (.copied ('#' :: digits) :: rest) := by
  simp [colorLetters, Segment.marked]

theorem colorLetters_passes {behind text : Text} (passed : passes behind text = true) :
    colorLetters (segments (text ++ behind)) = colorLetters (.copied text :: segments behind) := by
  induction text with
  | nil => simp [colorLetters, Segment.marked]
  | cons c more ih =>
    simp only [passes, Bool.and_eq_true, Bool.not_eq_true', bne_iff_ne, ne_eq] at passed
    rcases passed with ⟨⟨⟨noQuote, noMark⟩, noAddress⟩, later⟩
    have alone : copiedLength c (more ++ behind) = 0 := by
      rw [copiedLength, noQuote, if_neg (by simp), if_neg (by simpa using noAddress)]
    have piece : segments (c :: ([] ++ (more ++ behind))) = .copied [c] :: segments (more ++ behind) :=
      segments_copied (by simpa using noMark) alone
    rw [List.nil_append, ← List.cons_append] at piece
    rw [piece, colorLetters_cons, ih later, ← colorLetters_cons,
      ← colorLetters_append_copied [c] more, List.singleton_append]

/-! ## Addresses -/

theorem bracketLength_append_plain {plain : Text} (unclosed : ')' ∉ plain) (more : Text) :
    bracketLength (plain ++ more) = plain.length + bracketLength more := by
  induction plain with
  | nil => simp
  | cons c rest ih =>
    rw [List.mem_cons, not_or] at unclosed
    rw [List.cons_append, bracketLength, if_neg (by simpa using Ne.symm unclosed.1), ih unclosed.2,
      List.length_cons]
    omega

theorem startsAddress_append_of {text : Text} (address : startsAddress text = true) (more : Text) :
    startsAddress (text ++ more) = true := by
  rw [startsAddress_eq, List.isPrefixOf_iff_prefix] at address ⊢
  rw [lower_append]
  exact address.trans (List.prefix_append _ _)

theorem first_of_address {first : Char} {rest : Text}
    (address : startsAddress (first :: rest) = true) : first = 'u' ∨ first = 'U' := by
  rw [startsAddress_eq, List.isPrefixOf_iff_prefix, lower_cons] at address
  have letter : first.toLower = 'u' := (List.cons_prefix_cons.mp address).1.symm
  rw [eq_iff_toNat, toNat_toLower] at letter
  simp only [eq_iff_toNat, Char.reduceToNat] at letter ⊢
  split at letter <;> omega

/-- An address is one piece, up to the first closing bracket. -/
theorem segments_address {text : Text} (address : startsAddress text = true) :
    segments text =
      .copied (text.take (bracketLength text)) :: segments (text.drop (bracketLength text)) := by
  cases text with
  | nil => contradiction
  | cons first rest =>
    have noQuote : ¬isQuote first = true := by
      rcases first_of_address address with rfl | rfl <;> decide
    have noMark : ¬(first == '#') = true := by
      rcases first_of_address address with rfl | rfl <;> decide
    have goesOn : ¬(first == ')') = true := by
      rcases first_of_address address with rfl | rfl <;> decide
    rw [segments, if_neg noMark, copiedLength, if_neg noQuote, if_pos address, bracketLength,
      if_neg goesOn, Nat.add_comm, List.take_succ_cons, List.drop_succ_cons]

/-- The opening of an address holds no closing bracket. -/
theorem open_of_url {opening : Text} (url : sameLetters opening "url(".toList = true) :
    ')' ∉ opening := by
  intro closing
  have letters : Swatch.lower opening = "url(".toList := eq_of_beq url
  have lowered : ')' ∈ Swatch.lower opening := List.mem_map.mpr ⟨')', closing, rfl⟩
  rw [letters] at lowered
  revert lowered
  decide

theorem startsAddress_of_url {opening : Text} (url : sameLetters opening "url(".toList = true) :
    startsAddress opening = true := by
  have size : opening.length = 4 := length_eq_of_lower_eq (eq_of_beq url)
  rwa [startsAddress, List.take_of_length_le (Nat.le_of_eq size)]

theorem text_of_closing {token : Token} (spelled : token.Spelled)
    (kind : token.kind = .closing .round) : token.text = [')'] :=
  spelled.single fun first length spells => by
    rw [kind] at spells
    refine ⟨?_, spells.2⟩
    have known := spells.1
    unfold punctuation at known
    split at known <;> first | rfl | cases known

/-- An address in quotes ends at the first closing bracket, for the scan and for the tokens. -/
theorem letters_inside {line : Nat} {text : Text} (step : inStep true (tokenize line text) = true) :
    ∃ later, inStep false (tokenize later (text.drop (bracketLength text))) = true ∧
      colorLetters (pieces [.round] (tokenize line text)) =
        colorLetters (.copied (text.take (bracketLength text)) ::
          pieces [] (tokenize later (text.drop (bracketLength text)))) := by
  fun_induction tokenize line text with
  | case1 line => exact ⟨line, by simp [tokenize_nil, inStep, pieces, colorLetters, Segment.marked]⟩
  | case2 line first rest found spelling ih =>
    have among : ⟨found.1, spelling, line⟩ ∈ tokenize line (first :: rest) := by
      rw [tokenize_cons]
      exact List.mem_cons_self
    have spelled := spelled_of_mem_tokenize among
    have text : first :: rest = spelling ++ rest.drop (found.2 - 1) := by
      simp [spelling]
    rw [inStep] at step
    rw [pieces]
    by_cases closes : spelling.contains ')' = true
    · rw [if_pos closes, Bool.and_eq_true, beq_iff_eq] at step
      have alone : spelling = [')'] := text_of_closing spelled step.1
      have size : bracketLength (spelling ++ rest.drop (found.2 - 1)) = spelling.length := by
        rw [alone]
        rfl
      have emptied : nest [.round] ⟨found.1, spelling, line⟩ = [] := by
        have kind : found.1 = .closing .round := step.1
        rw [kind]
        rfl
      rw [text, size, List.take_left, List.drop_left, emptied]
      exact ⟨_, step.2, rfl⟩
    · rw [if_neg closes, Bool.and_eq_true, beq_iff_eq] at step
      have goesOn : ')' ∉ spelling := by simpa using closes
      have stays : nest [.round] ⟨found.1, spelling, line⟩ = [.round] := by
        have closesNot : Token.closes .round ⟨found.1, spelling, line⟩ = false := by
          rw [Token.closes, beq_eq_false_iff_ne]
          intro kind
          have alone : spelling = [')'] := text_of_closing spelled kind
          rw [alone] at goesOn
          exact goesOn List.mem_cons_self
        rw [nest, step.1]
        simp only [closesNot, Bool.false_eq_true, ↓reduceIte]
      rcases ih step.2 with ⟨later, further, letters⟩
      refine ⟨later, ?_, ?_⟩
      · rwa [text, bracketLength_append_plain goesOn, List.drop_length_add_append]
      · rw [text, bracketLength_append_plain goesOn, List.drop_length_add_append,
          List.take_length_add_append, stays, colorLetters_cons, letters, ← colorLetters_cons,
          colorLetters_append_copied]

/-! ## One token -/

/-- A name ends before a character that could not go on with it. -/
theorem head?_drop_nameLength (text : Text) :
    (text.drop (nameLength text)).head?.any isNameChar = false := by
  fun_induction nameLength text with
  | case1 => rfl
  | case2 c rest inName ih => rwa [Nat.add_comm, List.drop_succ_cons]
  | case3 c rest outside escape ih =>
    rwa [Nat.add_assoc, Nat.add_comm, List.drop_succ_cons, ← List.drop_drop]
  | case4 c rest outside noEscape => simpa using outside

section Token

variable {first : Char} {rest : Text} {line : Nat}

theorem segments_string (kind : (lexeme first rest).1 = .string) :
    segments (first :: rest) =
      .copied (first :: rest.take ((lexeme first rest).2 - 1)) ::
        segments (rest.drop ((lexeme first rest).2 - 1)) := by
  have read := lexeme_eq_reader_read kind
  have reader : readerOf first rest = .string := by
    rw [readerOf_eq_reader, kind]
    rfl
  have quote := isQuote_of_string reader
  rw [read] at kind ⊢
  have good : (stringTail first rest).1 = .string := kind
  have noMark : ¬(first == '#') = true := by
    rw [beq_iff_eq]
    rintro rfl
    contradiction
  have size : copiedLength first rest = (stringTail first rest).2 := by
    rw [copiedLength, if_pos quote, quotedLength_of_string quote good]
  simp only [TokenKind.reader, Reader.read, Nat.add_sub_cancel_left]
  rw [segments, if_neg noMark, size]

/-- The name of a hash ends at the end of its token. -/
theorem segments_hash_token {name behind : Text} (ends : behind.head?.any isNameChar = false) :
    segments ('#' :: (name ++ behind)) =
      .hash (name.takeWhile isHexDigit)
          (isColor (name.takeWhile isHexDigit) (name.dropWhile isHexDigit ++ behind)) ::
        segments (name.dropWhile isHexDigit ++ behind) := by
  have parts : name ++ behind =
      name.takeWhile isHexDigit ++ (name.dropWhile isHexDigit ++ behind) := by
    rw [← List.append_assoc, List.takeWhile_append_dropWhile]
  rw [parts]
  apply segments_hash fun c met => List.mem_takeWhile_imp met
  have inside := stops_dropWhile isHexDigit name
  cases left : name.dropWhile isHexDigit with
  | nil =>
    cases behind with
    | nil => rfl
    | cons c more =>
      have outside : isNameChar c = false := ends
      rw [List.nil_append, List.head?_cons, Option.any_some, Bool.eq_false_iff]
      intro digit
      rw [isNameChar_of_hexDigit digit] at outside
      contradiction
  | cons c more =>
    rw [left] at inside
    exact inside

theorem letters_of_hash {name behind : Text} (ends : behind.head?.any isNameChar = false)
    (followed : follows behind ⟨.hash, '#' :: name, line⟩ = true) :
    colorLetters (segments ('#' :: name ++ behind)) =
      colorLetters (pieceOf ⟨.hash, '#' :: name, line⟩ :: segments behind) := by
  simp only [follows, List.drop_succ_cons, List.drop_zero, Bool.and_eq_true, beq_iff_eq] at followed
  rcases followed with ⟨passed, agrees⟩
  rw [List.cons_append, segments_hash_token ends, colorLetters_cons, colorLetters_passes passed,
    agrees, ← colorLetters_cons, pieceOf, Token.colorDigits?]
  by_cases color : (name.all isHexDigit && [3, 4, 6, 8].contains name.length) = true
  · have hex : ∀ c ∈ name, isHexDigit c = true := by simpa using (Bool.and_eq_true_iff.mp color).1
    have digits : name.takeWhile isHexDigit = name := List.takeWhile_eq_self_iff.mpr hex
    have none : name.dropWhile isHexDigit = [] := List.dropWhile_eq_nil_iff.mpr hex
    simp only [if_pos color, digits, none]
    rfl
  · simp only [if_neg color]
    rw [Option.isSome_none, colorLetters_other, ← colorLetters_append_copied, List.cons_append,
      List.takeWhile_append_dropWhile]

/-- A `#` that is no hash has no digits behind it. -/
theorem segments_delimiter (kind : (lexeme '#' rest).1 = .delimiter) :
    segments ('#' :: rest) = .hash [] false :: segments rest := by
  have noName : startsHashName rest = false := by
    rw [Bool.eq_false_iff]
    intro begins
    rw [lexeme_hash begins] at kind
    contradiction
  have stops : rest.head?.any isHexDigit = false := by
    cases rest with
    | nil => rfl
    | cons c more =>
      rw [List.head?_cons, Option.any_some, Bool.eq_false_iff]
      intro digit
      have alphanum : ∀ d ∈ [c], d.isAlphanum = true := by
        intro d met
        rw [List.mem_singleton.mp met, isAlphanum_iff]
        rw [isHexDigit_iff] at digit
        omega
      have begins := startsHashName_of_alphanum (List.cons_ne_nil c []) alphanum more
      rw [List.singleton_append, noName] at begins
      contradiction
  have nothing : ∀ c ∈ ([] : Text), isHexDigit c = true := by simp
  exact segments_hash nothing stops

/-- Behind a token that it follows the scan has found the color that the token is, or none. -/
theorem letters_of_follows {token : Token} {behind : Text}
    (read : ⟨(lexeme first rest).1, first :: rest.take ((lexeme first rest).2 - 1), line⟩ = token)
    (left : rest.drop ((lexeme first rest).2 - 1) = behind)
    (followed : follows behind token = true) :
    colorLetters (segments (first :: rest)) =
      colorLetters (pieceOf token :: segments behind) := by
  have parts : first :: rest = token.text ++ behind := by
    rw [← read, ← left]
    simp
  have copied (other : token.kind ≠ .hash) : pieceOf token = .copied token.text := by
    rw [pieceOf, Token.colorDigits?]
    split <;> simp_all
  have passed (walks : passes behind token.text = true) (other : token.kind ≠ .hash) :
      colorLetters (segments (first :: rest)) =
        colorLetters (pieceOf token :: segments behind) := by
    rw [parts, copied other, colorLetters_passes walks]
  have address (found : startsAddress token.text = true ∧
      bracketLength (token.text ++ behind) = token.text.length) (other : token.kind ≠ .hash) :
      colorLetters (segments (first :: rest)) =
        colorLetters (pieceOf token :: segments behind) := by
    rw [parts, segments_address (startsAddress_append_of found.1 behind), found.2,
      List.take_left, List.drop_left, copied other]
  have kind : (lexeme first rest).1 = token.kind := by rw [← read]
  have whole := followed
  unfold follows at followed
  split at followed
  · rename_i isString
    rw [segments_string (kind.trans isString), left, copied (by rw [isString]; decide), ← read]
  · rename_i isAddress
    exact address (by simpa using followed) (by rw [isAddress]; decide)
  · rename_i isAddress
    exact address (by simpa using followed) (by rw [isAddress]; decide)
  · rename_i isHash
    rcases lexeme_of_hash (kind.trans isHash) with ⟨rfl, found⟩
    rw [found, Nat.add_sub_cancel_left] at read left
    have ends : behind.head?.any isNameChar = false := by
      rw [← left]
      exact head?_drop_nameLength rest
    rw [← read] at whole parts ⊢
    rw [parts]
    exact letters_of_hash ends whole
  · rename_i isDelimiter
    rw [Bool.or_eq_true, beq_iff_eq] at followed
    rcases followed with mark | walks
    · have found := lexeme_eq_reader_read (kind.trans isDelimiter)
      have size : (lexeme first rest).2 = 1 := by rw [found]; rfl
      have begins : first = '#' := by
        rw [← read, size] at mark
        exact (List.cons.inj mark).1
      rw [size, Nat.sub_self, List.drop_zero] at left
      subst begins left
      rw [segments_delimiter (kind.trans isDelimiter), copied (by rw [isDelimiter]; decide), mark,
        colorLetters_other]
    · exact passed walks (by rw [isDelimiter]; decide)
  · rename_i _ _ _ _ noHash _
    exact passed followed noHash

end Token

/-! ## A value -/

/-- A scan that stays in step finds the colors that the tokens are. -/
theorem letters_of_inStep {line : Nat} {value : Text}
    (step : inStep false (tokenize line value) = true) :
    colorLetters (segments value) = colorLetters (pieces [] (tokenize line value)) := by
  induction size : value.length using Nat.strong_induction_on generalizing line value with
  | h length ih =>
    cases value with
    | nil => rw [tokenize_nil, segments, pieces]
    | cons first rest =>
      rw [tokenize_cons] at step ⊢
      generalize read : (⟨(lexeme first rest).1, first :: rest.take ((lexeme first rest).2 - 1),
        line⟩ : Token) = token at step ⊢
      generalize left : rest.drop ((lexeme first rest).2 - 1) = behind at step ⊢
      have shorter : behind.length < length := by
        rw [← left, ← size, List.length_drop, List.length_cons]
        omega
      rw [inStep] at step
      rw [pieces]
      by_cases opens : token.opensAddress = true
      · rw [if_pos opens, Bool.and_eq_true] at step
        rw [if_pos opens]
        rcases letters_inside step.2 with ⟨later, further, letters⟩
        have parts : first :: rest = token.text ++ behind := by
          rw [← read, ← left]
          simp
        have address := startsAddress_append_of (startsAddress_of_url step.1) behind
        have within : (behind.drop (bracketLength behind)).length < length := by
          rw [List.length_drop]
          omega
        rw [parts, segments_address address, bracketLength_append_plain (open_of_url step.1),
          List.take_length_add_append, List.drop_length_add_append, colorLetters_append_copied,
          colorLetters_cons, colorLetters_cons _ (segments _), ih _ within further rfl,
          ← colorLetters_cons, ← letters, ← colorLetters_cons]
      · rw [if_neg opens, Bool.and_eq_true, source_tokenize] at step
        rw [if_neg opens, letters_of_follows read left step.1, colorLetters_cons,
          ih _ shorter step.2 rfl, ← colorLetters_cons]

/-! ## The written value -/

/--
Writing the hex colors of a value keeps its tokens one for one, up to the case of letters.
The tokens that are colors get their digits in the wanted case and all others are copied,
exactly when the scan and the tokens agree on the letters of colors; they do when the scan
stays in step.
-/
theorem apply_recolors_iff (value : Text) :
    (∀ hexCase : HexCase, ∀ line, (tokenize line (hexCase.apply value)).map Token.lower =
        (tokenize line value).map Token.lower) ∧
      ((∀ hexCase : HexCase, hexCase ≠ .preserve → ∀ line,
          tokenize line (hexCase.apply value) = recolored hexCase (tokenize line value)) ↔
        SameColors value) ∧
      (inStep false (tokenize 0 value) = true → SameColors value) := by
  refine ⟨fun hexCase line => map_lower_tokenize_apply hexCase line value, ?_, letters_of_inStep⟩
  rw [← sameColors_iff]
  constructor
  · intro same hexCase changes
    exact tokenize_apply_iff.mp (same hexCase changes 0)
  · intro same hexCase changes line
    exact tokenize_apply_iff.mpr (same hexCase changes)

/-- Hashes in addresses and strings are copied, and the one beside them is written. -/
theorem apply_recolors_iff_beside :
    let value := "url( \"#ABC.png\" ) url(#ABC) '#ABC' #ABC".toList
    inStep false (tokenize 0 value) = true ∧ SameColors value ∧
      HexCase.lower.apply value = "url( \"#ABC.png\" ) url(#ABC) '#ABC' #abc".toList := by
  intro value
  have step : inStep false (tokenize 0 value) = true := by decide +kernel
  exact ⟨step, (apply_recolors_iff value).2.2 step, by decide +kernel⟩

/-- A closing bracket in the string of an address ends the address for the scan only. -/
theorem quoted_address_is_changed :
    let value := "url(\")#ABC\")".toList
    (∃ rule ∈ (Stylesheet.parse ".a\x7bb:url(\")#ABC\")\x7d".toList).rules,
        ∃ declared ∈ rule.declarations, declared.value = value) ∧
      ⟨.string, "\")#ABC\"".toList, 0⟩ ∈ tokenize 0 value ∧
      HexCase.lower.apply value = "url(\")#abc\")".toList ∧
      tokenize 0 (HexCase.lower.apply value) ≠ recolored .lower (tokenize 0 value) := by
  decide +kernel

end HexCase

end Swatch
