import Swatch.Proofs.Css.Kinds
import Swatch.Proofs.Css.Whole
import Swatch.Proofs.Recase

/-!
# Hex colors as tokens

Hex colors are found by a scan of characters, not of tokens. The tokens of a value say
which of its characters belong to a color: those of a hash whose whole name is 3, 4, 6
or 8 hexadecimal digits, unless it stands inside `url( )`. Writing the colors in another
case never changes where tokens begin and end or of what kind they are, so only this
question is left: does the scan find the colors that the tokens are?

It does exactly when the two agree on every letter. They agree when the scan keeps step
with the tokens, and this can be checked token by token: a name has to show its `url(`
as it is read and must not hide a quote or a `#` behind an escape, and an address has to
end at the first closing bracket in it. The scan loses step at `url(")#ABC")`, where it
leaves the string in the middle and changes what stands there.
-/

namespace Swatch

open Css

/-! ## Colors among the tokens -/

/-- The digits of a hash whose whole name is 3, 4, 6 or 8 hexadecimal digits. -/
def Css.Token.colorDigits? (token : Token) : Option Text :=
  match token.kind, token.text with
  | .hash, '#' :: name =>
    if name.all isHexDigit && [3, 4, 6, 8].contains name.length then some name else none
  | _, _ => none

/-- Does the token open an address in quotes? -/
def Css.Token.opensAddress (token : Token) : Bool :=
  token.kind == .function && sameLetters (resolve token.text.dropLast) "url".toList

namespace HexCase

/-- A token as a piece of a value. -/
def pieceOf (token : Token) : Segment :=
  match token.colorDigits? with
  | some digits => .hash digits true
  | none => .copied token.text

/--
The pieces that tokens are. The stack holds the brackets that are open from an address in
quotes on; while there are any, everything is copied.
-/
def pieces : List Bracket → List Token → List Segment
  | _, [] => []
  | [], token :: rest =>
    if token.opensAddress then .copied token.text :: pieces [.round] rest
    else pieceOf token :: pieces [] rest
  | bracket :: outer, token :: rest =>
    .copied token.text :: pieces (nest (bracket :: outer) token) rest

/-- The tokens with the colors among them in the wanted case. -/
def recolored (hexCase : HexCase) (tokens : List Token) : List Token :=
  List.zipWith (fun token piece => { token with text := piece.written hexCase }) tokens
    (pieces [] tokens)

/-- The characters of a piece, each with whether it is a digit of a color. -/
def Segment.marked : Segment → List (Char × Bool)
  | .copied text => text.map fun c => (c, false)
  | .hash digits color => ('#', false) :: digits.map fun c => (c, color)

/-- For each letter in some pieces, in order, whether it is a digit of a color. -/
def colorLetters (segments : List Segment) : List Bool :=
  ((segments.flatMap Segment.marked).filter fun one => one.1.isAlpha).map Prod.snd

/-- The scan and the tokens agree on which letters of the value belong to a color. -/
def SameColors (value : Text) : Prop :=
  colorLetters (segments value) = colorLetters (pieces [] (tokenize 0 value))

theorem text_pieceOf (token : Token) : (pieceOf token).text = token.text := by
  unfold pieceOf Token.colorDigits?
  split
  · rename_i digits found
    split at found
    · rename_i name kind text
      split at found
      · cases found
        rw [Segment.text, text]
      · contradiction
    · contradiction
  · rfl

theorem map_text_pieces (stack : List Bracket) (tokens : List Token) :
    (pieces stack tokens).map Segment.text = tokens.map Token.text := by
  fun_induction pieces stack tokens with
  | case1 => rfl
  | case2 token rest opens ih => simp [ih, Segment.text]
  | case3 token rest plain ih => simp [ih, text_pieceOf]
  | case4 bracket outer token rest ih => simp [ih, Segment.text]

theorem flatMap_text_pieces (stack : List Bracket) (tokens : List Token) :
    (pieces stack tokens).flatMap Segment.text = source tokens := by
  have texts := congrArg List.flatten (map_text_pieces stack tokens)
  rwa [List.flatMap_def, source, List.flatMap_def]

theorem pieces_down (lines : Nat) (stack : List Bracket) (tokens : List Token) :
    pieces stack (tokens.map (Token.down lines)) = pieces stack tokens := by
  fun_induction pieces stack tokens with
  | case1 => rfl
  | case2 token rest opens ih =>
    have same : (token.down lines).opensAddress = true := opens
    simp [pieces, same, ih]
  | case3 token rest plain ih =>
    have same : (token.down lines).opensAddress = token.opensAddress := rfl
    have piece : pieceOf (token.down lines) = pieceOf token := rfl
    simp [pieces, same, plain, piece, ih]
  | case4 bracket outer token rest ih => simp [pieces, ih]

/-! ## Tokens of the written value -/

section Written

variable {hexCase : HexCase} {line : Nat} {value : Text}

/-- The tokens of the written value are those of the value, up to the case of letters. -/
theorem map_lower_tokenize_apply (hexCase : HexCase) (line : Nat) (value : Text) :
    (tokenize line (hexCase.apply value)).map Token.lower =
      (tokenize line value).map Token.lower := by
  rw [← tokenize_lower, lower_apply, tokenize_lower]

theorem map_lower_zipWith {tokens : List Token} {segments : List Segment}
    (texts : segments.map Segment.text = tokens.map Token.text) :
    (List.zipWith (fun token piece => { token with text := piece.written hexCase }) tokens
      segments).map Token.lower = tokens.map Token.lower := by
  induction tokens generalizing segments with
  | nil => rfl
  | cons token rest ih =>
    cases segments with
    | nil => contradiction
    | cons piece others =>
      rw [List.map_cons, List.map_cons, List.cons.injEq] at texts
      simp [Token.lower, lower_written, texts.1, ih texts.2]

theorem source_zipWith {tokens : List Token} {segments : List Segment}
    (sizes : segments.length = tokens.length) :
    source (List.zipWith (fun token piece => { token with text := piece.written hexCase }) tokens
      segments) = segments.flatMap (Segment.written hexCase) := by
  induction tokens generalizing segments with
  | nil => simp [List.eq_nil_of_length_eq_zero sizes]
  | cons token rest ih =>
    cases segments with
    | nil => contradiction
    | cons piece others => simp [ih (Nat.succ.inj sizes)]

theorem pieces_length (stack : List Bracket) (tokens : List Token) :
    (pieces stack tokens).length = tokens.length := by
  simpa using congrArg List.length (map_text_pieces stack tokens)

/-- Tokens with the same letters are the same when they spell the same text. -/
theorem eq_of_map_lower_of_source {tokens others : List Token}
    (lowered : tokens.map Token.lower = others.map Token.lower)
    (spelled : source tokens = source others) : tokens = others := by
  induction tokens generalizing others with
  | nil => exact (List.map_eq_nil_iff.mp lowered.symm).symm
  | cons token rest ih =>
    cases others with
    | nil => contradiction
    | cons other more =>
      rw [List.map_cons, List.map_cons, List.cons.injEq] at lowered
      rcases token with ⟨kind, text, line⟩
      rcases other with ⟨otherKind, otherText, otherLine⟩
      simp only [Token.lower, Token.mk.injEq] at lowered
      rcases lowered with ⟨⟨rfl, letters, rfl⟩, later⟩
      rcases List.append_inj spelled (length_eq_of_lower_eq letters) with ⟨rfl, behind⟩
      rw [ih later behind]

/-- Writing a value recolors its tokens when it writes what the tokens ask for. -/
theorem tokenize_apply_iff :
    tokenize line (hexCase.apply value) = recolored hexCase (tokenize line value) ↔
      (segments value).flatMap (Segment.written hexCase) =
        (pieces [] (tokenize 0 value)).flatMap (Segment.written hexCase) := by
  have asked : source (recolored hexCase (tokenize line value)) =
      (pieces [] (tokenize 0 value)).flatMap (Segment.written hexCase) := by
    rw [recolored, source_zipWith (pieces_length _ _), tokenize_eq_down, pieces_down]
  constructor
  · intro same
    rw [← asked, ← same, source_tokenize]
    rfl
  · intro same
    apply eq_of_map_lower_of_source
    · rw [map_lower_tokenize_apply, recolored, map_lower_zipWith (map_text_pieces _ _)]
    · rw [source_tokenize, asked, ← same]
      rfl

end Written

/-! ## Letters of colors -/

/-- A digit of a color in the wanted case. -/
def digit (hexCase : HexCase) (c : Char) : Char :=
  match hexCase with
  | .lower => c.toLower
  | .upper => c.toUpper
  | .preserve => c

theorem recase_eq_map (hexCase : HexCase) (digits : Text) :
    hexCase.recase digits = digits.map hexCase.digit := by
  cases hexCase with
  | lower => rfl
  | upper => rfl
  | preserve => exact (List.map_id digits).symm

/-- A marked character as it is written. -/
def mark (hexCase : HexCase) (one : Char × Bool) : Char :=
  if one.2 then hexCase.digit one.1 else one.1

theorem map_fst_marked (segment : Segment) : segment.marked.map Prod.fst = segment.text := by
  cases segment <;> simp [Segment.marked, Segment.text, Function.comp_def]

theorem map_mark_marked (hexCase : HexCase) (segment : Segment) :
    segment.marked.map hexCase.mark = segment.written hexCase := by
  cases segment with
  | copied text => simp [Segment.marked, Segment.written, mark, Function.comp_def]
  | hash digits color =>
    cases color <;>
      simp [Segment.marked, Segment.written, mark, recase_eq_map, Function.comp_def]

theorem digit_of_not_alpha {c : Char} (plain : c.isAlpha = false) (hexCase : HexCase) :
    hexCase.digit c = c := by
  rw [Bool.eq_false_iff, ne_eq, isAlpha_iff] at plain
  cases hexCase with
  | lower => rw [digit, eq_iff_toNat, toNat_toLower, if_neg (by omega)]
  | upper => rw [digit, eq_iff_toNat, toNat_toUpper, if_neg (by omega)]
  | preserve => rfl

/-- One of the two cases changes a letter. -/
theorem exists_digit_ne {c : Char} (letter : c.isAlpha = true) :
    ∃ hexCase, hexCase ≠ HexCase.preserve ∧ hexCase.digit c ≠ c := by
  rw [isAlpha_iff] at letter
  rcases letter with capital | small
  · refine ⟨.lower, by decide, ?_⟩
    rw [digit, ne_eq, eq_iff_toNat, toNat_toLower, if_pos capital]
    omega
  · refine ⟨.upper, by decide, ?_⟩
    rw [digit, ne_eq, eq_iff_toNat, toNat_toUpper, if_pos small]
    omega

theorem mark_eq_iff (c : Char) (left right : Bool) :
    (∀ hexCase, hexCase ≠ HexCase.preserve → hexCase.mark (c, left) = hexCase.mark (c, right)) ↔
      (c.isAlpha = true → left = right) := by
  constructor
  · intro same letter
    rcases exists_digit_ne letter with ⟨hexCase, changes, other⟩
    have here := same hexCase changes
    cases left with
    | false =>
      cases right with
      | false => rfl
      | true => exact absurd here.symm other
    | true =>
      cases right with
      | false => exact absurd here other
      | true => rfl
  · intro same hexCase _
    cases letter : c.isAlpha with
    | true => rw [same letter]
    | false => cases left <;> cases right <;> simp [mark, digit_of_not_alpha letter]

/-- Marked texts are written the same in both cases if and only if their letters are marked the same. -/
theorem map_mark_eq_iff {left right : List (Char × Bool)}
    (texts : left.map Prod.fst = right.map Prod.fst) :
    (∀ hexCase, hexCase ≠ HexCase.preserve → left.map hexCase.mark = right.map hexCase.mark) ↔
      (left.filter fun one => one.1.isAlpha).map Prod.snd =
        (right.filter fun one => one.1.isAlpha).map Prod.snd := by
  induction left generalizing right with
  | nil => simp [List.map_eq_nil_iff.mp texts.symm]
  | cons one rest ih =>
    cases right with
    | nil => contradiction
    | cons other others =>
      rcases one with ⟨c, here⟩
      rcases other with ⟨d, there⟩
      simp only [List.map_cons, List.cons.injEq] at texts
      rcases texts with ⟨rfl, texts⟩
      simp only [List.map_cons, List.cons.injEq, forall_and, ih texts, mark_eq_iff]
      cases letter : c.isAlpha <;> simp [letter]

theorem sameColors_iff (value : Text) :
    (∀ hexCase, hexCase ≠ HexCase.preserve →
        (segments value).flatMap (Segment.written hexCase) =
          (pieces [] (tokenize 0 value)).flatMap (Segment.written hexCase)) ↔
      SameColors value := by
  have marked (hexCase : HexCase) (list : List Segment) :
      list.flatMap (Segment.written hexCase) = (list.flatMap Segment.marked).map hexCase.mark := by
    rw [List.map_flatMap]
    exact List.flatMap_congr fun segment _ => (map_mark_marked hexCase segment).symm
  have texts (list : List Segment) :
      (list.flatMap Segment.marked).map Prod.fst = list.flatMap Segment.text := by
    rw [List.map_flatMap]
    exact List.flatMap_congr fun segment _ => map_fst_marked segment
  simp only [marked]
  apply map_mark_eq_iff
  rw [texts, texts, flatMap_text_segments, flatMap_text_pieces, source_tokenize]

end HexCase

end Swatch
