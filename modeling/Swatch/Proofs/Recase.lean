import Swatch.HexCase
import Swatch.Proofs.Css.LetterCase
import Mathlib.Data.List.Basic

/-!
# Writing hex colors in one case

Where a value is cut into pieces depends on its letters only up to their case.
Writing the hex colors in one case changes the case of some letters and nothing
else, so the value that is written is cut at the same places, and writing it
again finds every color as it was left.
-/

namespace Swatch

open Css

theorem lower_lower (text : Text) : lower (lower text) = lower text := by
  rw [lower, lower, List.map_map]
  exact List.map_congr_left fun c _ => toLower_toLower c

theorem lower_upper (text : Text) : lower (upper text) = lower text := by
  rw [lower, upper, List.map_map]
  exact List.map_congr_left fun c _ => toLower_toUpper c

theorem length_eq_of_lower_eq {left right : Text} (same : lower left = lower right) :
    left.length = right.length := by
  have lengths := congrArg List.length same
  rwa [lower, lower, List.length_map, List.length_map] at lengths

namespace HexCase

theorem lower_recase (hexCase : HexCase) (digits : Text) :
    Swatch.lower (hexCase.recase digits) = Swatch.lower digits := by
  cases hexCase with
  | lower => exact lower_lower digits
  | upper => exact lower_upper digits
  | preserve => rfl

/-- Of two cases the later one decides, unless it leaves the digits as they are. -/
theorem recase_recase {later earlier : HexCase} (decides : later = .preserve → earlier = .preserve)
    (digits : Text) : later.recase (earlier.recase digits) = later.recase digits := by
  have lowered := lower_recase earlier digits
  cases later with
  | lower => exact lowered
  | upper =>
    have uppered : ∀ text, Swatch.upper text = Swatch.upper (Swatch.lower text) := by
      intro text
      rw [Swatch.upper, Swatch.upper, Swatch.lower, List.map_map]
      exact List.map_congr_left fun c _ => (toUpper_toLower c).symm
    rw [recase, recase, uppered, lowered, ← uppered]
  | preserve =>
    rw [decides rfl]
    rfl

theorem recase_length (hexCase : HexCase) (digits : Text) :
    (hexCase.recase digits).length = digits.length :=
  length_eq_of_lower_eq (lower_recase hexCase digits)

theorem lower_written (hexCase : HexCase) (segment : Segment) :
    Swatch.lower (segment.written hexCase) = Swatch.lower segment.text := by
  cases segment with
  | copied text => rfl
  | hash digits color =>
    cases color with
    | false => rfl
    | true => exact congrArg ('#' :: ·) (lower_recase hexCase digits)

/-- Only the case of letters changes. -/
theorem lower_apply (hexCase : HexCase) (value : Text) :
    Swatch.lower (hexCase.apply value) = Swatch.lower value := by
  conv => rhs; rw [← flatMap_text_segments value]
  rw [apply]
  induction segments value with
  | nil => rfl
  | cons segment rest ih =>
    rw [List.flatMap_cons, List.flatMap_cons, lower_append, lower_append, lower_written, ih]

theorem apply_preserve (value : Text) : HexCase.preserve.apply value = value := by
  have same : Segment.written .preserve = Segment.text := by
    funext segment
    cases segment with
    | copied text => rfl
    | hash digits color => cases color <;> rfl
  rw [apply, same, flatMap_text_segments]

/-! ## Places of the cuts -/

theorem bracketLength_lower (text : Text) :
    bracketLength (Swatch.lower text) = bracketLength text := by
  induction text with
  | nil => rfl
  | cons c rest ih =>
    rw [lower_cons, bracketLength, bracketLength, ih, toLower_beq (by rfl)]

theorem bracketLength_le (text : Text) : bracketLength text ≤ text.length := by
  fun_induction bracketLength text with
  | case1 => exact Nat.le_refl 0
  | case2 c rest ends => exact Nat.succ_le_succ (Nat.zero_le _)
  | case3 c rest goesOn ih =>
    rw [List.length_cons]
    omega

theorem copiedLength_le (first : Char) (rest : Text) : copiedLength first rest ≤ rest.length := by
  unfold copiedLength
  split
  · exact quotedLength_le first rest
  · split
    · exact bracketLength_le rest
    · exact Nat.zero_le _

theorem startsAddress_eq (text : Text) :
    startsAddress text = "url(".toList.isPrefixOf (Swatch.lower text) := by
  rw [startsAddress, sameLetters, Bool.eq_iff_iff, beq_iff_eq, List.isPrefixOf_iff_prefix,
    List.prefix_iff_eq_take, lower_take, eq_comm]
  rfl

/-- How much is copied together does not depend on the case of letters. -/
theorem copiedLength_of_lower_eq (first : Char) {left right : Text}
    (same : Swatch.lower left = Swatch.lower right) :
    copiedLength first left = copiedLength first right := by
  have brackets : bracketLength left = bracketLength right := by
    rw [← bracketLength_lower left, same, bracketLength_lower]
  have address : startsAddress (first :: left) = startsAddress (first :: right) := by
    rw [startsAddress_eq, startsAddress_eq, lower_cons, lower_cons, same]
  unfold copiedLength
  by_cases quote : isQuote first = true
  · rw [if_pos quote, if_pos quote, ← quotedLength_lower quote left, same,
      quotedLength_lower quote]
  · rw [if_neg quote, if_neg quote, address, brackets]

/-! ## Pieces of the written value -/

/-- The piece with its digits as they are written. -/
def Segment.recased (hexCase : HexCase) : Segment → Segment
  | .copied text => .copied text
  | .hash digits color => .hash (if color then hexCase.recase digits else digits) color

theorem isHexDigit_recase (hexCase : HexCase) {digits : Text}
    (hex : ∀ c ∈ digits, isHexDigit c = true) : ∀ c ∈ hexCase.recase digits, isHexDigit c = true := by
  intro c met
  have same := lower_recase hexCase digits
  have low : c.toLower ∈ Swatch.lower digits := by
    rw [← same]
    exact List.mem_map_of_mem met
  rcases List.mem_map.mp low with ⟨d, among, lowered⟩
  rw [← isHexDigit_toLower c, ← lowered, isHexDigit_toLower]
  exact hex d among

theorem written_recased {later earlier : HexCase} (decides : later = .preserve → earlier = .preserve)
    (segment : Segment) : (segment.recased earlier).written later = segment.written later := by
  cases segment with
  | copied text => rfl
  | hash digits color =>
    cases color with
    | false => rfl
    | true => exact congrArg ('#' :: ·) (recase_recase decides digits)

theorem head?_apply (hexCase : HexCase) (value : Text) :
    (hexCase.apply value).head? = value.head? := by
  unfold apply
  cases value with
  | nil => rw [segments]; rfl
  | cons first rest =>
    rw [segments]
    split
    · rename_i hash
      rw [beq_iff_eq] at hash
      rw [hash]
      rfl
    · rfl

theorem takeWhile_of_head? {test : Char → Bool} {text : Text}
    (stops : text.head?.any test = false) : text.takeWhile test = [] := by
  cases text with
  | nil => rfl
  | cons c rest => exact List.takeWhile_cons_of_neg (by simpa using stops)

theorem dropWhile_of_head? {test : Char → Bool} {text : Text}
    (stops : text.head?.any test = false) : text.dropWhile test = text := by
  cases text with
  | nil => rfl
  | cons c rest => exact List.dropWhile_cons_of_neg (by simpa using stops)

theorem stops_dropWhile (test : Char → Bool) (text : Text) :
    (text.dropWhile test).head?.any test = false := by
  have outside := List.head?_dropWhile_not test text
  cases left : text.dropWhile test with
  | nil => rfl
  | cons c more =>
    rw [left] at outside
    simpa using outside

/-- All digits up to another character are those of one hash. -/
theorem segments_hash {digits after : Text} (hex : ∀ c ∈ digits, isHexDigit c = true)
    (stops : after.head?.any isHexDigit = false) :
    segments ('#' :: (digits ++ after)) = .hash digits (isColor digits after) :: segments after := by
  have front : (digits ++ after).takeWhile isHexDigit = digits := by
    rw [List.takeWhile_append_of_pos hex, takeWhile_of_head? stops, List.append_nil]
  have back : (digits ++ after).dropWhile isHexDigit = after := by
    rw [List.dropWhile_append_of_pos hex, dropWhile_of_head? stops]
  rw [segments, if_pos (by rfl)]
  simp only [front, back]

theorem segments_copied {first : Char} {copied after : Text} (other : ¬ (first == '#') = true)
    (size : copiedLength first (copied ++ after) = copied.length) :
    segments (first :: (copied ++ after)) = .copied (first :: copied) :: segments after := by
  rw [segments, if_neg other]
  simp only [size, List.take_left, List.drop_left]

/-- Digits that are written are as many and stay digits. -/
theorem written_hash (hexCase : HexCase) {digits : Text}
    (hex : ∀ c ∈ digits, isHexDigit c = true) (color : Bool) :
    ∃ spelled, Segment.written hexCase (.hash digits color) = '#' :: spelled ∧
      Segment.recased hexCase (.hash digits color) = .hash spelled color ∧
      spelled.length = digits.length ∧ ∀ c ∈ spelled, isHexDigit c = true := by
  refine ⟨_, rfl, rfl, ?_⟩
  split
  · exact ⟨recase_length hexCase digits, isHexDigit_recase hexCase hex⟩
  · exact ⟨rfl, hex⟩

/-- The value that is written has the pieces of the value, with their digits as they are written. -/
theorem segments_apply (hexCase : HexCase) (value : Text) :
    segments (hexCase.apply value) = (segments value).map (Segment.recased hexCase) := by
  unfold apply
  fun_induction segments value with
  | case1 => rw [List.flatMap_nil, segments]; rfl
  | case2 first rest isHash digits after ih =>
    have hex : ∀ c ∈ digits, isHexDigit c = true := fun c met => List.mem_takeWhile_imp met
    have begins : ((segments after).flatMap (Segment.written hexCase)).head? = after.head? :=
      head?_apply hexCase after
    rcases written_hash hexCase hex (isColor digits after) with
      ⟨spelled, written, recased, size, spelledHex⟩
    have color : isColor spelled ((segments after).flatMap (Segment.written hexCase)) =
        isColor digits after := by
      rw [isColor, isColor, size, begins]
    rw [List.flatMap_cons, List.map_cons, ← ih, written, recased, List.cons_append,
      segments_hash spelledHex (by rw [begins]; exact stops_dropWhile isHexDigit rest), color]
  | case3 first rest other copied ih =>
    have lowered : Swatch.lower (rest.take copied ++
        (segments (rest.drop copied)).flatMap (Segment.written hexCase)) = Swatch.lower rest := by
      conv => rhs; rw [← List.take_append_drop copied rest]
      rw [lower_append, lower_append]
      exact congrArg _ (lower_apply hexCase (rest.drop copied))
    have size : (rest.take copied).length = copied :=
      List.length_take_of_le (copiedLength_le first rest)
    have written : Segment.written hexCase (.copied (first :: rest.take copied)) =
        first :: rest.take copied := rfl
    rw [List.flatMap_cons, List.map_cons, ← ih, written, List.cons_append, segments_copied other]
    · rfl
    · rw [copiedLength_of_lower_eq first lowered, size]

/-- Writing a value in one case and then in another is writing it in the other. -/
theorem apply_apply {later earlier : HexCase} (decides : later = .preserve → earlier = .preserve)
    (value : Text) : later.apply (earlier.apply value) = later.apply value := by
  have again : later.apply (earlier.apply value) =
      (segments (earlier.apply value)).flatMap (Segment.written later) := rfl
  rw [again, segments_apply, List.flatMap_map, apply]
  exact List.flatMap_congr fun segment _ => written_recased decides segment

/--
Of two cases that a value is written in, one after the other, a definite later one decides, and
writing twice in any one case is writing once; the value is cut at the same places every time.
-/
theorem last_case_decides (value : Text) :
    (∀ earlier later : HexCase, later ≠ .preserve →
        later.apply (earlier.apply value) = later.apply value) ∧
      (∀ hexCase : HexCase, hexCase.apply (hexCase.apply value) = hexCase.apply value) ∧
      ∀ hexCase : HexCase,
        segments (hexCase.apply value) = (segments value).map (Segment.recased hexCase) := by
  refine ⟨?_, fun hexCase => apply_apply id value, fun hexCase => segments_apply hexCase value⟩
  intro earlier later definite
  exact apply_apply (fun preserve => absurd preserve definite) value

/-- A quote ends the digits of a hash, and a string and an address are copied up to the end. -/
theorem last_case_decides_unclosed :
    let value := "#aBC\"é\\\"#ABC\" Url(#ABC) #ABCx #aB12'é#ABC".toList
    HexCase.upper ≠ .preserve ∧
      HexCase.upper.apply (HexCase.lower.apply value) = HexCase.upper.apply value ∧
      HexCase.lower.apply value = "#abc\"é\\\"#ABC\" Url(#ABC) #ABCx #ab12'é#ABC".toList ∧
      HexCase.upper.apply value = "#ABC\"é\\\"#ABC\" Url(#ABC) #ABCx #AB12'é#ABC".toList := by
  intro value
  have definite : HexCase.upper ≠ .preserve := by decide
  exact ⟨definite, (last_case_decides value).1 .lower .upper definite, by decide +kernel,
    by decide +kernel⟩

/-! ## Spaces behind a value -/

section Spaces

variable {spaces : Text}

theorem headed_spaces (each : ∀ c ∈ spaces, c = ' ') : Headed (· == ' ') spaces := by
  cases spaces with
  | nil => trivial
  | cons c rest => exact beq_iff_eq.mpr (each c List.mem_cons_self)

/-- What a quote opens is closed inside a text, or everything behind the quote is copied. -/
theorem quotedLength_append (quote : Char) (isQuote : isQuote quote = true) (text : Text)
    (each : ∀ c ∈ spaces, c = ' ') :
    quotedLength quote (text ++ spaces) = quotedLength quote text ∨
      quotedLength quote text = text.length ∧
        text.length ≤ quotedLength quote (text ++ spaces) := by
  fun_induction quotedLength quote text with
  | case1 => exact .inr ⟨rfl, Nat.zero_le _⟩
  | case2 d rest ih =>
    rcases ih with closed | ⟨all, more⟩
    · exact .inl (congrArg (2 + ·) closed)
    · right
      rw [List.cons_append, List.cons_append, quotedLength, List.length_cons, List.length_cons]
      omega
  | case3 c rest plain ends =>
    left
    rw [List.cons_append, quotedLength_cons, if_pos ends]
    intro d more slash _
    rw [beq_iff_eq, slash] at ends
    rw [← ends] at isQuote
    contradiction
  | case4 c rest plain goesOn ih =>
    by_cases lone : c = '\\' ∧ rest = []
    · rcases lone with ⟨rfl, rfl⟩
      cases spaces with
      | nil => exact .inl (by rw [List.append_nil, quotedLength_cons _ _ _ plain, if_neg goesOn])
      | cons d more =>
        right
        rw [List.singleton_append, quotedLength, quotedLength]
        exact ⟨rfl, by rw [List.length_singleton]; omega⟩
    · have plainly : ∀ d more, c = '\\' → rest ++ spaces = d :: more → False := by
        intro d more slash _
        cases rest with
        | nil => exact lone ⟨slash, rfl⟩
        | cons other others => exact plain other others slash rfl
      rw [List.cons_append, quotedLength_cons _ _ _ plainly, if_neg goesOn, List.length_cons]
      rcases ih with closed | ⟨all, more⟩
      · exact .inl (by rw [closed])
      · right
        omega

theorem bracketLength_append (text : Text) :
    bracketLength (text ++ spaces) = bracketLength text ∨
      bracketLength text = text.length ∧ text.length ≤ bracketLength (text ++ spaces) := by
  induction text with
  | nil => exact .inr ⟨rfl, Nat.zero_le _⟩
  | cons c rest ih =>
    rw [List.cons_append, bracketLength, bracketLength, List.length_cons]
    split
    · exact .inl rfl
    · rcases ih with closed | ⟨all, more⟩
      · exact .inl (by rw [closed])
      · right
        omega

theorem startsAddress_append (each : ∀ c ∈ spaces, c = ' ') (text : Text) :
    startsAddress (text ++ spaces) = startsAddress text := by
  have lowered : Swatch.lower spaces = spaces := by
    rw [Swatch.lower]
    exact (List.map_congr_left fun c met => by rw [each c met]; rfl).trans (List.map_id spaces)
  rw [startsAddress_eq, startsAddress_eq, lower_append, lowered,
    isPrefixOf_append _ (by decide) _ (headed_spaces each)]

theorem copiedLength_append (first : Char) (rest : Text) (each : ∀ c ∈ spaces, c = ' ') :
    copiedLength first (rest ++ spaces) = copiedLength first rest ∨
      copiedLength first rest = rest.length ∧
        rest.length ≤ copiedLength first (rest ++ spaces) := by
  have address := startsAddress_append each (first :: rest)
  rw [List.cons_append] at address
  unfold copiedLength
  rw [address]
  split
  · rename_i quote
    exact quotedLength_append first quote rest each
  · split
    · exact bracketLength_append rest
    · exact .inl rfl

theorem apply_spaces (hexCase : HexCase) (each : ∀ c ∈ spaces, c = ' ') :
    hexCase.apply spaces = spaces := by
  induction spaces with
  | nil => rw [apply, segments]; rfl
  | cons c rest ih =>
    have later := ih fun other met => each other (List.mem_cons_of_mem _ met)
    have space := each c List.mem_cons_self
    subst space
    have alone : copiedLength ' ' rest = 0 := by
      rw [copiedLength, if_neg (by decide), startsAddress_eq]
      rfl
    rw [apply, segments, if_neg (by decide), alone, List.flatMap_cons]
    exact congrArg (' ' :: ·) later

theorem head?_append_spaces {test : Char → Bool} (space : test ' ' = false) (text : Text)
    (each : ∀ c ∈ spaces, c = ' ') :
    (text ++ spaces).head?.any test = text.head?.any test := by
  cases text with
  | cons c rest => rfl
  | nil =>
    cases spaces with
    | nil => rfl
    | cons c rest =>
      rw [each c List.mem_cons_self]
      exact space

/-- Spaces behind a value stay behind it and change nothing in it. -/
theorem apply_append_spaces (hexCase : HexCase) (value : Text) (each : ∀ c ∈ spaces, c = ' ') :
    hexCase.apply (value ++ spaces) = hexCase.apply value ++ spaces := by
  unfold apply
  fun_induction segments value with
  | case1 => exact apply_spaces hexCase each
  | case2 first rest isHash digits after ih =>
    have hex : ∀ c ∈ digits, isHexDigit c = true := fun c met => List.mem_takeWhile_imp met
    have stops : (after ++ spaces).head?.any isHexDigit = false := by
      rw [head?_append_spaces (by rfl) after each]
      exact stops_dropWhile isHexDigit rest
    have color : isColor digits (after ++ spaces) = isColor digits after := by
      rw [isColor, isColor, head?_append_spaces (by rfl) after each]
    have parts : rest ++ spaces = digits ++ (after ++ spaces) := by
      rw [← List.append_assoc, List.takeWhile_append_dropWhile]
    rw [List.cons_append, eq_of_beq isHash, parts, segments_hash hex stops, color,
      List.flatMap_cons, List.flatMap_cons, ih, List.append_assoc]
  | case3 first rest other copied ih =>
    have within := copiedLength_le first rest
    have size : (rest.take copied).length = copied := List.length_take_of_le within
    rcases copiedLength_append first rest each with closed | ⟨all, more⟩
    · have parts : rest ++ spaces = rest.take copied ++ (rest.drop copied ++ spaces) := by
        rw [← List.append_assoc, List.take_append_drop]
      rw [List.cons_append, parts, segments_copied other (by rw [← parts, closed, size]),
        List.flatMap_cons, List.flatMap_cons, ih, List.append_assoc]
    · -- What the first character opens is never closed, so the copy goes on into the spaces.
      have nothing : rest.drop copied = [] := List.drop_eq_nil_of_le (Nat.le_of_eq all.symm)
      have everything : rest.take copied = rest := List.take_of_length_le (Nat.le_of_eq all.symm)
      have behind : ∀ c ∈ (rest ++ spaces).drop (copiedLength first (rest ++ spaces)), c = ' ' := by
        rw [List.drop_append, List.drop_eq_nil_of_le more, List.nil_append]
        exact fun c met => each c (List.mem_of_mem_drop met)
      have later := apply_spaces hexCase behind
      have goesOn : segments (first :: (rest ++ spaces)) =
          .copied (first :: (rest ++ spaces).take (copiedLength first (rest ++ spaces))) ::
            segments ((rest ++ spaces).drop (copiedLength first (rest ++ spaces))) := by
        rw [segments, if_neg other]
      rw [apply] at later
      rw [nothing, everything, List.cons_append, goesOn, List.flatMap_cons, later, segments]
      change first :: (rest ++ spaces).take _ ++ (rest ++ spaces).drop _ = first :: rest ++ [] ++ spaces
      rw [List.cons_append, List.take_append_drop, List.append_nil, List.cons_append]

end Spaces

end HexCase

end Swatch
