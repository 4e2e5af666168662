import Swatch.Proofs.ByteScan
import Mathlib.Tactic.SplitIfs

/-!
# Ranges of bytes

The scan of the bytes of a value takes it apart into ranges that lie side by side. Each of them
begins and ends between two characters, and all of them together hold every byte once, so what
is written differs from the value in nothing but the digits of hex colors.
-/

namespace Swatch

open Css Utf8

namespace HexCase

/-- The range of the turn lies inside the value and is cut out between characters. -/
structure Turn.Fits (value : Text) (turn : Turn) : Prop where
  inOrder : turn.start ≤ turn.stop
  inside : turn.stop ≤ (encode value).length
  begins : isBoundary (encode value) turn.start = true
  ends : isBoundary (encode value) turn.stop = true
  /-- The piece is all that the turn passes over. -/
  passesOver : slice? value turn.position turn.stop = some turn.piece.text

/--
The turns lie side by side from a position on up to the end. Each of them goes ahead, and
nothing but a `#` stands in front of its range.
-/
inductive Tiles (bytes : List UInt8) : Nat → List Turn → Prop
  | nil : Tiles bytes bytes.length []
  | cons {turn : Turn} {rest : List Turn} (ahead : turn.position < turn.stop)
      (lead : turn.start = turn.position ∨
        turn.start = turn.position + 1 ∧ bytes[turn.position]?.map Char.ofUInt8 = some '#')
      (further : Tiles bytes turn.stop rest) : Tiles bytes turn.position (turn :: rest)

/-- Does the turn pass over the byte at the place? -/
def Turn.passes (turn : Turn) (place : Nat) : Bool :=
  turn.position ≤ place && place < turn.stop

/-- Is the piece a hex color? -/
def Segment.isHexColor : Segment → Bool
  | .copied _ => false
  | .hash _ color => color

/-- Is the byte at the place a digit of a hex color that the turn finds? -/
def Turn.recolors (turn : Turn) (place : Nat) : Bool :=
  turn.piece.isHexColor && turn.start ≤ place && place < turn.stop

theorem Tiles.le {bytes : List UInt8} {position : Nat} {turns : List Turn}
    (tiles : Tiles bytes position turns) : position ≤ bytes.length := by
  induction tiles with
  | nil => exact Nat.le_refl _
  | cons ahead lead further ih => exact Nat.le_trans (Nat.le_of_lt ahead) ih

/-- Every byte from the first turn on is passed over once. -/
theorem Tiles.countP_passes {bytes : List UInt8} {position : Nat} {turns : List Turn}
    (tiles : Tiles bytes position turns) (place : Nat) :
    turns.countP (·.passes place) = if position ≤ place ∧ place < bytes.length then 1 else 0 := by
  induction tiles with
  | nil => rw [List.countP_nil, if_neg (by omega)]
  | @cons turn rest ahead lead further ih =>
    have inside := further.le
    rw [List.countP_cons, ih]
    simp only [Turn.passes, Bool.and_eq_true, decide_eq_true_eq]
    split_ifs <;> omega

theorem fits_turnOf (before after : Text) (piece : Segment) :
    (turnOf (byteLength before) piece).Fits (before ++ (piece.text ++ after)) where
  inOrder := by
    cases piece with
    | copied text => exact Nat.le_add_right _ _
    | hash digits color =>
      have filled := Char.utf8Size_pos '#'
      simp only [turnOf, Segment.lead, Segment.text, byteLength_cons]
      omega
  inside := by
    simp [turnOf, ← Nat.add_assoc]
  begins := by
    cases piece with
    | copied text => exact isBoundary_append before _
    | hash digits color =>
      have behind := isBoundary_append (before ++ ['#']) (digits ++ after)
      rwa [byteLength_append, List.append_assoc] at behind
  ends := by
    have ends := isBoundary_append (before ++ piece.text) after
    rwa [byteLength_append, List.append_assoc] at ends
  passesOver := slice?_append before piece.text after

theorem fits_of_mem_turnsOf (before : Text) (pieces : List Segment) :
    ∀ turn ∈ turnsOf (byteLength before) pieces,
      turn.Fits (before ++ pieces.flatMap Segment.text) := by
  induction pieces generalizing before with
  | nil => simp [turnsOf]
  | cons piece rest ih =>
    have later := ih (before ++ piece.text)
    rw [byteLength_append, List.append_assoc] at later
    rw [turnsOf, List.forall_mem_cons]
    exact ⟨fits_turnOf before _ piece, later⟩

theorem tiles_turnsOf (before : Text) (pieces : List Segment)
    (filled : ∀ piece ∈ pieces, piece.text ≠ []) :
    Tiles (encode (before ++ pieces.flatMap Segment.text)) (byteLength before)
      (turnsOf (byteLength before) pieces) := by
  induction pieces generalizing before with
  | nil =>
    rw [List.flatMap_nil, List.append_nil]
    exact .nil
  | cons piece rest ih =>
    rw [List.forall_mem_cons] at filled
    have later := ih (before ++ piece.text) filled.2
    rw [byteLength_append, List.append_assoc] at later
    have ahead : 0 < byteLength piece.text := by
      rw [Nat.pos_iff_ne_zero, ne_eq, byteLength_eq_zero]
      exact filled.1
    apply @Tiles.cons _ (turnOf (byteLength before) piece) _ (Nat.lt_add_of_pos_right ahead) ?_
      later
    cases piece with
    | copied text => exact .inl rfl
    | hash digits color =>
      rcases exists_byte before (digits ++ rest.flatMap Segment.text) '#' with ⟨byte, stands⟩
      have mark := congrArg (Option.map Char.ofUInt8) stands
      rw [Option.map_some, byte_of_ascii (by decide) stands] at mark
      exact .inr ⟨rfl, mark⟩

theorem text_ne_nil_of_mem_segments (value : Text) : ∀ piece ∈ segments value, piece.text ≠ [] := by
  fun_induction segments value with
  | case1 => simp
  | case2 first rest isHash digits after ih =>
    rw [List.forall_mem_cons]
    exact ⟨List.cons_ne_nil _ _, ih⟩
  | case3 first rest other copied ih =>
    rw [List.forall_mem_cons]
    exact ⟨List.cons_ne_nil _ _, ih⟩

/-! ## Bytes that are written -/

theorem utf8Size_toLower (c : Char) : c.toLower.utf8Size = c.utf8Size := by
  have lowered := toNat_toLower c
  split at lowered
  · rw [utf8Size_of_ascii (by omega), utf8Size_of_ascii (by omega)]
  · rw [(eq_iff_toNat _ _).mpr lowered]

theorem byteLength_lower (text : Text) : byteLength (Swatch.lower text) = byteLength text := by
  induction text with
  | nil => rfl
  | cons c rest ih => rw [lower_cons, byteLength_cons, byteLength_cons, utf8Size_toLower, ih]

theorem byteLength_of_lower_eq {left right : Text} (same : Swatch.lower left = Swatch.lower right) :
    byteLength left = byteLength right := by
  rw [← byteLength_lower left, same, byteLength_lower]

/-- Only the digits of a color are written in another way. -/
theorem getElem?_written_piece (hexCase : HexCase) {position place : Nat} {piece : Segment}
    (inside : place < byteLength piece.text)
    (outside : (turnOf position piece).recolors (position + place) = false) :
    (encode (piece.written hexCase))[place]? = (encode piece.text)[place]? := by
  cases piece with
  | copied text => rfl
  | hash digits color =>
    cases color with
    | false => rfl
    | true =>
      cases place with
      | zero => rfl
      | succ place =>
        -- The byte behind the `#` and all further ones are digits of the color.
        have among :
            (turnOf position (.hash digits true)).recolors (position + (place + 1)) = true := by
          simp only [Turn.recolors, Bool.and_eq_true, decide_eq_true_eq]
          refine ⟨⟨rfl, ?_⟩, Nat.add_lt_add_left inside position⟩
          exact Nat.add_le_add_left (Nat.le_add_left 1 place) position
        rw [among] at outside
        contradiction

/-- Outside the digits of its colors a value is written byte by byte as it is. -/
theorem getElem?_written (hexCase : HexCase) (position place : Nat) (pieces : List Segment)
    (outside : ∀ turn ∈ turnsOf position pieces, turn.recolors (position + place) = false) :
    (encode (pieces.flatMap (Segment.written hexCase)))[place]? =
      (encode (pieces.flatMap Segment.text))[place]? := by
  induction pieces generalizing position place with
  | nil => rfl
  | cons piece rest ih =>
    rw [turnsOf, List.forall_mem_cons] at outside
    have same := byteLength_of_lower_eq (lower_written hexCase piece)
    rw [List.flatMap_cons, List.flatMap_cons, encode_append, encode_append]
    by_cases here : place < byteLength piece.text
    · rw [List.getElem?_append_left (by rwa [length_encode, same]), List.getElem?_append_left here]
      exact getElem?_written_piece hexCase here outside.1
    · obtain ⟨behind, rfl⟩ := Nat.exists_eq_add_of_le (Nat.le_of_not_lt here)
      have later := ih (position + byteLength piece.text) behind
        (by simpa only [Nat.add_assoc] using outside.2)
      rw [List.getElem?_append_right (by simp [same]), List.getElem?_append_right (by simp)]
      simpa [same] using later

/--
The scan of the bytes of a value succeeds: every range that it cuts out begins and ends at a
boundary between characters, in order and inside the value. Its turns lie side by side from the
first byte to the last, each goes ahead, and each byte is passed over once. What is written is
the value with its hex colors recased, as long as the value and the same byte by byte outside
the digits of those colors.
-/
theorem scan_cuts_between_characters (value : Text) :
    ∃ turns, turns? value 0 = some turns ∧ (∀ turn ∈ turns, turn.Fits value) ∧
      Tiles (encode value) 0 turns ∧
      (∀ place < (encode value).length, turns.countP (·.passes place) = 1) ∧
      ∀ hexCase, scan? hexCase value = some (hexCase.apply value) ∧
        (encode (hexCase.apply value)).length = (encode value).length ∧
        ∀ place, (∀ turn ∈ turns, turn.recolors place = false) →
          (encode (hexCase.apply value))[place]? = (encode value)[place]? := by
  have turns := turns?_eq [] value
  have fits := fits_of_mem_turnsOf [] (segments value)
  have tiles := tiles_turnsOf [] (segments value) (text_ne_nil_of_mem_segments value)
  rw [List.nil_append, byteLength_nil] at turns fits tiles
  rw [flatMap_text_segments] at fits tiles
  refine ⟨turnsOf 0 (segments value), turns, fits, tiles, ?_, ?_⟩
  · intro place inside
    rw [tiles.countP_passes, if_pos ⟨Nat.zero_le place, inside⟩]
  · intro hexCase
    refine ⟨scan?_eq hexCase value, byteLength_of_lower_eq (lower_apply hexCase value), ?_⟩
    intro place outside
    have same := getElem?_written hexCase 0 place (segments value) (by rwa [Nat.zero_add])
    rwa [flatMap_text_segments] at same

/-- Behind the backslash the step of two bytes leads into the middle of a character. -/
example :
    (turns? "'\\é'#AbCé".toList 0).map (·.map fun turn => (turn.start, turn.stop)) =
      some [(0, 5), (6, 9), (9, 11)] := by
  decide +kernel

end HexCase

end Swatch
