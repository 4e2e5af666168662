import Swatch.Proofs.Bytes
import Swatch.Proofs.InStep

/-!
# Scanning bytes

The scan for hex colors can also be made on the bytes of a value. It then goes from position to
position and cuts every piece out of the value by the bytes between two positions, and it has no
result if one of them is inside a character. Behind a backslash it passes over two bytes,
whatever they are, so its search for a closing quote may go on in the middle of a character or
stop behind the end. The result is nevertheless that of the scan of characters, because all
bytes that the scan looks for are ASCII.
-/

namespace Swatch

open Css Utf8

namespace HexCase

/-- The position behind the closing quote of a string, or the end if there is none. -/
def stringEnd (bytes : List UInt8) (quote : Char) (position : Nat) : Nat :=
  if inside : position < bytes.length then
    let c := Char.ofUInt8 bytes[position]
    if c == '\\' then stringEnd bytes quote (position + 2)
    else if c == quote then position + 1
    else stringEnd bytes quote (position + 1)
  else bytes.length
termination_by bytes.length - position

/-- The position behind a run of hexadecimal digits. -/
def digitsEnd (bytes : List UInt8) (position : Nat) : Nat :=
  if inside : position < bytes.length then
    if isHexDigit (Char.ofUInt8 bytes[position]) then digitsEnd bytes (position + 1) else position
  else position
termination_by bytes.length - position

/-- Do four bytes spell `url(` from the position on? -/
def spellsAddress? (bytes : List UInt8) (position : Nat) (first : Char) : Option Bool :=
  if (first == 'u' || first == 'U') && 4 ≤ bytes.length - position then
    (range? bytes position (position + 4)).map fun four =>
      sameLetters (four.map Char.ofUInt8) "url(".toList
  else some false

/-- How many bytes stand in front of the first closing bracket. -/
def findBracket? : Text → Option Nat
  | [] => none
  | c :: rest => if c == ')' then some 0 else (findBracket? rest).map (c.utf8Size + ·)

/-- One turn of the scan: a range that is cut out of the value, and the piece that it makes. -/
structure Turn where
  /-- Where the turn begins. -/
  position : Nat
  /-- Where the range begins: behind the `#` of a hash, and else where the turn begins. -/
  start : Nat
  stop : Nat
  piece : Segment
  deriving DecidableEq, Repr

/-- A turn that copies a range. -/
def copy? (value : Text) (position stop : Nat) : Option Turn :=
  (slice? value position stop).map fun text => ⟨position, position, stop, .copied text⟩

/-- A turn at `url(`. -/
def address? (value : Text) (position : Nat) : Option Turn := do
  let rest ← slice? value position (byteLength value)
  copy? value position ((findBracket? rest).elim (byteLength value) (position + · + 1))

/-- Does a name end at the position? -/
def nameEnds? (bytes : List UInt8) (position : Nat) : Option Bool :=
  if position = bytes.length then some true
  else bytes[position]?.map fun byte => !continuesHash (Char.ofUInt8 byte)

/-- A turn at a `#`. -/
def hash? (value : Text) (position : Nat) : Option Turn := do
  let stop := digitsEnd (encode value) (position + 1)
  let ended ← nameEnds? (encode value) stop
  let digits ← slice? value (position + 1) stop
  return ⟨position, position + 1, stop,
    .hash digits (ended && [3, 4, 6, 8].contains (byteLength digits))⟩

/-- A turn at any other character. -/
def character? (value : Text) (position : Nat) : Option Turn := do
  let rest ← slice? value position (byteLength value)
  let c := rest.head?.getD '\x00'
  return ⟨position, position, position + max c.utf8Size 1, .copied [c]⟩

/--
The turn at a position with the given byte. There is none if the value would have to be cut
inside a character, or a byte be read behind the end.
-/
def turn? (value : Text) (position : Nat) (byte : UInt8) : Option Turn :=
  let first := Char.ofUInt8 byte
  if isQuote first then copy? value position (stringEnd (encode value) first (position + 1))
  else
    match spellsAddress? (encode value) position first with
    | none => none
    | some true => address? value position
    | some false => if first == '#' then hash? value position else character? value position

theorem le_stringEnd (bytes : List UInt8) (quote : Char) (position : Nat) :
    min position bytes.length ≤ stringEnd bytes quote position := by
  fun_induction stringEnd bytes quote position <;> omega

theorem le_digitsEnd (bytes : List UInt8) (position : Nat) :
    position ≤ digitsEnd bytes position := by
  fun_induction digitsEnd bytes position <;> omega

theorem stop_of_copy {value : Text} {position stop : Nat} {turn : Turn}
    (taken : copy? value position stop = some turn) : turn.stop = stop := by
  rcases Option.map_eq_some_iff.mp taken with ⟨text, -, rfl⟩
  rfl

/-- Every turn goes ahead. -/
theorem lt_stop_of_turn {value : Text} {position : Nat} {byte : UInt8} {turn : Turn}
    (inside : position < byteLength value) (taken : turn? value position byte = some turn) :
    position < turn.stop := by
  unfold turn? at taken
  dsimp only at taken
  split at taken
  · have ahead := le_stringEnd (encode value) (Char.ofUInt8 byte) (position + 1)
    rw [stop_of_copy taken]
    rw [byteLength] at inside
    omega
  · split at taken
    · contradiction
    · rcases Option.bind_eq_some_iff.mp taken with ⟨rest, -, copied⟩
      rw [stop_of_copy copied]
      cases findBracket? rest with
      | none => exact inside
      | some offset => exact Nat.lt_succ_of_le (Nat.le_add_right position offset)
    · split at taken
      · rcases Option.bind_eq_some_iff.mp taken with ⟨ended, -, later⟩
        rcases Option.bind_eq_some_iff.mp later with ⟨digits, -, done⟩
        cases done
        exact le_digitsEnd (encode value) (position + 1)
      · rcases Option.bind_eq_some_iff.mp taken with ⟨rest, -, done⟩
        cases done
        dsimp only
        omega

/-- The turns of the scan from a position on. -/
def turns? (value : Text) (position : Nat) : Option (List Turn) :=
  if inside : position < (encode value).length then
    match taken : turn? value position (encode value)[position] with
    | none => none
    | some turn => (turns? value turn.stop).map (turn :: ·)
  else some []
termination_by (encode value).length - position
decreasing_by
  have further := lt_stop_of_turn inside taken
  omega

/-- The value with its hex colors in the wanted case, by a scan of its bytes. -/
def scan? (hexCase : HexCase) (value : Text) : Option Text :=
  if hexCase = .preserve then some value
  else (turns? value 0).map fun turns => turns.flatMap fun turn => turn.piece.written hexCase

/-! ## Where the turns end -/

/-- The search looks at the byte in front of the remaining ones. -/
theorem stringEnd_cons (front : List UInt8) (byte : UInt8) (tail : List UInt8) (quote : Char) :
    stringEnd (front ++ byte :: tail) quote front.length =
      if Char.ofUInt8 byte == '\\' then stringEnd (front ++ byte :: tail) quote (front.length + 2)
      else if Char.ofUInt8 byte == quote then front.length + 1
      else stringEnd (front ++ byte :: tail) quote (front.length + 1) := by
  conv => lhs; rw [stringEnd]
  simp

theorem stringEnd_of_le {bytes : List UInt8} {position : Nat} (behind : bytes.length ≤ position)
    (quote : Char) : stringEnd bytes quote position = bytes.length := by
  rw [stringEnd, dif_neg (Nat.not_lt_of_le behind)]

section Strings

variable {quote : Char} (before rest : Text)

theorem stringEnd_ascii {c : Char} (ascii : c.toNat < 128) :
    stringEnd (encode (before ++ c :: rest)) quote (byteLength before) =
      if c == '\\' then stringEnd (encode (before ++ c :: rest)) quote (byteLength before + 2)
      else if c == quote then byteLength before + 1
      else stringEnd (encode (before ++ c :: rest)) quote (byteLength before + 1) := by
  rcases encodeChar_of_ascii ascii with ⟨byte, bytes, same⟩
  have step := stringEnd_cons (encode before) byte (encode rest) quote
  rw [same] at step
  rw [encode_append, encode_cons, bytes]
  exact step

variable (opens : isQuote quote = true)

include opens

theorem ascii_of_quote : quote.toNat < 128 := by
  rw [isQuote_iff] at opens
  omega

/-- Bytes outside ASCII are passed over one by one, also from the middle of a character on. -/
theorem stringEnd_wide (front middle tail : List UInt8)
    (wide : ∀ byte ∈ middle, 128 ≤ byte.toNat) :
    stringEnd (front ++ (middle ++ tail)) quote front.length =
      stringEnd (front ++ (middle ++ tail)) quote (front.length + middle.length) := by
  induction middle generalizing front with
  | nil => rfl
  | cons byte middle ih =>
    rw [List.forall_mem_cons] at wide
    have noSlash : ¬ (Char.ofUInt8 byte == '\\') = true := by
      simpa using ofUInt8_ne_of_wide wide.1 (by decide)
    have noQuote : ¬ (Char.ofUInt8 byte == quote) = true := by
      simpa using ofUInt8_ne_of_wide wide.1 (ascii_of_quote opens)
    have later := ih (front ++ [byte]) wide.2
    simp only [List.append_assoc, List.singleton_append, List.length_append,
      List.length_singleton] at later
    rw [List.cons_append, stringEnd_cons, if_neg noSlash, if_neg noQuote, later, List.length_cons,
      Nat.add_right_comm, Nat.add_assoc]

/-- Behind a backslash a whole character is passed over, though the step takes two bytes. -/
theorem stringEnd_escape (d : Char) :
    stringEnd (encode (before ++ '\\' :: d :: rest)) quote (byteLength before) =
      stringEnd (encode (before ++ '\\' :: d :: rest)) quote
        (byteLength (before ++ ['\\', d])) := by
  rcases encodeChar_cases d with ⟨first, further, bytes, goOn, -⟩
  have cut : encode (before ++ '\\' :: d :: rest) =
      (encode (before ++ ['\\']) ++ [first]) ++ (further ++ encode rest) := by
    simp [encode_cons, bytes]
  have landed : (encode (before ++ ['\\']) ++ [first]).length = byteLength before + 2 := by
    rw [List.length_append, length_encode, byteLength_append]
    rfl
  have size : byteLength (before ++ ['\\', d]) = byteLength before + 2 + further.length := by
    have width := String.length_utf8EncodeChar d
    rw [bytes, List.length_cons] at width
    rw [byteLength_append, byteLength_cons, byteLength_cons, utf8Size_of_ascii (by decide)]
    simp only [byteLength_nil]
    omega
  have passed := stringEnd_wide opens (encode (before ++ ['\\']) ++ [first]) further (encode rest)
    fun byte among => toNat_of_continues (goOn byte among)
  rw [← cut, landed, ← size] at passed
  rw [stringEnd_ascii _ _ (by decide), if_pos (by rfl)]
  exact passed

theorem stringEnd_other {c : Char} (noSlash : c ≠ '\\') (noQuote : c ≠ quote) :
    stringEnd (encode (before ++ c :: rest)) quote (byteLength before) =
      stringEnd (encode (before ++ c :: rest)) quote (byteLength (before ++ [c])) := by
  by_cases ascii : c.toNat < 128
  · rw [stringEnd_ascii _ _ ascii, if_neg (by simpa using noSlash),
      if_neg (by simpa using noQuote), byteLength_append, byteLength_cons, utf8Size_of_ascii ascii,
      byteLength_nil]
  · have passed := stringEnd_wide opens (encode before) (String.utf8EncodeChar c) (encode rest)
      (toNat_of_wide (Nat.le_of_not_lt ascii))
    rw [length_encode, String.length_utf8EncodeChar] at passed
    rw [encode_append, encode_cons, byteLength_append, byteLength_cons]
    exact passed

/-- The search for the quote stops behind the character where the quoted text does. -/
theorem stringEnd_encode :
    stringEnd (encode (before ++ rest)) quote (byteLength before) =
      byteLength (before ++ rest.take (quotedLength quote rest)) := by
  fun_induction quotedLength quote rest generalizing before with
  | case1 =>
    rw [List.append_nil, stringEnd_of_le (Nat.le_of_eq (length_encode before))]
    simp
  | case2 d rest ih =>
    have later := ih (before ++ ['\\', d])
    rw [stringEnd_escape _ _ opens]
    simpa [Nat.add_comm 2] using later
  | case3 c rest plain ends =>
    rw [beq_iff_eq] at ends
    subst ends
    have ascii := ascii_of_quote opens
    have noSlash : ¬ (c == '\\') = true := by
      simpa using ne_of_class opens (by rfl : isQuote '\\' = false)
    rw [stringEnd_ascii _ _ ascii, if_neg noSlash, if_pos (by simp)]
    simp [utf8Size_of_ascii ascii]
  | case4 c rest plain goesOn ih =>
    have later := ih (before ++ [c])
    by_cases slash : c = '\\'
    · -- A backslash in front of the end: the step of two bytes leads behind the end.
      subst slash
      have alone : rest = [] := by
        cases rest with
        | nil => rfl
        | cons d more => exact (plain d more rfl rfl).elim
      subst alone
      have size : byteLength (before ++ ['\\']) = byteLength before + 1 := byteLength_append _ _
      rw [stringEnd_ascii _ _ (by decide), if_pos (by rfl), stringEnd_of_le, length_encode]
      · rfl
      · rw [length_encode, size]
        omega
    · rw [stringEnd_other _ _ opens slash (by simpa using goesOn)]
      simpa [Nat.add_comm 1] using later

end Strings

section Digits

variable (before rest : Text)

theorem digitsEnd_of_some {bytes : List UInt8} {position : Nat} {byte : UInt8}
    (stands : bytes[position]? = some byte) :
    digitsEnd bytes position =
      if isHexDigit (Char.ofUInt8 byte) then digitsEnd bytes (position + 1) else position := by
  rcases List.getElem?_eq_some_iff.mp stands with ⟨inside, rfl⟩
  rw [digitsEnd, dif_pos inside]

theorem digitsEnd_encode :
    digitsEnd (encode (before ++ rest)) (byteLength before) =
      byteLength (before ++ rest.takeWhile isHexDigit) := by
  induction rest generalizing before with
  | nil =>
    rw [digitsEnd, dif_neg (by simp)]
    simp
  | cons c rest ih =>
    have later := ih (before ++ [c])
    rcases exists_byte before rest c with ⟨byte, stands⟩
    rw [digitsEnd_of_some stands]
    rcases byte_cases stands with ⟨ascii, rfl⟩ | ⟨wide, outside⟩
    · cases hex : isHexDigit (Char.ofUInt8 byte) with
      | true => simpa [hex, utf8Size_of_ascii ascii] using later
      | false => simp [hex]
    · have noDigit (d : Char) (far : 128 ≤ d.toNat) : isHexDigit d = false := by
        rw [Bool.eq_false_iff, ne_eq, isHexDigit_iff]
        omega
      simp [noDigit c wide, noDigit (Char.ofUInt8 byte) outside]

theorem byteLength_of_digits {digits : Text} (hex : ∀ c ∈ digits, isHexDigit c = true) :
    byteLength digits = digits.length := by
  induction digits with
  | nil => rfl
  | cons c digits ih =>
    rw [List.forall_mem_cons, isHexDigit_iff] at hex
    rw [byteLength_cons, utf8Size_of_ascii (by omega), ih hex.2, List.length_cons, Nat.add_comm]

theorem nameEnds?_encode :
    nameEnds? (encode (before ++ rest)) (byteLength before) =
      some (!rest.head?.any continuesHash) := by
  cases rest with
  | nil => simp [nameEnds?]
  | cons c rest =>
    have filled := c.utf8Size_pos
    rcases exists_byte before rest c with ⟨byte, stands⟩
    rw [nameEnds?, if_neg (by simp; omega), stands]
    rcases byte_cases stands with ⟨-, rfl⟩ | ⟨wide, outside⟩
    · rfl
    · simp [continuesHash, wide, toNat_ofUInt8, outside]

end Digits

/-- The first closing bracket is found where the characters up to it end. -/
theorem findBracket?_elim (position : Nat) (text : Text) :
    (findBracket? text).elim (position + byteLength text) (position + · + 1) =
      position + byteLength (text.take (bracketLength text)) := by
  fun_induction bracketLength text generalizing position with
  | case1 => rfl
  | case2 c rest ends =>
    have size : c.utf8Size = 1 := utf8Size_of_ascii (by rw [eq_of_beq ends]; decide)
    simp [findBracket?, ends, size]
  | case3 c rest goesOn ih =>
    have later := ih (position + c.utf8Size)
    rw [Nat.add_comm 1, List.take_succ_cons, byteLength_cons, byteLength_cons, ← Nat.add_assoc,
      ← Nat.add_assoc, ← later, findBracket?, if_neg goesOn]
    cases findBracket? rest <;> simp [Nat.add_assoc]

/-- Bytes begin with ASCII letters, in any case, if and only if the characters do. -/
theorem isPrefixOf_encode {mark : Text} (ascii : ∀ c ∈ mark, c.toNat < 128) (text : Text) :
    mark.isPrefixOf (Swatch.lower ((encode text).map Char.ofUInt8)) =
      mark.isPrefixOf (Swatch.lower text) := by
  induction mark generalizing text with
  | nil => rfl
  | cons m mark ih =>
    rw [List.forall_mem_cons] at ascii
    cases text with
    | nil => rfl
    | cons c rest =>
      rcases encodeChar_cases c with ⟨first, further, bytes, -, kind⟩
      rw [encode_cons, bytes, List.cons_append, List.map_cons, lower_cons, lower_cons,
        List.isPrefixOf_cons_cons, List.isPrefixOf_cons_cons]
      rcases kind with ⟨-, rfl, rfl⟩ | ⟨wide, high⟩
      · rw [List.nil_append, ih ascii.2]
      · have other (d : Char) (far : 128 ≤ d.toNat) : (m == d.toLower) = false := by
          rw [beq_eq_false_iff_ne, ne_eq, eq_iff_toNat, toNat_toLower]
          split <;> omega
        rw [other c wide, other _ (by rw [toNat_ofUInt8]; omega)]
        rfl

theorem startsAddress_encode (text : Text) :
    startsAddress ((encode text).map Char.ofUInt8) = startsAddress text := by
  have ascii : ∀ c ∈ "url(".toList, c.toNat < 128 := by simp
  rw [startsAddress_eq, startsAddress_eq, isPrefixOf_encode ascii]

theorem four_le_of_address {text : Text} (address : startsAddress text = true) :
    4 ≤ text.length := by
  rw [startsAddress_eq, List.isPrefixOf_iff_prefix] at address
  simpa using address.length_le

theorem spellsAddress?_encode (before rest : Text) {c : Char} {byte : UInt8}
    (stands : (encode (before ++ c :: rest))[byteLength before]? = some byte) :
    spellsAddress? (encode (before ++ c :: rest)) (byteLength before) (Char.ofUInt8 byte) =
      some (startsAddress (c :: rest)) := by
  have behind : (encode (before ++ c :: rest)).drop (byteLength before) = encode (c :: rest) := by
    rw [encode_append, ← length_encode, List.drop_left]
  have head : (encode (c :: rest)).head? = some byte := by
    rw [← behind, List.head?_drop]
    exact stands
  rcases List.head?_eq_some_iff.mp head with ⟨tail, filled⟩
  have size : (encode (before ++ c :: rest)).length =
      byteLength before + (encode (c :: rest)).length := by
    simp
  rw [← startsAddress_encode (c :: rest)]
  unfold spellsAddress?
  split
  · rename_i spelled
    rw [Bool.and_eq_true, decide_eq_true_eq] at spelled
    rw [range?, if_pos (by omega), List.drop_take, behind, Nat.add_sub_cancel_left, Option.map_some,
      List.map_take]
    rfl
  · rename_i other
    cases address : startsAddress ((encode (c :: rest)).map Char.ofUInt8) with
    | false => rfl
    | true =>
      have long := four_le_of_address address
      rw [filled, List.map_cons] at address
      rw [List.length_map] at long
      have letter := first_of_address address
      simp only [Bool.and_eq_true, Bool.or_eq_true, beq_iff_eq, decide_eq_true_eq] at other
      exact (other ⟨letter, by omega⟩).elim

/-! ## Turns and pieces -/

/-- How far the range of a piece begins behind the piece. -/
def Segment.lead : Segment → Nat
  | .copied _ => 0
  | .hash _ _ => 1

/-- The turn that makes a piece, at a position. -/
def turnOf (position : Nat) (piece : Segment) : Turn :=
  ⟨position, position + piece.lead, position + byteLength piece.text, piece⟩

/-- The turns that make some pieces, the first one at a position. -/
def turnsOf : Nat → List Segment → List Turn
  | _, [] => []
  | position, piece :: rest =>
    turnOf position piece :: turnsOf (position + byteLength piece.text) rest

section Steps

variable (before : Text)

theorem copy?_eq (text after : Text) :
    copy? (before ++ (text ++ after)) (byteLength before) (byteLength (before ++ text)) =
      some (turnOf (byteLength before) (.copied text)) := by
  rw [copy?, byteLength_append, slice?_append]
  rfl

theorem slice?_rest (rest : Text) :
    slice? (before ++ rest) (byteLength before) (byteLength (before ++ rest)) = some rest := by
  have whole := slice?_append before rest []
  rwa [List.append_nil, ← byteLength_append] at whole

theorem address?_eq (rest : Text) :
    address? (before ++ rest) (byteLength before) =
      some (turnOf (byteLength before) (.copied (rest.take (bracketLength rest)))) := by
  have copied := copy?_eq before (rest.take (bracketLength rest)) (rest.drop (bracketLength rest))
  rw [List.take_append_drop, byteLength_append, ← findBracket?_elim] at copied
  rw [address?, slice?_rest, byteLength_append]
  exact copied

theorem hash?_eq (digits after : Text) (hex : ∀ c ∈ digits, isHexDigit c = true)
    (stops : after.head?.any isHexDigit = false) :
    hash? (before ++ '#' :: (digits ++ after)) (byteLength before) =
      some (turnOf (byteLength before) (.hash digits (isColor digits after))) := by
  have mark : byteLength (before ++ ['#']) = byteLength before + 1 := byteLength_append _ _
  have whole : byteLength (before ++ ['#'] ++ digits) =
      byteLength before + 1 + byteLength digits := by
    rw [byteLength_append, mark]
  have front : (digits ++ after).takeWhile isHexDigit = digits := by
    rw [List.takeWhile_append_of_pos hex, takeWhile_of_head? stops, List.append_nil]
  have stop := digitsEnd_encode (before ++ ['#']) (digits ++ after)
  have ended := nameEnds?_encode (before ++ ['#'] ++ digits) after
  have cut := slice?_append (before ++ ['#']) digits after
  rw [front, mark, whole] at stop
  rw [whole] at ended
  rw [mark] at cut
  simp only [List.append_assoc, List.cons_append, List.nil_append] at stop ended cut
  simp only [hash?, stop, ended, cut, Option.bind_eq_bind, Option.bind_some]
  have one : '#'.utf8Size = 1 := rfl
  rw [byteLength_of_digits hex, Bool.and_comm, ← isColor]
  simp [turnOf, Segment.lead, Segment.text, byteLength_of_digits hex, one, Nat.add_assoc]

theorem character?_eq (c : Char) (rest : Text) :
    character? (before ++ c :: rest) (byteLength before) =
      some (turnOf (byteLength before) (.copied [c])) := by
  have filled := c.utf8Size_pos
  have widest : max c.utf8Size 1 = c.utf8Size := by omega
  rw [character?, slice?_rest]
  simp [turnOf, Segment.lead, Segment.text, widest]

/-- At every character but a `#` the turn copies what the scan of characters copies. -/
theorem turn?_copied {c : Char} {rest : Text} (other : ¬ (c == '#') = true) {byte : UInt8}
    (stands : (encode (before ++ c :: rest))[byteLength before]? = some byte) :
    turn? (before ++ c :: rest) (byteLength before) byte =
      some (turnOf (byteLength before) (.copied (c :: rest.take (copiedLength c rest)))) := by
  have kind := byte_cases stands
  unfold turn? copiedLength
  dsimp only
  by_cases quote : isQuote c = true
  · have ascii := ascii_of_quote quote
    have same := byte_of_ascii ascii stands
    have mark : byteLength (before ++ [c]) = byteLength before + 1 := by
      rw [byteLength_append, byteLength_cons, utf8Size_of_ascii ascii, byteLength_nil]
    have stop := stringEnd_encode (before ++ [c]) rest quote
    have copied := copy?_eq before (c :: rest.take (quotedLength c rest))
      (rest.drop (quotedLength c rest))
    simp only [List.append_assoc, List.cons_append, List.nil_append,
      List.take_append_drop] at stop copied
    rw [same, if_pos quote, if_pos quote, ← mark, stop]
    exact copied
  · have noQuote : ¬ isQuote (Char.ofUInt8 byte) = true := by
      rcases kind with ⟨-, same⟩ | ⟨-, outside⟩
      · rwa [same]
      · rw [isQuote_iff, toNat_ofUInt8]
        omega
    rw [if_neg noQuote, if_neg quote, spellsAddress?_encode before rest stands]
    cases address : startsAddress (c :: rest) with
    | true =>
      have goesOn : ¬ (c == ')') = true := by
        rcases first_of_address address with rfl | rfl <;> decide
      have copied := address?_eq before (c :: rest)
      rw [bracketLength, if_neg goesOn, Nat.add_comm, List.take_succ_cons] at copied
      exact copied
    | false =>
      have noMark : ¬ (Char.ofUInt8 byte == '#') = true := by
        rcases kind with ⟨-, same⟩ | ⟨-, outside⟩
        · rwa [same]
        · simpa using ofUInt8_ne_of_wide outside (by decide)
      simp only [noMark, Bool.false_eq_true, ↓reduceIte, List.take_zero]
      exact character?_eq before c rest

theorem turn?_hash {digits after : Text} (hex : ∀ c ∈ digits, isHexDigit c = true)
    (stops : after.head?.any isHexDigit = false) {byte : UInt8}
    (stands : (encode (before ++ '#' :: (digits ++ after)))[byteLength before]? = some byte) :
    turn? (before ++ '#' :: (digits ++ after)) (byteLength before) byte =
      some (turnOf (byteLength before) (.hash digits (isColor digits after))) := by
  have same := byte_of_ascii (by decide) stands
  have noAddress : startsAddress ('#' :: (digits ++ after)) = false := by
    rw [Bool.eq_false_iff]
    intro address
    rcases first_of_address address with mark | mark <;> contradiction
  rw [turn?, spellsAddress?_encode before _ stands, noAddress, same,
    hash?_eq before digits after hex stops]
  rfl

theorem turns?_of_turn {value : Text} {position : Nat} {byte : UInt8} {turn : Turn}
    (stands : (encode value)[position]? = some byte)
    (taken : turn? value position byte = some turn) :
    turns? value position = (turns? value turn.stop).map (turn :: ·) := by
  rcases List.getElem?_eq_some_iff.mp stands with ⟨inside, rfl⟩
  rw [turns?, dif_pos inside]
  split
  · rename_i none
    rw [taken] at none
    contradiction
  · rename_i other found
    rw [taken] at found
    cases found
    rfl

/-- The scan of the bytes makes the same pieces as the scan of the characters. -/
theorem turns?_eq (text : Text) :
    turns? (before ++ text) (byteLength before) =
      some (turnsOf (byteLength before) (segments text)) := by
  fun_induction segments text generalizing before with
  | case1 =>
    rw [turns?, dif_neg (by simp)]
    rfl
  | case2 first rest isHash digits after ih =>
    have hex : ∀ c ∈ digits, isHexDigit c = true := fun c met => List.mem_takeWhile_imp met
    have parts : rest = digits ++ after := (List.takeWhile_append_dropWhile).symm
    have later := ih (before ++ '#' :: digits)
    rcases exists_byte before (digits ++ after) '#' with ⟨byte, stands⟩
    rw [List.append_assoc, byteLength_append] at later
    rw [eq_of_beq isHash, parts, turns?_of_turn stands
      (turn?_hash before hex (stops_dropWhile isHexDigit rest) stands)]
    exact congrArg (Option.map _) later
  | case3 first rest other copied ih =>
    have later := ih (before ++ first :: rest.take copied)
    rcases exists_byte before rest first with ⟨byte, stands⟩
    rw [List.append_assoc, List.cons_append, List.take_append_drop, byteLength_append] at later
    rw [turns?_of_turn stands (turn?_copied before other stands)]
    exact congrArg (Option.map _) later

end Steps

theorem map_piece_turnsOf (position : Nat) (pieces : List Segment) :
    (turnsOf position pieces).map Turn.piece = pieces := by
  fun_induction turnsOf position pieces with
  | case1 => rfl
  | case2 position piece rest ih => exact congrArg (piece :: ·) ih

/-- The scan of the bytes writes what the scan of the characters writes. -/
theorem scan?_eq (hexCase : HexCase) (value : Text) :
    scan? hexCase value = some (hexCase.apply value) := by
  unfold scan?
  split
  · rename_i preserve
    rw [preserve, apply_preserve]
  · have turns := turns?_eq [] value
    rw [List.nil_append, byteLength_nil] at turns
    have written :=
      List.flatMap_map Turn.piece (Segment.written hexCase) (turnsOf 0 (segments value))
    rw [map_piece_turnsOf] at written
    rw [turns, Option.map_some, ← written]
    rfl

end HexCase

end Swatch
