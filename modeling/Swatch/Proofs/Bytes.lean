import Swatch.Proofs.Css.Characters
import Swatch.Text.Utf8
import Mathlib.Data.List.Basic

/-!
# Positions in the bytes of a text

A text that is held as bytes is cut at positions of bytes, and this fails inside a character.
Where a character begins can be told from the byte at the position alone, since the bytes that
go on with a character are of a kind of their own. Every byte of a character outside ASCII is
itself outside ASCII, so whoever looks for an ASCII character may look at bytes, even if the
search begins in the middle of a character.
-/

namespace Swatch.Utf8

/-- The number of bytes of a text. -/
def byteLength (text : Text) : Nat :=
  (encode text).length

/-- A byte that goes on with the character that began before it. -/
def continues (byte : UInt8) : Bool :=
  0x80 ≤ byte.toNat && byte.toNat < 0xC0

/-- The two ends of some bytes, and the positions at which a character begins. -/
def isBoundary (bytes : List UInt8) (position : Nat) : Bool :=
  position == 0 || position == bytes.length || bytes[position]?.any (!continues ·)

/-- The bytes in a range, if the range is in order and inside. -/
def range? (bytes : List UInt8) (start stop : Nat) : Option (List UInt8) :=
  if start ≤ stop ∧ stop ≤ bytes.length then some ((bytes.take stop).drop start) else none

/-- Cuts a text behind a number of bytes, unless that is inside a character or too far. -/
def cut? : Text → Nat → Option (Text × Text)
  | text, 0 => some ([], text)
  | [], _ + 1 => none
  | c :: rest, position + 1 =>
    if c.utf8Size ≤ position + 1 then
      (cut? rest (position + 1 - c.utf8Size)).map fun parts => (c :: parts.1, parts.2)
    else none

/-- The text from one position of its bytes to another, if it can be cut at both, in this order. -/
def slice? (text : Text) (start stop : Nat) : Option Text := do
  let outer ← cut? text stop
  let inner ← cut? outer.1 start
  return inner.2

/-! ## Bytes of characters -/

theorem toNat_ofUInt8 (byte : UInt8) : (Char.ofUInt8 byte).toNat = byte.toNat :=
  rfl

theorem ofUInt8_ne_of_wide {byte : UInt8} (wide : 128 ≤ byte.toNat) {c : Char}
    (ascii : c.toNat < 128) : Char.ofUInt8 byte ≠ c := by
  rw [ne_eq, Css.eq_iff_toNat, toNat_ofUInt8]
  omega

/-- The six lowest bits of a further byte belong to the character. -/
theorem continues_ofNat (n : Nat) : continues (UInt8.ofNat (n % 64) + 128) = true := by
  rw [continues, UInt8.toNat_add, UInt8.toNat_ofNat']
  simp only [UInt8.reduceToNat, Bool.and_eq_true, decide_eq_true_eq]
  omega

/-- The first byte tells whether a character is ASCII; all further bytes go on with it. -/
theorem encodeChar_cases (c : Char) :
    ∃ first further, String.utf8EncodeChar c = first :: further ∧
      (∀ byte ∈ further, continues byte = true) ∧
      (c.toNat < 128 ∧ Char.ofUInt8 first = c ∧ further = [] ∨
        128 ≤ c.toNat ∧ 0xC0 ≤ first.toNat) := by
  have code : c.toNat = c.val.toNat := rfl
  fun_cases String.utf8EncodeChar c with
  | case1 v small =>
    refine ⟨_, _, rfl, by simp, .inl ⟨by omega, ?_, rfl⟩⟩
    rw [Css.eq_iff_toNat, toNat_ofUInt8, UInt8.toNat_ofNat']
    omega
  | case2 v wide two =>
    refine ⟨_, _, rfl, by simp [continues_ofNat], .inr ⟨by omega, ?_⟩⟩
    rw [UInt8.toNat_ofNat']
    omega
  | case3 v wide two three =>
    refine ⟨_, _, rfl, by simp [continues_ofNat], .inr ⟨by omega, ?_⟩⟩
    rw [UInt8.toNat_ofNat']
    omega
  | case4 v wide two three =>
    refine ⟨_, _, rfl, by simp [continues_ofNat], .inr ⟨by omega, ?_⟩⟩
    rw [UInt8.toNat_ofNat']
    omega

theorem toNat_of_continues {byte : UInt8} (goesOn : continues byte = true) :
    128 ≤ byte.toNat := by
  rw [continues, Bool.and_eq_true, decide_eq_true_eq] at goesOn
  exact goesOn.1

theorem encodeChar_of_ascii {c : Char} (ascii : c.toNat < 128) :
    ∃ byte, String.utf8EncodeChar c = [byte] ∧ Char.ofUInt8 byte = c := by
  rcases encodeChar_cases c with ⟨first, further, bytes, -, ⟨-, same, rfl⟩ | ⟨wide, -⟩⟩
  · exact ⟨first, bytes, same⟩
  · omega

theorem toNat_of_wide {c : Char} (wide : 128 ≤ c.toNat) :
    ∀ byte ∈ String.utf8EncodeChar c, 128 ≤ byte.toNat := by
  rcases encodeChar_cases c with ⟨first, further, bytes, goOn, ⟨ascii, -⟩ | ⟨-, high⟩⟩
  · omega
  · rw [bytes, List.forall_mem_cons]
    exact ⟨by omega, fun byte among => toNat_of_continues (goOn byte among)⟩

theorem utf8Size_of_ascii {c : Char} (ascii : c.toNat < 128) : c.utf8Size = 1 := by
  rcases encodeChar_of_ascii ascii with ⟨byte, bytes, -⟩
  rw [← String.length_utf8EncodeChar, bytes, List.length_singleton]

@[simp]
theorem encode_nil : encode [] = [] := rfl

theorem encode_cons (c : Char) (rest : Text) :
    encode (c :: rest) = String.utf8EncodeChar c ++ encode rest := rfl

@[simp]
theorem encode_append (front back : Text) : encode (front ++ back) = encode front ++ encode back :=
  List.flatMap_append

@[simp]
theorem length_encode (text : Text) : (encode text).length = byteLength text := rfl

@[simp]
theorem byteLength_nil : byteLength [] = 0 := rfl

@[simp]
theorem byteLength_cons (c : Char) (rest : Text) :
    byteLength (c :: rest) = c.utf8Size + byteLength rest := by
  simp [← length_encode, encode_cons, String.length_utf8EncodeChar]

@[simp]
theorem byteLength_append (front back : Text) :
    byteLength (front ++ back) = byteLength front + byteLength back := by
  simp [← length_encode]

theorem exists_byte (before rest : Text) (c : Char) :
    ∃ byte, (encode (before ++ c :: rest))[byteLength before]? = some byte := by
  have inside : byteLength before < (encode (before ++ c :: rest)).length := by
    have filled := c.utf8Size_pos
    rw [length_encode, byteLength_append, byteLength_cons]
    omega
  exact ⟨_, List.getElem?_eq_getElem inside⟩

/-- The byte where a character begins is the character, or both are outside ASCII. -/
theorem byte_cases {before rest : Text} {c : Char} {byte : UInt8}
    (stands : (encode (before ++ c :: rest))[byteLength before]? = some byte) :
    c.toNat < 128 ∧ Char.ofUInt8 byte = c ∨ 128 ≤ c.toNat ∧ 128 ≤ byte.toNat := by
  rcases encodeChar_cases c with ⟨first, further, bytes, -, kind⟩
  have same : first = byte := by
    rwa [encode_append, encode_cons, bytes, ← length_encode,
      List.getElem?_append_right (Nat.le_refl _), Nat.sub_self, List.cons_append,
      List.getElem?_cons_zero, Option.some.injEq] at stands
  subst same
  rcases kind with ⟨ascii, same, -⟩ | ⟨wide, high⟩
  · exact .inl ⟨ascii, same⟩
  · exact .inr ⟨wide, Nat.le_trans (by decide) high⟩

theorem byte_of_ascii {before rest : Text} {c : Char} {byte : UInt8} (ascii : c.toNat < 128)
    (stands : (encode (before ++ c :: rest))[byteLength before]? = some byte) :
    Char.ofUInt8 byte = c := by
  rcases byte_cases stands with ⟨-, same⟩ | ⟨wide, -⟩
  · exact same
  · omega

theorem byteLength_eq_zero {text : Text} : byteLength text = 0 ↔ text = [] := by
  cases text with
  | nil => simp
  | cons c rest =>
    have filled := c.utf8Size_pos
    simp only [byteLength_cons, reduceCtorEq, iff_false]
    omega

/-! ## Cutting -/

@[simp]
theorem cut?_append (front back : Text) :
    cut? (front ++ back) (byteLength front) = some (front, back) := by
  induction front with
  | nil => cases back <;> rfl
  | cons c rest ih =>
    have filled := c.utf8Size_pos
    obtain ⟨further, size⟩ : ∃ further, c.utf8Size + byteLength rest = further + 1 :=
      ⟨c.utf8Size + byteLength rest - 1, by omega⟩
    have left : further + 1 - c.utf8Size = byteLength rest := by omega
    rw [byteLength_cons, size, List.cons_append, cut?, if_pos (by omega), left, ih]
    rfl

theorem slice?_append (front part back : Text) :
    slice? (front ++ (part ++ back)) (byteLength front) (byteLength front + byteLength part) =
      some part := by
  have outer := cut?_append (front ++ part) back
  rw [List.append_assoc, byteLength_append] at outer
  simp [slice?, outer]

/-! ## Boundaries -/

theorem continues_head? (text : Text) : (encode text).head?.all (!continues ·) = true := by
  cases text with
  | nil => rfl
  | cons c rest =>
    rcases encodeChar_cases c with ⟨first, further, bytes, -, kind⟩
    have begins : continues first = false := by
      simp only [continues, Bool.and_eq_false_iff, decide_eq_false_iff_not]
      rcases kind with ⟨ascii, same, -⟩ | ⟨-, high⟩
      · rw [← same, toNat_ofUInt8] at ascii
        omega
      · omega
    simp [encode_cons, bytes, begins]

/-- Behind a character the boundaries are those of the text that follows. -/
theorem isBoundary_beyond (c : Char) (rest : Text) (offset : Nat) :
    isBoundary (encode (c :: rest)) (c.utf8Size + offset) = isBoundary (encode rest) offset := by
  have filled := c.utf8Size_pos
  have size := String.length_utf8EncodeChar c
  have begins := continues_head? rest
  have later : (encode (c :: rest))[c.utf8Size + offset]? = (encode rest)[offset]? := by
    rw [encode_cons, List.getElem?_append_right (by omega)]
    congr 1
    omega
  rw [List.head?_eq_getElem?] at begins
  rw [isBoundary, isBoundary, later, encode_cons, List.length_append, size]
  cases offset with
  | zero => cases bytes : encode rest <;> simp_all
  | succ offset =>
    have ends : (c.utf8Size + (offset + 1) == c.utf8Size + (encode rest).length) =
        (offset + 1 == (encode rest).length) := by
      rw [Bool.eq_iff_iff, beq_iff_eq, beq_iff_eq, Nat.add_left_cancel_iff]
    have start : (c.utf8Size + (offset + 1) == 0) = false := by
      rw [beq_eq_false_iff_ne]
      omega
    rw [ends, start]
    rfl

/-- There is no boundary inside a character. -/
theorem isBoundary_inside (c : Char) (rest : Text) {position : Nat} (behind : 0 < position)
    (within : position < c.utf8Size) : isBoundary (encode (c :: rest)) position = false := by
  rcases encodeChar_cases c with ⟨first, further, bytes, goOn, -⟩
  have size := String.length_utf8EncodeChar c
  rw [bytes, List.length_cons] at size
  obtain ⟨offset, rfl⟩ : ∃ offset, position = offset + 1 := ⟨position - 1, by omega⟩
  have inside : offset < further.length := by omega
  have goesOn := goOn _ (List.getElem_mem inside)
  have short : offset ≠ further.length + byteLength rest := by omega
  simp [isBoundary, encode_cons, bytes, List.getElem?_append_left inside,
    List.getElem?_eq_getElem inside, goesOn, short]

/-- A text can be cut exactly where its bytes show that a character begins or the text ends. -/
theorem isSome_cut? (text : Text) (position : Nat) :
    (cut? text position).isSome = isBoundary (encode text) position := by
  fun_induction cut? text position with
  | case1 text => rfl
  | case2 position => simp [isBoundary, encode_nil]
  | case3 c rest position within ih =>
    rw [Option.isSome_map, ih, ← isBoundary_beyond c, Nat.add_sub_cancel' within]
  | case4 c rest position beyond =>
    exact (isBoundary_inside c rest (Nat.succ_pos position) (Nat.lt_of_not_le beyond)).symm

theorem isBoundary_append (front back : Text) :
    isBoundary (encode (front ++ back)) (byteLength front) = true := by
  rw [← isSome_cut?, cut?_append]
  rfl

end Swatch.Utf8
