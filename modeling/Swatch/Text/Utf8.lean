import Swatch.Text

/-!
# Text as bytes

Files hold bytes, and text is written to them in UTF-8. Reading never fails: a
byte sequence that stops being well formed is read as one replacement character
for the longest part of it that could still have become a character, and
reading goes on right after that part.
-/

namespace Swatch.Utf8

/-- A text as bytes. -/
def encode (text : Text) : List UInt8 :=
  text.flatMap String.utf8EncodeChar

/-- What the first byte of a longer sequence says about it. -/
structure Lead where
  /-- How many bytes follow. -/
  further : Nat
  /-- The smallest and the largest byte that may come next. -/
  low : Nat
  high : Nat
  /-- The bits of the character that the first byte holds. -/
  bits : Nat

/-- The bytes that begin a sequence of two, three or four bytes. -/
def Lead.of? (byte : Nat) : Option Lead :=
  if byte < 0xC2 then none
  else if byte < 0xE0 then some ⟨1, 0x80, 0xBF, byte - 0xC0⟩
  else if byte = 0xE0 then some ⟨2, 0xA0, 0xBF, 0⟩
  else if byte = 0xED then some ⟨2, 0x80, 0x9F, 0xD⟩
  else if byte < 0xF0 then some ⟨2, 0x80, 0xBF, byte - 0xE0⟩
  else if byte = 0xF0 then some ⟨3, 0x90, 0xBF, 0⟩
  else if byte < 0xF4 then some ⟨3, 0x80, 0xBF, byte - 0xF0⟩
  else if byte = 0xF4 then some ⟨3, 0x80, 0x8F, 4⟩
  else none

/--
The character that following bytes complete, or its replacement, with the number of
bytes that belong to it.
-/
def follow (further low high code : Nat) (bytes : List UInt8) : Char × Nat :=
  match further, bytes with
  | 0, _ => (Char.ofNat code, 0)
  | _ + 1, [] => (replacement, 0)
  | left + 1, byte :: rest =>
    if low ≤ byte.toNat ∧ byte.toNat ≤ high then
      let found := follow left 0x80 0xBF (64 * code + (byte.toNat - 0x80)) rest
      (found.1, found.2 + 1)
    else (replacement, 0)

/-- Bytes as text. -/
def decode (bytes : List UInt8) : Text :=
  match bytes with
  | [] => []
  | byte :: rest =>
    if byte.toNat < 0x80 then Char.ofNat byte.toNat :: decode rest
    else
      match Lead.of? byte.toNat with
      | none => replacement :: decode rest
      | some lead =>
        let found := follow lead.further lead.low lead.high lead.bits rest
        found.1 :: decode (rest.drop found.2)
termination_by bytes.length

end Swatch.Utf8
