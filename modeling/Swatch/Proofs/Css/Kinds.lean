import Swatch.Proofs.Css.Cleaned
import Swatch.Proofs.Css.Spelling

/-!
# What the kind of a token tells

Every kind of token is taken by one reader, so the kind of the token at the front tells
how its length was found. A string that is not a bad one ends where the scan for its
closing quote ends that knows nothing of escapes but the character behind a backslash:
what else belongs to an escape is neither a quote nor a backslash.
-/

namespace Swatch.Css

/-- The reader that takes the tokens of a kind. -/
def TokenKind.reader : TokenKind → Reader
  | .blank => .blanks
  | .comment => .comment
  | .string | .badString => .string
  | .number | .percentage | .dimension => .number
  | .identifier | .function | .address | .badAddress => .name
  | .hideOpen => .fixed .hideOpen 4
  | .hideClose => .fixed .hideClose 3
  | .hash => .marked .hash
  | .atKeyword => .marked .atKeyword
  | .comparison => .fixed .comparison 2
  | kind => .fixed kind 1

variable {first : Char} {rest : Text}

theorem readerOf_eq_reader (first : Char) (rest : Text) :
    readerOf first rest = (lexeme first rest).1.reader := by
  have chosen := chosen_readerOf first rest
  rw [lexeme_eq_read]
  generalize readerOf first rest = reader at chosen
  cases chosen with
  | punctuation known =>
    unfold punctuation at known
    split at known <;> cases known <;> rfl
  | string quote =>
    rw [Reader.read]
    rcases stringTail_kind first rest with kind | kind <;> rw [kind] <;> rfl
  | number =>
    rw [Reader.read]
    rcases numeric_kind (first :: rest) with kind | kind | kind <;> rw [kind] <;> rfl
  | name starts =>
    rw [Reader.read]
    rcases named_kind (first :: rest) with kind | kind | kind | kind <;> rw [kind] <;> rfl
  | _ => rfl

/-- The token at the front was taken by the reader of its kind. -/
theorem lexeme_eq_reader_read {kind : TokenKind} (same : (lexeme first rest).1 = kind) :
    lexeme first rest = kind.reader.read first rest := by
  rw [lexeme_eq_read, readerOf_eq_reader, same]

theorem lexeme_of_hash (kind : (lexeme first rest).1 = .hash) :
    first = '#' ∧ lexeme first rest = (.hash, 1 + nameLength rest) := by
  have chosen := chosen_readerOf first rest
  rw [readerOf_eq_reader, kind] at chosen
  refine ⟨?_, lexeme_eq_reader_read kind⟩
  cases chosen with
  | hash mark => exact mark

/-! ## Strings -/

theorem quotedLength_append_plain {quote : Char} {plain : Text}
    (each : ∀ c ∈ plain, c ≠ '\\' ∧ c ≠ quote) (more : Text) :
    quotedLength quote (plain ++ more) = plain.length + quotedLength quote more := by
  induction plain with
  | nil => simp
  | cons c rest ih =>
    have here := each c List.mem_cons_self
    have later := ih fun other met => each other (List.mem_cons_of_mem _ met)
    rw [List.cons_append, quotedLength_cons _ _ _ fun _ _ slash _ => here.1 slash,
      if_neg (by simpa using here.2), later, List.length_cons]
    omega

theorem isBlank_of_closingBlank (text : Text) :
    ∀ c ∈ text.take (closingBlankLength text), isBlank c = true := by
  unfold closingBlankLength
  split
  · simp [isBlank, isLineEnd]
  · split
    · simpa using ‹_›
    · simp
  · simp

theorem isBlank_of_lineEnd (text : Text) :
    ∀ c ∈ text.take (lineEndLength text), isBlank c = true := by
  unfold lineEndLength
  split
  · simp [isBlank, isLineEnd]
  · split
    · rename_i ends
      simp [isBlank, ends]
    · simp
  · simp

theorem take_escapeDigits (text : Text) :
    text.take (escapeDigits text).length = escapeDigits text :=
  (List.prefix_iff_eq_take.mp ((List.takeWhile_prefix _).trans (List.take_prefix _ _))).symm

/-- Behind its first character an escape holds digits and blanks only. -/
theorem escape_tail (c : Char) (rest : Text) :
    ∀ d ∈ rest.take (escapeLength (c :: rest) - 1), isHexDigit d = true ∨ isBlank d = true := by
  have tail : rest.take (escapeLength (c :: rest) - 1) =
      ((c :: rest).take (escapeLength (c :: rest))).drop 1 := by
    rw [List.drop_take]
    rfl
  rw [tail]
  intro d met
  simp only [escapeLength] at met
  split at met
  · rw [List.take_add, take_escapeDigits] at met
    rcases List.mem_append.mp (List.mem_of_mem_drop met) with digit | blank
    · exact .inl (List.mem_takeWhile_imp digit)
    · exact .inr (isBlank_of_closingBlank _ d blank)
  · simp at met

theorem stringEscape_tail (c : Char) (rest : Text) :
    ∀ d ∈ rest.take (stringEscapeLength (c :: rest) - 1), isHexDigit d = true ∨ isBlank d = true := by
  unfold stringEscapeLength
  split
  · exact escape_tail c rest
  · have ends := isBlank_of_lineEnd (c :: rest)
    intro d met
    cases size : lineEndLength (c :: rest) with
    | zero => simp [size] at met
    | succ count =>
      rw [size, List.take_succ_cons] at ends
      rw [size, Nat.add_sub_cancel] at met
      exact .inr (ends d (List.mem_cons_of_mem _ met))

theorem escapeLength_pos (c : Char) (rest : Text) : 0 < escapeLength (c :: rest) := by
  simp only [escapeLength]
  split
  · rename_i hex
    have some : escapeDigits (c :: rest) ≠ [] := by simp [escapeDigits, hex]
    have := List.length_pos_of_ne_nil some
    omega
  · exact Nat.one_pos

theorem stringEscapeLength_pos (c : Char) (rest : Text) : 0 < stringEscapeLength (c :: rest) := by
  unfold stringEscapeLength
  split
  · exact escapeLength_pos c rest
  · omega

/-- A string ends at the first quote of its kind that no backslash hides. -/
theorem quotedLength_of_string {quote : Char} (isQuote : isQuote quote = true) {text : Text}
    (good : (stringTail quote text).1 = .string) :
    quotedLength quote text = (stringTail quote text).2 := by
  fun_induction stringTail quote text with
  | case1 => rfl
  | case2 c rest ends =>
    rw [quotedLength_cons, if_pos ends]
    intro _ _ slash _
    rw [beq_iff_eq, slash] at ends
    rw [← ends] at isQuote
    contradiction
  | case3 c rest goesOn lineEnd => contradiction
  | case4 c rest goesOn plain skipped tail ih =>
    have later := ih good
    by_cases slash : c = '\\'
    · subst slash
      cases rest with
      | nil => simp_all [quotedLength, skipped, tail, stringEscapeLength, lineEndLength, escapeLength]
      | cons d more =>
        have size : skipped = stringEscapeLength (d :: more) := rfl
        have some := stringEscapeLength_pos d more
        have short := stringEscapeLength_le (d :: more)
        rw [List.length_cons] at short
        have rest_eq : (d :: more).drop skipped = more.drop (stringEscapeLength (d :: more) - 1) := by
          rw [size]
          cases count : stringEscapeLength (d :: more) with
          | zero => omega
          | succ n => rfl
        have plainly : ∀ e ∈ more.take (stringEscapeLength (d :: more) - 1), e ≠ '\\' ∧ e ≠ quote := by
          intro e met
          rw [isQuote_iff] at isQuote
          simp only [eq_iff_toNat, ne_eq]
          rcases stringEscape_tail d more e met with hex | blank
          · rw [isHexDigit_iff] at hex
            simp only [Char.reduceToNat]
            omega
          · rw [isBlank_iff] at blank
            simp only [Char.reduceToNat]
            omega
        have parts : quotedLength quote more = stringEscapeLength (d :: more) - 1 +
            quotedLength quote (more.drop (stringEscapeLength (d :: more) - 1)) := by
          conv => lhs; rw [← List.take_append_drop (stringEscapeLength (d :: more) - 1) more]
          rw [quotedLength_append_plain plainly, List.length_take_of_le (by omega)]
        rw [quotedLength, parts, ← rest_eq, later]
        change 2 + (stringEscapeLength (d :: more) - 1 + tail.2) = 1 + skipped + tail.2
        omega
    · have none : skipped = 0 := by simp [skipped, slash]
      rw [quotedLength_cons _ _ _ fun _ _ same _ => slash same, if_neg goesOn]
      rw [none, List.drop_zero] at later
      change _ = 1 + skipped + (stringTail quote (rest.drop skipped)).2
      rw [none, List.drop_zero, later]

end Swatch.Css
