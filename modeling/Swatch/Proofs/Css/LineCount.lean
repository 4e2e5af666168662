import Swatch.Proofs.Css.Spelling

/-!
# Counting the lines of a text

A carriage return followed by a line feed is one line end, so the lines of two
neighbouring texts add up only when the pair is not split between them. No token
ends inside such a pair. The line of a token is therefore one more than the number
of line ends before it, and the lines of the tokens of a text never decrease.
-/

namespace Swatch.Css

/-- The first characters of a text do not end between a carriage return and its line feed. -/
def Unsplit (text : Text) (size : Nat) : Prop :=
  ∀ front back, text = front ++ '\r' :: '\n' :: back → size ≠ front.length + 1

namespace Unsplit

variable {text rest : Text} {c : Char} {size more : Nat}

theorem zero (text : Text) : Unsplit text 0 :=
  fun front _ _ => (Nat.succ_ne_zero front.length).symm

theorem of_no_return (plain : '\r' ∉ text.take size) : Unsplit text size := by
  intro front back parts same
  apply plain
  rw [parts, same, List.take_length_add_append]
  simp

theorem add (first : Unsplit text size) (second : Unsplit (text.drop size) more) :
    Unsplit text (size + more) := by
  intro front back parts same
  rcases Nat.eq_zero_or_pos more with none | some
  · exact first front back parts (by omega)
  · apply second (front.drop size) back
    · rw [parts, List.drop_append_of_le_length (by omega)]
    · rw [List.length_drop]
      omega

theorem of_append (front : Text) (unsplit : Unsplit (front ++ rest) (front.length + size)) :
    Unsplit rest size := by
  intro before back parts same
  apply unsplit (front ++ before) back
  · rw [parts, List.append_assoc]
  · rw [List.length_append]
    omega

/-- One more character in front, when it does not begin a pair that is split. -/
theorem cons (unsplit : Unsplit rest size) (apart : c = '\r' → size = 0 → rest.head? ≠ some '\n') :
    Unsplit (c :: rest) (1 + size) := by
  intro front back parts same
  cases front with
  | nil =>
    rw [List.nil_append, List.cons.injEq] at parts
    apply apart parts.1
    · simp only [List.length_nil] at same
      omega
    · rw [parts.2, List.head?_cons]
  | cons first front =>
    rw [List.cons_append, List.cons.injEq] at parts
    apply unsplit front back parts.2
    simp only [List.length_cons] at same
    omega

theorem cons_of_ne (other : c ≠ '\r') (unsplit : Unsplit rest size) :
    Unsplit (c :: rest) (1 + size) :=
  unsplit.cons fun same _ => absurd same other

/-- A run of characters of a class that holds line feeds does not split a pair. -/
theorem takeWhile {test : Char → Bool} (feed : test '\n' = true) (text : Text) :
    Unsplit text (text.takeWhile test).length := by
  induction text with
  | nil => exact zero []
  | cons c rest ih =>
    rw [List.takeWhile_cons]
    split
    · rw [List.length_cons, Nat.add_comm]
      apply ih.cons
      intro _ none begins
      rcases List.head?_eq_some_iff.mp begins with ⟨more, rfl⟩
      rw [List.takeWhile_cons_of_pos feed] at none
      contradiction
    · exact zero _

theorem singleton (other : c ≠ '\r') (rest : Text) : Unsplit (c :: rest) 1 :=
  cons_of_ne other (zero rest)

end Unsplit

/-! ## Readers -/

theorem ne_return_of_notEnd {c : Char} (goesOn : ¬isLineEnd c = true) : c ≠ '\r' := by
  rintro rfl
  exact goesOn rfl

theorem ne_return_of_nameChar {c : Char} (inName : isNameChar c = true) : c ≠ '\r' :=
  ne_of_class inName (by decide)

theorem return_not_mem_takeWhile {test : Char → Bool} (outside : test '\r' = false) (text : Text) :
    '\r' ∉ text.takeWhile test := by
  intro met
  rw [List.mem_takeWhile_imp met] at outside
  contradiction

theorem unsplit_run {test : Char → Bool} (outside : test '\r' = false) (text : Text) :
    Unsplit text (text.takeWhile test).length := by
  apply Unsplit.of_no_return
  rw [← List.prefix_iff_eq_take.mp (List.takeWhile_prefix test)]
  exact return_not_mem_takeWhile outside text

/-- One character is split from the next one only if the two are a pair. -/
theorem unsplit_one {c : Char} {rest : Text} (noPair : ∀ more, c = '\r' → rest = '\n' :: more → False) :
    Unsplit (c :: rest) 1 := by
  apply (Unsplit.zero rest).cons
  intro return_eq _ begins
  rcases List.head?_eq_some_iff.mp begins with ⟨more, same⟩
  exact noPair more return_eq same

theorem unsplit_pair (rest : Text) : Unsplit ('\r' :: '\n' :: rest) 2 :=
  (Unsplit.singleton (by decide) rest).cons fun _ none => by contradiction

theorem unsplit_closingBlank (text : Text) : Unsplit text (closingBlankLength text) := by
  unfold closingBlankLength
  split
  · exact unsplit_pair _
  · rename_i c rest noPair
    split
    · exact unsplit_one noPair
    · exact Unsplit.zero _
  · exact Unsplit.zero []

theorem unsplit_lineEnd (text : Text) : Unsplit text (lineEndLength text) := by
  unfold lineEndLength
  split
  · exact unsplit_pair _
  · rename_i c rest noPair
    split
    · exact unsplit_one noPair
    · exact Unsplit.zero _
  · exact Unsplit.zero []

/-- An escape that does not begin with a line end. -/
theorem unsplit_escape {text : Text} (noEnd : ∀ c ∈ text.head?, ¬isLineEnd c = true) :
    Unsplit text (escapeLength text) := by
  unfold escapeLength
  split
  · exact Unsplit.zero []
  · rename_i c rest
    split
    · apply Unsplit.add
      · have digits : escapeDigits (c :: rest) <+: c :: rest :=
          (List.takeWhile_prefix _).trans (List.take_prefix _ _)
        apply Unsplit.of_no_return
        rw [← List.prefix_iff_eq_take.mp digits]
        exact return_not_mem_takeWhile (by decide) _
      · exact unsplit_closingBlank _
    · exact Unsplit.singleton (ne_return_of_notEnd (noEnd c rfl)) rest

theorem noEnd_of_startsEscape {c : Char} {rest : Text} (starts : startsEscape (c :: rest) = true) :
    c = '\\' ∧ ∀ d ∈ rest.head?, ¬isLineEnd d = true := by
  unfold startsEscape at starts
  split at starts
  · rename_i d more same
    rw [List.cons.injEq] at same
    refine ⟨same.1, ?_⟩
    rw [same.2]
    rintro _ ⟨⟩
    simpa using starts
  · rename_i same
    rw [List.cons.injEq] at same
    rw [same.1, same.2]
    exact ⟨rfl, fun _ longer => absurd longer.symm (Option.some_ne_none _)⟩
  · contradiction

theorem unsplit_name (text : Text) : Unsplit text (nameLength text) := by
  fun_induction nameLength text with
  | case1 => exact Unsplit.zero []
  | case2 c rest inName ih => exact ih.cons_of_ne (ne_return_of_nameChar inName)
  | case3 c rest notName starts ih =>
    rcases noEnd_of_startsEscape starts with ⟨slash, noEnd⟩
    rw [Nat.add_assoc]
    exact ((unsplit_escape noEnd).add ih).cons_of_ne (by rw [slash]; decide)
  | case4 => exact Unsplit.zero _

/-! ### Numbers -/

theorem unsplit_digits (text : Text) : Unsplit text (digitsLength text) :=
  unsplit_run (by decide) text

theorem unsplit_sign (text : Text) : Unsplit text (signLength text) := by
  unfold signLength
  split
  · rename_i c rest
    split
    · rename_i sign
      exact Unsplit.singleton (by rintro rfl; contradiction) rest
    · exact Unsplit.zero _
  · exact Unsplit.zero []

theorem unsplit_fraction (text : Text) : Unsplit text (fractionLength text) := by
  unfold fractionLength
  split
  · rename_i rest
    split
    · exact (unsplit_digits rest).cons_of_ne (by decide)
    · exact Unsplit.zero _
  · exact Unsplit.zero text

theorem unsplit_exponent (text : Text) : Unsplit text (exponentLength text) := by
  unfold exponentLength
  split
  · rename_i c rest
    dsimp only
    split
    · rename_i begins
      rw [Nat.add_assoc]
      exact ((unsplit_sign rest).add (unsplit_digits _)).cons_of_ne
        (by rintro rfl; simp at begins)
    · exact Unsplit.zero _
  · exact Unsplit.zero []

theorem unsplit_number (text : Text) : Unsplit text (numberLength text) :=
  (((unsplit_sign text).add (unsplit_digits _)).add (unsplit_fraction _)).add (unsplit_exponent _)

theorem unsplit_numeric (text : Text) : Unsplit text (numeric text).2 := by
  have number := unsplit_number text
  simp only [numeric]
  split
  · rename_i percent
    rw [beq_iff_eq] at percent
    rcases List.head?_eq_some_iff.mp percent with ⟨more, same⟩
    apply number.add
    rw [same]
    exact Unsplit.singleton (by decide) more
  · split
    · exact number.add (unsplit_name _)
    · exact number

/-! ### Strings, comments and addresses -/

theorem unsplit_stringEscape (text : Text) : Unsplit text (stringEscapeLength text) := by
  unfold stringEscapeLength
  split
  · rename_i none
    apply unsplit_escape
    intro c begins ends
    rcases List.head?_eq_some_iff.mp begins with ⟨rest, rfl⟩
    unfold lineEndLength at none
    split at none <;> simp_all
  · exact unsplit_lineEnd text

theorem unsplit_string {quote : Char} (isQuote : isQuote quote = true) (text : Text) :
    Unsplit text (stringTail quote text).2 := by
  fun_induction stringTail quote text with
  | case1 => exact Unsplit.zero []
  | case2 c rest closes =>
    rw [beq_iff_eq] at closes
    exact Unsplit.singleton (closes ▸ ne_of_class isQuote (by decide)) rest
  | case3 => exact Unsplit.zero _
  | case4 c rest stays goesOn skipped next ih =>
    rw [Nat.add_assoc]
    have escaped : Unsplit rest skipped := by
      simp only [skipped]
      split
      · exact unsplit_stringEscape rest
      · exact Unsplit.zero rest
    exact (escaped.add ih).cons_of_ne (ne_return_of_notEnd goesOn)

theorem unsplit_comment (text : Text) : Unsplit text (commentTailLength text) := by
  fun_induction commentTailLength text with
  | case1 rest => exact Unsplit.of_no_return (by simp)
  | case2 c rest _ ih =>
    apply ih.cons
    intro _ none
    rw [commentTailLength_eq_zero none]
    exact (Option.some_ne_none _).symm
  | case3 => exact Unsplit.zero []

theorem Unsplit.cons_of_badAddress {rest : Text} (unsplit : Unsplit rest (badAddressLength rest))
    {c : Char} : Unsplit (c :: rest) (1 + badAddressLength rest) := by
  apply unsplit.cons
  intro _ none
  rw [badAddressLength_eq_zero none]
  exact (Option.some_ne_none _).symm

theorem unsplit_badAddress (text : Text) : Unsplit text (badAddressLength text) := by
  fun_induction badAddressLength text with
  | case1 => exact Unsplit.zero []
  | case2 rest => exact Unsplit.singleton (by decide) rest
  | case3 rest ih =>
    rw [show 2 = 1 + 1 from rfl, Nat.add_assoc]
    exact (ih.cons_of_ne (by decide)).cons_of_ne (by decide)
  | case4 rest ih =>
    rw [show 2 = 1 + 1 from rfl, Nat.add_assoc]
    exact (ih.cons_of_ne (by decide)).cons_of_ne (by decide)
  | case5 c rest _ _ _ ih => exact ih.cons_of_badAddress

theorem unsplit_addressEnd (text : Text) : Unsplit text (addressEnd text).2 := by
  unfold addressEnd
  split
  · exact Unsplit.zero []
  · rename_i c rest
    split
    · rename_i closes
      exact Unsplit.singleton (by rintro rfl; contradiction) rest
    · exact (unsplit_badAddress rest).cons_of_badAddress

theorem unsplit_address (text : Text) : Unsplit text (addressTail text).2 := by
  fun_induction addressTail text with
  | case1 => exact Unsplit.zero []
  | case2 c rest closes => exact Unsplit.singleton (by rintro rfl; contradiction) rest
  | case3 c rest _ blank blanks close =>
    have run := Unsplit.takeWhile (show isBlank '\n' = true by decide) (c :: rest)
    rw [List.takeWhile_cons_of_pos blank, List.length_cons, Nat.add_comm] at run
    apply run.add
    rw [Nat.add_comm, List.drop_succ_cons]
    exact unsplit_addressEnd _
  | case4 c rest => exact (unsplit_badAddress rest).cons_of_badAddress
  | case5 c rest => exact (unsplit_badAddress rest).cons_of_badAddress
  | case6 c rest _ noBlank _ good skipped next ih =>
    have other : c ≠ '\r' := by
      rintro rfl
      exact noBlank (by decide)
    have escaped : Unsplit rest skipped := by
      simp only [skipped]
      split
      · rename_i slash
        rw [slash, Bool.true_and, Bool.not_eq_true', Bool.not_eq_false] at good
        exact unsplit_escape (noEnd_of_startsEscape good).2
      · exact Unsplit.zero rest
    rw [Nat.add_assoc]
    exact (escaped.add ih).cons_of_ne other

theorem unsplit_addressAfterOpening {text : Text} {found : TokenKind × Nat}
    (opened : addressAfterOpening text = some found) : Unsplit text found.2 := by
  have blanks := Unsplit.takeWhile (show isBlank '\n' = true by decide) text
  simp only [addressAfterOpening] at opened
  split at opened
  · cases opened
    exact blanks
  · split at opened
    · contradiction
    · cases opened
      exact blanks.add (unsplit_address _)

/-! ### Tokens -/

theorem unsplit_named (text : Text) : Unsplit text (named text).2 := by
  have name := unsplit_name text
  simp only [named]
  split
  · rename_i rest left
    have opening : Unsplit (text.drop (nameLength text)) 1 := by
      rw [left]
      exact Unsplit.singleton (by decide) rest
    have opened := name.add opening
    split
    · split
      · rename_i kind length address
        apply opened.add
        rw [← List.drop_drop, left]
        exact unsplit_addressAfterOpening address
      · exact opened
    · exact opened
  · exact name

theorem unsplit_mark {mark text : Text} (begins : mark.isPrefixOf text = true)
    (plain : '\r' ∉ mark) : Unsplit text mark.length := by
  apply Unsplit.of_no_return
  rwa [← List.prefix_iff_eq_take.mp (List.isPrefixOf_iff_prefix.mp begins)]

/-- No token ends between a carriage return and its line feed. -/
theorem unsplit_lexeme (first : Char) (rest : Text) :
    Unsplit (first :: rest) (lexeme first rest).2 := by
  have chosen := chosen_readerOf first rest
  -- Only blanks can begin with a carriage return.
  have other (noBlank : isBlank first = false) : first ≠ '\r' := by
    rintro rfl
    contradiction
  rw [lexeme_eq_read]
  generalize readerOf first rest = reader at chosen
  cases chosen with
  | punctuation known => exact Unsplit.singleton (by rintro rfl; contradiction) rest
  | blanks blank =>
    have run := Unsplit.takeWhile (show isBlank '\n' = true by decide) (first :: rest)
    rwa [List.takeWhile_cons_of_pos blank, List.length_cons, Nat.add_comm] at run
  | string quote => exact (unsplit_string quote rest).cons_of_ne (ne_of_class quote (by decide))
  | comment mark =>
    apply (unsplit_mark mark (by decide)).add
    rw [show "/*".toList.length = 1 + 1 from rfl, Nat.add_comm, List.drop_succ_cons]
    exact unsplit_comment _
  | number => exact unsplit_numeric _
  | hideOpen mark => exact unsplit_mark mark (by decide)
  | hideClose mark => exact unsplit_mark mark (by decide)
  | name starts => exact unsplit_named _
  | hash mark => exact (unsplit_name rest).cons_of_ne (by rw [mark]; decide)
  | atKeyword mark => exact (unsplit_name rest).cons_of_ne (by rw [mark]; decide)
  | comparison noBlank equals =>
    rcases List.head?_eq_some_iff.mp equals with ⟨more, rfl⟩
    exact (Unsplit.singleton (by decide) more).cons_of_ne (other noBlank)
  | delimiter noBlank => exact Unsplit.singleton (other noBlank) rest

/-! ## Line ends -/

theorem lineEnds_cons {c : Char} {rest : Text}
    (noPair : ∀ more, c = '\r' → rest = '\n' :: more → False) :
    lineEnds (c :: rest) = (if isLineEnd c = true then 1 else 0) + lineEnds rest := by
  rw [lineEnds]
  · split
    · exact Nat.add_comm _ _
    · exact (Nat.zero_add _).symm
  · exact noPair

theorem lineEnds_eq_zero_iff (text : Text) :
    lineEnds text = 0 ↔ ∀ c ∈ text, isLineEnd c = false := by
  induction text using lineEnds.induct with
  | case1 => simp [lineEnds]
  | case2 rest ih => simp [lineEnds, isLineEnd]
  | case3 c rest noPair ends ih => simp [lineEnds_cons noPair, ends]
  | case4 c rest noPair goesOn ih =>
    rw [Bool.not_eq_true] at goesOn
    simp [lineEnds_cons noPair, goesOn, ih]

theorem lineEnds_split_cons {c : Char} {rest : Text} {size : Nat}
    (noPair : ∀ more, c = '\r' → rest = '\n' :: more → False)
    (split : lineEnds (rest.take size) + lineEnds (rest.drop size) = lineEnds rest) :
    lineEnds ((c :: rest).take (size + 1)) + lineEnds ((c :: rest).drop (size + 1)) =
      lineEnds (c :: rest) := by
  have inner : ∀ more, c = '\r' → rest.take size = '\n' :: more → False := by
    intro more return_eq taken
    apply noPair (more ++ rest.drop size) return_eq
    rw [← List.cons_append, ← taken, List.take_append_drop]
  rw [List.take_succ_cons, List.drop_succ_cons, lineEnds_cons inner, lineEnds_cons noPair]
  omega

/-- The line ends of a text are those of its two parts, unless a pair is split. -/
theorem lineEnds_split {text : Text} {size : Nat} (unsplit : Unsplit text size) :
    lineEnds (text.take size) + lineEnds (text.drop size) = lineEnds text := by
  induction text using lineEnds.induct generalizing size with
  | case1 => simp [lineEnds]
  | case2 rest ih =>
    match size with
    | 0 => simp [lineEnds]
    | 1 => exact absurd rfl (unsplit [] rest rfl)
    | size + 2 =>
      have := ih (Unsplit.of_append ['\r', '\n'] (by rwa [Nat.add_comm]))
      simp only [List.take_succ_cons, List.drop_succ_cons, lineEnds]
      omega
  | case3 c rest noPair _ ih =>
    cases size with
    | zero => simp [lineEnds]
    | succ size =>
      exact lineEnds_split_cons noPair (ih (Unsplit.of_append [c] (by rwa [Nat.add_comm])))
  | case4 c rest noPair _ ih =>
    cases size with
    | zero => simp [lineEnds]
    | succ size =>
      exact lineEnds_split_cons noPair (ih (Unsplit.of_append [c] (by rwa [Nat.add_comm])))

theorem lineEnds_append {front back : Text}
    (apart : front.getLast? = some '\r' → back.head? ≠ some '\n') :
    lineEnds (front ++ back) = lineEnds front + lineEnds back := by
  have unsplit : Unsplit (front ++ back) front.length := by
    intro before after parts same
    rw [List.append_cons] at parts
    rcases List.append_inj parts (by simpa using same) with ⟨rfl, rfl⟩
    exact apart (by simp) rfl
  have total := lineEnds_split unsplit
  rw [List.take_left, List.drop_left] at total
  exact total.symm

theorem lineEnds_withoutMark (text : Text) : lineEnds (withoutMark text) = lineEnds text := by
  unfold withoutMark
  split
  · rw [lineEnds_cons (fun _ other _ => absurd other (by decide))]
    exact (Nat.zero_add _).symm
  · rfl

/-! ## Lines of tokens -/

theorem unsplit_spelling (first : Char) (rest : Text) :
    Unsplit (first :: rest) ((lexeme first rest).2 - 1 + 1) := by
  rcases Nat.eq_zero_or_pos (lexeme first rest).2 with none | some
  · rw [none]
    apply Unsplit.singleton
    rintro rfl
    have blank : lexeme '\r' rest = (.blank, 1 + blankLength rest) := rfl
    rw [blank] at none
    simp only at none
    omega
  · rw [Nat.sub_add_cancel some]
    exact unsplit_lexeme first rest

/-- The line ends of a text are those of its first token and those of what follows it. -/
theorem lineEnds_token (first : Char) (rest : Text) :
    lineEnds (first :: rest.take ((lexeme first rest).2 - 1)) +
      lineEnds (rest.drop ((lexeme first rest).2 - 1)) = lineEnds (first :: rest) := by
  have total := lineEnds_split (unsplit_spelling first rest)
  rwa [List.take_succ_cons, List.drop_succ_cons] at total

theorem lineAfter_cons (line : Nat) (token : Token) (tokens : List Token) :
    lineAfter line (token :: tokens) = lineAfter (line + lineEnds token.text) tokens := rfl

/-- What follows a text begins as many lines later as the text has line ends. -/
theorem lineAfter_tokenize (line : Nat) (text : Text) :
    lineAfter line (tokenize line text) = line + lineEnds text := by
  fun_induction tokenize line text with
  | case1 => rfl
  | case2 line first rest found spelling ih =>
    have total : lineEnds spelling + lineEnds (rest.drop (found.2 - 1)) = lineEnds (first :: rest) :=
      lineEnds_token first rest
    rw [lineAfter_cons, ih]
    omega

theorem line_of_mem_tokenize {line : Nat} {text : Text} {token : Token}
    (met : token ∈ tokenize line text) : line ≤ token.line ∧ token.line ≤ line + lineEnds text := by
  fun_induction tokenize line text with
  | case1 => contradiction
  | case2 line first rest found spelling ih =>
    have total : lineEnds spelling + lineEnds (rest.drop (found.2 - 1)) = lineEnds (first :: rest) :=
      lineEnds_token first rest
    rcases List.mem_cons.mp met with rfl | later
    · exact ⟨Nat.le_refl line, Nat.le_add_right _ _⟩
    · have := ih later
      omega

/-- The lines of the tokens of a text never decrease. -/
theorem pairwise_line_tokenize (line : Nat) (text : Text) :
    (tokenize line text).Pairwise fun token later => token.line ≤ later.line := by
  fun_induction tokenize line text with
  | case1 => exact .nil
  | case2 line first rest found spelling ih =>
    refine .cons ?_ ih
    intro later met
    have := (line_of_mem_tokenize met).1
    simp only
    omega

end Swatch.Css
