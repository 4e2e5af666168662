import Swatch.Proofs.Css.RereadReaders

/-!
# Tokens in cleaned text

The token at the front of a text is read again from the cleaned text, says the same, and
leaves behind the cleaned form of what it left. For each kind of token this rests on what
the token is made of: characters that are copied, a string, a name or an address.
-/

namespace Swatch.Css

/-! ## Numbers -/

theorem signLength_take {text : Text} {count : Nat} (fits : signLength text ≤ count) :
    signLength (text.take count) = signLength text := by
  cases text with
  | nil => rw [List.take_nil]
  | cons c rest =>
    cases count with
    | zero =>
      have none : signLength (c :: rest) = 0 := Nat.eq_zero_of_le_zero fits
      rw [none]
      rfl
    | succ count => rfl

theorem digitsLength_take {text : Text} {count : Nat} (fits : digitsLength text ≤ count) :
    digitsLength (text.take count) = digitsLength text := by
  rw [digitsLength, ← List.take_takeWhile, List.take_of_length_le fits, digitsLength]

theorem digitsLength_pos {text : Text} (starts : startsDigit text = true) : 0 < digitsLength text := by
  cases text with
  | nil => contradiction
  | cons c rest =>
    have digit : c.isDigit = true := starts
    simp [digitsLength, digit]

/-- No digit comes to the front when the end is cut off. -/
theorem startsDigit_take {text : Text} {count : Nat}
    (fits : startsDigit text = true → 0 < count) :
    startsDigit (text.take count) = startsDigit text := by
  cases text with
  | nil => rw [List.take_nil]
  | cons c rest =>
    cases count with
    | zero =>
      have outside : startsDigit (c :: rest) = false :=
        Bool.eq_false_iff.mpr fun starts => Nat.lt_irrefl 0 (fits starts)
      rw [outside]
      rfl
    | succ count => rfl

theorem fractionLength_take {text : Text} {count : Nat} (fits : fractionLength text ≤ count) :
    fractionLength (text.take count) = fractionLength text := by
  by_cases point : ∃ rest, text = '.' :: rest
  · rcases point with ⟨rest, rfl⟩
    cases count with
    | zero =>
      rw [Nat.eq_zero_of_le_zero fits]
      rfl
    | succ count =>
      rw [fractionLength] at fits
      have digits (starts : startsDigit rest = true) : digitsLength rest ≤ count := by
        rw [if_pos starts] at fits
        omega
      have same : startsDigit (rest.take count) = startsDigit rest :=
        startsDigit_take fun starts => Nat.lt_of_lt_of_le (digitsLength_pos starts) (digits starts)
      rw [List.take_succ_cons, fractionLength, fractionLength, same]
      exact ite_congr rfl (fun starts => by rw [digitsLength_take (digits starts)]) fun _ => rfl
  · rw [not_exists] at point
    rw [fractionLength_of_ne point, fractionLength_of_ne]
    intro rest found
    cases text with
    | nil => simp at found
    | cons c more =>
      cases count with
      | zero => simp at found
      | succ count =>
        rw [List.take_succ_cons] at found
        exact point more (by rw [(List.cons.inj found).1])

theorem exponentLength_take {text : Text} {count : Nat} (fits : exponentLength text ≤ count) :
    exponentLength (text.take count) = exponentLength text := by
  match text, count with
  | [], _ => rw [List.take_nil]
  | _, 0 =>
    rw [Nat.eq_zero_of_le_zero fits]
    rfl
  | c :: rest, count + 1 =>
    rw [List.take_succ_cons]
    simp only [exponentLength] at fits ⊢
    -- Without room for the sign there is no room for digits either.
    by_cases room : signLength rest ≤ count
    · rw [signLength_take room, List.drop_take]
      by_cases exponent : ((c == 'e' || c == 'E') && startsDigit (rest.drop (signLength rest))) = true
      · have digits := digitsLength_pos (Bool.and_eq_true_iff.mp exponent).2
        rw [if_pos exponent] at fits
        rw [startsDigit_take fun _ => by omega, digitsLength_take (by omega)]
      · rw [if_neg exponent, if_neg]
        rw [Bool.and_eq_true, not_and] at exponent ⊢
        intro letter
        rw [startsDigit_take fun starts => absurd starts (exponent letter)]
        exact exponent letter
    · have none : count = 0 := by
        have short : signLength rest ≤ 1 := by
          unfold signLength
          split
          · split <;> omega
          · omega
        omega
      rw [none] at fits ⊢
      rw [List.take_zero, if_neg (by simp [signLength, startsDigit]), if_neg]
      intro exponent
      rw [if_pos exponent] at fits
      omega

/-- A number is the same number when only what follows it is cut off. -/
theorem numberLength_take {text : Text} {count : Nat} (fits : numberLength text ≤ count) :
    numberLength (text.take count) = numberLength text := by
  simp only [numberLength] at fits ⊢
  rw [signLength_take (by omega), List.drop_take, digitsLength_take (by omega), List.drop_take,
    fractionLength_take (by omega), List.drop_take, exponentLength_take (by omega)]

theorem numberLength_pos {text : Text} (starts : startsNumber text = true) :
    0 < numberLength text := by
  rw [startsNumber] at starts
  simp only [numberLength]
  by_cases point : ∃ rest, text.drop (signLength text) = '.' :: rest
  · rcases point with ⟨rest, found⟩
    have digit : startsDigit rest = true := by
      rw [found] at starts
      exact starts
    have none : digitsLength ('.' :: rest) = 0 := rfl
    rw [found, none, Nat.add_zero, found, fractionLength, if_pos digit]
    omega
  · rw [not_exists] at point
    have digits : 0 < digitsLength (text.drop (signLength text)) := by
      apply digitsLength_pos
      rwa [startsUnsigned_of_ne point] at starts
    omega

/-! ## The token at the front -/

/-- How the token at the front of a text is read again, and what is left behind it. -/
structure TokenKept (first : Char) (rest more : Text) : Prop where
  shape : afterAtom (first :: rest) = first :: more
  kind : (lexeme first more).1 = (lexeme first rest).1
  behind : more.drop ((lexeme first more).2 - 1) = afterAtom (rest.drop ((lexeme first rest).2 - 1))
  sense : ∀ line other,
    Token.sense ⟨(lexeme first rest).1, first :: more.take ((lexeme first more).2 - 1), line⟩ =
      Token.sense ⟨(lexeme first rest).1, first :: rest.take ((lexeme first rest).2 - 1), other⟩

section Kept

variable {first : Char} {rest more : Text}

/-- A token that is copied character by character. -/
theorem TokenKept.of_solid (shape : afterAtom (first :: rest) = first :: afterAtom rest)
    (same : lexeme first (afterAtom rest) = lexeme first rest)
    (solid : Solid ((lexeme first rest).2 - 1) rest) : TokenKept first rest (afterAtom rest) := by
  refine ⟨shape, by rw [same], ?_, ?_⟩
  · rw [same, solid.drop_afterAtom]
  · intro line other
    rw [same, solid.afterAtom_eq, List.take_left' (List.length_take_of_le solid.1)]
    rfl

/-- Every token but a string begins with an atom of one character, or with a backslash. -/
theorem gapLength_of_steady (noGap : (lexeme first rest).1 ≠ .blank ∧ (lexeme first rest).1 ≠ .comment)
    {count : Nat} (steady : isSteady (first :: rest.take count) = true) :
    gapLength (first :: rest) = 0 := by
  rw [gapLength_eq_zero_iff]
  constructor
  · by_cases slash : first = '\\'
    · rw [slash]
      rfl
    · rw [isSteady, if_neg (by simpa using slash), Bool.and_eq_true, Bool.and_eq_true,
        Bool.or_eq_true, Bool.not_eq_true'] at steady
      rcases steady.1.1 with seen | blank
      · exact seen
      · have kind : (lexeme first rest).1 = .blank := by
          rw [lexeme, punctuation_of_blank blank]
          simp only [if_pos blank]
        exact absurd kind noGap.1
  · rintro rfl star
    rcases List.head?_eq_some_iff.mp star with ⟨more, rfl⟩
    rw [lexeme_comment] at noGap
    exact noGap.2 rfl

/-- The same reader takes the token again when it needs no name. -/
theorem readerOf_afterAtom_of_nameless (atom : gapLength (first :: rest) = 0)
    (noQuote : isQuote first = false) (noSlash : first ≠ '\\')
    (other : readerOf first rest ≠ .name ∧ readerOf first rest ≠ .marked .hash ∧
      readerOf first rest ≠ .marked .atKeyword) :
    readerOf first (afterAtom rest) = readerOf first rest :=
  Chosen.readerOf_eq ⟨afterAtom_cons atom noQuote noSlash, fun _ _ => rfl, atom,
    fun same => absurd same other.1, fun same => absurd same other.2.1,
    fun same => absurd same other.2.2⟩

/-- Every token has a character. -/
theorem lexeme_pos (first : Char) (rest : Text) : 0 < (lexeme first rest).2 := by
  have chosen := chosen_readerOf first rest
  rw [lexeme_eq_read]
  generalize readerOf first rest = found at chosen
  cases chosen with
  | number starts =>
    have some := numberLength_pos starts
    rw [Reader.read, numeric]
    split
    · exact Nat.succ_pos _
    · split
      · exact Nat.add_pos_left some _
      · exact some
  | name starts => exact Nat.lt_of_lt_of_le (nameLength_pos starts) (nameLength_le_named _)
  | _ => simp only [Reader.read]; omega

theorem take_lexeme (first : Char) (rest : Text) : (first :: rest).take (lexeme first rest).2 =
    first :: rest.take ((lexeme first rest).2 - 1) := by
  obtain ⟨size, same⟩ := Nat.exists_eq_add_of_lt (lexeme_pos first rest)
  rw [same, Nat.zero_add, List.take_succ_cons, Nat.add_sub_cancel]

theorem drop_lexeme (first : Char) (rest : Text) : (first :: rest).drop (lexeme first rest).2 =
    rest.drop ((lexeme first rest).2 - 1) := by
  obtain ⟨size, same⟩ := Nat.exists_eq_add_of_lt (lexeme_pos first rest)
  rw [same, Nat.zero_add, List.drop_succ_cons, Nat.add_sub_cancel]

/-- How a reader takes the same token from the front of a text and of its cleaned form. -/
structure ReadKept (read : Text → TokenKind × Nat) (text : Text) : Prop where
  kind : (read (afterAtom text)).1 = (read text).1
  behind : (afterAtom text).drop (read (afterAtom text)).2 = afterAtom (text.drop (read text).2)
  sense : ∀ line other,
    Token.sense ⟨(read text).1, (afterAtom text).take (read (afterAtom text)).2, line⟩ =
      Token.sense ⟨(read text).1, text.take (read text).2, other⟩

theorem ReadKept.of_solid {read : Text → TokenKind × Nat} {text : Text}
    (same : read (afterAtom text) = read text) (solid : Solid (read text).2 text) :
    ReadKept read text := by
  refine ⟨by rw [same], ?_, ?_⟩
  · rw [same, solid.drop_afterAtom]
  · intro line other
    rw [same, solid.afterAtom_eq, List.take_left' (List.length_take_of_le solid.1)]
    rfl

theorem TokenKept.of_read {read : Text → TokenKind × Nat}
    (shape : afterAtom (first :: rest) = first :: more)
    (found : lexeme first rest = read (first :: rest))
    (again : lexeme first more = read (first :: more)) (kept : ReadKept read (first :: rest)) :
    TokenKept first rest more := by
  have kind := kept.kind
  have behind := kept.behind
  have sense := kept.sense
  rw [shape, ← found, ← again] at kind behind sense
  rw [drop_lexeme, drop_lexeme] at behind
  rw [take_lexeme, take_lexeme] at sense
  exact ⟨shape, kind, behind, sense⟩

theorem TokenKept.punctuation {kind : TokenKind} (known : punctuation first = some kind) :
    TokenKept first rest (afterAtom rest) := by
  have atom : isAtom first = true := by
    unfold Css.punctuation at known
    split at known <;> first | rfl | contradiction
  have found (rest : Text) : lexeme first rest = (kind, 1) := by
    rw [lexeme, known]
  apply TokenKept.of_solid (afterAtom_cons_of_atom atom rest)
  · rw [found, found]
  · rw [found]
    exact .zero rest

/-- A mark is copied character by character. -/
theorem TokenKept.fixed {kind : TokenKind} {size : Nat} (atom : gapLength (first :: rest) = 0)
    (noQuote : isQuote first = false) (noSlash : first ≠ '\\')
    (reader : readerOf first rest = .fixed kind size) (solid : Solid (size - 1) rest) :
    TokenKept first rest (afterAtom rest) := by
  have again : readerOf first (afterAtom rest) = readerOf first rest := by
    apply readerOf_afterAtom_of_nameless atom noQuote noSlash
    rw [reader]
    simp
  apply TokenKept.of_solid (afterAtom_cons atom noQuote noSlash)
  · rw [lexeme_eq_read, again, reader, lexeme_eq_read, reader]
    rfl
  · rw [lexeme_eq_read, reader]
    exact solid

theorem TokenKept.string (quote : isQuote first = true) (kind : (lexeme first rest).1 = .string) :
    ∃ more, TokenKept first rest more := by
  have marks : first = '"' ∨ first = '\'' := by simpa [isQuote] using quote
  have reader (rest : Text) : readerOf first rest = .string := by
    rcases marks with rfl | rfl <;> rfl
  have good : (stringTail first rest).1 = .string := by
    rwa [lexeme_eq_read, reader] at kind
  have found (rest : Text) : lexeme first rest =
      ((stringTail first rest).1, 1 + (stringTail first rest).2) := by
    rw [lexeme_eq_read, reader]
    rfl
  have atom := gapLength_of_quote quote rest
  have size : atomTailLength first rest = (stringTail first rest).2 := by
    rw [atomTailLength, if_pos quote, quotedLength_of_string quote good]
  have same : stringTail first (rest.take (stringTail first rest).2 ++
      afterAtom (rest.drop (stringTail first rest).2)) = stringTail first rest := by
    by_cases ends : rest.drop (stringTail first rest).2 = []
    · rw [ends, afterAtom_nil, List.append_nil, List.take_of_length_le (List.drop_eq_nil_iff.mp ends)]
    · exact stringTail_take good ends _
  have short : (rest.take (stringTail first rest).2).length = (stringTail first rest).2 := by
    rw [← quotedLength_of_string quote good]
    exact List.length_take_of_le (quotedLength_le first rest)
  refine ⟨rest.take (stringTail first rest).2 ++ afterAtom (rest.drop (stringTail first rest).2),
    ?_, ?_, ?_, ?_⟩
  · rw [afterAtom_of_noGap atom, cleanAtoms_cons, size]
  · rw [found, found, same]
  · rw [found, found, same, Nat.add_sub_cancel_left, List.drop_left' short]
  · intro line other
    rw [found, found, same, Nat.add_sub_cancel_left, List.take_left' short]
    rfl

end Kept

/-! ## Numbers with units -/

theorem isAtom_of_startsNumber {first : Char} {rest : Text}
    (starts : startsNumber (first :: rest) = true) : isAtom first = true := by
  obtain ⟨size, some⟩ := Nat.exists_eq_add_of_lt (numberLength_pos starts)
  apply (Solid.number (first :: rest)).2
  rw [some, Nat.zero_add, List.take_succ_cons]
  exact List.mem_cons_self

/-- A number is read again, with its unit. -/
theorem numericKept {text : Text} (firm : Firm (numeric text).2 text) : ReadKept numeric text := by
  have solid := Solid.number text
  have parts (text : Text) : numeric text =
      if (text.drop (numberLength text)).head? == some '%' then (.percentage, numberLength text + 1)
      else if startsName (text.drop (numberLength text)) then
        (.dimension, numberLength text + nameLength (text.drop (numberLength text)))
      else (.number, numberLength text) := rfl
  have mark : ((afterAtom (text.drop (numberLength text))).head? == some '%') =
      ((text.drop (numberLength text)).head? == some '%') := head?_beq_afterAtom rfl _
  have again := parts (afterAtom text)
  rw [numberLength_afterAtom, solid.drop_afterAtom, mark] at again
  by_cases percent : ((text.drop (numberLength text)).head? == some '%') = true
  · have found := parts text
    rw [if_pos percent] at found again
    apply ReadKept.of_solid (again.trans found.symm)
    rw [found]
    apply solid.add
    rcases List.head?_eq_some_iff.mp (eq_of_beq percent) with ⟨more, left⟩
    rw [left]
    exact .one rfl more
  · cases unit : startsName (text.drop (numberLength text)) with
    | false =>
      have found := parts text
      rw [if_neg percent, unit, if_neg Bool.false_ne_true] at found
      rw [if_neg percent, startsName_afterAtom_of_none unit, if_neg Bool.false_ne_true] at again
      apply ReadKept.of_solid (again.trans found.symm)
      rw [found]
      exact solid
    | true =>
      have found := parts text
      rw [if_neg percent, if_pos unit] at found
      rw [found] at firm
      have behind := firm.behind solid
      have name := nameKept behind
      rw [if_neg percent, startsName_afterAtom unit behind.steady, if_pos rfl] at again
      refine ⟨?_, ?_, ?_⟩
      · rw [again, found]
      · rw [again, found, ← List.drop_drop, ← List.drop_drop, solid.drop_afterAtom, name.behind]
      · intro line other
        have size (text : Text) (count : Nat) :
            numberLength (text.take (numberLength text + count)) = numberLength text :=
          numberLength_take (Nat.le_add_right _ _)
        have size' := size (afterAtom text) (nameLength (afterAtom (text.drop (numberLength text))))
        rw [numberLength_afterAtom] at size'
        rw [again, found]
        simp only [Token.sense, size, size', List.take_take, List.drop_take, Nat.add_sub_cancel_left,
          solid.drop_afterAtom, name.resolved]
        rw [Nat.min_eq_left (Nat.le_add_right _ _), Nat.min_eq_left (Nat.le_add_right _ _),
          solid.afterAtom_eq, List.take_left' (List.length_take_of_le solid.1)]

/-! ## Names behind a mark -/

section Marked

variable {first : Char} {rest : Text}

/-- A name behind a mark is read again. -/
theorem markedKept {kind : TokenKind} (named : kind = .hash ∨ kind = .atKeyword)
    (mark : isAtom first = true) (name : NameKept rest) :
    ReadKept (fun text => (kind, 1 + nameLength (text.drop 1))) (first :: rest) := by
  have shape := afterAtom_cons_of_atom mark rest
  refine ⟨rfl, ?_, ?_⟩
  · simp only [shape, List.drop_succ_cons, List.drop_zero, Nat.add_comm 1, name.behind]
  · intro line other
    have begins : startsName ((afterAtom rest).take (nameLength (afterAtom rest))) =
        startsName (rest.take (nameLength rest)) := by
      rw [← startsName_take, name.begins, startsName_take]
    rcases named with rfl | rfl <;>
      simp only [Token.sense, shape, List.drop_succ_cons, List.drop_zero, Nat.add_comm 1,
        List.take_succ_cons, name.resolved, begins]

end Marked

/-! ## Names, functions and addresses -/

section Named

variable {text more : Text}

theorem named_of_unopened (other : ∀ more, text.drop (nameLength text) ≠ '(' :: more) :
    named text = (.identifier, nameLength text) := by
  simp only [named]

theorem named_of_opening (opens : text.drop (nameLength text) = '(' :: more) :
    named text =
      if sameLetters (resolve (text.take (nameLength text))) "url".toList then
        match addressAfterOpening more with
        | some (kind, length) => (kind, nameLength text + 1 + length)
        | none => (.function, nameLength text + 1)
      else (.function, nameLength text + 1) := by
  rw [named, opens]
  rfl

theorem functionKept (name : NameKept text) (opens : text.drop (nameLength text) = '(' :: more)
    (again : (afterAtom text).drop (nameLength (afterAtom text)) = '(' :: afterAtom more)
    (found : named text = (.function, nameLength text + 1))
    (foundAgain : named (afterAtom text) = (.function, nameLength (afterAtom text) + 1)) :
    ReadKept named text := by
  refine ⟨by rw [found, foundAgain], ?_, ?_⟩
  · rw [found, foundAgain, ← List.drop_drop, ← List.drop_drop, again, opens]
    rfl
  · intro line other
    have spelled {text more : Text} (opens : text.drop (nameLength text) = '(' :: more) :
        (text.take (nameLength text + 1)).dropLast = text.take (nameLength text) := by
      rw [List.take_add, opens, List.take_succ_cons, List.take_zero, List.dropLast_concat]
    rw [found, foundAgain]
    simp only [Token.sense, spelled opens, spelled again, name.resolved]

theorem urlKept (opens : text.drop (nameLength text) = '(' :: more)
    (again : (afterAtom text).drop (nameLength (afterAtom text)) = '(' :: afterAtom more)
    {size sizeAgain : Nat} (found : named text = (.address, nameLength text + 1 + size))
    (foundAgain : named (afterAtom text) =
      (.address, nameLength (afterAtom text) + 1 + sizeAgain))
    (behind : (afterAtom more).drop sizeAgain = afterAtom (more.drop size))
    (target : addressTarget (((afterAtom more).take sizeAgain).dropWhile isBlank) =
      addressTarget ((more.take size).dropWhile isBlank)) :
    ReadKept named text := by
  refine ⟨by rw [found, foundAgain], ?_, ?_⟩
  · rw [found, foundAgain, ← List.drop_drop, ← List.drop_drop, ← List.drop_drop, ← List.drop_drop,
      again, opens]
    exact behind
  · intro line other
    have spelled {text more : Text} (opens : text.drop (nameLength text) = '(' :: more) (size : Nat) :
        (text.take (nameLength text + 1 + size)).drop
          (nameLength (text.take (nameLength text + 1 + size)) + 1) = more.take size := by
      have ends : (text.drop (nameLength text)).head? ≠ some '\\' := by simp [opens]
      rw [Nat.add_assoc, nameLength_take ends, List.drop_take, ← List.drop_drop, opens,
        Nat.add_sub_add_left, Nat.add_sub_cancel_left, List.drop_succ_cons, List.drop_zero]
    rw [found, foundAgain]
    simp only [Token.sense, spelled opens, spelled again, target]

theorem isSteady_named (steady : isSteady (text.take (named text).2) = true) :
    isSteady (text.take (nameLength text)) = true := by
  have front := isSteady_take steady (nameLength text)
  rwa [List.take_take, Nat.min_eq_left (nameLength_le_named text)] at front

/-- A name is read again, with what it opens. -/
theorem namedKept (kind : (named text).1 ≠ .badAddress) (firm : Firm (named text).2 text) :
    ReadKept named text := by
  have steady := isSteady_named firm.steady
  by_cases opening : ∃ more, text.drop (nameLength text) = '(' :: more
  · rcases opening with ⟨more, opens⟩
    have name : NameKept text := by
      refine nameKept ⟨steady, fun _ => ?_⟩
      rw [opens]
      exact .inl (gapLength_of_atom rfl more)
    have again : (afterAtom text).drop (nameLength (afterAtom text)) = '(' :: afterAtom more := by
      rw [name.behind, opens, afterAtom_cons_of_atom rfl]
    have found := named_of_opening opens
    have foundAgain := named_of_opening again
    rw [name.resolved] at foundAgain
    by_cases url : sameLetters (resolve (text.take (nameLength text))) "url".toList = true
    · rw [if_pos url] at found foundAgain
      cases opened : addressAfterOpening more with
      | none =>
        rw [opened] at found
        rw [addressAfterOpening_of_none opened] at foundAgain
        exact functionKept name opens again found foundAgain
      | some address =>
        rcases address with ⟨addressKind, size⟩
        rw [opened] at found
        simp only at found
        have good : addressKind = .address := by
          rw [addressAfterOpening_eq] at opened
          split at opened
          · contradiction
          · have tail := (Prod.mk.inj (Option.some.inj opened)).1
            rw [found] at kind
            rcases addressTail_kind (more.drop (blankLength more)) with fine | bad
            · rw [← tail, fine]
            · exact absurd (tail.symm.trans bad) kind
        subst good
        have whole := firm.steady
        rw [found, Nat.add_assoc] at whole
        have address := isSteady_behind_name whole
        rw [opens, Nat.add_comm, List.take_succ_cons, isSteady_cons (by decide) (by decide),
          Bool.and_eq_true] at address
        rcases openingKept opened address.2 with ⟨sizeAgain, openedAgain, behind, target⟩
        rw [openedAgain] at foundAgain
        exact urlKept opens again found foundAgain behind target
    · rw [if_neg url] at found foundAgain
      exact functionKept name opens again found foundAgain
  · rw [not_exists] at opening
    have found := named_of_unopened opening
    rw [found] at firm
    have name := nameKept firm
    have foundAgain : named (afterAtom text) = (.identifier, nameLength (afterAtom text)) := by
      apply named_of_unopened
      rw [name.behind]
      exact ne_cons_of_afterAtom opening (by decide)
    refine ⟨by rw [found, foundAgain], ?_, ?_⟩
    · rw [found, foundAgain, name.behind]
    · intro line other
      rw [found, foundAgain]
      simp only [Token.sense, name.resolved]

end Named

/-! ## Every kind -/

theorem isSteady_of_sturdy {token : Token} (sturdy : token.isSturdy = true)
    (noGap : token.isGap = false) (noString : token.kind ≠ .string) :
    isSteady token.text = true := by
  rcases token with ⟨kind, text, line⟩
  cases kind <;> first | contradiction | exact sturdy

section Every

variable {first : Char} {rest : Text}

theorem Solid.tail {count : Nat} (solid : Solid (count + 1) (first :: rest)) : Solid count rest := by
  rcases solid with ⟨fits, atoms⟩
  rw [List.take_succ_cons] at atoms
  exact ⟨Nat.le_of_succ_le_succ fits, fun c met => atoms c (List.mem_cons_of_mem _ met)⟩

/-- A mark of several atoms is copied. -/
theorem TokenKept.mark {kind : TokenKind} {mark : Text} {size : Nat}
    (front : mark.isPrefixOf (first :: rest) = true) (atoms : mark.all isAtom = true)
    (length : mark.length = size + 1) (reader : readerOf first rest = .fixed kind (size + 1)) :
    TokenKept first rest (afterAtom rest) := by
  rcases List.isPrefixOf_iff_prefix.mp front with ⟨more, parts⟩
  have solid : Solid (size + 1) (first :: rest) := by
    rw [← parts, ← length]
    exact ⟨by simp, by simpa using List.all_eq_true.mp atoms⟩
  have atom : isAtom first = true := solid.2 first (by simp)
  exact .fixed (gapLength_of_atom atom rest) (isQuote_of_atom atom) (ne_of_class atom rfl) reader
    solid.tail

theorem TokenKept.number (reader : readerOf first rest = .number)
    (starts : startsNumber (first :: rest) = true)
    (firm : Firm (lexeme first rest).2 (first :: rest)) : TokenKept first rest (afterAtom rest) := by
  have atom := isAtom_of_startsNumber starts
  have again : readerOf first (afterAtom rest) = .number := by
    rw [readerOf_afterAtom_of_nameless (gapLength_of_atom atom rest) (isQuote_of_atom atom)
      (ne_of_class atom rfl) (by simp [reader]), reader]
  have found := lexeme_eq_read first rest
  rw [reader] at found
  rw [found] at firm
  apply TokenKept.of_read (afterAtom_cons_of_atom atom rest) found _ (numericKept firm)
  rw [lexeme_eq_read, again]
  rfl

theorem TokenKept.named (reader : readerOf first rest = .name)
    (starts : startsName (first :: rest) = true)
    (kind : (lexeme first rest).1 ≠ .badAddress)
    (firm : Firm (lexeme first rest).2 (first :: rest)) : ∃ more, TokenKept first rest more := by
  have found := lexeme_eq_read first rest
  rw [reader] at found
  rw [found] at kind firm
  have steady := isSteady_named firm.steady
  have atom : gapLength (first :: rest) = 0 := by
    by_contra gap
    have some := nameLength_pos starts
    rw [nameLength_of_gap gap steady] at some
    contradiction
  have shape : afterAtom (first :: rest) = first :: (afterAtom (first :: rest)).tail := by
    rw [afterAtom_of_noGap atom, cleanAtoms_cons]
    rfl
  have begins := startsName_afterAtom starts steady
  have chosen : Chosen first rest (afterAtom (first :: rest)).tail := by
    refine ⟨shape, ?_, atom, fun _ => shape ▸ begins, ?_, ?_⟩
    · intro noSlash noQuote
      rw [afterAtom_cons atom noQuote noSlash, List.tail_cons]
    all_goals
      rw [reader]
      nofun
  refine ⟨_, TokenKept.of_read shape found ?_ (namedKept kind firm)⟩
  rw [lexeme_eq_read, chosen.readerOf_eq, reader]
  rfl

theorem TokenKept.marked {kind : TokenKind} (reader : readerOf first rest = .marked kind)
    (named : kind = .hash ∨ kind = .atKeyword) (atom : isAtom first = true)
    (hash : kind = .hash → startsHashName rest = true)
    (atKeyword : kind = .atKeyword → startsName rest = true)
    (firm : Firm (lexeme first rest).2 (first :: rest)) : TokenKept first rest (afterAtom rest) := by
  have shape := afterAtom_cons_of_atom atom rest
  have found := lexeme_eq_read first rest
  rw [reader] at found
  rw [found] at firm
  have behind : Firm (nameLength rest) rest := firm.behind (.one atom rest)
  have chosen : Chosen first rest (afterAtom rest) := by
    refine ⟨shape, fun _ _ => rfl, gapLength_of_atom atom rest, ?_, ?_, ?_⟩ <;> rw [reader]
    · nofun
    · exact fun same => startsHashName_afterAtom (hash (Reader.marked.inj same)) behind.steady
    · exact fun same => startsName_afterAtom (atKeyword (Reader.marked.inj same)) behind.steady
  refine TokenKept.of_read shape found ?_ (markedKept named atom (nameKept behind))
  rw [lexeme_eq_read, chosen.readerOf_eq, reader]
  rfl

/-- Every sturdy token is read again, apart from a backslash that hides nothing. -/
theorem tokenKept {line : Nat} {token : Token}
    (front : token = ⟨(lexeme first rest).1, first :: rest.take ((lexeme first rest).2 - 1), line⟩)
    (noGap : token.isGap = false) (sturdy : token.isSturdy = true)
    (noStray : token.kind = .delimiter → first ≠ '\\')
    (closed : endsInDigits token.text = true →
      gapLength (rest.drop ((lexeme first rest).2 - 1)) = 0 ∨
        skipGap (rest.drop ((lexeme first rest).2 - 1)) = []) :
    ∃ more, TokenKept first rest more := by
  have kind : token.kind = (lexeme first rest).1 := by rw [front]
  have text : token.text = first :: rest.take ((lexeme first rest).2 - 1) := by rw [front]
  have gaps : (lexeme first rest).1 ≠ .blank ∧ (lexeme first rest).1 ≠ .comment := by
    rw [← kind]
    constructor <;> intro gap <;> simp [Token.isGap, gap] at noGap
  have firm (other : readerOf first rest ≠ .string) : Firm (lexeme first rest).2 (first :: rest) := by
    have noString : token.kind ≠ .string := fun same => other (by
      rw [readerOf_eq_reader, ← kind, same]
      rfl)
    have steady := isSteady_of_sturdy sturdy noGap noString
    rw [text] at steady closed
    exact ⟨by rwa [take_lexeme], by rwa [take_lexeme, drop_lexeme]⟩
  have chosen := chosen_readerOf first rest
  have read := lexeme_eq_read first rest
  generalize reader : readerOf first rest = found at chosen read
  cases chosen with
  | punctuation known => exact ⟨_, .punctuation known⟩
  | blanks => exact absurd (congrArg Prod.fst read) gaps.1
  | string quote =>
    rcases stringTail_kind first rest with good | bad
    · exact TokenKept.string quote (by rw [read]; exact good)
    · have bad : token.kind = .badString := by rw [kind, read]; exact bad
      simp [Token.isSturdy, bad] at sturdy
  | comment => exact absurd (congrArg Prod.fst read) gaps.2
  | number starts => exact ⟨_, .number reader starts (firm (by simp [reader]))⟩
  | hideOpen mark => exact ⟨_, .mark mark (by decide) rfl reader⟩
  | hideClose mark => exact ⟨_, .mark mark (by decide) rfl reader⟩
  | name starts =>
    refine TokenKept.named reader starts ?_ (firm (by simp [reader]))
    intro bad
    simp [Token.isSturdy, kind.trans bad] at sturdy
  | hash mark starts =>
    exact ⟨_, .marked reader (.inl rfl) (by rw [mark]; rfl) (fun _ => starts) (by simp)
      (firm (by simp [reader]))⟩
  | atKeyword mark starts =>
    exact ⟨_, .marked reader (.inr rfl) (by rw [mark]; rfl) (by simp) (fun _ => starts)
      (firm (by simp [reader]))⟩
  | comparison noBlank equals mark =>
    rcases List.head?_eq_some_iff.mp equals with ⟨more, rfl⟩
    have atoms : "$*^|~".toList.all isAtom = true := by decide
    have atom := List.all_eq_true.mp atoms first mark
    exact ⟨_, .fixed (gapLength_of_atom atom _) (isQuote_of_atom atom) (ne_of_class atom rfl) reader
      (.one rfl more)⟩
  | delimiter noBlank noQuote =>
    have delimiter : token.kind = .delimiter := by rw [kind, read]; rfl
    have steady := (firm (by simp [reader])).steady
    rw [take_lexeme] at steady
    exact ⟨_, .fixed (gapLength_of_steady gaps steady) noQuote (noStray delimiter) reader (.zero rest)⟩

end Every

end Swatch.Css
