import Swatch.Proofs.Css.RereadNames

/-!
# Strings and addresses in cleaned text

A string is copied whole. In an address the blanks on both sides of its target become one
space or none, and everything else is copied: where an escape of digits stands last in the
target, it takes the space that is left of the blanks behind it, and the target is the same.
-/

namespace Swatch.Css

/-! ## Strings -/

theorem stringEscapeLength_take (text : Text) (count : Nat) :
    stringEscapeLength (text.take count) = min count (stringEscapeLength text) := by
  cases count with
  | zero =>
    rw [List.take_zero, Nat.zero_min]
    rfl
  | succ count =>
    rw [stringEscapeLength, stringEscapeLength, lineEndLength_take, escapeLength_take]
    by_cases none : lineEndLength text = 0
    · rw [none, Nat.min_zero, if_pos rfl, if_pos rfl]
    · rw [if_neg none, if_neg (by omega)]

/-- A string that is closed before the end is the same whatever follows its quote. -/
theorem stringTail_take {quote : Char} {text : Text} (good : (stringTail quote text).1 = .string)
    (closed : text.drop (stringTail quote text).2 ≠ []) (tail : Text) :
    stringTail quote (text.take (stringTail quote text).2 ++ tail) = stringTail quote text := by
  fun_induction stringTail quote text generalizing tail with
  | case1 => contradiction
  | case2 c rest closes =>
    rw [List.take_succ_cons, List.take_zero, List.cons_append, stringTail, if_pos closes]
  | case3 c rest goesOn ends => contradiction
  | case4 c rest goesOn stays skipped found ih =>
    simp only at good closed ⊢
    rw [Nat.add_assoc, Nat.add_comm, List.drop_succ_cons, ← List.drop_drop] at closed
    have later : stringTail quote ((rest.drop skipped).take found.2 ++ tail) = found :=
      ih good closed tail
    have some : 0 < found.2 := by
      apply Nat.pos_of_ne_zero
      intro none
      have ends := ih good closed [quote]
      rw [none, List.take_zero, List.nil_append, stringTail, if_pos (beq_self_eq_true _)] at ends
      have one : 1 = found.2 := congrArg Prod.snd ends
      omega
    have fits : skipped + found.2 ≤ rest.length := by
      have room := List.length_pos_of_ne_nil closed
      rw [List.length_drop, List.length_drop] at room
      omega
    have size : (rest.take (skipped + found.2)).length = skipped + found.2 :=
      List.length_take_of_le fits
    rw [Nat.add_assoc, Nat.add_comm 1, List.take_succ_cons, List.cons_append, stringTail,
      if_neg goesOn, if_neg stays]
    have same : (if c == '\\' then
        stringEscapeLength (rest.take (skipped + found.2) ++ tail) else 0) = skipped := by
      apply skip_eq
      intro slash
      have escaped : skipped = stringEscapeLength rest := if_pos slash
      have short : stringEscapeLength (rest.take (skipped + found.2)) = stringEscapeLength rest := by
        rw [stringEscapeLength_take]
        omega
      rw [stringEscapeLength_append_of_lt (by omega), short]
    have behind : (rest.take (skipped + found.2) ++ tail).drop skipped =
        (rest.drop skipped).take found.2 ++ tail := by
      rw [List.drop_append_of_le_length (by omega), List.drop_take, Nat.add_sub_cancel_left]
    simp only [same, behind, later, Prod.mk.injEq, true_and]
    omega

/-! ## Addresses -/

/-- How an address at the front of a text is read again, and what is left behind it. -/
structure AddressKept (text : Text) : Prop where
  kind : (addressTail (afterAtom text)).1 = .address
  behind : (afterAtom text).drop (addressTail (afterAtom text)).2 =
    afterAtom (text.drop (addressTail text).2)
  target : addressTarget ((afterAtom text).take (addressTail (afterAtom text)).2) =
    addressTarget (text.take (addressTail text).2)

theorem addressTail_pos (c : Char) (rest : Text) : 0 < (addressTail (c :: rest)).2 := by
  rw [addressTail]
  split
  · exact Nat.one_pos
  · split
    · simp only
      omega
    · split
      · simp only
        omega
      · split
        · simp only
          omega
        · simp only
          omega

theorem addressTarget_of_end {c : Char} (ends : (c == ')' || isBlank c) = true) (rest : Text) :
    addressTarget (c :: rest) = [] := by
  rw [addressTarget, if_pos ends]

theorem addressTarget_of_blank {c : Char} (blank : isBlank c = true) (rest : Text) :
    addressTarget ((c :: rest).take (addressTail (c :: rest)).2) = [] := by
  have ends : (c == ')' || isBlank c) = true := by rw [blank, Bool.or_true]
  obtain ⟨size, same⟩ := Nat.exists_eq_add_of_lt (addressTail_pos c rest)
  rw [same, Nat.zero_add, List.take_succ_cons, addressTarget_of_end ends]

/-- The blanks behind a target are followed by the closing bracket, or by nothing. -/
theorem addressTail_of_blank {c : Char} {rest : Text} (blank : isBlank c = true)
    (good : (addressTail (c :: rest)).1 = .address) :
    (c :: rest).drop (addressTail (c :: rest)).2 = [] ∧ skipGap (c :: rest) = [] ∨
      ∃ behind, (c :: rest).drop (addressTail (c :: rest)).2 = behind ∧
        skipGap (c :: rest) = ')' :: behind := by
  have noClose : ¬(c == ')') = true := by
    rw [beq_iff_eq]
    exact ne_of_class blank (by decide)
  have white : ∀ d ∈ c :: rest.take (blankLength rest), isWhite d = true := by
    intro d met
    rcases List.mem_cons.mp met with rfl | later
    · exact isWhite_of_blank blank
    · rw [blankLength, ← List.prefix_iff_eq_take.mp (List.takeWhile_prefix isBlank)] at later
      exact isWhite_of_blank (List.mem_takeWhile_imp later)
  have skipped : skipGap (c :: rest) = skipGap (rest.drop (blankLength rest)) := by
    conv => lhs; rw [← List.take_append_drop (blankLength rest) rest, ← List.cons_append]
    exact skipGap_append_of_white white _
  rw [addressTail, if_neg noClose, if_pos blank] at good ⊢
  simp only at good ⊢
  rw [skipped, Nat.add_assoc, Nat.add_comm 1, List.drop_succ_cons, ← List.drop_drop]
  generalize rest.drop (blankLength rest) = ending at good ⊢
  cases ending with
  | nil =>
    left
    rw [List.drop_nil, skipGap]
    exact ⟨rfl, rfl⟩
  | cons d more =>
    right
    have closes : (d == ')') = true := by
      by_contra other
      rw [addressEnd, if_neg other] at good
      contradiction
    rw [beq_iff_eq] at closes
    subst closes
    exact ⟨more, rfl, skipGap_of_gapLength_eq_zero (gapLength_of_atom rfl _)⟩

namespace AddressKept

variable {c : Char} {rest : Text}

theorem close (rest : Text) : AddressKept (')' :: rest) := by
  have one (rest : Text) : addressTail (')' :: rest) = (.address, 1) := by
    rw [addressTail, if_pos (beq_self_eq_true _)]
  have shape : afterAtom (')' :: rest) = ')' :: afterAtom rest := afterAtom_cons_of_atom rfl rest
  refine ⟨?_, ?_, ?_⟩
  · rw [shape, one]
  · rw [shape, one, one]
    rfl
  · rw [shape, one, one]
    rfl

theorem nothing {text : Text} (same : afterAtom text = []) (ends : text.drop (addressTail text).2 = [])
    (target : addressTarget (text.take (addressTail text).2) = []) : AddressKept text := by
  have none : addressTail [] = (.address, 0) := by rw [addressTail]
  refine ⟨?_, ?_, ?_⟩
  · rw [same, none]
  · rw [same, none, ends, afterAtom_nil]
    rfl
  · rw [same, none, target, List.take_nil, addressTarget]

theorem blank (blank : isBlank c = true) (good : (addressTail (c :: rest)).1 = .address) :
    AddressKept (c :: rest) := by
  have target := addressTarget_of_blank blank rest
  rcases addressTail_of_blank blank good with ⟨left, gap⟩ | ⟨behind, left, gap⟩
  · exact .nothing (afterAtom_of_nothing gap) left target
  · have white : gapLength (c :: rest) ≠ 0 := by
      rw [gapLength_of_white (isWhite_of_blank blank)]
      exact Nat.one_ne_zero
    have shape : afterAtom (c :: rest) = ' ' :: ')' :: afterAtom behind := by
      rw [afterAtom_of_gap white, gap, if_neg (List.cons_ne_nil _ _), cleanAtoms_cons_of_atom rfl]
    have two : addressTail (' ' :: ')' :: afterAtom behind) = (.address, 2) := by
      rw [addressTail]
      rfl
    refine ⟨?_, ?_, ?_⟩
    · rw [shape, two]
    · rw [shape, two, left]
      rfl
    · rw [shape, two, target]
      exact addressTarget_of_end rfl _

/-- An atom of one character in the target. -/
theorem cons (plain : addressTail (c :: rest) = ((addressTail rest).1, 1 + (addressTail rest).2))
    (again : addressTail (c :: afterAtom rest) =
      ((addressTail (afterAtom rest)).1, 1 + (addressTail (afterAtom rest)).2))
    (shape : afterAtom (c :: rest) = c :: afterAtom rest)
    (target : ∀ text, addressTarget (c :: text) = withoutNul c :: addressTarget text)
    (later : AddressKept rest) : AddressKept (c :: rest) := by
  refine ⟨?_, ?_, ?_⟩
  · rw [shape, again, later.kind]
  · rw [shape, again, plain, Nat.add_comm, Nat.add_comm 1, List.drop_succ_cons, List.drop_succ_cons,
      later.behind]
  · rw [shape, again, plain, Nat.add_comm, Nat.add_comm 1, List.take_succ_cons, List.take_succ_cons,
      target, target, later.target]

end AddressKept

/-- A character that stands for itself in a target. -/
def isTarget (c : Char) : Bool :=
  c != ')' && !isBlank c && !(isQuote c || c == '(' || isNonPrinting c) && c != '\\'

theorem addressTail_target {c : Char} (inside : isTarget c = true) (rest : Text) :
    addressTail (c :: rest) = ((addressTail rest).1, 1 + (addressTail rest).2) := by
  simp only [isTarget, Bool.and_eq_true, bne_iff_ne, Bool.not_eq_true'] at inside
  rcases inside with ⟨⟨⟨noClose, noBlank⟩, fine⟩, noSlash⟩
  have slash : (c == '\\') = false := beq_eq_false_iff_ne.mpr noSlash
  rw [addressTail, if_neg (by simpa using noClose), noBlank, if_neg Bool.false_ne_true, fine,
    if_neg Bool.false_ne_true, slash, Bool.false_and, if_neg Bool.false_ne_true]
  simp

theorem addressTarget_target {c : Char} (inside : isTarget c = true) (rest : Text) :
    addressTarget (c :: rest) = withoutNul c :: addressTarget rest := by
  simp only [isTarget, Bool.and_eq_true, bne_iff_ne, Bool.not_eq_true'] at inside
  rcases inside with ⟨⟨⟨noClose, noBlank⟩, fine⟩, noSlash⟩
  rw [addressTarget, beq_eq_false_iff_ne.mpr noClose, noBlank, Bool.or_false,
    if_neg Bool.false_ne_true, if_neg (by simpa using noSlash)]

theorem addressTail_escape {rest : Text} (escape : startsEscape ('\\' :: rest) = true) :
    addressTail ('\\' :: rest) =
      ((addressTail (rest.drop (escapeLength rest))).1,
        1 + escapeLength rest + (addressTail (rest.drop (escapeLength rest))).2) := by
  have noBlank : ¬isBlank '\\' = true := by decide
  have fine : ¬(isQuote '\\' || '\\' == '(' || isNonPrinting '\\') = true := by decide
  rw [addressTail, if_neg (by decide), if_neg noBlank, if_neg fine, escape, Bool.not_true,
    Bool.and_false, if_neg Bool.false_ne_true, if_pos (beq_self_eq_true _)]

theorem addressTarget_escape (rest : Text) (count : Nat) :
    addressTarget ('\\' :: rest.take (escapeLength rest + count)) =
      escapeValue rest :: addressTarget ((rest.drop (escapeLength rest)).take count) := by
  have size : escapeLength (rest.take (escapeLength rest + count)) = escapeLength rest := by
    rw [escapeLength_take]
    omega
  rw [addressTarget, if_neg (by decide), if_pos (beq_self_eq_true _), size,
    escapeValue_take (Nat.le_add_right _ _), List.drop_take, Nat.add_sub_cancel_left]

namespace AddressKept

variable {rest : Text}

theorem slash : AddressKept ['\\'] := by
  have one : addressTail ['\\'] = (.address, 1) := by
    have nothing : escapeLength [] = 0 := rfl
    rw [addressTail_escape rfl, nothing, List.drop_nil, addressTail]
    rfl
  refine ⟨?_, ?_, ?_⟩
  · rw [afterAtom_slash, one]
  · rw [afterAtom_slash, one]
    exact afterAtom_nil.symm
  · rw [afterAtom_slash]

/-- The target goes on behind an escape as it does in the text. -/
theorem escape (escape : startsEscape ('\\' :: rest) = true) {other : Text}
    (shape : afterAtom ('\\' :: rest) = '\\' :: other)
    (value : escapeValue other = escapeValue rest)
    (kind : (addressTail (other.drop (escapeLength other))).1 = .address)
    (behind : (other.drop (escapeLength other)).drop
        (addressTail (other.drop (escapeLength other))).2 =
      afterAtom ((rest.drop (escapeLength rest)).drop
        (addressTail (rest.drop (escapeLength rest))).2))
    (target : addressTarget ((other.drop (escapeLength other)).take
        (addressTail (other.drop (escapeLength other))).2) =
      addressTarget ((rest.drop (escapeLength rest)).take
        (addressTail (rest.drop (escapeLength rest))).2)) :
    AddressKept ('\\' :: rest) := by
  have again : startsEscape ('\\' :: other) = true := by
    rw [← shape, startsEscape_afterAtom, escape]
  have left (rest : Text) (escape : startsEscape ('\\' :: rest) = true) :
      ('\\' :: rest).drop (addressTail ('\\' :: rest)).2 =
        (rest.drop (escapeLength rest)).drop (addressTail (rest.drop (escapeLength rest))).2 := by
    rw [addressTail_escape escape, Nat.add_assoc, Nat.add_comm 1, List.drop_succ_cons,
      List.drop_drop]
  have taken (rest : Text) (escape : startsEscape ('\\' :: rest) = true) :
      ('\\' :: rest).take (addressTail ('\\' :: rest)).2 =
        '\\' :: rest.take (escapeLength rest + (addressTail (rest.drop (escapeLength rest))).2) := by
    rw [addressTail_escape escape, Nat.add_assoc, Nat.add_comm 1, List.take_succ_cons]
  refine ⟨?_, ?_, ?_⟩
  · rw [shape, addressTail_escape again, kind]
  · rw [shape, left _ again, left _ escape, behind]
  · rw [shape, taken _ again, taken _ escape, addressTarget_escape, addressTarget_escape, value,
      target]

theorem escape_clear (escape : startsEscape ('\\' :: rest) = true) (some : rest ≠ [])
    (clear : rest.head?.any isHexDigit = true →
      gapLength (rest.drop (escapeLength rest)) = 0 ∨ skipGap (rest.drop (escapeLength rest)) = [])
    (later : AddressKept (rest.drop (escapeLength rest))) : AddressKept ('\\' :: rest) := by
  rcases escape_afterAtom some clear with ⟨spelled, -, shape, size, value⟩
  have left : (spelled ++ afterAtom (rest.drop (escapeLength rest))).drop spelled.length =
      afterAtom (rest.drop (escapeLength rest)) := List.drop_left
  apply AddressKept.escape escape shape value
  · rw [size, left, later.kind]
  · rw [size, left, later.behind]
  · rw [size, left, later.target]

/-- The digits of an escape that stands last in the target take the space before the bracket. -/
theorem escape_last (escape : startsEscape ('\\' :: rest) = true)
    (hex : rest.head?.any isHexDigit = true)
    (blank : (rest.drop (escapeLength rest)).head?.any isBlank = true)
    (good : (addressTail (rest.drop (escapeLength rest))).1 = .address)
    (some : skipGap (rest.drop (escapeLength rest)) ≠ []) : AddressKept ('\\' :: rest) := by
  rcases HexEscape.exists_of_head hex with ⟨digits, behind, rfl, digitsOf⟩
  have left : (digits ++ behind).drop (escapeLength (digits ++ behind)) =
      behind.drop (closingBlankLength behind) := by
    rw [digitsOf.read.1, List.drop_length_add_append]
  rw [left] at blank good some
  have closed : closingBlankLength behind ≠ 0 := by
    intro none
    rw [none, List.drop_zero, closingBlankLength_eq_zero.mp none] at blank
    contradiction
  have spaced := afterAtom_of_closed closed
  generalize behind.drop (closingBlankLength behind) = more at left blank good some spaced
  cases more with
  | nil => contradiction
  | cons c others =>
    have nothing := addressTarget_of_blank blank others
    rcases addressTail_of_blank blank good with ⟨-, none⟩ | ⟨further, remains, gap⟩
    · exact absurd none some
    · rw [gap, if_neg (List.cons_ne_nil _ _), cleanAtoms_cons_of_atom rfl] at spaced
      have again : HexEscape digits (' ' :: ')' :: afterAtom further) := digitsOf.before rfl
      have close : addressTail (')' :: afterAtom further) = (.address, 1) := by
        rw [addressTail, if_pos (beq_self_eq_true _)]
      have taken : (digits ++ ' ' :: ')' :: afterAtom further).drop
          (escapeLength (digits ++ ' ' :: ')' :: afterAtom further)) = ')' :: afterAtom further := by
        rw [again.read.1, List.drop_length_add_append]
        rfl
      apply AddressKept.escape escape (by rw [digitsOf.afterAtom_eq, spaced])
      · rw [again.read.2, digitsOf.read.2]
      · rw [taken, close]
      · rw [taken, close, left, remains]
        rfl
      · rw [taken, close, left, nothing]
        exact addressTarget_of_end rfl _

end AddressKept

/-- What looks like a gap in a steady address is a blank. -/
theorem isBlank_of_gap {text : Text} (gap : gapLength text ≠ 0)
    (steady : isSteady (text.take (addressTail text).2) = true) :
    text.head?.any isBlank = true := by
  cases text with
  | nil => contradiction
  | cons c rest =>
    obtain ⟨size, same⟩ := Nat.exists_eq_add_of_lt (addressTail_pos c rest)
    by_cases white : isWhite c = true
    · have noSlash : c ≠ '\\' := ne_of_class white (by decide)
      have noMark : c ≠ '/' := ne_of_class white (by decide)
      rw [same, Nat.zero_add, List.take_succ_cons, isSteady_cons noSlash noMark, white,
        Bool.and_eq_true] at steady
      exact steady.1
    · have mark : c = '/' ∧ rest.head? = some '*' := by
        by_contra other
        rw [ne_eq, gapLength_eq_zero_iff] at gap
        exact gap ⟨by simpa using white, fun slash star => other ⟨slash, star⟩⟩
      rcases mark with ⟨rfl, star⟩
      rcases List.head?_eq_some_iff.mp star with ⟨more, rfl⟩
      obtain ⟨further, two⟩ := Nat.exists_eq_add_of_lt (addressTail_pos '*' more)
      have slash : isTarget '/' = true := by decide
      rw [addressTail_target slash, two, Nat.zero_add, Nat.add_comm, List.take_succ_cons,
        List.take_succ_cons, isSteady, if_neg (by decide)] at steady
      simp at steady

/-- A steady address is read again. -/
theorem addressKept {text : Text} (good : (addressTail text).1 = .address)
    (steady : isSteady (text.take (addressTail text).2) = true) : AddressKept text := by
  fun_induction addressTail text with
  | case1 =>
    have none : addressTail [] = (.address, 0) := by rw [addressTail]
    exact .nothing afterAtom_nil (by rw [none]; rfl) (by rw [none, List.take_nil, addressTarget])
  | case2 c rest closes =>
    rw [beq_iff_eq] at closes
    subst closes
    exact .close rest
  | case3 c rest stays blank blanks close =>
    apply AddressKept.blank blank
    rw [addressTail, if_neg stays, if_pos blank]
    exact good
  | case4 => contradiction
  | case5 => contradiction
  | case6 c rest stays noBlank fine noStray skipped tail ih =>
    have whole : addressTail (c :: rest) = (tail.1, 1 + skipped + tail.2) := by
      rw [addressTail, if_neg stays, if_neg noBlank, if_neg fine, if_neg noStray]
      rfl
    by_cases slash : c = '\\'
    · subst slash
      have escape : startsEscape ('\\' :: rest) = true := by simpa using noStray
      have size : skipped = escapeLength rest := rfl
      by_cases nothing : rest = []
      · subst nothing
        exact .slash
      · rw [size] at ih steady
        have within : isSteady ((rest.drop (escapeLength rest)).take tail.2) = true := by
          rw [Nat.add_assoc, Nat.add_comm, List.take_succ_cons, isSteady_escape nothing] at steady
          exact steady
        by_cases clear : rest.head?.any isHexDigit = true →
            gapLength (rest.drop (escapeLength rest)) = 0 ∨
              skipGap (rest.drop (escapeLength rest)) = []
        · exact .escape_clear escape nothing clear (ih good within)
        · rw [Classical.not_imp, not_or] at clear
          exact .escape_last escape clear.1 (isBlank_of_gap clear.2.1 within) good clear.2.2
    · have inside : isTarget c = true := by
        simp only [isTarget, bne, Bool.eq_false_iff.mpr stays, Bool.eq_false_iff.mpr noBlank,
          Bool.eq_false_iff.mpr fine, beq_eq_false_iff_ne.mpr slash]
        rfl
      have atom : gapLength (c :: rest) = 0 := by
        by_contra gap
        have steady' : isSteady ((c :: rest).take (addressTail (c :: rest)).2) = true := by
          rw [whole]
          exact steady
        exact noBlank (isBlank_of_gap gap steady')
      have none : skipped = 0 := dif_neg (by simpa using slash)
      have noQuote : isQuote c = false := by
        rw [Bool.or_eq_true, Bool.or_eq_true, not_or, not_or] at fine
        simpa using fine.1.1
      rw [none, Nat.add_zero, Nat.add_comm, List.take_succ_cons, isSteady,
        if_neg (by simpa using slash), Bool.and_eq_true] at steady
      have left : rest.drop skipped = rest := by rw [none, List.drop_zero]
      rw [left] at ih
      have found : tail = addressTail rest := by rw [← left]
      rw [found] at good steady
      exact .cons (addressTail_target inside rest) (addressTail_target inside _)
        (afterAtom_cons atom noQuote slash) (addressTarget_target inside) (ih good steady.2)

/-! ## Behind the opening bracket -/

theorem addressAfterOpening_eq (text : Text) :
    addressAfterOpening text =
      if (text.drop (blankLength text)).head?.any isQuote then none
      else some ((addressTail (text.drop (blankLength text))).1,
        blankLength text + (addressTail (text.drop (blankLength text))).2) := by
  rw [addressAfterOpening]
  cases text.drop (blankLength text) with
  | nil =>
    rw [addressTail]
    rfl
  | cons c rest => rfl

/-- Blanks at the front, and what is left behind them. -/
theorem blanks_split (text : Text) :
    (∀ c ∈ text.take (blankLength text), isBlank c = true) ∧
      (text.drop (blankLength text)).head?.any isBlank = false := by
  have parts := List.takeWhile_append_dropWhile (p := isBlank) (l := text)
  have blanks : text.take (blankLength text) = text.takeWhile isBlank :=
    (List.prefix_iff_eq_take.mp (List.takeWhile_prefix isBlank)).symm
  have left : (text.takeWhile isBlank ++ text.dropWhile isBlank).drop (blankLength text) =
      text.dropWhile isBlank := List.drop_left' rfl
  rw [parts] at left
  refine ⟨?_, ?_⟩
  · rw [blanks]
    exact fun c met => List.mem_takeWhile_imp met
  · rw [left]
    have outside := List.head?_dropWhile_not isBlank text
    cases behind : text.dropWhile isBlank with
    | nil => rfl
    | cons c more =>
      rw [behind] at outside
      simpa using outside

theorem blankLength_lead {lead : Text} (blanks : ∀ c ∈ lead, isBlank c = true) {text : Text}
    (other : text.head?.any isBlank = false) : blankLength (lead ++ text) = lead.length := by
  have none : text.takeWhile isBlank = [] := by
    cases text with
    | nil => rfl
    | cons c more => exact List.takeWhile_cons_of_neg (by simpa using other)
  rw [blankLength, List.takeWhile_append_of_pos blanks, none, List.append_nil]

/-- Blanks in front become one space, or nothing where nothing follows them. -/
theorem afterAtom_of_blanks {text : Text} (atom : gapLength (text.drop (blankLength text)) = 0) :
    ∃ lead, afterAtom text = lead ++ afterAtom (text.drop (blankLength text)) ∧
      (∀ c ∈ lead, isBlank c = true) ∧ blankLength (afterAtom text) = lead.length := by
  have split := blanks_split text
  have other : (afterAtom (text.drop (blankLength text))).head?.any isBlank = false := by
    rw [head?_afterAtom_of_noGap atom]
    exact split.2
  have shape : ∃ lead, afterAtom text = lead ++ afterAtom (text.drop (blankLength text)) ∧
      (∀ c ∈ lead, isBlank c = true) := by
    by_cases none : blankLength text = 0
    · exact ⟨[], by rw [none]; rfl, by simp⟩
    · have white : ∀ c ∈ text.take (blankLength text), isWhite c = true :=
        fun c met => isWhite_of_blank (split.1 c met)
      have skipped : skipGap text = text.drop (blankLength text) := by
        conv => lhs; rw [← List.take_append_drop (blankLength text) text]
        rw [skipGap_append_of_white white, skipGap_of_gapLength_eq_zero atom]
      have gap : gapLength text ≠ 0 := by
        cases text with
        | nil => exact absurd rfl none
        | cons c rest =>
          obtain ⟨size, some⟩ := Nat.exists_eq_succ_of_ne_zero none
          rw [some, List.take_succ_cons] at white
          rw [gapLength_of_white (white c List.mem_cons_self)]
          exact Nat.one_ne_zero
      rw [afterAtom_of_gap gap, skipped]
      by_cases nothing : text.drop (blankLength text) = []
      · exact ⟨[], by rw [if_pos nothing, nothing, afterAtom_nil]; rfl, by simp⟩
      · refine ⟨[' '], ?_, by simp [isBlank]⟩
        rw [if_neg nothing, afterAtom_of_noGap atom]
        rfl
  rcases shape with ⟨lead, shape, blanks⟩
  exact ⟨lead, shape, blanks, by rw [shape, blankLength_lead blanks other]⟩

theorem gapLength_of_quote {c : Char} (quote : isQuote c = true) (rest : Text) :
    gapLength (c :: rest) = 0 := by
  have marks : c = '"' ∨ c = '\'' := by simpa [isQuote] using quote
  rw [gapLength_eq_zero_iff]
  rcases marks with rfl | rfl <;> exact ⟨rfl, fun slash => absurd slash (by decide)⟩

theorem addressAfterOpening_of_none {text : Text} (none : addressAfterOpening text = none) :
    addressAfterOpening (afterAtom text) = .none := by
  have quoted : (text.drop (blankLength text)).head?.any isQuote = true := by
    by_contra other
    rw [addressAfterOpening_eq, if_neg other] at none
    contradiction
  have atom : gapLength (text.drop (blankLength text)) = 0 := by
    cases behind : text.drop (blankLength text) with
    | nil => rfl
    | cons c rest =>
      rw [behind] at quoted
      exact gapLength_of_quote quoted rest
  rcases afterAtom_of_blanks atom with ⟨lead, shape, -, size⟩
  have left : (afterAtom text).drop lead.length = afterAtom (text.drop (blankLength text)) := by
    rw [shape, List.drop_left]
  rw [addressAfterOpening_eq, size, left, head?_afterAtom_of_noGap atom, if_pos quoted]

/-- A steady address is read again behind its opening bracket. -/
theorem openingKept {text : Text} {size : Nat}
    (found : addressAfterOpening text = some (.address, size))
    (steady : isSteady (text.take size) = true) :
    ∃ again, addressAfterOpening (afterAtom text) = some (.address, again) ∧
      (afterAtom text).drop again = afterAtom (text.drop size) ∧
      addressTarget (((afterAtom text).take again).dropWhile isBlank) =
        addressTarget ((text.take size).dropWhile isBlank) := by
  have split := blanks_split text
  have noQuote : ¬(text.drop (blankLength text)).head?.any isQuote = true := by
    intro quoted
    rw [addressAfterOpening_eq, if_pos quoted] at found
    contradiction
  rw [addressAfterOpening_eq, if_neg noQuote, Option.some_inj, Prod.mk.injEq] at found
  rcases found with ⟨good, rfl⟩
  rw [List.take_add, isSteady_append fun c met => .inr (split.1 c met)] at steady
  have atom : gapLength (text.drop (blankLength text)) = 0 := by
    by_contra gap
    have blank := isBlank_of_gap gap steady
    rw [split.2] at blank
    contradiction
  have kept := addressKept good steady
  rcases afterAtom_of_blanks atom with ⟨lead, shape, blanks, length⟩
  have left : (afterAtom text).drop lead.length = afterAtom (text.drop (blankLength text)) := by
    rw [shape, List.drop_left]
  have target {plain text : Text} (blanks : ∀ c ∈ plain, isBlank c = true)
      (other : text.head?.any isBlank = false) (count : Nat) :
      (plain ++ text.take count).dropWhile isBlank = text.take count := by
    rw [List.dropWhile_append_of_pos blanks]
    cases text with
    | nil => rw [List.take_nil, List.dropWhile_nil]
    | cons c rest =>
      cases count with
      | zero => rfl
      | succ count => exact List.dropWhile_cons_of_neg (by simpa using other)
  refine ⟨lead.length + (addressTail (afterAtom (text.drop (blankLength text)))).2, ?_, ?_, ?_⟩
  · rw [addressAfterOpening_eq, length, left, head?_afterAtom_of_noGap atom, if_neg noQuote, kept.kind]
  · rw [← List.drop_drop, left, kept.behind, List.drop_drop]
  · have other : (afterAtom (text.drop (blankLength text))).head?.any isBlank = false := by
      rw [head?_afterAtom_of_noGap atom]
      exact split.2
    rw [List.take_add, List.take_add, target split.1 split.2, shape, List.take_left, List.drop_left,
      target blanks other, kept.target]

end Swatch.Css
