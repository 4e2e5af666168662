import Swatch.Proofs.Css.Characters
import Swatch.Proofs.Css.Readers

/-!
# How far tokens look ahead

The length of a token can depend on characters that follow it. Stops are
characters for which it does not: a token that ends before a stop ends there
whatever follows the stop, and also where the text ends in place of the stop.

Every reader of the lexical grammar gets one lemma of this kind. A reader that
never takes a stop agrees outright; one that may run over a stop, such as that
of strings or addresses, agrees if it did not run over the stop in one text.
Names and numbers end at a wider class, the halts.
-/

namespace Swatch.Css

/-- Comma, semicolon, colon and curly brackets: tokens that nothing else begins or ends with. -/
def isStop (c : Char) : Bool :=
  c == ',' || c == ';' || c == ':' || c == '\x7b' || c == '\x7d'

/-- A stop, a blank or an exclamation mark: characters that end every name and every number. -/
def isHalt (c : Char) : Bool :=
  isStop c || isBlank c || c == '!'

/-- The text is empty or begins with a character of a class. -/
def Headed (ends : Char → Bool) : Text → Prop
  | [] => True
  | c :: _ => ends c = true

/-- The text is empty or begins with a stop. -/
def Stopped : Text → Prop :=
  Headed isStop

/-- The text is empty or begins with a halt. -/
def Halted : Text → Prop :=
  Headed isHalt

theorem Stopped.halted {tail : Text} (stopped : Stopped tail) : Halted tail := by
  cases tail with
  | nil => trivial
  | cons c rest =>
    have stop : isStop c = true := stopped
    simp [Halted, Headed, isHalt, stop]

theorem stop_cases {c : Char} (stop : isStop c = true) :
    c = ',' ∨ c = ';' ∨ c = ':' ∨ c = '\x7b' ∨ c = '\x7d' := by
  simpa [isStop, or_assoc] using stop

/-- A class without the five stops refuses them, whichever it is. -/
theorem refused_of_stop {test : Char → Bool}
    (refuses : [',', ';', ':', '\x7b', '\x7d'].all (fun c => !test c) = true) {c : Char}
    (stop : isStop c = true) : test c = false := by
  have among : c ∈ [',', ';', ':', '\x7b', '\x7d'] := by simpa using stop_cases stop
  simpa using List.all_eq_true.mp refuses c among

theorem isNameChar_of_stop {c : Char} (stop : isStop c = true) : isNameChar c = false :=
  refused_of_stop (by decide) stop

theorem isNameStart_of_stop {c : Char} (stop : isStop c = true) : isNameStart c = false :=
  refused_of_stop (by decide) stop

theorem isBlank_of_stop {c : Char} (stop : isStop c = true) : isBlank c = false :=
  refused_of_stop (by decide) stop

theorem isLineEnd_of_stop {c : Char} (stop : isStop c = true) : isLineEnd c = false :=
  refused_of_stop (by decide) stop

theorem isHexDigit_of_stop {c : Char} (stop : isStop c = true) : isHexDigit c = false :=
  refused_of_stop (by decide) stop

theorem isDigit_of_stop {c : Char} (stop : isStop c = true) : c.isDigit = false :=
  refused_of_stop (by decide) stop

theorem isQuote_of_stop {c : Char} (stop : isStop c = true) : isQuote c = false :=
  refused_of_stop (by decide) stop

theorem isNameChar_of_halt {c : Char} (halt : isHalt c = true) : isNameChar c = false := by
  rw [isHalt, Bool.or_eq_true, Bool.or_eq_true, beq_iff_eq] at halt
  rcases halt with (stop | blank) | rfl
  · exact isNameChar_of_stop stop
  · rw [Bool.eq_false_iff]
    intro inName
    rw [isBlank_of_nameChar inName] at blank
    contradiction
  · decide

theorem isNameStart_of_halt {c : Char} (halt : isHalt c = true) : isNameStart c = false := by
  have outside := isNameChar_of_halt halt
  simp only [isNameChar, Bool.or_eq_false_iff] at outside
  exact outside.1.1

theorem isDigit_of_halt {c : Char} (halt : isHalt c = true) : c.isDigit = false := by
  have outside := isNameChar_of_halt halt
  simp only [isNameChar, Bool.or_eq_false_iff] at outside
  exact outside.1.2

theorem isHexDigit_of_halt {c : Char} (halt : isHalt c = true) : isHexDigit c = false := by
  have outside := isNameChar_of_halt halt
  by_contra digit
  rw [Bool.not_eq_false] at digit
  rw [isNameChar_of_hexDigit digit] at outside
  contradiction

theorem ne_of_halt {c : Char} (halt : isHalt c = true) (other : Char)
    (plain : isHalt other = false) : c ≠ other := by
  rintro rfl
  simp [halt] at plain

theorem ne_of_stop {c : Char} (stop : isStop c = true) (other : Char)
    (plain : isStop other = false) : c ≠ other := by
  rintro rfl
  simp [stop] at plain

theorem stopped_cons {c : Char} (stop : isStop c = true) (rest : Text) : Stopped (c :: rest) :=
  stop

/-! ## Runs of characters -/

theorem takeWhile_append_headed {ends test : Char → Bool}
    (refused : ∀ {c}, ends c = true → test c = false) (text : Text) {tail : Text}
    (headed : Headed ends tail) : (text ++ tail).takeWhile test = text.takeWhile test := by
  induction text with
  | nil =>
    cases tail with
    | nil => rfl
    | cons c rest => simp [refused headed]
  | cons c rest ih => simp [List.takeWhile_cons, ih]

theorem blankLength_append (text : Text) {tail : Text} (stopped : Stopped tail) :
    blankLength (text ++ tail) = blankLength text := by
  rw [blankLength, takeWhile_append_headed isBlank_of_stop text stopped, blankLength]

/-- A run that ends inside the text ends there whatever follows. -/
theorem takeWhile_append_of_lt {test : Char → Bool} {text : Text}
    (inside : (text.takeWhile test).length < text.length) (tail : Text) :
    (text ++ tail).takeWhile test = text.takeWhile test := by
  rw [List.takeWhile_append, if_neg (Nat.ne_of_lt inside)]

theorem blankLength_append_of_lt {text : Text} (inside : blankLength text < text.length)
    (tail : Text) : blankLength (text ++ tail) = blankLength text := by
  rw [blankLength, takeWhile_append_of_lt inside, blankLength]

theorem blankLength_le (text : Text) : blankLength text ≤ text.length :=
  (List.takeWhile_sublist _).length_le

theorem digitsLength_append (text : Text) {tail : Text} (halted : Halted tail) :
    digitsLength (text ++ tail) = digitsLength text := by
  rw [digitsLength, takeWhile_append_headed isDigit_of_halt text halted, digitsLength]

theorem digitsLength_le (text : Text) : digitsLength text ≤ text.length :=
  (List.takeWhile_sublist _).length_le

theorem startsDigit_append (text : Text) {tail : Text} (halted : Halted tail) :
    startsDigit (text ++ tail) = startsDigit text := by
  cases text with
  | nil =>
    cases tail with
    | nil => rfl
    | cons c rest => exact isDigit_of_halt halted
  | cons c rest => rfl

theorem isPrefixOf_append {ends : Char → Bool} (mark : Text)
    (plain : mark.all (fun c => !ends c) = true) (text : Text) {tail : Text}
    (headed : Headed ends tail) :
    mark.isPrefixOf (text ++ tail) = mark.isPrefixOf text := by
  induction mark generalizing text with
  | nil => simp
  | cons first more ih =>
    simp only [List.all_cons, Bool.and_eq_true, Bool.not_eq_true'] at plain
    cases text with
    | nil =>
      cases tail with
      | nil => rfl
      | cons c rest =>
        have other : first ≠ c := by
          rintro rfl
          rw [show ends first = true from headed] at plain
          exact absurd plain.1 (by decide)
        simp [List.isPrefixOf, other]
    | cons c rest => simp [List.isPrefixOf, ih plain.2]

theorem isPrefixOf_of_head? {mark : Text} {c : Char} (filled : mark ≠ [])
    (other : mark.head? ≠ some c) (rest : Text) : mark.isPrefixOf (c :: rest) = false := by
  cases mark with
  | nil => contradiction
  | cons d more =>
    rw [List.head?_cons, ne_eq, Option.some.injEq] at other
    rw [List.isPrefixOf, beq_eq_false_iff_ne.mpr other, Bool.false_and]

theorem head?_append_headed {ends : Char → Bool} (text : Text) {tail : Text}
    (headed : Headed ends tail) {c : Char} (plain : ends c = false) :
    ((text ++ tail).head? == some c) = (text.head? == some c) := by
  cases text with
  | nil =>
    cases tail with
    | nil => rfl
    | cons first rest =>
      have other : first ≠ c := by
        rintro rfl
        rw [show ends first = true from headed] at plain
        contradiction
      simpa using other
  | cons first rest => rfl

/-! ## Names and escapes -/

theorem escapeDigits_append (text : Text) {tail : Text} (halted : Halted tail) :
    escapeDigits (text ++ tail) = escapeDigits text := by
  have taken : Halted (tail.take (6 - text.length)) := by
    cases tail with
    | nil =>
      rw [List.take_nil]
      trivial
    | cons c rest =>
      cases 6 - text.length with
      | zero => trivial
      | succ count => exact halted
  rw [escapeDigits, List.take_append, takeWhile_append_headed isHexDigit_of_halt _ taken,
    escapeDigits]

theorem escapeDigits_length_le (text : Text) : (escapeDigits text).length ≤ text.length := by
  have run := (List.takeWhile_sublist isHexDigit (l := text.take 6)).length_le
  rw [List.length_take] at run
  simp only [escapeDigits]
  omega

theorem closingBlankLength_append (text : Text) {tail : Text} (stopped : Stopped tail) :
    closingBlankLength (text ++ tail) = closingBlankLength text := by
  cases text with
  | nil =>
    cases tail with
    | nil => rfl
    | cons c rest =>
      have noReturn : c ≠ '\r' := ne_of_stop stopped _ (by decide)
      simp [closingBlankLength, noReturn, isBlank_of_stop stopped]
  | cons first rest =>
    cases rest with
    | nil =>
      cases tail with
      | nil => rfl
      | cons c rest =>
        have noFeed : c ≠ '\n' := ne_of_stop stopped _ (by decide)
        simp [closingBlankLength, noFeed]
    | cons second rest => by_cases pair : first = '\r' ∧ second = '\n' <;>
        simp_all [closingBlankLength]

theorem closingBlankLength_le (text : Text) : closingBlankLength text ≤ text.length := by
  unfold closingBlankLength
  split
  · simp
  · split <;> simp
  · simp

theorem escapeDigits_append_of_lt {text : Text} (inside : (escapeDigits text).length < text.length)
    (tail : Text) : escapeDigits (text ++ tail) = escapeDigits text := by
  unfold escapeDigits at inside ⊢
  by_cases long : 6 ≤ text.length
  · rw [List.take_append_of_le_length long]
  · rw [List.take_of_length_le (by omega)] at inside
    rw [List.take_append, List.take_of_length_le (by omega), takeWhile_append_of_lt inside]

theorem closingBlankLength_append_of_lt {text : Text}
    (inside : closingBlankLength text < text.length) (tail : Text) :
    closingBlankLength (text ++ tail) = closingBlankLength text := by
  cases text with
  | nil => exact absurd inside (Nat.lt_irrefl 0)
  | cons first rest =>
    cases rest with
    | nil =>
      have noBlank : isBlank first = false := by
        by_contra blank
        rw [Bool.not_eq_false] at blank
        simp [closingBlankLength, blank] at inside
      have noReturn : first ≠ '\r' := by
        rintro rfl
        contradiction
      simp [closingBlankLength, noReturn, noBlank]
    | cons second more => by_cases pair : first = '\r' ∧ second = '\n' <;>
        simp_all [closingBlankLength]

theorem escapeLength_le (text : Text) : escapeLength text ≤ text.length := by
  cases text with
  | nil => simp [escapeLength]
  | cons c rest =>
    have digits := escapeDigits_length_le (c :: rest)
    have blank := closingBlankLength_le ((c :: rest).drop (escapeDigits (c :: rest)).length)
    rw [List.length_drop] at blank
    simp only [escapeLength]
    split
    · omega
    · simp

theorem escapeLength_append {text : Text} (some : text ≠ []) {tail : Text}
    (stopped : Stopped tail) : escapeLength (text ++ tail) = escapeLength text := by
  cases text with
  | nil => contradiction
  | cons c rest =>
    have digits := escapeDigits_append (c :: rest) stopped.halted
    rw [List.cons_append] at digits
    simp only [List.cons_append, escapeLength, digits]
    rw [← List.cons_append, List.drop_append_of_le_length (escapeDigits_length_le (c :: rest)),
      closingBlankLength_append _ stopped]

/-- An escape that ends inside the text ends there whatever follows. -/
theorem escapeLength_append_of_lt {text : Text} (inside : escapeLength text < text.length)
    (tail : Text) : escapeLength (text ++ tail) = escapeLength text := by
  cases text with
  | nil => exact absurd inside (Nat.not_lt_zero _)
  | cons c rest =>
    simp only [List.cons_append, escapeLength] at inside ⊢
    by_cases hex : isHexDigit c = true
    · rw [if_pos hex] at inside
      rw [if_pos hex, if_pos hex]
      have short : (escapeDigits (c :: rest)).length < (c :: rest).length := by omega
      have digits := escapeDigits_append_of_lt short tail
      have blank : closingBlankLength ((c :: rest).drop (escapeDigits (c :: rest)).length) <
          ((c :: rest).drop (escapeDigits (c :: rest)).length).length := by
        rw [List.length_drop]
        omega
      rw [← List.cons_append, digits, List.drop_append_of_le_length (Nat.le_of_lt short),
        closingBlankLength_append_of_lt blank]
    · rw [if_neg hex, if_neg hex]

/-- An escape that would have to be completed by a stop takes that stop. -/
theorem escapeLength_stop {c : Char} (stop : isStop c = true) (rest : Text) :
    escapeLength (c :: rest) = 1 := by
  simp [escapeLength, isHexDigit_of_stop stop]

theorem startsEscape_append {text : Text} (some : text ≠ []) {tail : Text}
    (stopped : Stopped tail) : startsEscape (text ++ tail) = startsEscape text := by
  cases text with
  | nil => contradiction
  | cons first rest =>
    cases rest with
    | nil =>
      cases tail with
      | nil => rfl
      | cons c rest =>
        by_cases slash : first = '\\'
        · subst slash
          simp [startsEscape, isLineEnd_of_stop stopped]
        · simp [startsEscape, slash]
    | cons second rest => by_cases slash : first = '\\' <;> simp [startsEscape, slash]

theorem startsEscape_cons_append {text : Text} (some : text ≠ []) (first : Char) (tail : Text) :
    startsEscape (first :: (text ++ tail)) = startsEscape (first :: text) := by
  cases text with
  | nil => contradiction
  | cons second rest => by_cases slash : first = '\\' <;> simp [startsEscape, slash]

theorem startsName_append (text : Text) {tail : Text} (stopped : Stopped tail) :
    startsName (text ++ tail) = startsName text := by
  cases text with
  | nil =>
    cases tail with
    | nil => rfl
    | cons c rest =>
      have noDash : c ≠ '-' := ne_of_stop stopped _ (by decide)
      have noSlash : c ≠ '\\' := ne_of_stop stopped _ (by decide)
      simp [startsName, startsEscape, noDash, noSlash, isNameStart_of_stop stopped]
  | cons first rest =>
    have escape := startsEscape_append (List.cons_ne_nil first rest) stopped
    by_cases dash : first = '-'
    · subst dash
      cases rest with
      | cons second rest => simp [startsName]
      | nil =>
        cases tail with
        | nil => rfl
        | cons c rest =>
          have noDash : c ≠ '-' := ne_of_stop stopped _ (by decide)
          have noSlash : c ≠ '\\' := ne_of_stop stopped _ (by decide)
          have noStart : isNameStart '-' = false := by decide
          simp [startsName, startsEscape, noDash, noSlash, isNameStart_of_stop stopped, noStart]
    · simp only [List.cons_append] at escape ⊢
      simp [startsName, dash, escape]

theorem startsHashName_append (text : Text) {tail : Text} (stopped : Stopped tail) :
    startsHashName (text ++ tail) = startsHashName text := by
  have name := startsName_append text stopped
  cases text with
  | nil =>
    cases tail with
    | nil => rfl
    | cons c rest =>
      have noDash : c ≠ '-' := ne_of_stop stopped _ (by decide)
      rw [List.nil_append] at name
      simp only [List.nil_append, startsHashName, name]
      simp [startsName, noDash, isDigit_of_stop stopped]
  | cons first rest =>
    simp only [List.cons_append] at name ⊢
    simp [startsHashName, name]

theorem nameLength_append (text : Text) {c : Char} {rest : Text} (stop : isStop c = true)
    (closed : nameLength (text ++ c :: rest) ≤ text.length) {tail : Text}
    (stopped : Stopped tail) : nameLength (text ++ tail) = nameLength text := by
  fun_induction nameLength text with
  | case1 =>
    cases tail with
    | nil => simp [nameLength]
    | cons d more =>
      have noSlash : d ≠ '\\' := ne_of_stop stopped _ (by decide)
      simp [nameLength, isNameChar_of_stop stopped, startsEscape, noSlash]
  | case2 first more inName ih =>
    rw [List.cons_append, nameLength, if_pos inName] at closed ⊢
    rw [ih (by simp only [List.length_cons] at closed; omega)]
  | case3 first more notName escape ih =>
    have same {tail : Text} (stopped : Stopped tail) :=
      startsEscape_append (List.cons_ne_nil first more) stopped
    rw [List.cons_append, nameLength, if_neg notName, ← List.cons_append,
      same (stopped_cons stop rest), if_pos escape] at closed
    rw [List.cons_append, nameLength, if_neg notName, ← List.cons_append, same stopped,
      if_pos escape]
    have some : more ≠ [] := by
      rintro rfl
      rw [List.nil_append, escapeLength_stop stop] at closed
      simp only [List.length_singleton] at closed
      omega
    have within := escapeLength_le more
    rw [escapeLength_append some (stopped_cons stop rest),
      List.drop_append_of_le_length within] at closed
    rw [escapeLength_append some stopped, List.drop_append_of_le_length within, ih]
    simp only [List.length_cons, List.length_drop] at closed ⊢
    omega
  | case4 first more notName noEscape =>
    rw [List.cons_append, nameLength, if_neg notName, ← List.cons_append,
      startsEscape_append (by simp) stopped, if_neg noEscape]

theorem nameLength_le (text : Text) : nameLength text ≤ text.length := by
  fun_induction nameLength text with
  | case1 => simp
  | case2 first more inName ih =>
    simp only [List.length_cons]
    omega
  | case3 first more notName escape ih =>
    have := escapeLength_le more
    simp only [List.length_cons, List.length_drop] at ih ⊢
    omega
  | case4 first more notName noEscape => simp

/-! ## Numbers -/

theorem signLength_append (text : Text) {tail : Text} (halted : Halted tail) :
    signLength (text ++ tail) = signLength text := by
  cases text with
  | nil =>
    cases tail with
    | nil => rfl
    | cons c rest =>
      have noPlus : c ≠ '+' := ne_of_halt halted _ (by decide)
      have noDash : c ≠ '-' := ne_of_halt halted _ (by decide)
      simp [signLength, noPlus, noDash]
  | cons first rest => rfl

theorem signLength_le (text : Text) : signLength text ≤ text.length := by
  cases text with
  | nil => simp [signLength]
  | cons first rest =>
    simp only [signLength, List.length_cons]
    split <;> omega

theorem fractionLength_append (text : Text) {tail : Text} (halted : Halted tail) :
    fractionLength (text ++ tail) = fractionLength text := by
  cases text with
  | nil =>
    cases tail with
    | nil => rfl
    | cons c rest =>
      have noPoint : c ≠ '.' := ne_of_halt halted _ (by decide)
      simp [fractionLength, noPoint]
  | cons first rest =>
    by_cases point : first = '.'
    · subst point
      simp [fractionLength, startsDigit_append rest halted, digitsLength_append rest halted]
    · simp [fractionLength, point]

theorem fractionLength_le (text : Text) : fractionLength text ≤ text.length := by
  unfold fractionLength
  split
  · rename_i rest
    have := digitsLength_le rest
    split <;> simp only [List.length_cons] <;> omega
  · simp

theorem exponentLength_append (text : Text) {tail : Text} (halted : Halted tail) :
    exponentLength (text ++ tail) = exponentLength text := by
  cases text with
  | nil =>
    cases tail with
    | nil => rfl
    | cons c rest =>
      have noLower : c ≠ 'e' := ne_of_halt halted _ (by decide)
      have noUpper : c ≠ 'E' := ne_of_halt halted _ (by decide)
      simp [exponentLength, noLower, noUpper]
  | cons first rest =>
    simp only [List.cons_append, exponentLength, signLength_append rest halted,
      List.drop_append_of_le_length (signLength_le rest), startsDigit_append _ halted,
      digitsLength_append _ halted]

theorem exponentLength_le (text : Text) : exponentLength text ≤ text.length := by
  cases text with
  | nil => simp [exponentLength]
  | cons first rest =>
    have sign := signLength_le rest
    have digits := digitsLength_le (rest.drop (signLength rest))
    rw [List.length_drop] at digits
    simp only [exponentLength, List.length_cons]
    split <;> omega

theorem startsUnsigned_append (text : Text) {tail : Text} (halted : Halted tail) :
    startsUnsigned (text ++ tail) = startsUnsigned text := by
  cases text with
  | nil =>
    cases tail with
    | nil => rfl
    | cons c rest =>
      have noPoint : c ≠ '.' := ne_of_halt halted _ (by decide)
      simp [startsUnsigned, noPoint, startsDigit, isDigit_of_halt halted]
  | cons first rest =>
    by_cases point : first = '.'
    · subst point
      simp [startsUnsigned, startsDigit_append rest halted]
    · simp [startsUnsigned, point, startsDigit]

theorem startsNumber_append (text : Text) {tail : Text} (halted : Halted tail) :
    startsNumber (text ++ tail) = startsNumber text := by
  rw [startsNumber, signLength_append text halted,
    List.drop_append_of_le_length (signLength_le text), startsUnsigned_append _ halted,
    startsNumber]

/-- The length of a number is put together from three parts, each of which fits in what is left. -/
theorem numberLength_parts (text : Text) :
    let whole := signLength text + digitsLength (text.drop (signLength text))
    let decimal := whole + fractionLength (text.drop whole)
    whole ≤ text.length ∧ decimal ≤ text.length ∧
      numberLength text = decimal + exponentLength (text.drop decimal) ∧
      numberLength text ≤ text.length := by
  intro whole decimal
  have sign := signLength_le text
  have digits := digitsLength_le (text.drop (signLength text))
  have fraction := fractionLength_le (text.drop whole)
  have exponent := exponentLength_le (text.drop decimal)
  rw [List.length_drop] at digits fraction exponent
  have whole_le : whole ≤ text.length := by omega
  have decimal_le : decimal ≤ text.length := by omega
  have total : numberLength text = decimal + exponentLength (text.drop decimal) := rfl
  exact ⟨whole_le, decimal_le, total, by omega⟩

theorem numberLength_append (text : Text) {tail : Text} (halted : Halted tail) :
    numberLength (text ++ tail) = numberLength text := by
  obtain ⟨whole_le, decimal_le, -, -⟩ := numberLength_parts text
  simp only [numberLength, signLength_append text halted,
    List.drop_append_of_le_length (signLength_le text), digitsLength_append _ halted,
    List.drop_append_of_le_length whole_le, fractionLength_append _ halted,
    List.drop_append_of_le_length decimal_le, exponentLength_append _ halted]

theorem numeric_append (text : Text) {c : Char} {rest : Text} (stop : isStop c = true)
    (closed : (numeric (text ++ c :: rest)).2 ≤ text.length) {tail : Text}
    (stopped : Stopped tail) : numeric (text ++ tail) = numeric text := by
  have within := (numberLength_parts text).2.2.2
  have percent {tail : Text} (stopped : Stopped tail) :=
    head?_append_headed (text.drop (numberLength text)) stopped (c := '%') (by decide)
  have stops := stopped_cons stop rest
  simp only [numeric, numberLength_append text stops.halted, List.drop_append_of_le_length within,
    percent stops, startsName_append _ stops] at closed
  simp only [numeric, numberLength_append text stopped.halted, List.drop_append_of_le_length within,
    percent stopped, startsName_append _ stopped]
  split
  · rfl
  · split
    · rename_i noPercent name
      rw [if_neg noPercent, if_pos name] at closed
      have fits : nameLength (text.drop (numberLength text) ++ c :: rest) ≤
          (text.drop (numberLength text)).length := by
        rw [List.length_drop]
        simp only at closed
        omega
      rw [nameLength_append _ stop fits stopped]
    · rfl

/-! ## Skips behind a backslash -/

theorem skip_le {count : Nat} {first : Char} {text : Text} (within : count ≤ text.length) :
    (if first == '\\' then count else 0) ≤ text.length := by
  split
  · exact within
  · exact Nat.zero_le _

/-- Behind any other character nothing is skipped, so only a backslash can tell two texts apart. -/
theorem skip_eq {count other : Nat} {first : Char}
    (same : (first == '\\') = true → count = other) :
    (if first == '\\' then count else 0) = if first == '\\' then other else 0 := by
  by_cases slash : (first == '\\') = true
  · rw [same slash]
  · rw [if_neg slash, if_neg slash]

/-- A reader that takes the stop when it begins there has begun before, if it does not reach it. -/
theorem lt_of_closed (read : Text → Nat) {count : Nat} {text ending : Text}
    (takes : 0 < read ending) (within : count ≤ text.length)
    (closed : count + read (text.drop count ++ ending) ≤ text.length) : count < text.length := by
  apply Nat.lt_of_le_of_ne within
  intro all
  rw [List.drop_of_length_le (Nat.le_of_eq all.symm), List.nil_append] at closed
  omega

/-! ## Strings and comments -/

theorem lineEndLength_append (text : Text) {tail : Text} (stopped : Stopped tail) :
    lineEndLength (text ++ tail) = lineEndLength text := by
  cases text with
  | nil =>
    cases tail with
    | nil => rfl
    | cons c rest =>
      have noReturn : c ≠ '\r' := ne_of_stop stopped _ (by decide)
      simp [lineEndLength, noReturn, isLineEnd_of_stop stopped]
  | cons first rest =>
    cases rest with
    | nil =>
      cases tail with
      | nil => rfl
      | cons c rest =>
        have noFeed : c ≠ '\n' := ne_of_stop stopped _ (by decide)
        simp [lineEndLength, noFeed]
    | cons second rest => by_cases pair : first = '\r' ∧ second = '\n' <;>
        simp_all [lineEndLength]

theorem lineEndLength_append_of_lt {text : Text} (inside : lineEndLength text < text.length)
    (tail : Text) : lineEndLength (text ++ tail) = lineEndLength text := by
  cases text with
  | nil => exact absurd inside (Nat.lt_irrefl 0)
  | cons first rest =>
    cases rest with
    | nil =>
      have noEnd : isLineEnd first = false := by
        by_contra ends
        rw [Bool.not_eq_false] at ends
        simp [lineEndLength, ends] at inside
      have noReturn : first ≠ '\r' := by
        rintro rfl
        contradiction
      simp [lineEndLength, noReturn, noEnd]
    | cons second more => by_cases pair : first = '\r' ∧ second = '\n' <;>
        simp_all [lineEndLength]

theorem lineEndLength_le (text : Text) : lineEndLength text ≤ text.length := by
  unfold lineEndLength
  split
  · simp
  · split <;> simp
  · simp

theorem stringEscapeLength_le (text : Text) : stringEscapeLength text ≤ text.length := by
  unfold stringEscapeLength
  split
  · exact escapeLength_le text
  · exact lineEndLength_le text

theorem stringEscapeLength_append {text : Text} (some : text ≠ []) {tail : Text}
    (stopped : Stopped tail) :
    stringEscapeLength (text ++ tail) = stringEscapeLength text := by
  simp only [stringEscapeLength, lineEndLength_append text stopped,
    escapeLength_append some stopped]

theorem stringEscapeLength_append_of_lt {text : Text}
    (inside : stringEscapeLength text < text.length) (tail : Text) :
    stringEscapeLength (text ++ tail) = stringEscapeLength text := by
  unfold stringEscapeLength at inside ⊢
  by_cases none : lineEndLength text = 0
  · rw [if_pos none] at inside
    rw [lineEndLength_append_of_lt (by omega), if_pos none, if_pos none,
      escapeLength_append_of_lt inside]
  · rw [if_neg none] at inside
    rw [lineEndLength_append_of_lt inside, if_neg none, if_neg none]

theorem stringTail_pos_of_stop (quote : Char) {c : Char} (stop : isStop c = true) (rest : Text) :
    0 < (stringTail quote (c :: rest)).2 := by
  rw [stringTail, isLineEnd_of_stop stop]
  split
  · simp
  · simp only [Bool.false_eq_true, ↓reduceIte]
    omega

/-- A string that ends before a stop ends there whatever follows. -/
theorem stringTail_append (quote : Char) (text : Text) {c : Char} {rest : Text}
    (stop : isStop c = true) (closed : (stringTail quote (text ++ c :: rest)).2 ≤ text.length)
    (tail : Text) : stringTail quote (text ++ tail) = stringTail quote text := by
  fun_induction stringTail quote text with
  | case1 =>
    have := stringTail_pos_of_stop quote stop rest
    simp only [List.nil_append, List.length_nil] at closed
    omega
  | case2 first more closes => rw [List.cons_append, stringTail, if_pos closes]
  | case3 first more stays ends => rw [List.cons_append, stringTail, if_neg stays, if_pos ends]
  | case4 first more stays goesOn skipped next ih =>
    have within : skipped ≤ more.length := skip_le (stringEscapeLength_le more)
    rw [List.cons_append, stringTail, if_neg stays, if_neg goesOn] at closed ⊢
    -- A backslash at the very end would hide the stop, and then the string is not closed.
    have some (slash : (first == '\\') = true) : more ≠ [] := by
      rintro rfl
      have noEnd : lineEndLength (c :: rest) = 0 := by
        have noReturn : c ≠ '\r' := ne_of_stop stop _ (by decide)
        simp [lineEndLength, noReturn, isLineEnd_of_stop stop]
      simp only [slash, List.nil_append, stringEscapeLength, noEnd, escapeLength_stop stop,
        ↓reduceIte, List.length_singleton] at closed
      omega
    have atStop : (if first == '\\' then stringEscapeLength (more ++ c :: rest) else 0) = skipped :=
      skip_eq fun slash => stringEscapeLength_append (some slash) (stopped_cons stop rest)
    simp only [atStop, List.drop_append_of_le_length within, List.length_cons] at closed
    have inside : skipped < more.length := lt_of_closed (fun text => (stringTail quote text).2)
      (stringTail_pos_of_stop quote stop rest) within (by omega)
    have same : (if first == '\\' then stringEscapeLength (more ++ tail) else 0) = skipped :=
      skip_eq fun slash => stringEscapeLength_append_of_lt (by simpa [skipped, slash] using inside) tail
    simp only [same, List.drop_append_of_le_length within]
    rw [ih (by rw [List.length_drop]; omega)]

theorem commentTailLength_eq_zero {text : Text} (none : commentTailLength text = 0) : text = [] := by
  fun_induction commentTailLength text with
  | case1 => contradiction
  | case2 => omega
  | case3 => rfl

theorem commentTailLength_append (text : Text) {c : Char} {rest : Text} (stop : isStop c = true)
    (closed : commentTailLength (text ++ c :: rest) ≤ text.length) (tail : Text) :
    commentTailLength (text ++ tail) = commentTailLength text := by
  have notStar : c ≠ '*' := ne_of_stop stop _ (by decide)
  have notSlash : c ≠ '/' := ne_of_stop stop _ (by decide)
  induction text with
  | nil => simp [commentTailLength, notStar] at closed
  | cons first more ih =>
    cases more with
    | nil =>
      have later : commentTailLength (c :: rest) = 1 + commentTailLength rest := by
        simp [commentTailLength, notStar]
      have here : commentTailLength (first :: c :: rest) = 1 + commentTailLength (c :: rest) := by
        simp [commentTailLength, notSlash]
      rw [List.singleton_append, here, later, List.length_singleton] at closed
      omega
    | cons second more =>
      by_cases closes : first = '*' ∧ second = '/'
      · rcases closes with ⟨rfl, rfl⟩
        rfl
      · simp only [List.cons_append] at closed ih ⊢
        have step (text : Text) : commentTailLength (first :: second :: text) =
            1 + commentTailLength (second :: text) := by
          by_cases star : first = '*'
          · have : second ≠ '/' := fun slash => closes ⟨star, slash⟩
            simp [commentTailLength, star, this]
          · simp [commentTailLength, star]
        rw [step] at closed ⊢
        rw [step, ih]
        simp only [List.length_cons] at closed ⊢
        omega

/-! ## Addresses -/

theorem badAddressLength_eq_zero {text : Text} (none : badAddressLength text = 0) : text = [] := by
  fun_induction badAddressLength text with
  | case1 => rfl
  | case2 => contradiction
  | case3 => omega
  | case4 => omega
  | case5 => omega

theorem badAddressLength_pos_of_stop {c : Char} (stop : isStop c = true) (rest : Text) :
    0 < badAddressLength (c :: rest) := by
  have notClose : c ≠ ')' := ne_of_stop stop _ (by decide)
  have notSlash : c ≠ '\\' := ne_of_stop stop _ (by decide)
  have step : badAddressLength (c :: rest) = 1 + badAddressLength rest := by
    simp [badAddressLength, notSlash]
  omega

theorem badAddressLength_append (text : Text) {c : Char} {rest : Text} (stop : isStop c = true)
    (closed : badAddressLength (text ++ c :: rest) ≤ text.length) (tail : Text) :
    badAddressLength (text ++ tail) = badAddressLength text := by
  have notClose : c ≠ ')' := ne_of_stop stop _ (by decide)
  have notSlash : c ≠ '\\' := ne_of_stop stop _ (by decide)
  have stops := badAddressLength_pos_of_stop stop rest
  fun_induction badAddressLength text with
  | case1 =>
    simp only [List.nil_append, List.length_nil] at closed
    omega
  | case2 more => rfl
  | case3 more ih =>
    simp only [List.cons_append, badAddressLength, List.length_cons] at closed ⊢
    rw [ih (by omega)]
  | case4 more ih =>
    simp only [List.cons_append, badAddressLength, List.length_cons] at closed ⊢
    rw [ih (by omega)]
  | case5 first more noClose noEscapedClose noEscapedSlash ih =>
    have some : first = '\\' → more ≠ [] := by
      rintro rfl rfl
      have step : badAddressLength ('\\' :: c :: rest) = 1 + badAddressLength (c :: rest) := by
        simp [badAddressLength, notClose, notSlash]
      simp only [List.cons_append, List.nil_append, step, List.length_singleton] at closed
      omega
    have step (tail : Text) :
        badAddressLength (first :: more ++ tail) = 1 + badAddressLength (more ++ tail) := by
      rw [List.cons_append, badAddressLength]
      · exact noClose
      · intro after slash same
        cases more with
        | nil => exact some slash rfl
        | cons second more =>
          simp only [List.cons_append, List.cons.injEq] at same
          exact noEscapedClose more slash (by rw [same.1])
      · intro after slash same
        cases more with
        | nil => exact some slash rfl
        | cons second more =>
          simp only [List.cons_append, List.cons.injEq] at same
          exact noEscapedSlash more slash (by rw [same.1])
    rw [step] at closed ⊢
    rw [ih]
    simp only [List.length_cons] at closed
    omega

theorem addressEnd_append (text : Text) {c : Char} {rest : Text} (stop : isStop c = true)
    (closed : (addressEnd (text ++ c :: rest)).2 ≤ text.length) (tail : Text) :
    addressEnd (text ++ tail) = addressEnd text := by
  cases text with
  | nil =>
    have notClose : c ≠ ')' := ne_of_stop stop _ (by decide)
    simp [addressEnd, notClose] at closed
  | cons first more =>
    simp only [List.cons_append, addressEnd] at closed ⊢
    split
    · rfl
    · rename_i stays
      rw [if_neg stays, List.length_cons] at closed
      have fits : badAddressLength (more ++ c :: rest) ≤ more.length := by
        simp only at closed
        omega
      rw [badAddressLength_append more stop fits tail]

theorem addressTail_pos_of_stop {c : Char} (stop : isStop c = true) (rest : Text) :
    0 < (addressTail (c :: rest)).2 := by
  have notClose : c ≠ ')' := ne_of_stop stop _ (by decide)
  have notSlash : c ≠ '\\' := ne_of_stop stop _ (by decide)
  rw [addressTail]
  simp only [beq_iff_eq, notClose, ↓reduceIte, isBlank_of_stop stop, Bool.false_eq_true]
  split
  · simp only
    omega
  · simp only [beq_eq_false_iff_ne.mpr notSlash, Bool.false_and, Bool.false_eq_true,
      ↓reduceIte]
    omega

theorem addressEnd_pos_of_stop {c : Char} (stop : isStop c = true) (rest : Text) :
    0 < (addressEnd (c :: rest)).2 := by
  have notClose : c ≠ ')' := ne_of_stop stop _ (by decide)
  rw [addressEnd, if_neg (by simpa using notClose)]
  simp only
  omega

/-- What closes an address behind a run of blanks. -/
theorem addressEnd_blanks_append {text : Text} {c : Char} {rest : Text} (stop : isStop c = true)
    (closed : blankLength (text ++ c :: rest) +
      (addressEnd ((text ++ c :: rest).drop (blankLength (text ++ c :: rest)))).2 ≤ text.length)
    (tail : Text) :
    blankLength (text ++ tail) = blankLength text ∧
      addressEnd ((text ++ tail).drop (blankLength text)) =
        addressEnd (text.drop (blankLength text)) := by
  have within := blankLength_le text
  rw [blankLength_append text (stopped_cons stop rest), List.drop_append_of_le_length within] at closed
  have inside : blankLength text < text.length := lt_of_closed (fun text => (addressEnd text).2)
    (addressEnd_pos_of_stop stop rest) within closed
  refine ⟨blankLength_append_of_lt inside tail, ?_⟩
  have fits : (addressEnd (text.drop (blankLength text) ++ c :: rest)).2 ≤
      (text.drop (blankLength text)).length := by
    rw [List.length_drop]
    omega
  rw [List.drop_append_of_le_length within, addressEnd_append _ stop fits tail]

/-- An address that ends before a stop ends there whatever follows. -/
theorem addressTail_append (text : Text) {c : Char} {rest : Text} (stop : isStop c = true)
    (closed : (addressTail (text ++ c :: rest)).2 ≤ text.length) (tail : Text) :
    addressTail (text ++ tail) = addressTail text := by
  fun_induction addressTail text with
  | case1 =>
    have := addressTail_pos_of_stop stop rest
    simp only [List.nil_append, List.length_nil] at closed
    omega
  | case2 first more closes => rw [List.cons_append, addressTail, if_pos closes]
  | case3 first more stays blank blanks close =>
    rw [List.cons_append, addressTail, if_neg stays, if_pos blank] at closed ⊢
    simp only [List.length_cons, Nat.add_assoc, Nat.add_comm more.length,
      Nat.add_le_add_iff_left] at closed
    rcases addressEnd_blanks_append stop closed tail with ⟨size, same⟩
    simp only [size, same]
    rfl
  | case4 first more stays noBlank bad =>
    rw [List.cons_append, addressTail, if_neg stays, if_neg noBlank, if_pos bad] at closed ⊢
    rw [List.length_cons, Nat.add_comm more.length, Nat.add_le_add_iff_left] at closed
    rw [badAddressLength_append more stop closed tail]
  | case5 first more stays noBlank fine bad =>
    -- At the end of the text a backslash begins an escape, so something follows this one.
    have some : more ≠ [] := by
      rintro rfl
      rw [Bool.and_eq_true, beq_iff_eq] at bad
      rcases bad with ⟨rfl, noEscape⟩
      contradiction
    rw [List.cons_append, addressTail, if_neg stays, if_neg noBlank, if_neg fine,
      startsEscape_cons_append some, if_pos bad] at closed ⊢
    rw [List.length_cons, Nat.add_comm more.length, Nat.add_le_add_iff_left] at closed
    rw [badAddressLength_append more stop closed tail]
  | case6 first more stays noBlank fine good skipped next ih =>
    have within : skipped ≤ more.length := skip_le (escapeLength_le more)
    rw [List.cons_append, addressTail, if_neg stays, if_neg noBlank, if_neg fine,
      ← List.cons_append, startsEscape_append (List.cons_ne_nil first more) (stopped_cons stop rest),
      if_neg good] at closed
    have some : more ≠ [] := by
      rintro rfl
      have := addressTail_pos_of_stop stop rest
      rw [List.nil_append, escapeLength_stop stop] at closed
      by_cases slash : (first == '\\') = true
      · simp only [if_pos slash, List.length_singleton] at closed
        omega
      · simp only [if_neg slash, List.drop_zero, List.length_singleton] at closed
        omega
    have atStop : (if first == '\\' then escapeLength (more ++ c :: rest) else 0) = skipped :=
      skip_eq fun _ => escapeLength_append some (stopped_cons stop rest)
    simp only [atStop, List.drop_append_of_le_length within, List.length_cons] at closed
    have inside : skipped < more.length := lt_of_closed (fun text => (addressTail text).2)
      (addressTail_pos_of_stop stop rest) within (by omega)
    have same : (if first == '\\' then escapeLength (more ++ tail) else 0) = skipped :=
      skip_eq fun slash => escapeLength_append_of_lt (by simpa [skipped, slash] using inside) tail
    rw [List.cons_append, addressTail, if_neg stays, if_neg noBlank, if_neg fine,
      startsEscape_cons_append some, if_neg good]
    simp only [same, List.drop_append_of_le_length within]
    rw [ih (by rw [List.length_drop]; omega)]

theorem addressAfterOpening_append (text : Text) {c : Char} {rest : Text}
    (stop : isStop c = true)
    (closed : ∀ found, addressAfterOpening (text ++ c :: rest) = some found →
      found.2 ≤ text.length) (tail : Text) :
    addressAfterOpening (text ++ tail) = addressAfterOpening text := by
  have within := blankLength_le text
  have stops := stopped_cons stop rest
  simp only [addressAfterOpening, blankLength_append text stops,
    List.drop_append_of_le_length within] at closed
  cases left : text.drop (blankLength text) with
  | nil =>
    rw [left] at closed
    simp only [List.nil_append, isQuote_of_stop stop, Bool.false_eq_true, ↓reduceIte] at closed
    have taken := closed _ rfl
    have := addressTail_pos_of_stop stop rest
    have := congrArg List.length left
    simp only [List.length_drop, List.length_nil] at this taken
    omega
  | cons first more =>
    have room := congrArg List.length left
    simp only [List.length_drop, List.length_cons] at room
    rw [left] at closed
    simp only [addressAfterOpening, blankLength_append_of_lt (show _ < text.length by omega),
      List.drop_append_of_le_length within, left]
    simp only [List.cons_append] at closed ⊢
    split
    · rfl
    · rename_i noQuote
      rw [if_neg noQuote] at closed
      have taken := closed _ rfl
      have fits : (addressTail (first :: more ++ c :: rest)).2 ≤ (first :: more).length := by
        simp only [List.cons_append, List.length_cons]
        omega
      rw [← List.cons_append, addressTail_append _ stop fits tail]

/-! ## Tokens -/

theorem nameLength_le_named (text : Text) : nameLength text ≤ (named text).2 := by
  simp only [named]
  split
  · split
    · split <;> simp only <;> omega
    · simp only
      omega
  · simp

theorem named_append (text : Text) {c : Char} {rest : Text} (stop : isStop c = true)
    (closed : (named (text ++ c :: rest)).2 ≤ text.length) {tail : Text}
    (stopped : Stopped tail) : named (text ++ tail) = named text := by
  have stops := stopped_cons stop rest
  have fits := Nat.le_trans (nameLength_le_named (text ++ c :: rest)) closed
  have size {tail : Text} (stopped : Stopped tail) := nameLength_append text stop fits stopped
  have within := nameLength_le text
  simp only [named, size stops, List.drop_append_of_le_length within,
    List.take_append_of_le_length within] at closed
  simp only [named, size stopped, List.drop_append_of_le_length within,
    List.take_append_of_le_length within]
  cases left : text.drop (nameLength text) with
  | nil =>
    cases tail with
    | nil => rfl
    | cons d more =>
      have noBracket : d ≠ '(' := ne_of_stop stopped _ (by decide)
      simp [noBracket]
  | cons first more =>
    by_cases bracket : first = '('
    · subst bracket
      rw [left] at closed
      simp only [List.cons_append] at closed ⊢
      split
      · rename_i address
        rw [if_pos address] at closed
        have room := congrArg List.length left
        simp only [List.length_drop, List.length_cons] at room
        have fits : ∀ found, addressAfterOpening (more ++ c :: rest) = some found →
            found.2 ≤ more.length := by
          intro found opened
          rw [opened] at closed
          simp only at closed
          omega
        rw [addressAfterOpening_append more stop fits tail]
      · rfl
    · simp [bracket]

theorem readerOf_append (first : Char) (text : Text) {tail : Text} (stopped : Stopped tail) :
    readerOf first (text ++ tail) = readerOf first text := by
  have mark (mark : Text) (plain : mark.all (fun c => !isStop c) = true) :=
    isPrefixOf_append mark plain (first :: text) stopped
  have number := startsNumber_append (first :: text) stopped.halted
  have name := startsName_append (first :: text) stopped
  have equals := head?_append_headed text stopped (show isStop '=' = false by decide)
  simp only [List.cons_append] at mark number name
  unfold readerOf
  simp only [mark "/*".toList (by decide), mark "<!--".toList (by decide),
    mark "-->".toList (by decide), number, name, startsHashName_append text stopped,
    startsName_append text stopped, equals]

/-- A string that ends before a stop is the same token whatever follows. -/
theorem Reader.read_string_append (first : Char) (text : Text) {c : Char} {rest : Text}
    (stop : isStop c = true)
    (closed : (Reader.string.read first (text ++ c :: rest)).2 ≤ text.length + 1) (tail : Text) :
    Reader.string.read first (text ++ tail) = Reader.string.read first text := by
  have fits : (stringTail first (text ++ c :: rest)).2 ≤ text.length := by
    rw [Reader.read] at closed
    omega
  rw [Reader.read, Reader.read, stringTail_append first text stop fits]

/-- A comment that ends before a stop is the same token whatever follows. -/
theorem Reader.read_comment_append {first : Char} {text : Text} {c : Char} {rest : Text}
    (reader : readerOf first text = .comment) (stop : isStop c = true)
    (closed : (Reader.comment.read first (text ++ c :: rest)).2 ≤ text.length + 1) (tail : Text) :
    Reader.comment.read first (text ++ tail) = Reader.comment.read first text := by
  rcases star_of_comment reader with ⟨more, rfl⟩
  have fits : commentTailLength (more ++ c :: rest) ≤ more.length := by
    rw [Reader.read, List.cons_append, List.drop_succ_cons, List.drop_zero, List.length_cons] at closed
    omega
  rw [Reader.read, Reader.read, List.cons_append, List.drop_succ_cons, List.drop_zero,
    List.drop_succ_cons, List.drop_zero, commentTailLength_append more stop fits]

/-- A token that ends before a stop is the same whatever follows the stop. -/
theorem lexeme_append (first : Char) (text : Text) {c : Char} {rest : Text}
    (stop : isStop c = true) (closed : (lexeme first (text ++ c :: rest)).2 ≤ text.length + 1)
    {tail : Text} (stopped : Stopped tail) :
    lexeme first (text ++ tail) = lexeme first text := by
  rw [lexeme_eq_read, readerOf_append first text (stopped_cons stop rest)] at closed
  rw [lexeme_eq_read, readerOf_append first text stopped, lexeme_eq_read]
  cases reader : readerOf first text with
  | fixed kind size => rfl
  | blanks => rw [Reader.read, Reader.read, blankLength_append text stopped]
  | string =>
    rw [reader] at closed
    exact Reader.read_string_append first text stop closed tail
  | comment =>
    rw [reader] at closed
    exact Reader.read_comment_append reader stop closed tail
  | number =>
    rw [reader, Reader.read] at closed
    rw [Reader.read, Reader.read]
    exact numeric_append (first :: text) stop closed stopped
  | name =>
    rw [reader, Reader.read] at closed
    rw [Reader.read, Reader.read]
    exact named_append (first :: text) stop closed stopped
  | marked kind =>
    have fits : nameLength (text ++ c :: rest) ≤ text.length := by
      rw [reader, Reader.read] at closed
      omega
    rw [Reader.read, Reader.read, nameLength_append text stop fits stopped]

end Swatch.Css
