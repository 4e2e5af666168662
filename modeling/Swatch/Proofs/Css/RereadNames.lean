import Swatch.Proofs.Css.Reread

/-!
# Names in cleaned text

An escape of hexadecimal digits may be closed by one blank, which belongs to it. Cleaning
takes this blank for a gap, so it becomes a space, and then it closes the escape again; it
is dropped at the end of the text, where nothing has to close the escape. Only a gap that
stands behind the escape makes a difference: its space would be taken by the escape. Names
are made of characters that are copied and of escapes, so they are read again as they are.
-/

namespace Swatch.Css

/-! ## Escapes that are cut off -/

theorem escapeDigits_take (text : Text) (count : Nat) :
    escapeDigits (text.take count) = (escapeDigits text).take count := by
  rw [escapeDigits, escapeDigits, List.take_takeWhile, List.take_take, List.take_take, Nat.min_comm]

theorem lineEndLength_take (text : Text) (count : Nat) :
    lineEndLength (text.take count) = min count (lineEndLength text) := by
  match text, count with
  | [], _ => simp [lineEndLength]
  | _, 0 => simp [lineEndLength]
  | [c], count + 1 =>
    have short := lineEndLength_le [c]
    rw [List.length_singleton] at short
    rw [List.take_succ_cons, List.take_nil]
    omega
  | c :: d :: more, 1 =>
    by_cases feed : c = '\r' ∧ d = '\n'
    · rcases feed with ⟨rfl, rfl⟩
      rfl
    · have alone : lineEndLength (c :: d :: more) = lineEndLength [c] := by
        by_cases return_ : c = '\r' <;> simp_all [lineEndLength]
      have short := lineEndLength_le [c]
      rw [List.length_singleton] at short
      rw [alone, List.take_succ_cons, List.take_zero]
      omega
  | c :: d :: more, count + 2 =>
    have pair (more : Text) : lineEndLength (c :: d :: more) = lineEndLength [c, d] := by
      by_cases feed : c = '\r' ∧ d = '\n' <;> simp_all [lineEndLength]
    have short := lineEndLength_le [c, d]
    rw [List.length_cons, List.length_singleton] at short
    rw [List.take_succ_cons, List.take_succ_cons, pair, pair more]
    omega

theorem closingBlankLength_eq (text : Text) :
    closingBlankLength text =
      if text.head?.any (fun c => c == ' ' || c == '\t') then 1 else lineEndLength text := by
  unfold closingBlankLength lineEndLength
  split
  · rfl
  · rename_i c rest noPair
    cases space : c == ' ' || c == '\t' <;> simp [isBlank, space]
  · rfl

theorem closingBlankLength_take (text : Text) (count : Nat) :
    closingBlankLength (text.take count) = min count (closingBlankLength text) := by
  cases count with
  | zero => simp [closingBlankLength]
  | succ count =>
    rw [closingBlankLength_eq, closingBlankLength_eq, lineEndLength_take, List.head?_take,
      if_neg (Nat.succ_ne_zero _)]
    split <;> omega

/-- Cut off, an escape is as long as there is room for it. -/
theorem escapeLength_take (text : Text) (count : Nat) :
    escapeLength (text.take count) = min count (escapeLength text) := by
  match text, count with
  | [], _ => simp [escapeLength]
  | _, 0 => simp [escapeLength]
  | c :: rest, count + 1 =>
    have digits := escapeDigits_take (c :: rest) (count + 1)
    have size := congrArg List.length digits
    rw [List.take_succ_cons, List.length_take] at size
    simp only [List.take_succ_cons, escapeLength]
    split
    · rw [size]
      by_cases long : (escapeDigits (c :: rest)).length ≤ count + 1
      · rw [Nat.min_eq_right long, ← List.take_succ_cons, List.drop_take, closingBlankLength_take]
        omega
      · rw [Nat.min_eq_left (by omega), ← List.take_succ_cons, List.drop_take_self,
          closingBlankLength]
        omega
    · omega

/-- An escape stands for the same character when only what follows it is cut off. -/
theorem escapeValue_take {text : Text} {count : Nat} (fits : escapeLength text ≤ count) :
    escapeValue (text.take count) = escapeValue text := by
  cases text with
  | nil => rw [List.take_nil]
  | cons c rest =>
    by_cases hex : isHexDigit c = true
    · have room : (escapeDigits (c :: rest)).length ≤ count := by
        simp only [escapeLength, if_pos hex] at fits
        omega
      have digits := escapeDigits_take (c :: rest) count
      rw [List.take_of_length_le room] at digits
      cases count with
      | zero =>
        have none : escapeDigits (c :: rest) = [] := List.eq_nil_of_length_eq_zero (by omega)
        simp [escapeDigits, hex] at none
      | succ count =>
        rw [List.take_succ_cons] at digits ⊢
        simp only [escapeValue, if_pos hex, digits]
    · simp only [escapeLength, if_neg hex] at fits
      obtain ⟨more, rfl⟩ := Nat.exists_eq_add_of_le fits
      rw [Nat.add_comm, List.take_succ_cons]
      simp only [escapeValue, if_neg hex]

/-! ## Escapes of digits -/

/-- The digits of an escape are six, or a character follows them that is none. -/
theorem escapeDigits_stops (text : Text) :
    (escapeDigits text).length = 6 ∨
      (text.drop (escapeDigits text).length).head?.any isHexDigit = false := by
  by_cases six : (escapeDigits text).length = 6
  · exact .inl six
  · right
    have parts := List.takeWhile_append_dropWhile (p := isHexDigit) (l := text.take 6)
    have outside := List.head?_dropWhile_not isHexDigit (text.take 6)
    have left : (text.take 6).dropWhile isHexDigit =
        (text.take 6).drop (escapeDigits text).length := by
      conv => rhs; rw [← parts]
      exact List.drop_left.symm
    rw [left, List.drop_take] at outside
    have few : (escapeDigits text).length ≤ 6 := by
      have := congrArg List.length parts
      rw [List.length_append, List.length_take] at this
      have size : (escapeDigits text).length = ((text.take 6).takeWhile isHexDigit).length := rfl
      omega
    cases behind : text.drop (escapeDigits text).length with
    | nil => rfl
    | cons c more =>
      obtain ⟨room, count⟩ := Nat.exists_eq_add_of_lt (Nat.lt_of_le_of_ne few six)
      rw [behind, show 6 - (escapeDigits text).length = room + 1 by omega] at outside
      simpa using outside

theorem isAtom_of_hexDigit {c : Char} (hex : isHexDigit c = true) : isAtom c = true := by
  apply isAtom_of_nameChar (isNameChar_of_hexDigit hex)
  rw [isHexDigit_iff] at hex
  rw [Bool.eq_false_iff, ne_eq, isWhite_iff]
  omega

/-- The digits of an escape, in front of a text that does not go on with them. -/
structure HexEscape (digits behind : Text) : Prop where
  hex : ∀ c ∈ digits, isHexDigit c = true
  few : digits.length ≤ 6
  some : digits ≠ []
  stops : digits.length = 6 ∨ behind.head?.any isHexDigit = false

namespace HexEscape

variable {digits behind : Text}

theorem exists_of_head {rest : Text} (hex : rest.head?.any isHexDigit = true) :
    ∃ digits behind, rest = digits ++ behind ∧ HexEscape digits behind := by
  refine ⟨escapeDigits rest, rest.drop (escapeDigits rest).length, ?_, ?_, ?_, ?_, ?_⟩
  · conv => lhs; rw [← List.take_append_drop (escapeDigits rest).length rest, take_escapeDigits]
  · exact fun c met => List.mem_takeWhile_imp met
  · exact Nat.le_trans (List.takeWhile_sublist _).length_le (List.length_take_le _ _)
  · intro none
    have stops := escapeDigits_stops rest
    rw [none] at stops
    simp [hex] at stops
  · exact escapeDigits_stops rest

/-- The same digits in front of another text. -/
theorem before (escape : HexEscape digits behind) {other : Text}
    (outside : other.head?.any isHexDigit = false) : HexEscape digits other :=
  ⟨escape.hex, escape.few, escape.some, .inr outside⟩

theorem escapeDigits_eq (escape : HexEscape digits behind) :
    escapeDigits (digits ++ behind) = digits := by
  have none : (behind.take (6 - digits.length)).takeWhile isHexDigit = [] := by
    rcases escape.stops with six | outside
    · rw [six]
      simp
    · cases behind with
      | nil => simp
      | cons c more =>
        cases 6 - digits.length with
        | zero => simp
        | succ room => exact List.takeWhile_cons_of_neg (by simpa using outside)
  rw [escapeDigits, List.take_append, List.take_of_length_le escape.few,
    List.takeWhile_append_of_pos escape.hex, none, List.append_nil]

/-- The length of the escape, and the character that it stands for. -/
theorem read (escape : HexEscape digits behind) :
    escapeLength (digits ++ behind) = digits.length + closingBlankLength behind ∧
      escapeValue (digits ++ behind) = characterOfCode (hexValue digits) := by
  have same := escape.escapeDigits_eq
  have hex := escape.hex
  cases digits with
  | nil => exact absurd rfl escape.some
  | cons c more =>
    have first : isHexDigit c = true := hex c List.mem_cons_self
    rw [List.cons_append] at same ⊢
    simp only [escapeLength, escapeValue, if_pos first, same, and_true]
    rw [← List.cons_append, List.drop_left]

/-- The digits are copied, and the blank behind them is a gap. -/
theorem afterAtom_eq (escape : HexEscape digits behind) :
    afterAtom ('\\' :: (digits ++ behind)) = '\\' :: (digits ++ afterAtom behind) := by
  have hex := escape.hex
  cases digits with
  | nil => exact absurd rfl escape.some
  | cons c more =>
    have atoms : ∀ d ∈ more, isAtom d = true := fun d met => isAtom_of_hexDigit (hex d (.tail _ met))
    rw [List.cons_append, afterAtom_escape, afterAtom_append atoms, List.cons_append]

theorem head?_append (escape : HexEscape digits behind) (other : Text) :
    (digits ++ other).head? = digits.head? :=
  List.head?_append_of_ne_nil _ escape.some

end HexEscape

theorem closingBlankLength_eq_zero {text : Text} :
    closingBlankLength text = 0 ↔ text.head?.any isBlank = false := by
  unfold closingBlankLength
  split
  · simp [isBlank, isLineEnd]
  · rename_i c rest noPair
    cases blank : isBlank c <;> simp [blank]
  · simp

theorem afterAtom_of_nothing {text : Text} (nothing : skipGap text = []) : afterAtom text = [] := by
  rw [afterAtom, if_pos (.inr nothing), nothing, cleanAtoms]
  rfl

/-- The blank that closes an escape is dropped with the gap behind it. -/
theorem skipGap_drop_closingBlank (text : Text) :
    skipGap text = skipGap (text.drop (closingBlankLength text)) := by
  conv => lhs; rw [← List.take_append_drop (closingBlankLength text) text]
  apply skipGap_append_of_white
  exact fun c met => isWhite_of_blank (isBlank_of_closingBlank text c met)

/-- Behind a blank that closes an escape stands a space, unless nothing follows. -/
theorem afterAtom_of_closed {text : Text} (closed : closingBlankLength text ≠ 0) :
    afterAtom text =
      if skipGap (text.drop (closingBlankLength text)) = [] then []
      else ' ' :: cleanAtoms (skipGap (text.drop (closingBlankLength text))) := by
  rw [← skipGap_drop_closingBlank]
  apply afterAtom_of_gap
  intro atomic
  cases text with
  | nil => contradiction
  | cons c others =>
    rw [ne_eq, closingBlankLength_eq_zero, List.head?_cons, Option.any_some] at closed
    rw [gapLength_of_white (isWhite_of_blank (by simpa using closed))] at atomic
    contradiction

/--
An escape is found again when no gap follows it, or when nothing but gaps do; the blank that
closes its digits may have become a space, or it is dropped at the end.
-/
theorem escape_afterAtom {rest : Text} (some : rest ≠ [])
    (clear : rest.head?.any isHexDigit = true →
      gapLength (rest.drop (escapeLength rest)) = 0 ∨ skipGap (rest.drop (escapeLength rest)) = []) :
    ∃ spelled, spelled.head? = rest.head? ∧
      afterAtom ('\\' :: rest) =
        '\\' :: (spelled ++ afterAtom (rest.drop (escapeLength rest))) ∧
      escapeLength (spelled ++ afterAtom (rest.drop (escapeLength rest))) = spelled.length ∧
      escapeValue (spelled ++ afterAtom (rest.drop (escapeLength rest))) = escapeValue rest := by
  by_cases hex : rest.head?.any isHexDigit = true
  · rcases HexEscape.exists_of_head hex with ⟨digits, behind, rfl, escape⟩
    rw [escape.read.1, List.drop_length_add_append] at clear ⊢
    rw [escape.read.2, escape.afterAtom_eq, escape.head?_append]
    generalize closed : behind.drop (closingBlankLength behind) = more at clear ⊢
    have gap : skipGap behind = skipGap more := by rw [skipGap_drop_closingBlank, closed]
    by_cases nothing : skipGap more = []
    · have alone : HexEscape digits [] := escape.before rfl
      rw [afterAtom_of_nothing nothing, afterAtom_of_nothing (gap.trans nothing)]
      exact ⟨digits, rfl, rfl, alone.read⟩
    · have atom : gapLength more = 0 := (clear hex).resolve_right nothing
      by_cases noBlank : closingBlankLength behind = 0
      · have same : behind = more := by rw [← closed, noBlank, List.drop_zero]
        subst same
        have again : HexEscape digits (afterAtom behind) :=
          ⟨escape.hex, escape.few, escape.some,
            escape.stops.imp_right fun outside => head?_any_afterAtom_of rfl outside⟩
        have unclosed : closingBlankLength (afterAtom behind) = 0 := by
          rw [closingBlankLength_eq_zero, afterAtom_of_noGap atom, head?_cleanAtoms,
            ← closingBlankLength_eq_zero]
          exact noBlank
        have read := again.read
        rw [unclosed, Nat.add_zero] at read
        exact ⟨digits, rfl, rfl, read⟩
      · have spaced : afterAtom behind = ' ' :: afterAtom more := by
          rw [afterAtom_of_closed noBlank, closed, if_neg nothing, afterAtom_of_noGap atom,
            skipGap_of_gapLength_eq_zero atom]
        have again : HexEscape digits (' ' :: afterAtom more) := escape.before rfl
        refine ⟨digits ++ [' '], escape.head?_append _, ?_, ?_⟩
        · rw [spaced, List.append_assoc]
          rfl
        · rw [List.append_assoc, List.length_append]
          exact again.read
  · cases rest with
    | nil => contradiction
    | cons c more =>
      have plain : ¬isHexDigit c = true := hex
      have one : escapeLength (c :: more) = 1 := by simp only [escapeLength, if_neg plain]
      refine ⟨[c], rfl, ?_, ?_, ?_⟩
      · rw [one, afterAtom_escape]
        rfl
      · simp only [List.singleton_append, escapeLength, if_neg plain, List.length_singleton]
      · simp only [List.singleton_append, escapeValue, if_neg plain]

/-! ## Names -/

theorem startsEscape_of_head {text : Text} (other : text.head? ≠ some '\\') :
    startsEscape text = false := by
  unfold startsEscape
  split
  · exact absurd rfl other
  · exact absurd rfl other
  · rfl

theorem slash_of_startsEscape {c : Char} {rest : Text} (escape : startsEscape (c :: rest) = true) :
    c = '\\' := by
  by_contra other
  rw [startsEscape_of_head (by simpa using other)] at escape
  contradiction

theorem startsEscape_afterAtom (text : Text) : startsEscape (afterAtom text) = startsEscape text := by
  by_cases slash : text.head? = some '\\'
  · rcases List.head?_eq_some_iff.mp slash with ⟨rest, rfl⟩
    cases rest with
    | nil => rw [afterAtom_slash]
    | cons c more =>
      rw [afterAtom_escape]
      rfl
  · rw [startsEscape_of_head slash, startsEscape_of_head]
    intro same
    rcases List.head?_eq_some_iff.mp same with ⟨rest, found⟩
    rcases eq_cons_of_afterAtom found (by decide) with ⟨before, rfl, -⟩
    exact slash rfl

theorem nameLength_eq_zero_iff (text : Text) :
    nameLength text = 0 ↔ text.head?.any isNameChar = false ∧ startsEscape text = false := by
  cases text with
  | nil => simp [nameLength, startsEscape]
  | cons c rest =>
    rw [nameLength, List.head?_cons, Option.any_some]
    cases inName : isNameChar c with
    | true => simp
    | false => cases escape : startsEscape (c :: rest) <;> simp

theorem nameLength_afterAtom_of_none {text : Text} (none : nameLength text = 0) :
    nameLength (afterAtom text) = 0 := by
  rw [nameLength_eq_zero_iff] at none ⊢
  exact ⟨head?_any_afterAtom_of rfl none.1, (startsEscape_afterAtom text).trans none.2⟩

theorem nameLength_escape {rest : Text} (escape : startsEscape ('\\' :: rest) = true) :
    nameLength ('\\' :: rest) =
      1 + escapeLength rest + nameLength (rest.drop (escapeLength rest)) := by
  have noName : ¬isNameChar '\\' = true := by decide
  rw [nameLength, if_neg noName, if_pos escape]

/-- The characters of a name that begins with an escape. -/
theorem resolve_escape_take (rest : Text) (count : Nat) :
    resolve ('\\' :: rest.take (escapeLength rest + count)) =
      escapeValue rest :: resolve ((rest.drop (escapeLength rest)).take count) := by
  have size : escapeLength (rest.take (escapeLength rest + count)) = escapeLength rest := by
    rw [escapeLength_take]
    omega
  rw [resolve, if_pos (beq_self_eq_true _), size, escapeValue_take (Nat.le_add_right _ _), List.drop_take,
    Nat.add_sub_cancel_left]

/-! ### Steady texts -/

theorem isSteady_cons {c : Char} (noSlash : c ≠ '\\') (noMark : c ≠ '/') (rest : Text) :
    isSteady (c :: rest) = ((!isWhite c || isBlank c) && isSteady rest) := by
  rw [isSteady, if_neg (by simpa using noSlash), beq_eq_false_iff_ne.mpr noMark, Bool.false_and,
    Bool.not_false, Bool.and_true]

/-- Atoms of one character and blanks are steady, so what follows them decides. -/
theorem isSteady_append {plain : Text} (each : ∀ c ∈ plain, isAtom c = true ∨ isBlank c = true)
    (rest : Text) : isSteady (plain ++ rest) = isSteady rest := by
  induction plain with
  | nil => rfl
  | cons c more ih =>
    have seen : (!isWhite c || isBlank c) = true := by
      rcases each c List.mem_cons_self with atom | blank
      · rw [isWhite_of_atom atom]
        rfl
      · rw [blank, Bool.or_true]
    have other (mark : Char) (noAtom : isAtom mark = false) (noBlank : isBlank mark = false) :
        c ≠ mark := by
      rcases each c List.mem_cons_self with atom | blank
      · exact ne_of_class atom noAtom
      · exact ne_of_class blank noBlank
    rw [List.cons_append, isSteady_cons (other '\\' rfl rfl) (other '/' rfl rfl), seen,
      ih fun d met => each d (List.mem_cons_of_mem _ met), Bool.true_and]

theorem endsInDigits_append {plain : Text} (atoms : ∀ c ∈ plain, isAtom c = true) (rest : Text) :
    endsInDigits (plain ++ rest) = endsInDigits rest := by
  induction plain with
  | nil => rfl
  | cons c more ih =>
    have noSlash : ¬(c == '\\') = true := by
      rw [beq_iff_eq]
      exact ne_of_class (atoms c List.mem_cons_self) rfl
    rw [List.cons_append, endsInDigits, if_neg noSlash,
      ih fun d met => atoms d (List.mem_cons_of_mem _ met)]

/-- An escape is steady, so what follows it decides. -/
theorem isSteady_escape {rest : Text} (some : rest ≠ []) (count : Nat) :
    isSteady ('\\' :: rest.take (escapeLength rest + count)) =
      isSteady ((rest.drop (escapeLength rest)).take count) := by
  cases rest with
  | nil => contradiction
  | cons c more =>
    have plain := escape_tail c more
    obtain ⟨size, same⟩ := Nat.exists_eq_add_of_lt (escapeLength_pos c more)
    rw [Nat.zero_add] at same
    rw [same, Nat.add_sub_cancel] at plain
    rw [same, Nat.add_right_comm, List.take_succ_cons, isSteady, if_pos (beq_self_eq_true _),
      List.drop_succ_cons, List.drop_zero, List.take_add,
      isSteady_append fun d met => (plain d met).imp_left isAtom_of_hexDigit, List.drop_succ_cons]

theorem endsInDigits_escape {rest : Text} (count : Nat) :
    endsInDigits ('\\' :: rest.take (escapeLength rest + count)) =
      if ((rest.drop (escapeLength rest)).take count).isEmpty then
        (rest.take (escapeLength rest + count)).head?.any isHexDigit
      else endsInDigits ((rest.drop (escapeLength rest)).take count) := by
  have size : escapeLength (rest.take (escapeLength rest + count)) = escapeLength rest := by
    rw [escapeLength_take]
    omega
  rw [endsInDigits, if_pos (beq_self_eq_true _), size, List.drop_take, Nat.add_sub_cancel_left]

/-- How the name at the front of a text is read again, and what is left behind it. -/
structure NameKept (text : Text) : Prop where
  behind : (afterAtom text).drop (nameLength (afterAtom text)) =
    afterAtom (text.drop (nameLength text))
  resolved : resolve ((afterAtom text).take (nameLength (afterAtom text))) =
    resolve (text.take (nameLength text))
  begins : ((afterAtom text).take (nameLength (afterAtom text))).take 2 =
    (text.take (nameLength text)).take 2

namespace NameKept

variable {c : Char} {rest text : Text}

theorem of_none (none : nameLength text = 0) : NameKept text := by
  have again := nameLength_afterAtom_of_none none
  refine ⟨?_, ?_, ?_⟩
  · rw [none, again, List.drop_zero, List.drop_zero]
  · rw [none, again, List.take_zero, List.take_zero]
  · rw [none, again, List.take_zero, List.take_zero]

theorem cons (inName : isNameChar c = true) (seen : isWhite c = false) (later : NameKept rest) :
    NameKept (c :: rest) := by
  have noSlash : ¬(c == '\\') = true := by
    rw [beq_iff_eq]
    exact ne_of_class inName (by decide)
  have size (rest : Text) : nameLength (c :: rest) = nameLength rest + 1 := by
    rw [nameLength, if_pos inName, Nat.add_comm]
  have name (rest : Text) : (c :: rest).take (nameLength (c :: rest)) =
      c :: rest.take (nameLength rest) := by
    rw [size, List.take_succ_cons]
  have again (name : Text) : resolve (c :: name) = withoutNul c :: resolve name := by
    rw [resolve, if_neg noSlash]
  have two (name : Text) : (c :: name).take 2 = c :: (name.take 2).take 1 := by
    rw [List.take_succ_cons, List.take_take]
    rfl
  have shape := afterAtom_cons_of_atom (isAtom_of_nameChar inName seen) rest
  refine ⟨?_, ?_, ?_⟩
  · rw [shape, size, size, List.drop_succ_cons, List.drop_succ_cons, later.behind]
  · rw [shape, name, name, again, again, later.resolved]
  · rw [shape, name, name, two, two, later.begins]

theorem escape (escape : startsEscape ('\\' :: rest) = true) (some : rest ≠ [])
    (clear : rest.head?.any isHexDigit = true →
      gapLength (rest.drop (escapeLength rest)) = 0 ∨ skipGap (rest.drop (escapeLength rest)) = [])
    (later : NameKept (rest.drop (escapeLength rest))) : NameKept ('\\' :: rest) := by
  rcases escape_afterAtom some clear with ⟨spelled, begins, shape, size, value⟩
  have again : startsEscape (afterAtom ('\\' :: rest)) = true :=
    (startsEscape_afterAtom _).trans escape
  rw [shape] at again
  have left : (spelled ++ afterAtom (rest.drop (escapeLength rest))).drop spelled.length =
      afterAtom (rest.drop (escapeLength rest)) := List.drop_left
  have filled (rest : Text) (count : Nat) (some : rest ≠ []) :
      ('\\' :: rest.take (escapeLength rest + count)).take 2 = '\\' :: rest.head?.toList := by
    cases rest with
    | nil => contradiction
    | cons c more =>
      obtain ⟨room, same⟩ := Nat.exists_eq_add_of_lt (escapeLength_pos c more)
      rw [same, Nat.zero_add, Nat.add_right_comm]
      rfl
  have name (rest : Text) (escape : startsEscape ('\\' :: rest) = true) :
      ('\\' :: rest).take (nameLength ('\\' :: rest)) =
        '\\' :: rest.take (escapeLength rest + nameLength (rest.drop (escapeLength rest))) := by
    rw [nameLength_escape escape, Nat.add_assoc, Nat.add_comm 1, List.take_succ_cons]
  have behind (rest : Text) (escape : startsEscape ('\\' :: rest) = true) :
      ('\\' :: rest).drop (nameLength ('\\' :: rest)) =
        (rest.drop (escapeLength rest)).drop (nameLength (rest.drop (escapeLength rest))) := by
    rw [nameLength_escape escape, Nat.add_assoc, Nat.add_comm 1, List.drop_succ_cons, List.drop_drop]
  refine ⟨?_, ?_, ?_⟩
  · rw [shape, behind _ again, behind _ escape, size, left, later.behind]
  · rw [shape, name _ again, name _ escape, resolve_escape_take, resolve_escape_take, size, left,
      value, later.resolved]
  · have head : (spelled ++ afterAtom (rest.drop (escapeLength rest))).head? = rest.head? := by
      cases rest with
      | nil => contradiction
      | cons c more =>
        rcases List.head?_eq_some_iff.mp begins with ⟨others, rfl⟩
        rfl
    have both : spelled ++ afterAtom (rest.drop (escapeLength rest)) ≠ [] := by
      intro none
      rw [none] at head
      exact some (List.head?_eq_none_iff.mp head.symm)
    rw [shape, name _ again, name _ escape, filled _ _ both, filled _ _ some, head]

end NameKept

/-- A steady name does not begin with a gap. -/
theorem nameLength_of_gap {text : Text} (gap : gapLength text ≠ 0)
    (steady : isSteady (text.take (nameLength text)) = true) : nameLength text = 0 := by
  cases text with
  | nil => contradiction
  | cons c rest =>
    by_cases white : isWhite c = true
    · have noSlash : c ≠ '\\' := ne_of_class white (by decide)
      have noMark : c ≠ '/' := ne_of_class white (by decide)
      rw [nameLength_eq_zero_iff]
      refine ⟨?_, startsEscape_of_head (by simpa using noSlash)⟩
      rw [List.head?_cons, Option.any_some, Bool.eq_false_iff]
      intro inName
      rw [nameLength, if_pos inName, Nat.add_comm, List.take_succ_cons, isSteady_cons noSlash noMark,
        white, isBlank_of_nameChar inName] at steady
      contradiction
    · have slash : c = '/' := by
        by_contra other
        rw [ne_eq, gapLength_eq_zero_iff] at gap
        exact gap ⟨by simpa using white, fun same => absurd same other⟩
      rw [nameLength_eq_zero_iff, slash]
      exact ⟨rfl, startsEscape_of_head (by simp)⟩

theorem NameKept.slash : NameKept ['\\'] := by
  have one : nameLength ['\\'] = 1 := by
    have nothing : escapeLength [] = 0 := rfl
    rw [nameLength_escape rfl, nothing, List.drop_nil, nameLength]
  refine ⟨?_, ?_, ?_⟩
  · rw [afterAtom_slash, one]
    exact afterAtom_nil.symm
  · rw [afterAtom_slash]
  · rw [afterAtom_slash]

/-- Some characters at the front are steady, and a gap does not become part of them. -/
structure Firm (count : Nat) (text : Text) : Prop where
  steady : isSteady (text.take count) = true
  closed : endsInDigits (text.take count) = true →
    gapLength (text.drop count) = 0 ∨ skipGap (text.drop count) = []

theorem Firm.behind {count more : Nat} {text : Text} (firm : Firm (count + more) text)
    (solid : Solid count text) : Firm more (text.drop count) := by
  have steady := firm.steady
  have closed := firm.closed
  rw [List.take_add, isSteady_append fun c met => .inl (solid.2 c met)] at steady
  rw [List.take_add, endsInDigits_append solid.2, ← List.drop_drop] at closed
  exact ⟨steady, closed⟩

/-- A firm name is read again. -/
theorem nameKept {text : Text} (firm : Firm (nameLength text) text) : NameKept text := by
  rcases firm with ⟨steady, closed⟩
  fun_induction nameLength text with
  | case1 => exact .of_none (by rw [nameLength])
  | case2 c rest inName ih =>
    have noSlash : c ≠ '\\' := ne_of_class inName (by decide)
    have noMark : c ≠ '/' := ne_of_class inName (by decide)
    rw [Nat.add_comm, List.take_succ_cons] at steady closed
    rw [List.drop_succ_cons, endsInDigits, if_neg (by simpa using noSlash)] at closed
    rw [isSteady_cons noSlash noMark, isBlank_of_nameChar inName, Bool.or_false, Bool.and_eq_true,
      Bool.not_eq_true'] at steady
    exact .cons inName steady.1 (ih steady.2 closed)
  | case3 c rest outside escape ih =>
    have slash := slash_of_startsEscape escape
    subst slash
    by_cases nothing : rest = []
    · subst nothing
      exact .slash
    · rw [Nat.add_assoc, Nat.add_comm, List.take_succ_cons] at steady closed
      rw [isSteady_escape nothing] at steady
      rw [endsInDigits_escape, List.drop_succ_cons, ← List.drop_drop] at closed
      have later : NameKept (rest.drop (escapeLength rest)) := by
        apply ih steady
        intro ends
        apply closed
        rw [if_neg]
        · exact ends
        · intro empty
          rw [List.isEmpty_iff.mp empty, endsInDigits] at ends
          contradiction
      apply NameKept.escape escape nothing _ later
      intro hex
      by_cases gap : gapLength (rest.drop (escapeLength rest)) = 0
      · exact .inl gap
      · have none := nameLength_of_gap gap steady
        rw [none, List.take_zero, List.drop_zero] at closed
        apply closed
        cases rest with
        | nil => contradiction
        | cons c more =>
          obtain ⟨size, same⟩ := Nat.exists_eq_add_of_lt (escapeLength_pos c more)
          rw [same, Nat.zero_add]
          exact hex
  | case4 c rest outside noEscape =>
    apply NameKept.of_none
    rw [nameLength, if_neg outside, if_neg noEscape]

/-! ### What follows a name -/

/-- A name is the same name when only what follows it is cut off. -/
theorem nameLength_take {text : Text} (ends : (text.drop (nameLength text)).head? ≠ some '\\')
    (count : Nat) : nameLength (text.take (nameLength text + count)) = nameLength text := by
  fun_induction nameLength text with
  | case1 => rw [List.take_nil, nameLength]
  | case2 c rest inName ih =>
    rw [Nat.add_comm, List.drop_succ_cons] at ends
    rw [Nat.add_assoc, Nat.add_comm, List.take_succ_cons, nameLength, if_pos inName, ih ends]
  | case3 c rest outside escape ih =>
    have slash := slash_of_startsEscape escape
    subst slash
    rw [Nat.add_assoc, Nat.add_comm, List.drop_succ_cons, ← List.drop_drop] at ends
    rw [Nat.add_assoc, Nat.add_assoc, Nat.add_comm, List.take_succ_cons]
    by_cases nothing : rest = []
    · subst nothing
      rw [List.take_nil, nameLength_escape rfl]
    · have size : escapeLength (rest.take
          (escapeLength rest + (nameLength (rest.drop (escapeLength rest)) + count))) =
          escapeLength rest := by
        rw [escapeLength_take]
        omega
      have again : startsEscape ('\\' :: rest.take
          (escapeLength rest + (nameLength (rest.drop (escapeLength rest)) + count))) = true := by
        cases rest with
        | nil => contradiction
        | cons d more =>
          obtain ⟨further, same⟩ := Nat.exists_eq_add_of_lt (escapeLength_pos d more)
          rw [same, Nat.zero_add, Nat.add_right_comm, List.take_succ_cons]
          exact escape
      rw [nameLength_escape again, size, List.drop_take, Nat.add_sub_cancel_left, ih ends,
        Nat.add_assoc]
  | case4 c rest outside noEscape =>
    rw [Nat.zero_add]
    cases count with
    | zero => rw [List.take_zero, nameLength]
    | succ count =>
      rw [List.take_succ_cons, nameLength_eq_zero_iff]
      exact ⟨Bool.eq_false_iff.mpr outside, startsEscape_of_head ends⟩

/-- What follows a name in a steady text is steady. -/
theorem isSteady_behind_name {text : Text} {count : Nat}
    (steady : isSteady (text.take (nameLength text + count)) = true) :
    isSteady ((text.drop (nameLength text)).take count) = true := by
  fun_induction nameLength text with
  | case1 => rw [List.drop_nil, List.take_nil, isSteady]
  | case2 c rest inName ih =>
    rw [Nat.add_assoc, Nat.add_comm, List.take_succ_cons,
      isSteady_cons (ne_of_class inName rfl) (ne_of_class inName rfl), Bool.and_eq_true] at steady
    rw [Nat.add_comm, List.drop_succ_cons]
    exact ih steady.2
  | case3 c rest outside escape ih =>
    have slash := slash_of_startsEscape escape
    subst slash
    rw [Nat.add_assoc 1, Nat.add_comm, List.drop_succ_cons, ← List.drop_drop]
    by_cases nothing : rest = []
    · subst nothing
      rw [List.drop_nil, List.drop_nil, List.take_nil, isSteady]
    · rw [Nat.add_assoc, Nat.add_assoc, Nat.add_comm, List.take_succ_cons,
        isSteady_escape nothing] at steady
      exact ih steady
  | case4 c rest outside noEscape =>
    rw [Nat.zero_add] at steady
    exact steady

theorem isSteady_take {text : Text} (steady : isSteady text = true) (count : Nat) :
    isSteady (text.take count) = true := by
  fun_induction isSteady text generalizing count with
  | case1 => rw [List.take_nil, isSteady]
  | case2 c rest slash ih =>
    cases count with
    | zero => rw [List.take_zero, isSteady]
    | succ count =>
      rw [List.take_succ_cons, isSteady, if_pos slash, List.drop_take]
      exact ih steady (count - 1)
  | case3 c rest noSlash ih =>
    cases count with
    | zero => rw [List.take_zero, isSteady]
    | succ count =>
      rw [Bool.and_eq_true, Bool.and_eq_true, Bool.not_eq_true'] at steady
      rw [List.take_succ_cons, isSteady, if_neg noSlash, ih steady.2 count, steady.1.1]
      cases count with
      | zero => simp
      | succ count =>
        rw [List.head?_take, if_neg (Nat.succ_ne_zero count), steady.1.2]
        rfl

end Swatch.Css
