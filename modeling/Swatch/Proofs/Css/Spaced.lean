import Swatch.Proofs.Css.Spelling

/-!
# A space behind a text

Between the end of a text and a stop, one space makes little difference. It is a token by
itself, or it is taken by the last token, because that token is a run of blanks or ends
with the digits of an escape. All other tokens stay as they are, and the last one keeps
its kind. So a whole text with a space behind it is whole.
-/

namespace Swatch.Css

/-- Reading that goes on to the end of a text may go on by one more character. -/
def Extends (text : Text) (found more : TokenKind × Nat) : Prop :=
  more = found ∨ found.2 = text.length ∧ more = (found.1, text.length + 1)

section Readers

variable {c : Char} {rest : Text}

/-! ## Names -/

theorem startsEscape_space (text rest : Text) :
    startsEscape (text ++ ' ' :: rest) = startsEscape text := by
  match text with
  | [] => rfl
  | [first] =>
    by_cases slash : first = '\\'
    · subst slash
      rfl
    · simp [startsEscape, slash]
  | first :: second :: more => exact startsEscape_cons_append (List.cons_ne_nil second more) first _

theorem startsName_space (text rest : Text) :
    startsName (text ++ ' ' :: rest) = startsName text := by
  match text with
  | [] => rfl
  | [first] =>
    by_cases dash : first = '-'
    · subst dash
      rfl
    · have escape := startsEscape_space [first] rest
      rw [List.singleton_append] at escape
      simp [startsName, dash, escape]
  | first :: second :: more =>
    by_cases dash : first = '-'
    · simp [startsName, dash]
    · have escape := startsEscape_space (first :: second :: more) rest
      simp only [List.cons_append] at escape
      simp [startsName, dash, escape]

theorem startsHashName_space (text rest : Text) :
    startsHashName (text ++ ' ' :: rest) = startsHashName text := by
  cases text with
  | nil => rfl
  | cons first more =>
    have name := startsName_space (first :: more) rest
    rw [List.cons_append] at name ⊢
    rw [startsHashName, name, startsHashName]

theorem closingBlankLength_space {text : Text} (some : text ≠ []) (rest : Text) :
    closingBlankLength (text ++ ' ' :: rest) = closingBlankLength text := by
  match text with
  | [] => contradiction
  | [first] => simp [closingBlankLength]
  | first :: second :: more =>
    by_cases pair : first = '\r' ∧ second = '\n' <;> simp_all [closingBlankLength]

theorem halted_space (rest : Text) : Halted (' ' :: rest) := rfl

/-- The digits of an escape at the end of a text take the space. -/
theorem escapeLength_space {text : Text} (some : text ≠ []) (rest : Text) :
    escapeLength (text ++ ' ' :: rest) = escapeLength text ∨
      escapeLength text = text.length ∧
        escapeLength (text ++ ' ' :: rest) = text.length + 1 := by
  cases text with
  | nil => contradiction
  | cons first more =>
    have digits := escapeDigits_append (first :: more) (halted_space rest)
    have within := escapeDigits_length_le (first :: more)
    rw [List.cons_append] at digits ⊢
    simp only [escapeLength, digits]
    rw [← List.cons_append, List.drop_append_of_le_length within]
    by_cases hex : isHexDigit first = true
    · rw [if_pos hex, if_pos hex]
      by_cases all : (first :: more).drop (escapeDigits (first :: more)).length = []
      · have size : (escapeDigits (first :: more)).length = (first :: more).length :=
          Nat.le_antisymm within (List.drop_eq_nil_iff.mp all)
        have taken : closingBlankLength (' ' :: rest) = 1 := rfl
        rw [all, List.nil_append, taken, size]
        exact .inr ⟨rfl, rfl⟩
      · rw [closingBlankLength_space all]
        exact .inl rfl
    · rw [if_neg hex, if_neg hex]
      exact .inl rfl

theorem nameLength_of_stop (stop : isStop c = true) (rest : Text) : nameLength (c :: rest) = 0 := by
  have noSlash : c ≠ '\\' := ne_of_stop stop _ (by decide)
  simp [nameLength, isNameChar_of_stop stop, startsEscape, noSlash]

theorem nameLength_space (text : Text) (stop : isStop c = true) (rest : Text) :
    nameLength (text ++ ' ' :: c :: rest) = nameLength text ∨
      nameLength text = text.length ∧
        nameLength (text ++ ' ' :: c :: rest) = text.length + 1 := by
  fun_induction nameLength text with
  | case1 => exact .inl (by rw [List.nil_append, nameLength]; rfl)
  | case2 first more inName ih =>
    rw [List.cons_append, nameLength, if_pos inName, List.length_cons]
    omega
  | case3 first more notName escape ih =>
    have same := startsEscape_space (first :: more) (c :: rest)
    rw [List.cons_append, nameLength, if_neg notName, ← List.cons_append, same, if_pos escape,
      List.length_cons]
    cases more with
    | nil =>
      right
      have hidden : escapeLength (' ' :: c :: rest) = 1 := rfl
      have nothing : escapeLength [] = 0 := rfl
      rw [List.nil_append, hidden, List.drop_succ_cons, List.drop_zero, nameLength_of_stop stop,
        nothing, List.drop_nil, nameLength]
      exact ⟨rfl, rfl⟩
    | cons second more =>
      have within := escapeLength_le (second :: more)
      rcases escapeLength_space (List.cons_ne_nil second more) (c :: rest) with short | ⟨all, longer⟩
      · rw [short, List.drop_append_of_le_length within]
        rw [List.length_drop] at ih
        omega
      · right
        have behind : (second :: more ++ ' ' :: c :: rest).drop ((second :: more).length + 1) =
            c :: rest := by
          rw [List.drop_length_add_append]
          rfl
        rw [longer, behind, nameLength_of_stop stop, all, List.drop_length, nameLength]
        omega
  | case4 first more notName noEscape =>
    left
    rw [List.cons_append, nameLength, if_neg notName, ← List.cons_append, startsEscape_space,
      if_neg noEscape]

/-! ## Numbers and uses of names -/

theorem numeric_space (text : Text) (stop : isStop c = true) (rest : Text) :
    Extends text (numeric text) (numeric (text ++ ' ' :: c :: rest)) := by
  have within := (numberLength_parts text).2.2.2
  have percent : ((text.drop (numberLength text) ++ ' ' :: c :: rest).head? == some '%') =
      ((text.drop (numberLength text)).head? == some '%') :=
    head?_append_headed _ (halted_space (c :: rest)) (by decide)
  simp only [numeric, numberLength_append text (halted_space (c :: rest)),
    List.drop_append_of_le_length within, percent, startsName_space]
  split
  · exact .inl rfl
  · split
    · have size := List.length_drop (i := numberLength text) (l := text)
      rcases nameLength_space (text.drop (numberLength text)) stop rest with same | ⟨all, longer⟩
      · left
        rw [same]
      · right
        simp only [longer, all, size, Prod.mk.injEq, true_and]
        omega
    · exact .inl rfl

theorem named_space (text : Text) (stop : isStop c = true)
    (closed : (named (text ++ c :: rest)).2 ≤ text.length) :
    Extends text (named text) (named (text ++ ' ' :: c :: rest)) := by
  have fits := Nat.le_trans (nameLength_le_named (text ++ c :: rest)) closed
  have size := nameLength_append text stop fits (stopped_cons stop rest)
  have within := nameLength_le text
  simp only [named, size, List.drop_append_of_le_length within,
    List.take_append_of_le_length within] at closed
  rcases nameLength_space text stop rest with same | ⟨all, longer⟩
  · left
    simp only [named, same, List.drop_append_of_le_length within,
      List.take_append_of_le_length within]
    cases left : text.drop (nameLength text) with
    | nil => simp
    | cons first more =>
      by_cases bracket : first = '('
      · subst bracket
        rw [left] at closed
        simp only [List.cons_append] at closed ⊢
        split
        · rename_i address
          rw [if_pos address] at closed
          have room := congrArg List.length left
          simp only [List.length_drop, List.length_cons] at room
          have inside : ∀ found, addressAfterOpening (more ++ c :: rest) = some found →
              found.2 ≤ more.length := by
            intro found opened
            rw [opened] at closed
            simp only at closed
            omega
          rw [addressAfterOpening_append more stop inside]
        · rfl
      · simp [bracket]
  · right
    have noBracket : c ≠ '(' := ne_of_stop stop _ (by decide)
    have behind : (text ++ ' ' :: c :: rest).drop (text.length + 1) = c :: rest := by
      rw [List.drop_length_add_append]
      rfl
    simp [named, longer, behind, all, noBracket]

/-! ## Tokens -/

theorem blankLength_space (text : Text) (stop : isStop c = true) (rest : Text) :
    blankLength (text ++ ' ' :: c :: rest) = blankLength text ∨
      blankLength text = text.length ∧
        blankLength (text ++ ' ' :: c :: rest) = text.length + 1 := by
  by_cases inside : blankLength text < text.length
  · exact .inl (blankLength_append_of_lt inside _)
  · right
    have all : (text.takeWhile isBlank).length = text.length :=
      Nat.le_antisymm (blankLength_le text) (Nat.not_lt.mp inside)
    have space : isBlank ' ' = true := rfl
    refine ⟨all, ?_⟩
    have black : ¬isBlank c = true := by
      rw [isBlank_of_stop stop]
      exact Bool.false_ne_true
    rw [blankLength, List.takeWhile_append, if_pos all, List.takeWhile_cons_of_pos space,
      List.takeWhile_cons_of_neg black, List.length_append]
    rfl

theorem readerOf_space (first : Char) (text rest : Text) :
    readerOf first (text ++ ' ' :: rest) = readerOf first text := by
  have space : Headed isBlank (' ' :: rest) := rfl
  have mark (mark : Text) (plain : mark.all (fun c => !isBlank c) = true) :=
    isPrefixOf_append mark plain (first :: text) space
  have number := startsNumber_append (first :: text) (halted_space rest)
  have name := startsName_space (first :: text) rest
  have equals := head?_append_headed text space (show isBlank '=' = false by decide)
  simp only [List.cons_append] at mark number name
  unfold readerOf
  simp only [mark "/*".toList (by decide), mark "<!--".toList (by decide),
    mark "-->".toList (by decide), number, name, startsHashName_space, startsName_space, equals]

/-- A space between a token that ends there and a stop. -/
theorem lexeme_space (first : Char) (text : Text) (stop : isStop c = true)
    (closed : (lexeme first (text ++ c :: rest)).2 ≤ text.length + 1) :
    Extends (first :: text) (lexeme first text) (lexeme first (text ++ ' ' :: c :: rest)) := by
  rw [lexeme_eq_read, readerOf_append first text (stopped_cons stop rest)] at closed
  rw [lexeme_eq_read, lexeme_eq_read, readerOf_space]
  have behind {kind : TokenKind} {short long : Nat}
      (grown : long = short ∨ short = text.length ∧ long = text.length + 1) :
      Extends (first :: text) (kind, 1 + short) (kind, 1 + long) := by
    rcases grown with rfl | ⟨rfl, rfl⟩
    · exact .inl rfl
    · exact .inr ⟨Nat.add_comm 1 _, by simp [Nat.add_comm]⟩
  cases reader : readerOf first text with
  | fixed kind size => exact .inl rfl
  | blanks => exact behind (blankLength_space text stop rest)
  | string =>
    rw [reader] at closed
    exact .inl (Reader.read_string_append first text stop closed _)
  | comment =>
    rw [reader] at closed
    exact .inl (Reader.read_comment_append reader stop closed _)
  | number =>
    rw [Reader.read, Reader.read]
    exact numeric_space (first :: text) stop rest
  | name =>
    rw [reader, Reader.read] at closed
    rw [Reader.read, Reader.read]
    exact named_space (first :: text) stop closed
  | marked kind => exact behind (nameLength_space text stop rest)

/-- The tokens before a stop keep their kinds when a space is put before it. -/
theorem tokenize_space {text : Text} {line : Nat} {front back : List Token} (stop : isStop c = true)
    (cut : tokenize line (text ++ c :: rest) = front ++ back) (spelled : source front = text) :
    ∃ head later, tokenize line (text ++ ' ' :: c :: rest) = head ++ tokenize later (c :: rest) ∧
      source head = text ++ [' '] ∧
      (head.map Token.kind = front.map Token.kind ∨
        head.map Token.kind = front.map Token.kind ++ [.blank]) := by
  induction front generalizing line text with
  | nil =>
    subst spelled
    have noBlank : ¬isBlank c = true := by
      rw [isBlank_of_stop stop]
      exact Bool.false_ne_true
    refine ⟨[⟨.blank, [' '], line⟩], line + lineEnds [' '], ?_, rfl, .inr rfl⟩
    rw [source_nil, List.nil_append, tokenize_blank rfl, List.takeWhile_cons_of_neg noBlank,
      List.dropWhile_cons_of_neg noBlank]
    rfl
  | cons token front ih =>
    obtain ⟨first, more, rfl, same, closed, fits, later, remains⟩ := cut_cons stop cut spelled
    rw [List.cons_append, tokenize_cons]
    -- Either the token ends before the space and the others are read as before, or it takes the
    -- space; then it was the last token before the stop.
    rcases lexeme_space first more stop closed with short | ⟨all, longer⟩
    · obtain ⟨head, after, tokens, spelling, kinds⟩ := ih later remains
      refine ⟨token :: head, after, ?_, ?_, ?_⟩
      · rw [short, List.take_append_of_le_length fits, List.drop_append_of_le_length fits,
          List.cons_append, ← tokens, same]
      · rw [source_cons, spelling, same, ← List.append_assoc, List.cons_append,
          List.take_append_drop]
      · rw [List.map_cons, List.map_cons, List.cons_append, List.cons_inj_right, List.cons_inj_right]
        exact kinds
    · have size : (lexeme first more).2 - 1 = more.length := by
        rw [all]
        rfl
      have last : front = [] := by
        apply eq_nil_of_source_eq_nil
        · intro other met
          have among := List.mem_append_left back met
          rw [← later] at among
          exact spelled_of_mem_tokenize among
        · rw [remains, size, List.drop_length]
      have taken : (more ++ ' ' :: c :: rest).take (more.length + 1) = more ++ [' '] := by
        rw [List.take_length_add_append]
        rfl
      have left : (more ++ ' ' :: c :: rest).drop (more.length + 1) = c :: rest := by
        rw [List.drop_length_add_append]
        rfl
      rw [longer, List.length_cons, Nat.add_sub_cancel, taken, left, last]
      refine ⟨[_], _, rfl, ?_, .inl ?_⟩
      · rw [source_cons, source_nil, List.append_nil, List.cons_append]
      · rw [same]
        rfl

end Readers

/-! ## Whole texts -/

/-- A test that looks at nothing but the kind of a token. -/
def OfKind (test : Token → Bool) : Prop :=
  ∀ token other : Token, token.kind = other.kind → test token = test other

theorem foldl_nest_of_kinds {tokens others : List Token}
    (same : tokens.map Token.kind = others.map Token.kind) (stack : List Bracket) :
    tokens.foldl nest stack = others.foldl nest stack := by
  induction tokens generalizing others stack with
  | nil => rw [List.map_eq_nil_iff.mp same.symm]
  | cons token rest ih =>
    obtain ⟨other, more, rfl, kind, kinds⟩ := List.map_eq_cons_iff.mp same.symm
    rw [List.foldl_cons, List.foldl_cons, nest_of_kind kind.symm, ih kinds.symm]

theorem uncut_of_kinds {test : Token → Bool} (ofKind : OfKind test) {tokens others : List Token}
    (same : tokens.map Token.kind = others.map Token.kind) {stack : List Bracket}
    (uncut : (cutAt test stack others).2 = []) : (cutAt test stack tokens).2 = [] := by
  induction tokens generalizing others stack with
  | nil => rfl
  | cons token rest ih =>
    obtain ⟨other, more, rfl, kind, kinds⟩ := List.map_eq_cons_iff.mp same.symm
    rw [uncut_cons_iff, ofKind token other kind.symm, nest_of_kind kind.symm]
    rcases uncut_cons_iff.mp uncut with ⟨goesOn, later⟩
    exact ⟨goesOn, ih kinds.symm later⟩

/-- A space behind a whole text leaves it whole. -/
theorem Whole.append_space {test : Token → Bool} {text : Text} (whole : Whole test text)
    (ofKind : OfKind test) (passes : ∀ line spelling, test ⟨.blank, spelling, line⟩ = false) :
    Whole test (text ++ [' ']) := by
  have stop : isStop ';' = true := rfl
  have cut := tokenize_append whole.detached 0 (stopped_cons stop [])
  obtain ⟨head, later, spaced, spelled, kinds⟩ := tokenize_space stop cut (source_tokenize 0 text)
  rw [← List.singleton_append, ← List.append_assoc] at spaced
  have alike : ∃ others : List Token, others.foldl nest [] = [] ∧ (cutAt test [] others).2 = [] ∧
      head.map Token.kind = others.map Token.kind := by
    rcases kinds with same | more
    · exact ⟨tokenize 0 text, whole.balanced, whole.uncut, same⟩
    · refine ⟨tokenize 0 text ++ [⟨.blank, [' '], 0⟩], ?_, ?_, ?_⟩
      · rw [List.foldl_append, whole.balanced]
        rfl
      · apply uncut_append whole.uncut
        rw [whole.balanced, cutAt, passes]
        rfl
      · rw [more, List.map_append]
        rfl
  obtain ⟨others, balanced, uncut, same⟩ := alike
  have tokens := (eq_tokenize_of_cut stop spaced spelled).1
  refine ⟨isDetached_of_cut stop spaced spelled, ?_, ?_⟩
  · rw [← tokens, foldl_nest_of_kinds same, balanced]
  · rw [← tokens]
    exact uncut_of_kinds ofKind same uncut

end Swatch.Css
