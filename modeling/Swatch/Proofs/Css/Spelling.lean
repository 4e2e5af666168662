import Swatch.Proofs.Css.Whole

/-!
# How tokens are spelled

The kind of a token says how its text begins, and for punctuation it says the
whole text. Since the tokens of a text spell the text, a place between two
tokens is a place in the text.
-/

namespace Swatch.Css

/-- What the kind of a token says about its text, from the first character and the length. -/
def Spells (first : Char) (length : Nat) : TokenKind → Prop
  | .blank => isBlank first = true
  | .comment => first = '/'
  | .atKeyword => first = '@'
  | .identifier => isNameChar first = true ∨ first = '\\'
  | .opening bracket => punctuation first = some (.opening bracket) ∧ length = 1
  | .closing bracket => punctuation first = some (.closing bracket) ∧ length = 1
  | .colon => first = ':' ∧ length = 1
  | .semicolon => first = ';' ∧ length = 1
  | .comma => first = ',' ∧ length = 1
  | .hideOpen => first = '<'
  | .hideClose => first = '-'
  | _ => True

theorem spells_of_punctuation {first : Char} {kind : TokenKind}
    (known : punctuation first = some kind) : Spells first 1 kind := by
  have again := known
  unfold punctuation at known
  split at known <;> first | contradiction | (cases known; simp [Spells, again])

theorem stringTail_kind (quote : Char) (text : Text) :
    (stringTail quote text).1 = .string ∨ (stringTail quote text).1 = .badString := by
  fun_induction stringTail quote text with
  | case1 => exact .inl rfl
  | case2 => exact .inl rfl
  | case3 => exact .inr rfl
  | case4 c rest other stays skipped tail ih => exact ih

theorem numeric_kind (text : Text) :
    (numeric text).1 = .percentage ∨ (numeric text).1 = .dimension ∨
      (numeric text).1 = .number := by
  simp only [numeric]
  split
  · exact .inl rfl
  · split
    · exact .inr (.inl rfl)
    · exact .inr (.inr rfl)

theorem addressEnd_kind (text : Text) :
    (addressEnd text).1 = .address ∨ (addressEnd text).1 = .badAddress := by
  unfold addressEnd
  split
  · exact .inl rfl
  · split
    · exact .inl rfl
    · exact .inr rfl

theorem addressTail_kind (text : Text) :
    (addressTail text).1 = .address ∨ (addressTail text).1 = .badAddress := by
  fun_induction addressTail text with
  | case1 => exact .inl rfl
  | case2 => exact .inl rfl
  | case3 c rest stays blank blanks close => exact addressEnd_kind _
  | case4 => exact .inr rfl
  | case5 => exact .inr rfl
  | case6 c rest stays noBlank fine good skipped tail ih => exact ih

theorem named_kind (text : Text) :
    (named text).1 = .identifier ∨ (named text).1 = .function ∨ (named text).1 = .address ∨
      (named text).1 = .badAddress := by
  unfold named
  simp only
  split
  · split
    · split
      · rename_i kind length found
        simp only [addressAfterOpening] at found
        split at found
        · cases found
          exact .inr (.inr (.inl rfl))
        · split at found
          · contradiction
          · cases found
            exact .inr (.inr (addressTail_kind _))
      · exact .inr (.inl rfl)
    · exact .inr (.inl rfl)
  · exact .inl rfl

theorem nameChar_of_startsName {first : Char} {rest : Text}
    (starts : startsName (first :: rest) = true) : isNameChar first = true ∨ first = '\\' := by
  by_cases dash : first = '-'
  · exact .inl (by rw [dash]; rfl)
  · by_cases slash : first = '\\'
    · exact .inr slash
    · left
      apply isNameChar_of_nameStart
      simpa [startsName, dash, startsEscape, slash] using starts

theorem head_of_mark {mark rest : Text} {first c : Char}
    (begins : (c :: mark).isPrefixOf (first :: rest) = true) : first = c := by
  rw [List.isPrefixOf, Bool.and_eq_true, beq_iff_eq] at begins
  exact begins.1.symm

/-- The token at the front of a text is spelled as its kind says. -/
theorem spells_lexeme (first : Char) (rest : Text) :
    Spells first (lexeme first rest).2 (lexeme first rest).1 := by
  have chosen := chosen_readerOf first rest
  rw [lexeme_eq_read]
  generalize readerOf first rest = reader at chosen
  cases chosen with
  | punctuation known => exact spells_of_punctuation known
  | blanks blank => exact blank
  | string quote =>
    rw [Reader.read]
    rcases stringTail_kind first rest with kind | kind <;> rw [kind] <;> trivial
  | comment mark => exact head_of_mark mark
  | number =>
    rw [Reader.read]
    rcases numeric_kind (first :: rest) with kind | kind | kind <;> rw [kind] <;> trivial
  | hideOpen mark => exact head_of_mark mark
  | hideClose mark => exact head_of_mark mark
  | name starts =>
    rw [Reader.read]
    rcases named_kind (first :: rest) with kind | kind | kind | kind <;> rw [kind]
    · exact nameChar_of_startsName starts
    all_goals trivial
  | hash mark => trivial
  | atKeyword mark => exact mark
  | comparison noBlank equals => trivial
  | delimiter noBlank => trivial

/-- The characters that every token of the kind begins with. -/
def TokenKind.mark : TokenKind → Text
  | .comment => "/*".toList
  | .hideOpen => "<!--".toList
  | .hideClose => "-->".toList
  | _ => []

theorem mark_isPrefix_lexeme (first : Char) (rest : Text) :
    (lexeme first rest).1.mark <+: first :: rest := by
  have chosen := chosen_readerOf first rest
  rw [lexeme_eq_read]
  generalize readerOf first rest = reader at chosen
  cases chosen with
  | comment mark => exact List.isPrefixOf_iff_prefix.mp mark
  | hideOpen mark => exact List.isPrefixOf_iff_prefix.mp mark
  | hideClose mark => exact List.isPrefixOf_iff_prefix.mp mark
  | punctuation known =>
    unfold punctuation at known
    split at known <;> cases known <;> exact List.nil_prefix
  | string quote =>
    rw [Reader.read]
    rcases stringTail_kind first rest with kind | kind <;> rw [kind] <;> exact List.nil_prefix
  | number =>
    rw [Reader.read]
    rcases numeric_kind (first :: rest) with kind | kind | kind <;> rw [kind] <;>
      exact List.nil_prefix
  | name starts =>
    rw [Reader.read]
    rcases named_kind (first :: rest) with kind | kind | kind | kind <;> rw [kind] <;>
      exact List.nil_prefix
  | _ => exact List.nil_prefix

/-! ## Identifiers -/

theorem nameLength_pos {text : Text} (starts : startsName text = true) : 0 < nameLength text := by
  cases text with
  | nil => contradiction
  | cons first rest =>
    rw [nameLength]
    by_cases inName : isNameChar first = true
    · rw [if_pos inName]
      omega
    · have slash := (nameChar_of_startsName starts).resolve_left inName
      have escapes : startsEscape (first :: rest) = true := by
        simpa [startsName, slash, show isNameStart '\\' = false by decide] using starts
      rw [if_neg inName, if_pos escapes]
      omega

theorem named_identifier {text : Text} (kind : (named text).1 = .identifier) :
    (named text).2 = nameLength text := by
  unfold named at kind ⊢
  simp only at kind ⊢
  split
  · rename_i rest opens
    simp only [opens] at kind
    split at kind
    · rename_i address
      cases found : addressAfterOpening rest with
      | none => simp [found] at kind
      | some tail =>
        simp only [found] at kind
        simp only [addressAfterOpening] at found
        split at found
        · cases found
          contradiction
        · split at found
          · contradiction
          · cases found
            simp only at kind
            rcases addressTail_kind (rest.drop (blankLength rest)) with good | bad
            · rw [good] at kind
              contradiction
            · rw [bad] at kind
              contradiction
    · contradiction
  · rfl

/-- An identifier is a name, from its first character to the end of the name. -/
theorem lexeme_identifier {first : Char} {rest : Text}
    (kind : (lexeme first rest).1 = .identifier) :
    startsName (first :: rest) = true ∧ (lexeme first rest).2 = nameLength (first :: rest) := by
  have chosen := chosen_readerOf first rest
  rw [lexeme_eq_read] at kind ⊢
  generalize readerOf first rest = reader at chosen kind ⊢
  cases chosen with
  | name starts => exact ⟨starts, named_identifier kind⟩
  | punctuation known =>
    rw [Reader.read] at kind
    subst kind
    unfold punctuation at known
    split at known <;> cases known
  | string quote =>
    rw [Reader.read] at kind
    rcases stringTail_kind first rest with other | other <;> simp [other] at kind
  | number =>
    rw [Reader.read] at kind
    rcases numeric_kind (first :: rest) with other | other | other <;> simp [other] at kind
  | _ => contradiction

theorem isNameChar_of_noSlash {text : Text} (noSlash : '\\' ∉ text.take (nameLength text)) :
    ∀ c ∈ text.take (nameLength text), isNameChar c = true := by
  fun_induction nameLength text with
  | case1 => simp
  | case2 c rest inName ih =>
    rw [Nat.add_comm, List.take_succ_cons, List.mem_cons, not_or] at noSlash
    intro d met
    rw [Nat.add_comm, List.take_succ_cons] at met
    rcases List.mem_cons.mp met with rfl | later
    · exact inName
    · exact ih noSlash.2 d later
  | case3 c rest outside escapes ih =>
    have slash : c = '\\' := by
      unfold startsEscape at escapes
      split at escapes <;> simp_all
    subst slash
    rw [Nat.add_assoc, Nat.add_comm, List.take_succ_cons] at noSlash
    exact absurd List.mem_cons_self noSlash
  | case4 => simp

/-! ## Tokens of a text -/

/-- The token is spelled as a token of its kind is. -/
structure Token.Spelled (token : Token) : Prop where
  begins : ∃ first tail, token.text = first :: tail ∧ Spells first (tail.length + 1) token.kind
  blank : token.kind = .blank → ∀ c ∈ token.text, isBlank c = true

theorem Spells.take {first : Char} {rest : Text} {length : Nat} {kind : TokenKind}
    (spells : Spells first length kind) :
    Spells first ((rest.take (length - 1)).length + 1) kind := by
  have one : length = 1 → (rest.take (length - 1)).length + 1 = 1 := by
    rintro rfl
    simp
  cases kind with
  | opening bracket => exact ⟨spells.1, one spells.2⟩
  | closing bracket => exact ⟨spells.1, one spells.2⟩
  | colon => exact ⟨spells.1, one spells.2⟩
  | semicolon => exact ⟨spells.1, one spells.2⟩
  | comma => exact ⟨spells.1, one spells.2⟩
  | _ => exact spells

theorem spelled_of_mem_tokenize {line : Nat} {text : Text} {token : Token}
    (met : token ∈ tokenize line text) : token.Spelled := by
  fun_induction tokenize line text with
  | case1 => cases met
  | case2 line first rest found spelling ih =>
    rcases List.mem_cons.mp met with rfl | later
    · have spells := spells_lexeme first rest
      refine ⟨⟨first, _, rfl, spells.take⟩, ?_⟩
      intro blank c among
      have begins : isBlank first = true := by
        have kind : (lexeme first rest).1 = .blank := blank
        rwa [kind] at spells
      exact isBlank_of_mem_first begins among
    · exact ih later

namespace Token.Spelled

variable {token : Token}

theorem single (spelled : token.Spelled) {c : Char}
    (mark : ∀ first length, Spells first length token.kind → first = c ∧ length = 1) :
    token.text = [c] := by
  rcases spelled.begins with ⟨first, tail, same, spells⟩
  obtain ⟨rfl, length⟩ := mark first _ spells
  rw [same, List.eq_nil_of_length_eq_zero (Nat.succ.inj length)]

theorem colon (spelled : token.Spelled) (kind : token.kind = .colon) : token.text = [':'] :=
  spelled.single fun _ _ spells => by rwa [kind] at spells

theorem semicolon (spelled : token.Spelled) (kind : token.kind = .semicolon) :
    token.text = [';'] :=
  spelled.single fun _ _ spells => by rwa [kind] at spells

theorem comma (spelled : token.Spelled) (kind : token.kind = .comma) : token.text = [','] :=
  spelled.single fun _ _ spells => by rwa [kind] at spells

theorem first_of_opening {first : Char} (known : punctuation first = some (.opening .curly)) :
    first = '\x7b' := by
  unfold punctuation at known
  split at known <;> first | rfl | cases known

theorem first_of_closing {first : Char} (known : punctuation first = some (.closing .curly)) :
    first = '\x7d' := by
  unfold punctuation at known
  split at known <;> first | rfl | cases known

theorem opening (spelled : token.Spelled) (kind : token.kind = .opening .curly) :
    token.text = ['\x7b'] :=
  spelled.single fun first length spells => by
    rw [kind] at spells
    exact ⟨first_of_opening spells.1, spells.2⟩

theorem closing (spelled : token.Spelled) (kind : token.kind = .closing .curly) :
    token.text = ['\x7d'] :=
  spelled.single fun first length spells => by
    rw [kind] at spells
    exact ⟨first_of_closing spells.1, spells.2⟩

end Token.Spelled

theorem eq_nil_of_source_eq_nil {tokens : List Token} (spelled : ∀ token ∈ tokens, token.Spelled)
    (empty : source tokens = []) : tokens = [] := by
  cases tokens with
  | nil => rfl
  | cons token rest =>
    rcases (spelled token List.mem_cons_self).begins with ⟨first, tail, same, -⟩
    rw [source_cons, same] at empty
    contradiction

/-- What follows some tokens of a text is the tokens of what follows their source. -/
theorem tokenize_split {line : Nat} {text : Text} {front back : List Token}
    (split : tokenize line text = front ++ back) :
    ∃ rest, text = source front ++ rest ∧ back = tokenize (lineAfter line front) rest := by
  induction front generalizing line text with
  | nil => exact ⟨text, rfl, split.symm⟩
  | cons token front ih =>
    rcases tokenize_eq_cons split with ⟨first, more, rfl, rfl, further⟩
    rcases ih further.symm with ⟨left, spelled, tokens⟩
    refine ⟨left, ?_, tokens⟩
    rw [source_cons, List.append_assoc, ← spelled, List.cons_append, List.take_append_drop]

/-- Tokens that spell the front of a text leave the tokens of what follows it. -/
theorem tokenize_after_source {line : Nat} {front rest : Text} {head back : List Token}
    (tokens : tokenize line (front ++ rest) = head ++ back) (spelled : source head = front) :
    ∃ later, tokenize later rest = back := by
  rcases tokenize_split tokens with ⟨other, text, remaining⟩
  rw [spelled, List.append_cancel_left_eq] at text
  exact ⟨_, text ▸ remaining.symm⟩

end Swatch.Css
