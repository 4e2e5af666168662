import Mathlib.Data.List.Forall2
import Swatch.Proofs.Css.RereadTokens
import Swatch.Proofs.Css.Whole

/-!
# Cleaned text says the same

Where all tokens of a text are sturdy, the cleaned text says the same, phrase by phrase. The
induction follows the tokens of the text, with the cleaned form of what is left: a sturdy
token is read again from it, a gap has become one space or has gone.
-/

namespace Swatch.Css

/-! ## Gaps -/

section Gaps

variable {line : Nat} {text : Text}

/-- No gap stands in front of a sturdy token. -/
theorem gapLength_of_sturdy (sturdy : areSturdy (tokenize line text) = true)
    (noGap : (tokenize line text).head?.any Token.isGap = false) : gapLength text = 0 := by
  cases text with
  | nil => rfl
  | cons first rest =>
    rw [tokenize_cons] at sturdy noGap
    rw [areSturdy, Bool.and_eq_true, Bool.and_eq_true] at sturdy
    have seen := isSteady_of_sturdy sturdy.1.1 noGap
    by_cases string : (lexeme first rest).1 = .string
    · have quote := readerOf_eq_reader first rest
      rw [string] at quote
      exact gapLength_of_quote (isQuote_of_string quote) rest
    · apply gapLength_of_steady _ (seen string)
      rw [List.head?_cons, Option.any_some, Token.isGap, Bool.or_eq_false_iff] at noGap
      exact ⟨beq_eq_false_iff_ne.mp noGap.1, beq_eq_false_iff_ne.mp noGap.2⟩

/-- A text of gaps has nothing behind them. -/
theorem skipGap_of_gaps (gaps : ∀ token ∈ tokenize line text, token.isGap = true) :
    skipGap text = [] := by
  have nothing := skipGap_source_of_gaps (List.append_nil (tokenize line text)).symm gaps
  rwa [source_tokenize] at nothing

/-- Cleaning skips a gap as the tokens do. -/
theorem skipGap_front {first : Char} {rest : Text}
    (gap : Token.isGap ⟨(lexeme first rest).1,
      first :: rest.take ((lexeme first rest).2 - 1), line⟩ = true) :
    gapLength (first :: rest) ≠ 0 ∧
      skipGap (first :: rest) = skipGap (rest.drop ((lexeme first rest).2 - 1)) := by
  have tokens := tokenize_cons line first rest
  rw [← List.append_nil (tokenize _ (rest.drop _))] at tokens
  have skipped := skipGap_token tokens gap
  rw [source_tokenize, List.cons_append, List.take_append_drop] at skipped
  refine ⟨fun atom => ?_, skipped⟩
  have shorter := skipGap_length_le (rest.drop ((lexeme first rest).2 - 1))
  rw [← skipped, skipGap_of_gapLength_eq_zero atom, List.length_drop, List.length_cons] at shorter
  omega

/-- Blanks in front of a text that begins with none say nothing. -/
theorem phrases_lead {lead : Text} (blanks : ∀ c ∈ lead, isBlank c = true)
    (other : text.head?.any isBlank = false) (line : Nat) :
    phrases (tokenize line (lead ++ text)) = phrases (tokenize 0 text) := by
  cases lead with
  | nil => exact phrases_line line 0 text
  | cons c lead =>
    have behind : ∀ d ∈ lead, isBlank d = true := fun d met => blanks d (List.mem_cons_of_mem c met)
    have left : text.dropWhile isBlank = text := by
      cases text with
      | nil => rfl
      | cons d rest => exact List.dropWhile_cons_of_neg (by simpa using other)
    rw [List.cons_append, tokenize_blank (blanks c List.mem_cons_self), phrases_cons_gap rfl,
      List.dropWhile_append_of_pos behind, left]
    exact phrases_line _ 0 text

theorem head?_clean (text : Text) : (clean text).head?.any isBlank = false := by
  cases cleaned : clean text with
  | nil => rfl
  | cons c rest =>
    have seen := isWhite_of_clean cleaned
    rw [List.head?_cons, Option.any_some, Bool.eq_false_iff]
    intro blank
    rw [isWhite_of_blank blank] at seen
    contradiction

/-- The space in front says nothing. -/
theorem afterAtom_eq_lead (text : Text) :
    ∃ lead, afterAtom text = lead ++ clean text ∧ ∀ c ∈ lead, isBlank c = true := by
  refine ⟨_, rfl, ?_⟩
  split
  · simp
  · exact List.forall_mem_singleton.mpr rfl

theorem phrases_afterAtom (line : Nat) (text : Text) :
    phrases (tokenize line (afterAtom text)) = phrases (tokenize 0 (clean text)) := by
  rcases afterAtom_eq_lead text with ⟨lead, parts, blanks⟩
  rw [parts, phrases_lead blanks (head?_clean text)]

theorem firstPhrase_of_gap (gap : gapLength text ≠ 0) (line : Nat) :
    firstPhrase (tokenize line (afterAtom text)) = [] := by
  rw [afterAtom_of_gap gap]
  split
  · rw [tokenize_nil]
    rfl
  · rw [tokenize_blank rfl]
    exact firstPhrase_gap rfl

end Gaps

/-! ## The induction -/

/-- A gap in front of what says the same. -/
theorem Alike.gap {text behind : Text} {token : Token} {tokens : List Token} {line : Nat}
    (isGap : token.isGap = true) (gap : gapLength text ≠ 0) (skipped : skipGap text = skipGap behind)
    (alike : Alike (tokenize line (afterAtom behind)) tokens) :
    Alike (tokenize line (afterAtom text)) (token :: tokens) := by
  apply of_phrases (firstPhrase_of_gap gap line) (firstPhrase_gap isGap)
  rw [phrases_cons_gap isGap, ← alike.phrases_eq, phrases_afterAtom, phrases_afterAtom, clean, clean,
    skipped]

/-- A backslash that hides nothing stands in front of a line end. -/
theorem exists_lineEnd_of_stray {rest : Text} (kind : (lexeme '\\' rest).1 = .delimiter) :
    ∃ d more, rest = d :: more ∧ isLineEnd d = true ∧
      ∀ other, lexeme '\\' (d :: other) = (.delimiter, 1) := by
  have noEscape : startsEscape ('\\' :: rest) = false := by
    by_contra escape
    have reader := readerOf_eq_reader '\\' rest
    rw [kind, readerOf_slash, if_pos (by simpa using escape)] at reader
    contradiction
  cases rest with
  | nil => contradiction
  | cons d more =>
    have ends : isLineEnd d = true := by simpa [startsEscape] using noEscape
    refine ⟨d, more, rfl, ends, fun other => ?_⟩
    have outside : ¬startsEscape ('\\' :: d :: other) = true := by simp [startsEscape, ends]
    rw [lexeme_eq_read, readerOf_slash, if_neg outside]
    rfl

/-- A backslash that hides nothing keeps the line end behind it. -/
theorem Alike.stray {d : Char} {rest : Text} {line other : Nat} (blank : isBlank d = true)
    (alike : Alike (tokenize other (afterAtom (d :: rest))) (tokenize line (d :: rest))) :
    Alike (tokenize other (d :: afterAtom rest)) (tokenize line (d :: rest)) := by
  have first (line : Nat) (rest : Text) : firstPhrase (tokenize line (d :: rest)) = [] := by
    rw [tokenize_blank blank]
    exact firstPhrase_gap rfl
  apply of_phrases (first other _) (first line rest)
  rcases afterAtom_eq_lead rest with ⟨lead, parts, blanks⟩
  have skipped : clean (d :: rest) = clean rest := by
    rw [clean, skipGap_of_white (isWhite_of_blank blank), clean]
  rw [← alike.phrases_eq, phrases_afterAtom, skipped, parts, ← List.cons_append,
    phrases_lead (List.forall_mem_cons.mpr ⟨blank, blanks⟩) (head?_clean rest)]

/-- The cleaned form of what follows an atom says the same. -/
theorem alike_afterAtom {line : Nat} {text : Text}
    (sturdy : areSturdy (tokenize line text) = true) (other : Nat) :
    Alike (tokenize other (afterAtom text)) (tokenize line text) := by
  fun_induction tokenize line text generalizing other with
  | case1 =>
    rw [afterAtom_nil, tokenize_nil]
    exact .refl []
  | case2 line first rest found spelling ih =>
    rw [areSturdy, Bool.and_eq_true, Bool.and_eq_true] at sturdy
    rcases sturdy with ⟨⟨front, behind⟩, apart⟩
    by_cases gap : Token.isGap ⟨found.1, spelling, line⟩ = true
    · rcases skipGap_front gap with ⟨white, skipped⟩
      exact .gap gap white skipped (ih behind other)
    · have noGap := Bool.eq_false_iff.mpr gap
      have closed : endsInDigits spelling = true →
          gapLength (rest.drop (found.2 - 1)) = 0 ∨ skipGap (rest.drop (found.2 - 1)) = [] := by
        intro digits
        by_cases next : (tokenize (line + lineEnds spelling) (rest.drop (found.2 - 1))).head?.any
            Token.isGap = true
        · right
          rw [digits, next, Bool.true_and, Bool.true_and, Bool.not_eq_true', List.any_eq_false] at apart
          exact skipGap_of_gaps fun token met => by simpa using apart token met
        · exact .inl (gapLength_of_sturdy behind (Bool.eq_false_iff.mpr next))
      by_cases stray : found.1 = .delimiter ∧ first = '\\'
      · rcases stray with ⟨kind, rfl⟩
        rcases exists_lineEnd_of_stray kind with ⟨d, more, rfl, ends, lone⟩
        have one : found = (.delimiter, 1) := lone more
        have blank : isBlank d = true := by rw [isBlank, ends, Bool.or_true]
        rw [afterAtom_escape, tokenize_cons, lone]
        simp only [spelling, one] at ih behind ⊢
        exact .cons rfl rfl rfl (.stray blank (ih behind _))
      · rcases tokenKept rfl noGap front (fun kind slash => stray ⟨kind, slash⟩) closed with
          ⟨more, kept⟩
        rw [kept.shape, tokenize_cons, kept.kind, kept.behind]
        exact .cons noGap noGap (kept.sense other line) (ih behind _)

/-- Cleaning a text of sturdy tokens does not change what it says. -/
theorem phrases_clean {line : Nat} {text : Text}
    (sturdy : areSturdy (tokenize line text) = true) :
    phrases (tokenize 0 (clean text)) = phrases (tokenize line text) := by
  rw [← (alike_afterAtom sturdy 0).phrases_eq, phrases_afterAtom]

/-! ## What is kept -/

/-- The two texts say the same, phrase by phrase. -/
def SameSense (stored slice : Text) : Prop :=
  phrases (tokenize 0 stored) = phrases (tokenize 0 slice)

instance (stored slice : Text) : Decidable (SameSense stored slice) :=
  inferInstanceAs (Decidable (phrases _ = phrases _))

/-- Each selector and each value of a rule says what its source says, if that is sturdy. -/
structure KeepsSense (rule : Rule) (found : SourceRule) : Prop where
  selectors : List.Forall₂
    (fun stored selector => areSturdy (tokenize 0 (source selector)) = true →
      SameSense stored (source selector)) rule.selectors found.selectors
  values : List.Forall₂
    (fun stored declared => areSturdy (tokenize 0 (source declared.value)) = true →
      SameSense stored.value (source declared.value)) rule.declarations found.declarations

/-- What is kept of a style sheet says what stands in its source, where that is sturdy. -/
theorem parse_keeps_sense (text : Text) :
    List.Forall₂ KeepsSense (Stylesheet.parse text).rules (sourceRules text) := by
  rw [Stylesheet.parse, List.forall₂_map_left_iff, List.forall₂_same]
  intro found _
  refine ⟨?_, ?_⟩
  · rw [SourceRule.rule, List.forall₂_map_left_iff, List.forall₂_same]
    exact fun selector _ sturdy => phrases_clean sturdy
  · rw [SourceRule.rule, List.forall₂_map_left_iff, List.forall₂_same]
    exact fun declared _ sturdy => phrases_clean sturdy

/-- An escape keeps its blank, and what looks like a comment stays in the string. -/
theorem parse_keeps_sense_sample :
    let selector := ".\\41 b/* c */>\n  i ".toList
    let value := " url(  x )\t\"/* y */  \" 1.5e3p\\78".toList
    let text := selector ++ "\x7bd:".toList ++ value ++ "\x7d".toList
    (Stylesheet.parse text).rules =
        [⟨[".\\41 b > i".toList],
          [⟨['d'], "url( x ) \"/* y */  \" 1.5e3p\\78".toList, false, 2⟩]⟩] ∧
      SameSense ".\\41 b > i".toList selector ∧
      SameSense "url( x ) \"/* y */  \" 1.5e3p\\78".toList value := by
  intro selector value text
  have rules : (Stylesheet.parse text).rules =
      [⟨[".\\41 b > i".toList],
        [⟨['d'], "url( x ) \"/* y */  \" 1.5e3p\\78".toList, false, 2⟩]⟩] := by decide +kernel
  have sources : (sourceRules text).map (fun found => (found.selectors.map source,
      found.declarations.map fun declared => source declared.value)) = [([selector], [value])] := by
    decide +kernel
  have keeps := parse_keeps_sense text
  rw [rules] at keeps
  rcases List.map_eq_singleton_iff.mp sources with ⟨found, alone, parts⟩
  rw [alone] at keeps
  rcases Prod.mk.inj parts with ⟨selectors, values⟩
  rcases List.map_eq_singleton_iff.mp selectors with ⟨tokens, one, spelled⟩
  rcases List.map_eq_singleton_iff.mp values with ⟨declared, only, valued⟩
  have rule := (List.forall₂_cons.mp keeps).1
  have first := rule.selectors
  have value := rule.values
  rw [one, List.forall₂_cons, spelled] at first
  rw [only, List.forall₂_cons, valued] at value
  exact ⟨rules, first.1 (by decide +kernel), value.1 (by decide +kernel)⟩

/-- In an address without quotes there are no comments, but cleaning finds one. -/
theorem address_is_cut :
    ∃ found ∈ sourceRules ".a\x7bb:url(//x/*.png) no-repeat\x7d".toList,
      ∃ declared ∈ found.declarations,
        source declared.value = "url(//x/*.png) no-repeat".toList ∧
          declared.declaration.value = "url(//x".toList ∧
          ¬SameSense declared.declaration.value (source declared.value) := by
  decide +kernel

end Swatch.Css
