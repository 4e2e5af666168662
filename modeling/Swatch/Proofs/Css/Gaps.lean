import Swatch.Proofs.Css.Cleaned
import Swatch.Proofs.Css.Spelling

/-!
# Gaps in tokens and gaps in text

Cleaning looks for gaps without cutting the text into tokens. On a text that begins and
ends where tokens do, the two agree on the tokens that mean nothing: a blank is white
space, and a comment ends for cleaning where its token ends. They do not agree on white
space that is no blank, which stands inside other tokens.
-/

namespace Swatch.Css

/-! ## Comments -/

theorem commentTailLength_le (text : Text) : commentTailLength text ≤ text.length := by
  fun_induction commentTailLength text with
  | case1 rest => simp
  | case2 c rest goesOn ih =>
    rw [List.length_cons]
    omega
  | case3 => exact Nat.le_refl 0

/-- A comment is the same comment when only what follows it is cut off. -/
theorem commentTailLength_take {text : Text} {count : Nat} (fits : commentTailLength text ≤ count) :
    commentTailLength (text.take count) = commentTailLength text := by
  fun_induction commentTailLength text generalizing count with
  | case1 rest =>
    obtain ⟨more, rfl⟩ := Nat.exists_eq_add_of_le fits
    rw [Nat.add_comm, List.take_succ_cons, List.take_succ_cons]
    rfl
  | case2 c rest goesOn ih =>
    obtain ⟨more, rfl⟩ := Nat.exists_eq_add_of_le fits
    rw [Nat.add_assoc, Nat.add_comm, List.take_succ_cons, commentTailLength,
      ih (Nat.le_add_right _ _)]
    intro others star closes
    cases rest with
    | nil =>
      rw [List.take_nil] at closes
      contradiction
    | cons d later =>
      cases size : commentTailLength (d :: later) + more with
      | zero =>
        rw [size] at closes
        contradiction
      | succ further =>
        rw [size, List.take_succ_cons] at closes
        exact goesOn later star (by rw [(List.cons.inj closes).1])
  | case3 => rw [List.take_nil, commentTailLength]

theorem lexeme_comment (rest : Text) :
    lexeme '/' ('*' :: rest) = (.comment, 2 + commentTailLength rest) := by
  simp [lexeme, punctuation, isBlank, isLineEnd, isQuote]

/-- A comment begins with its mark. -/
theorem mark_of_comment {first : Char} {rest : Text} (kind : (lexeme first rest).1 = .comment) :
    ∃ more, first = '/' ∧ rest = '*' :: more := by
  rcases kind ▸ mark_isPrefix_lexeme first rest with ⟨more, parts⟩
  rcases List.cons.inj parts with ⟨rfl, rfl⟩
  exact ⟨more, rfl, rfl⟩

theorem skipGap_comment (rest : Text) :
    skipGap ('/' :: '*' :: rest) = skipGap (rest.drop (commentTailLength rest)) := by
  rw [skipGap, gapLength_comment, Nat.add_comm]
  rfl

/-! ## Gaps -/

variable {line : Nat} {text : Text} {token : Token} {value back : List Token}

/-- A blank or a comment among the tokens of a text is a gap for cleaning as well. -/
theorem skipGap_token (tokens : tokenize line text = token :: (value ++ back))
    (gap : token.isGap = true) : skipGap (token.text ++ source value) = skipGap (source value) := by
  have met : token ∈ tokenize line text := by
    rw [tokens]
    exact List.mem_cons_self
  rw [Token.isGap, Bool.or_eq_true, beq_iff_eq, beq_iff_eq] at gap
  rcases gap with blank | comment
  · apply skipGap_append_of_white
    intro c among
    exact isWhite_of_blank ((spelled_of_mem_tokenize met).blank blank c among)
  · have spelled := congrArg source tokens
    rw [source_tokenize, source_cons, source_append] at spelled
    rcases tokenize_eq_cons tokens with ⟨first, rest, rfl, rfl, -⟩
    rcases mark_of_comment comment with ⟨more, rfl, rfl⟩
    rw [lexeme_comment] at spelled ⊢
    have size : 2 + commentTailLength more - 1 = commentTailLength more + 1 := by omega
    simp only [size, List.take_succ_cons, List.cons_append, List.cons.injEq, true_and] at spelled ⊢
    have inside : (more.take (commentTailLength more) ++ source value) <+: more :=
      ⟨source back, by rw [List.append_assoc, ← spelled]⟩
    have length : (more.take (commentTailLength more)).length = commentTailLength more :=
      List.length_take_of_le (commentTailLength_le more)
    -- Cut off behind the value, the comment is closed at the same place.
    have same : commentTailLength (more.take (commentTailLength more) ++ source value) =
        commentTailLength more := by
      rw [List.prefix_iff_eq_take.mp inside]
      apply commentTailLength_take
      rw [List.length_append, length]
      exact Nat.le_add_right _ _
    rw [skipGap_comment, same, List.drop_left' length]

/-- Where the first token is no gap and begins with no white space, cleaning finds no gap either. -/
theorem gapLength_source (tokens : tokenize line text = token :: (value ++ back))
    (noGap : token.isGap = false) (seen : ∀ c ∈ token.text, isWhite c = false) :
    gapLength (source (token :: value)) = 0 := by
  have spelled := congrArg source tokens
  rw [source_tokenize, source_cons, source_append] at spelled
  rcases tokenize_eq_cons tokens with ⟨first, rest, rfl, rfl, -⟩
  rw [source_cons, List.cons_append, gapLength_eq_zero_iff]
  refine ⟨seen first List.mem_cons_self, ?_⟩
  rintro rfl star
  have begins : rest.head? = some '*' := by
    have whole : rest = rest.take ((lexeme '/' rest).2 - 1) ++ source value ++ source back := by
      simpa using spelled
    rw [whole, List.head?_append, star]
    rfl
  rcases List.head?_eq_some_iff.mp begins with ⟨more, rfl⟩
  rw [Token.isGap, lexeme_comment] at noGap
  contradiction

theorem tokenize_behind (tokens : tokenize line text = token :: back) :
    ∃ later rest, tokenize later rest = back := by
  rcases tokenize_eq_cons tokens with ⟨first, more, -, -, remaining⟩
  exact ⟨_, _, remaining.symm⟩

theorem tokenize_skipGaps (tokens : tokenize line text = value ++ back) :
    ∃ later rest, tokenize later rest = skipGaps value ++ back := by
  rw [← List.takeWhile_append_dropWhile (p := Token.isGap) (l := value), List.append_assoc] at tokens
  rcases tokenize_split tokens with ⟨rest, -, remaining⟩
  exact ⟨_, rest, remaining.symm⟩

theorem skipGaps_eq_cons {more : List Token} (found : skipGaps value = token :: more) :
    token.isGap = false ∧ ∃ gaps, value = gaps ++ token :: more ∧ ∀ gap ∈ gaps, gap.isGap = true := by
  have outside := List.head?_dropWhile_not Token.isGap value
  rw [← skipGaps, found] at outside
  refine ⟨outside, value.takeWhile Token.isGap, ?_, fun gap met => List.mem_takeWhile_imp met⟩
  rw [← found, skipGaps, List.takeWhile_append_dropWhile]

/-- The gaps in front of some tokens are gaps in front of their source. -/
theorem skipGap_source (tokens : tokenize line text = value ++ back) :
    skipGap (source value) = skipGap (source (skipGaps value)) := by
  induction value generalizing line text with
  | nil => rfl
  | cons token value ih =>
    by_cases gap : token.isGap = true
    · rcases tokenize_behind tokens with ⟨later, rest, remaining⟩
      rw [source_cons, skipGap_token tokens gap, ih remaining, skipGaps, skipGaps,
        List.dropWhile_cons_of_pos gap]
    · rw [skipGaps, List.dropWhile_cons_of_neg gap]

theorem skipGap_source_of_gaps (tokens : tokenize line text = value ++ back)
    (gaps : ∀ token ∈ value, token.isGap = true) : skipGap (source value) = [] := by
  rw [skipGap_source tokens, skipGaps, List.dropWhile_eq_nil_iff.mpr gaps, source_nil, skipGap]

/-- The source of the tokens behind the gaps begins with an atom, unless white space stands there. -/
theorem skipGap_source_of_seen (tokens : tokenize line text = value ++ back)
    (seen : ∀ token ∈ value, token.isGap = false → ∀ c ∈ token.text, isWhite c = false) :
    skipGap (source value) = source (skipGaps value) := by
  rw [skipGap_source tokens]
  rcases tokenize_skipGaps tokens with ⟨later, rest, remaining⟩
  cases found : skipGaps value with
  | nil => rw [source_nil, skipGap]
  | cons token more =>
    rcases skipGaps_eq_cons found with ⟨noGap, gaps, rfl, -⟩
    have among : token ∈ gaps ++ token :: more := List.mem_append_right gaps List.mem_cons_self
    rw [found] at remaining
    exact skipGap_of_gapLength_eq_zero (gapLength_source remaining noGap (seen token among noGap))

/-- Tokens whose source is a gap are gaps. -/
theorem isGap_of_skipGap_source (tokens : tokenize line text = value ++ back)
    (seen : ∀ token ∈ value, token.isGap = false → ∀ c ∈ token.text, isWhite c = false)
    (nothing : skipGap (source value) = []) : ∀ token ∈ value, token.isGap = true := by
  rw [skipGap_source_of_seen tokens seen] at nothing
  apply List.dropWhile_eq_nil_iff.mp
  refine eq_nil_of_source_eq_nil (fun token met => ?_) nothing
  have among : token ∈ tokenize line text := by
    rw [tokens]
    exact List.mem_append_left back ((List.dropWhile_suffix _).subset met)
  exact spelled_of_mem_tokenize among

end Swatch.Css
