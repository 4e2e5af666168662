import Swatch.Proofs.Css.Lookahead

/-!
# Boundaries between tokens

A text is detached when a stop after it is a token by itself. Nothing in a
detached text is left open, so its tokens are the same in every place where a
stop or the end of the text follows, and the tokens of what follows are
appended to them. One stop is enough to find out, and any other serves as well.

Where a text stands changes only the lines of its tokens.
-/

namespace Swatch.Css

theorem tokenize_nil (line : Nat) : tokenize line [] = [] := by
  rw [tokenize]

theorem tokenize_cons (line : Nat) (first : Char) (rest : Text) :
    tokenize line (first :: rest) =
      ⟨(lexeme first rest).1, first :: rest.take ((lexeme first rest).2 - 1), line⟩ ::
        tokenize (line + lineEnds (first :: rest.take ((lexeme first rest).2 - 1)))
          (rest.drop ((lexeme first rest).2 - 1)) := by
  rw [tokenize]

/-- The first token of a text and the text that is left for the others. -/
theorem tokenize_eq_cons {line : Nat} {text : Text} {token : Token} {rest : List Token}
    (tokens : tokenize line text = token :: rest) :
    ∃ first more, text = first :: more ∧
      token = ⟨(lexeme first more).1, first :: more.take ((lexeme first more).2 - 1), line⟩ ∧
      rest = tokenize (line + lineEnds token.text) (more.drop ((lexeme first more).2 - 1)) := by
  cases text with
  | nil =>
    rw [tokenize_nil] at tokens
    contradiction
  | cons first more =>
    rw [tokenize_cons] at tokens
    rcases List.cons.inj tokens with ⟨rfl, rfl⟩
    exact ⟨first, more, rfl, rfl, rfl⟩

/-! ## Lines -/

/-- The token on a later line. -/
def Token.down (lines : Nat) (token : Token) : Token :=
  { token with line := lines + token.line }

@[simp]
theorem Token.down_kind (lines : Nat) (token : Token) : (token.down lines).kind = token.kind := rfl

@[simp]
theorem Token.down_text (lines : Nat) (token : Token) : (token.down lines).text = token.text := rfl

@[simp]
theorem Token.down_isGap (lines : Nat) (token : Token) :
    (token.down lines).isGap = token.isGap := rfl

@[simp]
theorem Token.down_opens (lines : Nat) (token : Token) :
    (token.down lines).opens = token.opens := rfl

@[simp]
theorem Token.down_closes (lines : Nat) (bracket : Bracket) (token : Token) :
    (token.down lines).closes bracket = token.closes bracket := rfl

@[simp]
theorem Token.down_opensBlock (lines : Nat) (token : Token) :
    (token.down lines).opensBlock = token.opensBlock := rfl

@[simp]
theorem Token.down_name (lines : Nat) (token : Token) : (token.down lines).name = token.name := rfl

theorem tokenize_down (lines line : Nat) (text : Text) :
    tokenize (lines + line) text = (tokenize line text).map (Token.down lines) := by
  fun_induction tokenize line text with
  | case1 => rw [tokenize_nil]; rfl
  | case2 line first rest found spelling ih =>
    rw [tokenize_cons, List.map_cons, ← ih, Nat.add_assoc]
    rfl

theorem tokenize_eq_down (line : Nat) (text : Text) :
    tokenize line text = (tokenize 0 text).map (Token.down line) :=
  tokenize_down line 0 text

@[simp]
theorem source_down (lines : Nat) (tokens : List Token) :
    source (tokens.map (Token.down lines)) = source tokens := by
  simp [source, List.flatMap_map]

@[simp]
theorem source_append (front back : List Token) :
    source (front ++ back) = source front ++ source back :=
  List.flatMap_append

@[simp]
theorem source_cons (token : Token) (tokens : List Token) :
    source (token :: tokens) = token.text ++ source tokens := rfl

@[simp]
theorem source_nil : source [] = [] := rfl

/-- The line on which the text after some tokens begins. -/
def lineAfter (line : Nat) (tokens : List Token) : Nat :=
  tokens.foldl (fun current token => current + lineEnds token.text) line

theorem text_ne_nil_of_mem_tokenize {line : Nat} {text : Text} {token : Token}
    (met : token ∈ tokenize line text) : token.text ≠ [] := by
  fun_induction tokenize line text with
  | case1 => simp at met
  | case2 line first rest found spelling ih =>
    rcases List.mem_cons.mp met with rfl | later
    · simp [spelling]
    · exact ih later

/-! ## Detached texts -/

/-- Is a semicolon after the text a token by itself? -/
def isDetached (text : Text) : Bool :=
  (tokenize 0 (text ++ [';'])).getLast?.any fun last => last.text == [';']

/-- The first token before a boundary at a stop ends before that stop, and so do the others. -/
theorem cut_cons {text : Text} {c : Char} {rest : Text} {line : Nat} {token : Token}
    {front back : List Token} (stop : isStop c = true)
    (cut : tokenize line (text ++ c :: rest) = token :: front ++ back)
    (spelled : source (token :: front) = text) :
    ∃ first more, text = first :: more ∧
      token = ⟨(lexeme first more).1, first :: more.take ((lexeme first more).2 - 1), line⟩ ∧
      (lexeme first (more ++ c :: rest)).2 ≤ more.length + 1 ∧
      (lexeme first more).2 - 1 ≤ more.length ∧
      tokenize (line + lineEnds token.text) (more.drop ((lexeme first more).2 - 1) ++ c :: rest) =
        front ++ back ∧
      source front = more.drop ((lexeme first more).2 - 1) := by
  have filled : token.text ≠ [] :=
    text_ne_nil_of_mem_tokenize (cut ▸ List.mem_append_left _ List.mem_cons_self)
  cases text with
  | nil => exact absurd (List.append_eq_nil_iff.mp spelled).1 filled
  | cons first more =>
    rw [List.cons_append, tokenize_cons, List.cons_append, List.cons.injEq] at cut
    obtain ⟨same, later⟩ := cut
    have size : token.text.length ≤ more.length + 1 := by
      have := congrArg List.length spelled
      simp only [source_cons, List.length_append, List.length_cons] at this
      omega
    have fits : (lexeme first (more ++ c :: rest)).2 - 1 ≤ more.length := by
      rw [← same] at size
      simp only [List.length_cons, List.length_take, List.length_append] at size
      omega
    have closed : (lexeme first (more ++ c :: rest)).2 ≤ more.length + 1 := by omega
    -- The token is known to end before the stop, so it is the token of the text alone.
    rw [lexeme_append first more stop closed (stopped_cons stop rest)] at same later fits
    rw [List.take_append_of_le_length fits] at same later
    rw [List.drop_append_of_le_length fits] at later
    have remains : source front = more.drop ((lexeme first more).2 - 1) := by
      have whole : more.take ((lexeme first more).2 - 1) ++ source front =
          more.take ((lexeme first more).2 - 1) ++ more.drop ((lexeme first more).2 - 1) := by
        rw [List.take_append_drop]
        simpa [← same] using spelled
      exact List.append_cancel_left whole
    refine ⟨first, more, rfl, same.symm, closed, fits, ?_, remains⟩
    rw [← same]
    exact later

/-- A boundary before one stop is a boundary before every stop, with the same tokens before it. -/
theorem tokens_of_cut {text : Text} {c : Char} {rest : Text} {line : Nat}
    {front back : List Token} (stop : isStop c = true)
    (cut : tokenize line (text ++ c :: rest) = front ++ back) (spelled : source front = text) :
    front = tokenize line text ∧
      ∀ start tail, Stopped tail → tokenize start (text ++ tail) =
        tokenize start text ++ tokenize (lineAfter start (tokenize start text)) tail := by
  induction front generalizing line text with
  | nil =>
    subst spelled
    simp [tokenize_nil, lineAfter]
  | cons token front ih =>
    obtain ⟨first, more, rfl, same, closed, fits, later, remains⟩ := cut_cons stop cut spelled
    obtain ⟨front_eq, further⟩ := ih later remains
    refine ⟨?_, ?_⟩
    · rw [tokenize_cons, front_eq, same]
    · intro start tail stopped
      rw [List.cons_append, tokenize_cons, lexeme_append first more stop closed stopped,
        List.take_append_of_le_length fits, List.drop_append_of_le_length fits,
        further _ tail stopped, tokenize_cons start first more]
      rfl

/-- The tokens of a detached text do not depend on what follows. -/
theorem tokenize_append {text : Text} (detached : isDetached text = true) (line : Nat)
    {tail : Text} (stopped : Stopped tail) :
    tokenize line (text ++ tail) =
      tokenize line text ++ tokenize (lineAfter line (tokenize line text)) tail := by
  have spelled := source_tokenize 0 (text ++ [';'])
  rcases tokens_eq : (tokenize 0 (text ++ [';'])).eq_nil_or_concat with empty | ⟨front, last, cut⟩
  · rw [empty] at spelled
    simp at spelled
  · simp only [isDetached, cut, List.concat_eq_append, List.getLast?_append, List.getLast?_singleton,
      Option.some_or, Option.any_some, beq_iff_eq] at detached
    rw [cut, List.concat_eq_append, source_append] at spelled
    simp only [source_cons, source_nil, detached, List.append_nil] at spelled
    exact (tokens_of_cut (by decide) (cut.trans List.concat_eq_append)
      (List.append_cancel_right spelled)).2 line tail stopped

/-- A boundary before any stop shows that the text is detached. -/
theorem isDetached_of_cut {text : Text} {c : Char} {rest : Text} {line : Nat}
    {front back : List Token} (stop : isStop c = true)
    (cut : tokenize line (text ++ c :: rest) = front ++ back) (spelled : source front = text) :
    isDetached text = true := by
  have stops := stopped_cons (show isStop ';' = true by decide) []
  rw [isDetached, (tokens_of_cut stop cut spelled).2 0 _ stops, tokenize_cons]
  have alone : lexeme ';' [] = (.semicolon, 1) := by decide
  simp [alone, tokenize_nil]

/-- The tokens before a stop and the tokens from it on, once there is a boundary. -/
theorem eq_tokenize_of_cut {text : Text} {c : Char} {rest : Text} {line : Nat}
    {front back : List Token} (stop : isStop c = true)
    (cut : tokenize line (text ++ c :: rest) = front ++ back) (spelled : source front = text) :
    front = tokenize line text ∧
      back = tokenize (lineAfter line (tokenize line text)) (c :: rest) := by
  obtain ⟨front_eq, whole⟩ := tokens_of_cut stop cut spelled
  rw [whole line _ (stopped_cons stop rest), front_eq] at cut
  exact ⟨front_eq, (List.append_cancel_left cut).symm⟩

end Swatch.Css
