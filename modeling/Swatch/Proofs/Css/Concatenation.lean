import Swatch.Proofs.Css.Gaps
import Swatch.Proofs.Css.Items
import Swatch.Proofs.Css.LineCount

/-!
# Concatenated style sheets

When a text consists of complete items, the tokens of these items do not depend on what
follows the text: each item ends with a stop, and what stands between them ends by
itself. Only blanks at the end of the text run together with blanks behind it, which
means nothing. So the rules of the text and of what follows it are read one after the
other, the latter on lines that are further down.
-/

namespace Swatch.Css

/-! ## Tokens that do not depend on what follows -/

theorem lineAfter_append (line : Nat) (front back : List Token) :
    lineAfter line (front ++ back) = lineAfter (lineAfter line front) back :=
  List.foldl_append

theorem tokenize_stop {c : Char} (stop : isStop c = true) :
    ∃ kind, ∀ line rest, tokenize line (c :: rest) =
      ⟨kind, [c], line⟩ :: tokenize (line + lineEnds [c]) rest := by
  rcases stop_cases stop with rfl | rfl | rfl | rfl | rfl
  all_goals exact ⟨_, fun line rest => tokenize_punctuation rfl line rest⟩

/-- The tokens up to a stop stay the same when more text follows. -/
theorem tokenize_append_of_stop {line : Nat} {text : Text} {front rest : List Token} {last : Token}
    {c : Char} (tokens : tokenize line text = front ++ last :: rest) (spelled : last.text = [c])
    (stop : isStop c = true) :
    ∃ behind, text = source front ++ c :: behind ∧
      rest = tokenize (lineAfter line (front ++ [last])) behind ∧
      ∀ back, tokenize line (text ++ back) =
        front ++ last :: tokenize (lineAfter line (front ++ [last])) (behind ++ back) := by
  have split : tokenize line text = (front ++ [last]) ++ rest := by
    rw [tokens, List.append_assoc, List.singleton_append]
  rcases tokenize_split split with ⟨behind, parts, remaining⟩
  rw [source_append, source_cons, spelled, source_nil, List.append_nil, List.append_assoc,
    List.singleton_append] at parts
  refine ⟨behind, parts, remaining, fun back => ?_⟩
  rw [parts] at tokens
  rcases tokens_of_cut stop tokens rfl with ⟨here, anywhere⟩
  have again := (eq_tokenize_of_cut stop tokens rfl).2
  rcases tokenize_stop stop with ⟨kind, alone⟩
  rw [← here, alone] at again
  have after : lineAfter line (front ++ [last]) = lineAfter line front + lineEnds [c] := by
    rw [lineAfter_append, lineAfter_cons, spelled]
    rfl
  rw [parts, List.append_assoc, List.cons_append, anywhere line _ (stopped_cons stop _), ← here,
    alone, after, (List.cons.inj again).1]

/-! ### Idle tokens -/

/-- A comment that is closed ends there whatever follows. -/
theorem commentTailLength_of_closed {text body : Text}
    (closed : text.take (commentTailLength text) = body ++ ['*', '/']) (back : Text) :
    commentTailLength (text ++ back) = commentTailLength text := by
  fun_induction commentTailLength text generalizing body with
  | case1 rest => rfl
  | case2 c rest goesOn ih =>
    rw [Nat.add_comm, List.take_succ_cons] at closed
    cases body with
    | nil =>
      rcases List.cons.inj closed with ⟨star, slash⟩
      cases rest with
      | nil =>
        rw [List.take_nil] at slash
        contradiction
      | cons d more =>
        cases size : commentTailLength (d :: more) with
        | zero => exact absurd (commentTailLength_eq_zero size) (List.cons_ne_nil _ _)
        | succ count =>
          rw [size, List.take_succ_cons] at slash
          exact (goesOn more star (by rw [(List.cons.inj slash).1])).elim
    | cons d body =>
      have later := (List.cons.inj closed).2
      rw [List.cons_append, commentTailLength, ih later]
      intro more star slash
      cases rest with
      | nil =>
        rw [List.take_nil] at later
        simp at later
      | cons e others =>
        rw [List.cons_append] at slash
        exact goesOn others star (by rw [(List.cons.inj slash).1])
  | case3 =>
    rw [List.take_nil] at closed
    simp at closed

theorem lexeme_hideOpen (rest : Text) :
    lexeme '<' ('!' :: '-' :: '-' :: rest) = (.hideOpen, 4) := by
  simp [lexeme, punctuation, isBlank, isLineEnd, isQuote, startsNumber, signLength, startsUnsigned,
    startsDigit]

theorem lexeme_hideClose (rest : Text) : lexeme '-' ('-' :: '>' :: rest) = (.hideClose, 3) := by
  simp [lexeme, punctuation, isBlank, isLineEnd, isQuote, startsNumber, signLength, startsUnsigned,
    startsDigit]

theorem mark_of_hideOpen {first : Char} {rest : Text} (kind : (lexeme first rest).1 = .hideOpen) :
    ∃ more, first = '<' ∧ rest = '!' :: '-' :: '-' :: more := by
  rcases kind ▸ mark_isPrefix_lexeme first rest with ⟨more, parts⟩
  rcases List.cons.inj parts with ⟨rfl, rfl⟩
  exact ⟨more, rfl, rfl⟩

theorem mark_of_hideClose {first : Char} {rest : Text} (kind : (lexeme first rest).1 = .hideClose) :
    ∃ more, first = '-' ∧ rest = '-' :: '>' :: more := by
  rcases kind ▸ mark_isPrefix_lexeme first rest with ⟨more, parts⟩
  rcases List.cons.inj parts with ⟨rfl, rfl⟩
  exact ⟨more, rfl, rfl⟩

/-- An idle token that is no blank is the same token whatever follows it. -/
theorem lexeme_append_of_idle {first : Char} {rest : Text} {line : Nat}
    (idle : Idle ⟨(lexeme first rest).1, first :: rest.take ((lexeme first rest).2 - 1), line⟩)
    (noBlank : (lexeme first rest).1 ≠ .blank) (back : Text) :
    lexeme first (rest ++ back) = lexeme first rest ∧ (lexeme first rest).2 - 1 ≤ rest.length := by
  have kinds : (lexeme first rest).1 = .comment ∨ (lexeme first rest).1 = .hideOpen ∨
      (lexeme first rest).1 = .hideClose := by
    have between := idle.between
    simp only [isBetweenRules, Token.isGap, Bool.or_eq_true, beq_iff_eq] at between
    tauto
  rcases kinds with comment | hideOpen | hideClose
  · rcases mark_of_comment comment with ⟨more, rfl, rfl⟩
    rcases idle.closed comment with ⟨body, closed⟩
    rw [lexeme_comment] at closed ⊢
    have size : 2 + commentTailLength more - 1 = commentTailLength more + 1 := by omega
    simp only [size, List.take_succ_cons] at closed ⊢
    have inside : more.take (commentTailLength more) = body ++ ['*', '/'] :=
      (List.cons.inj (List.cons.inj closed).2).2
    rw [List.cons_append, lexeme_comment, commentTailLength_of_closed inside]
    exact ⟨rfl, Nat.succ_le_succ (commentTailLength_le more)⟩
  · rcases mark_of_hideOpen hideOpen with ⟨more, rfl, rfl⟩
    rw [List.cons_append, List.cons_append, List.cons_append, lexeme_hideOpen, lexeme_hideOpen]
    exact ⟨rfl, by simp⟩
  · rcases mark_of_hideClose hideClose with ⟨more, rfl, rfl⟩
    rw [List.cons_append, List.cons_append, lexeme_hideClose, lexeme_hideClose]
    exact ⟨rfl, by simp⟩

theorem tokenize_append_of_idle {line : Nat} {text : Text} {token : Token} {rest : List Token}
    (tokens : tokenize line text = token :: rest) (idle : Idle token) (noBlank : token.kind ≠ .blank) :
    ∃ behind, text = token.text ++ behind ∧ rest = tokenize (lineAfter line [token]) behind ∧
      ∀ back, tokenize line (text ++ back) =
        token :: tokenize (lineAfter line [token]) (behind ++ back) := by
  rcases tokenize_eq_cons tokens with ⟨first, more, rfl, rfl, rfl⟩
  refine ⟨more.drop ((lexeme first more).2 - 1), ?_, rfl, fun back => ?_⟩
  · rw [List.cons_append, List.take_append_drop]
  · rcases lexeme_append_of_idle idle noBlank back with ⟨same, fits⟩
    rw [List.cons_append, tokenize_cons, same, List.take_append_of_le_length fits,
      List.drop_append_of_le_length fits]
    rfl

/-! ## Blanks between items -/

/-- Blanks at the front of a list of rules only move what follows down. -/
theorem keptRules_dropWhile (line : Nat) (text : Text) :
    keptRules (tokenize line text) =
      keptRules (tokenize (line + lineEnds (text.takeWhile isBlank)) (text.dropWhile isBlank)) := by
  cases text with
  | nil => rfl
  | cons c rest =>
    by_cases blank : isBlank c = true
    · rw [tokenize_blank blank, keptRules_idle rfl, List.takeWhile_cons_of_pos blank,
        List.dropWhile_cons_of_pos blank]
    · rw [List.takeWhile_cons_of_neg blank, List.dropWhile_cons_of_neg blank]
      rfl

theorem keptRules_blanks {blanks : Text} (each : ∀ c ∈ blanks, isBlank c = true) {rest : Text}
    (apart : blanks.getLast? = some '\r' → rest.head? ≠ some '\n') (line : Nat) :
    keptRules (tokenize line (blanks ++ rest)) =
      keptRules (tokenize (line + lineEnds blanks) rest) := by
  have further : blanks.getLast? = some '\r' → (rest.takeWhile isBlank).head? ≠ some '\n' := by
    intro ends begins
    apply apart ends
    cases rest with
    | nil => contradiction
    | cons c more =>
      by_cases blank : isBlank c = true
      · rwa [List.takeWhile_cons_of_pos blank] at begins
      · rw [List.takeWhile_cons_of_neg blank] at begins
        contradiction
  rw [keptRules_dropWhile, List.takeWhile_append_of_pos each, List.dropWhile_append_of_pos each,
    lineEnds_append further, keptRules_dropWhile (line + lineEnds blanks), Nat.add_assoc]

/-- A blank token at the front of a text is all the blanks there. -/
theorem keptRules_append_of_blank {line : Nat} {text : Text} {token : Token} {rest : List Token}
    (tokens : tokenize line text = token :: rest) (blank : token.kind = .blank)
    (noReturn : text.getLast? ≠ some '\r') :
    ∃ behind, text = token.text ++ behind ∧ rest = tokenize (lineAfter line [token]) behind ∧
      ∀ back, keptRules (tokenize line (text ++ back)) =
        keptRules (tokenize (lineAfter line [token]) (behind ++ back)) := by
  cases text with
  | nil =>
    rw [tokenize_nil] at tokens
    contradiction
  | cons first more =>
    have among : token ∈ tokenize line (first :: more) := by
      rw [tokens]
      exact List.mem_cons_self
    have blanks := (spelled_of_mem_tokenize among).blank blank
    have isFirst : isBlank first = true := by
      rw [tokenize_cons] at tokens
      apply blanks
      rw [← (List.cons.inj tokens).1]
      exact List.mem_cons_self
    rw [tokenize_blank isFirst] at tokens
    rcases List.cons.inj tokens with ⟨rfl, rfl⟩
    refine ⟨more.dropWhile isBlank, ?_, rfl, fun back => ?_⟩
    · rw [List.cons_append, List.takeWhile_append_dropWhile]
    · have whole := List.takeWhile_append_dropWhile (p := isBlank) (l := more)
      have parts : first :: more ++ back =
          (first :: more.takeWhile isBlank) ++ (more.dropWhile isBlank ++ back) := by
        rw [List.cons_append, List.cons_append, ← List.append_assoc, whole]
      rw [parts]
      apply keptRules_blanks blanks
      intro ends begins
      cases behind : more.dropWhile isBlank with
      | nil =>
        apply noReturn
        rw [behind, List.append_nil] at whole
        rwa [whole] at ends
      | cons c others =>
        have outside := List.head?_dropWhile_not isBlank more
        rw [behind] at outside begins
        cases begins
        contradiction

/-! ## Concatenation -/

theorem noReturn_of_append {front back : Text} (noReturn : (front ++ back).getLast? ≠ some '\r') :
    back.getLast? ≠ some '\r' := by
  intro ends
  apply noReturn
  rw [List.getLast?_append, ends]
  rfl

/-- The last token of a complete item is a stop. -/
theorem Item.exists_stop {tokens rest : List Token} {line : Nat} {text : Text} (item : Item tokens)
    (split : tokenize line text = tokens ++ rest) :
    ∃ front last c, tokens = front ++ [last] ∧ last.text = [c] ∧ isStop c = true := by
  rcases item.exists_last with ⟨front, last, rfl, kinds⟩
  have among : last ∈ tokenize line text := by
    rw [split]
    simp
  have spelled := spelled_of_mem_tokenize among
  rcases kinds with semicolon | closing
  · exact ⟨front, last, ';', rfl, spelled.semicolon semicolon, rfl⟩
  · exact ⟨front, last, '\x7d', rfl, spelled.closing closing, rfl⟩

/-- The rules of complete items and of what follows them are read one after the other. -/
theorem Items.keptRules_append {tokens : List Token} (items : Items tokens) {line : Nat}
    {text : Text} (spelled : tokenize line text = tokens) (noReturn : text.getLast? ≠ some '\r')
    (back : Text) :
    keptRules (tokenize line (text ++ back)) =
      keptRules tokens ++ keptRules (tokenize (lineAfter line tokens) back) := by
  -- A blank at the end of the text may run on into what follows, so the kept rules are compared
  -- and not the tokens.
  induction items generalizing line text with
  | nil =>
    have empty : text = [] := by
      rw [← source_tokenize line text, spelled, source_nil]
    rw [empty, keptRules_nil]
    rfl
  | @idle token rest idle further ih =>
    have step : ∃ behind, text = token.text ++ behind ∧
        rest = tokenize (lineAfter line [token]) behind ∧
        keptRules (tokenize line (text ++ back)) =
          keptRules (tokenize (lineAfter line [token]) (behind ++ back)) := by
      by_cases blank : token.kind = .blank
      · rcases keptRules_append_of_blank spelled blank noReturn with ⟨behind, parts, remaining, read⟩
        exact ⟨behind, parts, remaining, read back⟩
      · rcases tokenize_append_of_idle spelled idle blank with ⟨behind, parts, remaining, read⟩
        exact ⟨behind, parts, remaining, by rw [read, keptRules_idle idle.between]⟩
    rcases step with ⟨behind, rfl, remaining, read⟩
    rw [read, ih remaining.symm (noReturn_of_append noReturn), keptRules_idle idle.between]
    rfl
  | @item tokens rest item further ih =>
    rcases item.exists_stop spelled with ⟨front, last, c, rfl, single, stop⟩
    rw [List.append_assoc, List.singleton_append] at spelled
    rcases tokenize_append_of_stop spelled single stop with ⟨behind, rfl, remaining, read⟩
    have later : behind.getLast? ≠ some '\r' := by
      rw [← List.singleton_append, ← List.append_assoc] at noReturn
      exact noReturn_of_append noReturn
    have whole (others : List Token) : front ++ last :: others = (front ++ [last]) ++ others := by
      rw [List.append_assoc, List.singleton_append]
    rw [read, whole, item.keptRules_append, ih remaining.symm later, item.keptRules_append,
      List.append_assoc, lineAfter_append line (front ++ [last])]

/-! ## Style sheets -/

/-- The declaration on later lines. -/
def Declaration.down (lines : Nat) (declared : Declaration) : Declaration :=
  { declared with line := lines + declared.line }

/-- The rule on later lines. -/
def Rule.down (lines : Nat) (rule : Rule) : Rule :=
  { rule with declarations := rule.declarations.map (Declaration.down lines) }

theorem Declaration.down_down (lines further : Nat) (declared : Declaration) :
    (declared.down further).down lines = declared.down (lines + further) := by
  simp only [down, Nat.add_assoc]

theorem Rule.down_down (lines further : Nat) (rule : Rule) :
    (rule.down further).down lines = rule.down (lines + further) := by
  simp only [down, List.map_map, Function.comp_def, Declaration.down_down]

/-- The text consists of complete items. -/
def Complete (text : Text) : Prop :=
  Items (tokenize 1 (withoutMark text))

theorem SourceDeclaration.declaration_down (lines : Nat) (found : SourceDeclaration) :
    (found.down lines).declaration = found.declaration.down lines := by
  rw [declaration, text_down]
  rfl

theorem map_declaration_down (lines : Nat) (found : List SourceDeclaration) :
    (found.map (SourceDeclaration.down lines)).map SourceDeclaration.declaration =
      (found.map SourceDeclaration.declaration).map (Declaration.down lines) := by
  rw [List.map_map, List.map_map]
  apply List.map_congr_left
  intro declared _
  exact declared.declaration_down lines

theorem SourceRule.rule_down (lines : Nat) (found : SourceRule) :
    (found.down lines).rule = found.rule.down lines := by
  have selectors : (found.selectors.map (List.map (Token.down lines))).map
      (fun selector => clean (source selector)) =
        found.selectors.map fun selector => clean (source selector) := by
    rw [List.map_map]
    apply List.map_congr_left
    intro selector _
    rw [Function.comp_apply, source_down]
  rw [SourceRule.down, SourceRule.rule, selectors, map_declaration_down]
  rfl

theorem map_rule_down (lines : Nat) (found : List SourceRule) :
    (found.map (SourceRule.down lines)).map SourceRule.rule =
      (found.map SourceRule.rule).map (Rule.down lines) := by
  rw [List.map_map, List.map_map]
  apply List.map_congr_left
  intro rule _
  exact rule.rule_down lines

theorem keptIn_down (lines : Nat) (findings : List Finding) :
    keptIn (findings.map (Finding.down lines)) = (keptIn findings).map (SourceRule.down lines) := by
  rw [keptIn, keptIn, List.filterMap_map, List.map_filterMap]
  apply List.filterMap_congr
  intro finding _
  cases finding <;> rfl

theorem keptRules_down (lines : Nat) (tokens : List Token) :
    keptRules (tokens.map (Token.down lines)) = (keptRules tokens).map (SourceRule.down lines) := by
  rw [keptRules, readRules_down, keptIn_down, keptRules]

theorem rules_parse (text : Text) :
    (Stylesheet.parse text).rules =
      (keptRules (tokenize 1 (withoutMark text))).map SourceRule.rule := rfl

theorem withoutMark_append {front back : Text} (noMark : back.head? ≠ some '\uFEFF') :
    withoutMark (front ++ back) = withoutMark front ++ back := by
  cases front with
  | nil => exact withoutMark_of_head noMark
  | cons c rest =>
    by_cases mark : c = '\uFEFF'
    · rw [mark]
      rfl
    · have other (tail : Text) : withoutMark (c :: tail) = c :: tail :=
        withoutMark_of_head (by rwa [List.head?_cons, ne_eq, Option.some.injEq])
      rw [List.cons_append, other, other, List.cons_append]

theorem noReturn_withoutMark {text : Text} (noReturn : text.getLast? ≠ some '\r') :
    (withoutMark text).getLast? ≠ some '\r' := by
  unfold withoutMark
  split
  · rename_i rest
    have parts : '\uFEFF' :: rest = ['\uFEFF'] ++ rest := rfl
    rw [parts] at noReturn
    exact noReturn_of_append noReturn
  · exact noReturn

/-- The rules of complete items and of any text behind them, which stands on later lines. -/
theorem Complete.rules_append {front back : Text} (complete : Complete front)
    (noReturn : front.getLast? ≠ some '\r') (noMark : back.head? ≠ some '\uFEFF') :
    (Stylesheet.parse (front ++ back)).rules =
      (Stylesheet.parse front).rules ++
        (Stylesheet.parse back).rules.map (Rule.down (lineEnds front)) := by
  have after : lineAfter 1 (tokenize 1 (withoutMark front)) = lineEnds front + 1 := by
    rw [lineAfter_tokenize, lineEnds_withoutMark, Nat.add_comm]
  rw [rules_parse, withoutMark_append noMark,
    complete.keptRules_append rfl (noReturn_withoutMark noReturn), after, tokenize_down,
    keptRules_down, List.map_append, map_rule_down, rules_parse, rules_parse,
    withoutMark_of_head noMark]

end Swatch.Css
