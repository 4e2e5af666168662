import Swatch.Proofs.Css.Concatenation
import Swatch.Proofs.Css.Spaced

/-!
# Texts in the blocks of at-rules

An at-rule is wrapped around a text when the text becomes the contents of its block. A
text that closes what it opens fills the block exactly, and the at-rule closes what it
opens in turn, so at-rules can be wrapped around each other to any depth. A grouping
at-rule then leaves the rules of the text as they are, with their lines, and any other
at-rule leaves none of them.
-/

namespace Swatch.Css

/-! ## Tokens inside a bracket -/

theorem Whole.enclosed {test : Token → Bool} {text : Text} (whole : Whole test text)
    (blind : ∀ lines token, test (token.down lines) = test token) (line : Nat) :
    Enclosed test (tokenize line text) :=
  ⟨whole.balanced_at line, whole.uncut_at blind line⟩

namespace Enclosed

variable {test : Token → Bool} {outer : Bracket} {front back tokens : List Token}

theorem append (first : Enclosed test front) (second : Enclosed test back) :
    Enclosed test (front ++ back) := by
  refine ⟨?_, uncut_append first.uncut ?_⟩
  · rw [List.foldl_append, first.balanced, second.balanced]
  · rw [first.balanced, second.uncut]

theorem of_imp {narrow : Token → Bool} (enclosed : Enclosed test tokens)
    (imp : ∀ token, narrow token = true → test token = true) : Enclosed narrow tokens :=
  ⟨enclosed.balanced, uncut_of_imp imp enclosed.uncut⟩

theorem of_neutral {token : Token} (neutral : token.opens = none) (passes : test token = false) :
    Enclosed test [token] := by
  refine ⟨foldl_nest_of_flat ?_, uncut_of_passes ?_ []⟩ <;>
  · intro other met
    rwa [List.mem_singleton.mp met]

/-- Tokens that do not close the bracket around them leave it open. -/
theorem foldl_nest_inside {stack : List Bracket}
    (uncut : (cutAt (Token.closes outer) stack tokens).2 = []) :
    tokens.foldl nest (stack ++ [outer]) = tokens.foldl nest stack ++ [outer] := by
  -- The bracket stays at the bottom of the stack: only a token that is cut at could close it.
  induction tokens generalizing stack with
  | nil => rfl
  | cons token rest ih =>
    rcases uncut_cons_iff.mp uncut with ⟨stays, later⟩
    rw [List.foldl_cons, nest_append stack outer stays, List.foldl_cons]
    exact ih later

/-- Inside a bracket no token is on top. -/
theorem uncut_inside {stack : List Bracket}
    (uncut : (cutAt (Token.closes outer) stack tokens).2 = []) (test : Token → Bool) :
    (cutAt test (stack ++ [outer]) tokens).2 = [] := by
  induction tokens generalizing stack with
  | nil => rfl
  | cons token rest ih =>
    rcases uncut_cons_iff.mp uncut with ⟨stays, later⟩
    have deep : ((stack ++ [outer]).isEmpty && test token) = false := by
      cases stack <;> rfl
    refine uncut_cons_iff.mpr ⟨deep, ?_⟩
    rw [nest_append stack outer stays]
    exact ih later

/-- A block is enclosed, whatever the test would stop at inside it. -/
theorem block {opening closing : Token} (inside : Enclosed (Token.closes outer) tokens)
    (opens : opening.opens = some outer) (closes : closing.closes outer = true)
    (passes : test opening = false) : Enclosed test (opening :: (tokens ++ [closing])) := by
  have within := foldl_nest_inside inside.uncut
  rw [inside.balanced, List.nil_append] at within
  have opened : nest [] opening = [outer] := by
    rw [nest, opens]
  have kind : closing.kind = .closing outer := by
    simpa [Token.closes] using closes
  have closed : nest [outer] closing = [] := by
    simp [nest, Token.opens, Token.closes, kind]
  constructor
  · rw [List.foldl_cons, opened, List.foldl_append, within, List.foldl_cons, closed, List.foldl_nil]
  · refine uncut_cons_iff.mpr ⟨by rw [passes, Bool.and_false], ?_⟩
    rw [opened]
    apply uncut_append (uncut_inside inside.uncut test)
    rw [List.nil_append, within]
    rfl

end Enclosed

/-! ## At-rules around a text -/

/-- An at-rule with an open block: its name and the condition between the name and the block. -/
structure Wrapper where
  name : Text
  condition : Text
  deriving DecidableEq, Repr

/-- Does the token end the condition of an at-rule, or the block that the at-rule stands in? -/
def endsCondition (token : Token) : Bool :=
  endsAtRuleHead token || token.closes .curly

namespace Wrapper

/-- The at-rule with the text as the contents of its block. -/
def around (wrapper : Wrapper) (text : Text) : Text :=
  "@".toList ++ wrapper.name ++ " ".toList ++ wrapper.condition ++ " \x7b".toList ++ text ++
    "\x7d".toList

/-- The text inside all of the at-rules, the first of which is the outermost one. -/
def nested (wrappers : List Wrapper) (text : Text) : Text :=
  wrappers.foldr around text

/-- The name has no escapes, and the condition is a whole text on one line. -/
structure WellFormed (wrapper : Wrapper) : Prop where
  literal : isLiteralName wrapper.name = true
  whole : Whole endsCondition wrapper.condition
  oneLine : lineEnds wrapper.condition = 0

/-- The keyword of the at-rule on the given line. -/
def keyword (wrapper : Wrapper) (line : Nat) : Token :=
  ⟨.atKeyword, '@' :: wrapper.name, line⟩

/-- The condition with a space on either side, in tokens. -/
def head (wrapper : Wrapper) (line : Nat) : List Token :=
  tokenize line (' ' :: (wrapper.condition ++ [' ']))

/-- The block that holds a text which begins on the given line. -/
def blockOf (line : Nat) (text : Text) : Ending :=
  .block ⟨.opening .curly, ['\x7b'], line⟩ (tokenize line text)
    (some ⟨.closing .curly, ['\x7d'], line + lineEnds text⟩)

section Around

variable {wrapper : Wrapper} {text : Text}

theorem endsCondition_ofKind : OfKind endsCondition := by
  intro token other same
  simp only [endsCondition, endsAtRuleHead, Token.opensBlock, Token.closes, same]

theorem endsCondition_down (lines : Nat) (token : Token) :
    endsCondition (token.down lines) = endsCondition token := rfl

theorem WellFormed.whole_head (wellFormed : wrapper.WellFormed) :
    Whole endsCondition (' ' :: (wrapper.condition ++ [' '])) := by
  have blanks : ∀ c ∈ [' '], isBlank c = true := by
    simp [isBlank]
  exact (Whole.blanks_append_iff blanks (fun _ _ => rfl) endsCondition_down).mpr
    (wellFormed.whole.append_space endsCondition_ofKind fun _ _ => rfl)

theorem WellFormed.enclosed_head (wellFormed : wrapper.WellFormed) (line : Nat) :
    Enclosed endsCondition (wrapper.head line) :=
  wellFormed.whole_head.enclosed endsCondition_down line

theorem complete_blockOf (whole : Whole (Token.closes .curly) text) (line : Nat) :
    (blockOf line text).Complete :=
  .block rfl (whole.enclosed (fun _ _ => rfl) line) rfl

theorem lexeme_keyword {name : Text} (literal : isLiteralName name = true) (rest : Text) :
    lexeme '@' (name ++ ' ' :: rest) = (.atKeyword, 1 + name.length) := by
  have begins : startsName (name ++ ' ' :: rest) = true := by
    rw [isLiteralName, Bool.and_eq_true] at literal
    rw [startsName_space, literal.1]
  have size := nameLength_literal (isNameChar_of_literal literal) (halted_space rest)
  have noMark (mark : Text) (filled : mark ≠ []) (other : mark.head? ≠ some '@') :=
    isPrefixOf_of_head? filled other (name ++ ' ' :: rest)
  simp only [lexeme, punctuation, isBlank, isLineEnd, isQuote, begins, size,
    noMark "/*".toList (by decide) (by decide), noMark "<!--".toList (by decide) (by decide),
    noMark "-->".toList (by decide) (by decide)]
  rfl

theorem WellFormed.lineEnds_head (wellFormed : wrapper.WellFormed) :
    lineEnds (' ' :: (wrapper.condition ++ [' '])) = 0 := by
  have inside := (lineEnds_eq_zero_iff _).mp wellFormed.oneLine
  have space : isLineEnd ' ' = false := rfl
  rw [lineEnds_eq_zero_iff]
  intro c met
  rw [List.mem_cons, List.mem_append, List.mem_singleton] at met
  rcases met with rfl | met | rfl
  · exact space
  · exact inside c met
  · exact space

theorem WellFormed.lineEnds_keyword (wellFormed : wrapper.WellFormed) :
    lineEnds ('@' :: wrapper.name) = 0 := by
  rw [lineEnds_eq_zero_iff]
  intro c met
  rcases List.mem_cons.mp met with rfl | met
  · rfl
  · have noBlank := isBlank_of_nameChar (isNameChar_of_literal wellFormed.literal c met)
    rw [isBlank, Bool.or_eq_false_iff] at noBlank
    exact noBlank.2

/-- The at-rule is one statement, whose block holds the tokens of the text. -/
theorem WellFormed.tokenize_around (wellFormed : wrapper.WellFormed)
    (whole : Whole (Token.closes .curly) text) (line : Nat) (rest : Text) :
    tokenize line (wrapper.around text ++ rest) =
      wrapper.keyword line :: (wrapper.head line ++ (blockOf line text).tokens ++
        tokenize (line + lineEnds text) rest) := by
  have parts : wrapper.around text ++ rest = '@' :: (wrapper.name ++ ' ' ::
      (wrapper.condition ++ [' '] ++ '\x7b' :: (text ++ '\x7d' :: rest))) := by
    simp [around]
  have size : 1 + wrapper.name.length - 1 = wrapper.name.length := Nat.add_sub_cancel_left 1 _
  have opens (tail : Text) : tokenize line ('\x7b' :: tail) =
      ⟨.opening .curly, ['\x7b'], line⟩ :: tokenize line tail :=
    tokenize_punctuation rfl line tail
  have closes (tail : Text) : tokenize (line + lineEnds text) ('\x7d' :: tail) =
      ⟨.closing .curly, ['\x7d'], line + lineEnds text⟩ :: tokenize (line + lineEnds text) tail :=
    tokenize_punctuation rfl (line + lineEnds text) tail
  -- Three boundaries from left to right: behind the name, before the block and at its end.
  rw [parts, tokenize_cons, lexeme_keyword wellFormed.literal, size, List.take_left, List.drop_left,
    wellFormed.lineEnds_keyword, Nat.add_zero, ← List.cons_append,
    tokenize_append wellFormed.whole_head.detached line (stopped_cons rfl _), lineAfter_tokenize,
    wellFormed.lineEnds_head, Nat.add_zero, opens,
    tokenize_append whole.detached line (stopped_cons rfl _), lineAfter_tokenize, closes]
  simp [keyword, head, blockOf, Ending.tokens]

theorem WellFormed.name_keyword (wellFormed : wrapper.WellFormed) (line : Nat) :
    (wrapper.keyword line).name = wrapper.name :=
  resolve_of_literal wellFormed.literal

/-- The rules in a block are the rules of its text, if the at-rule groups rules. -/
theorem WellFormed.keptRules_around (wellFormed : wrapper.WellFormed)
    (whole : Whole (Token.closes .curly) text) (line : Nat) (rest : Text) :
    keptRules (tokenize line (wrapper.around text ++ rest)) =
      (if isGroupingName wrapper.name then keptRules (tokenize line text) else []) ++
        keptRules (tokenize (line + lineEnds text) rest) := by
  have enclosed : Enclosed endsAtRuleHead (wrapper.head line) :=
    (wellFormed.enclosed_head line).of_imp fun token ends => by
      rw [endsCondition, ends, Bool.true_or]
  have complete := complete_blockOf whole line
  rw [wellFormed.tokenize_around whole, keptRules_atRule rfl,
    Statement.read_complete enclosed complete (endsAtRuleHead_of_complete complete), groupedRules,
    wellFormed.name_keyword]
  cases isGroupingName wrapper.name <;> rfl

theorem WellFormed.rules_around (wellFormed : wrapper.WellFormed)
    (whole : Whole (Token.closes .curly) text) (noMark : text.head? ≠ some '\uFEFF') :
    (Stylesheet.parse (wrapper.around text)).rules =
      if isGroupingName wrapper.name then (Stylesheet.parse text).rules else [] := by
  have noMarkAround : (wrapper.around text).head? ≠ some '\uFEFF' := by
    simp [around]
  have read := wellFormed.keptRules_around whole 1 []
  rw [List.append_nil, tokenize_nil, keptRules_nil, List.append_nil] at read
  rw [rules_parse, rules_parse, withoutMark_of_head noMarkAround, withoutMark_of_head noMark, read]
  cases isGroupingName wrapper.name <;> rfl

/-- The at-rule closes what it opens. -/
theorem WellFormed.whole_around (wellFormed : wrapper.WellFormed)
    (whole : Whole (Token.closes .curly) text) :
    Whole (Token.closes .curly) (wrapper.around text) := by
  have stop : isStop ';' = true := rfl
  have cut := wellFormed.tokenize_around whole 0 [';']
  rw [← List.cons_append] at cut
  have spelled : source (wrapper.keyword 0 :: (wrapper.head 0 ++ (blockOf 0 text).tokens)) =
      wrapper.around text := by
    simp [keyword, head, blockOf, Ending.tokens, source_tokenize, around]
  have enclosed : Enclosed (Token.closes .curly)
      (wrapper.keyword 0 :: (wrapper.head 0 ++ (blockOf 0 text).tokens)) := by
    have keyword : Enclosed (Token.closes .curly) [wrapper.keyword 0] := .of_neutral rfl rfl
    have head : Enclosed (Token.closes .curly) (wrapper.head 0) :=
      (wellFormed.enclosed_head 0).of_imp fun token closes => by
        rw [endsCondition, closes, Bool.or_true]
    have block : Enclosed (Token.closes .curly) (blockOf 0 text).tokens :=
      .block (whole.enclosed (fun _ _ => rfl) 0) rfl rfl rfl
    exact keyword.append (head.append block)
  rw [(eq_tokenize_of_cut stop cut spelled).1] at enclosed
  exact ⟨isDetached_of_cut stop cut spelled, enclosed.balanced, enclosed.uncut⟩

end Around

section Nested

variable {text : Text} {wrappers : List Wrapper}

theorem whole_nested (wellFormed : ∀ wrapper ∈ wrappers, wrapper.WellFormed)
    (whole : Whole (Token.closes .curly) text) :
    Whole (Token.closes .curly) (nested wrappers text) := by
  induction wrappers with
  | nil => exact whole
  | cons wrapper inner ih =>
    have inside := ih fun other met => wellFormed other (List.mem_cons_of_mem _ met)
    exact (wellFormed wrapper List.mem_cons_self).whole_around inside

theorem head?_nested (noMark : text.head? ≠ some '\uFEFF') :
    (nested wrappers text).head? ≠ some '\uFEFF' := by
  cases wrappers with
  | nil => exact noMark
  | cons wrapper inner => simp [nested, around]

/-- Grouping at-rules are transparent at any depth, and one of any other name hides all inside it. -/
theorem rules_nested (wellFormed : ∀ wrapper ∈ wrappers, wrapper.WellFormed)
    (whole : Whole (Token.closes .curly) text) (noMark : text.head? ≠ some '\uFEFF') :
    (Stylesheet.parse (nested wrappers text)).rules =
      if wrappers.all fun wrapper => isGroupingName wrapper.name then
        (Stylesheet.parse text).rules
      else [] := by
  induction wrappers with
  | nil => rfl
  | cons wrapper inner ih =>
    have later : ∀ other ∈ inner, other.WellFormed :=
      fun other met => wellFormed other (List.mem_cons_of_mem _ met)
    -- The outermost at-rule stands around a text that is whole because the inner ones are.
    have outer := (wellFormed wrapper List.mem_cons_self).rules_around (whole_nested later whole)
      (head?_nested noMark)
    rw [nested, List.foldr_cons, ← nested, outer, ih later, List.all_cons]
    cases isGroupingName wrapper.name <;> rfl

/-- A text in a layer inside a medium, and both of them inside a rule that does not group. -/
theorem rules_nested_layer :
    let wrappers : List Wrapper :=
      [⟨"MEDIA".toList, "(width:1px)".toList⟩, ⟨"layer".toList, "\\41".toList⟩]
    let opaqueWrapper : Wrapper := ⟨"page".toList, []⟩
    let text := "/*\x7d*/\n.a\x7bcolor:#fff\x7d\x29".toList
    (Stylesheet.parse (nested wrappers text)).rules =
        [⟨[".a".toList], [⟨"color".toList, "#fff".toList, false, 2⟩]⟩] ∧
      (Stylesheet.parse (nested (opaqueWrapper :: wrappers) text)).rules = [] := by
  intro wrappers opaqueWrapper text
  have each : ∀ wrapper ∈ opaqueWrapper :: wrappers, wrapper.WellFormed := by
    intro wrapper met
    simp only [wrappers, List.mem_cons, List.not_mem_nil, or_false] at met
    rcases met with rfl | rfl | rfl
    all_goals exact ⟨by decide, ⟨by decide +kernel, by decide +kernel, by decide +kernel⟩, by decide⟩
  have inner : ∀ wrapper ∈ wrappers, wrapper.WellFormed :=
    fun wrapper met => each wrapper (List.mem_cons_of_mem _ met)
  have whole : Whole (Token.closes .curly) text :=
    ⟨by decide +kernel, by decide +kernel, by decide +kernel⟩
  rw [rules_nested inner whole (by decide), rules_nested each whole (by decide)]
  exact ⟨by decide +kernel, rfl⟩

end Nested

end Wrapper

end Swatch.Css
