import Swatch.Proofs.Css.Lines
import Mathlib.Data.List.Forall2

/-!
# Reading what was put together

A body or a list of rules that is put together from whole texts is taken apart
again along the same seams. What is read then depends on the parts alone: on how
each declaration reads by itself, and on how the pieces between the commas read
by themselves. Only lines depend on the place, so the results are compared
without them.
-/

namespace Swatch.Css

/-- The declaration without its place in the source. -/
def Declaration.unplaced (declared : Declaration) : Declaration :=
  { declared with line := 0 }

/-- The rule without the places of its declarations in the source. -/
def Rule.unplaced (rule : Rule) : Rule :=
  { rule with declarations := rule.declarations.map Declaration.unplaced }

/-- The declarations among the items of a body, without their places. -/
def declaredIn (items : List BodyItem) : List Declaration :=
  (declarationsOf items).map fun found => found.declaration.unplaced

/-- The rules among findings, without their places. -/
def rulesIn (findings : List Finding) : List Rule :=
  findings.filterMap fun
    | .kept found => some found.rule.unplaced
    | .passedOver _ => none

theorem map_unplaced_parse (text : Text) :
    (Stylesheet.parse text).rules.map Rule.unplaced = rulesIn (findings text) := by
  simp only [Stylesheet.parse, sourceRules, rulesIn, List.map_filterMap]
  refine congrFun (congrArg List.filterMap ?_) _
  funext finding
  cases finding <;> rfl

@[simp]
theorem rulesIn_append (front back : List Finding) :
    rulesIn (front ++ back) = rulesIn front ++ rulesIn back :=
  List.filterMap_append

theorem rulesIn_finding? (items : List BodyItem) :
    rulesIn (items.filterMap BodyItem.finding?) = [] := by
  rw [rulesIn, List.filterMap_filterMap, List.filterMap_eq_nil_iff]
  intro item _
  cases item <;> rfl

theorem SourceDeclaration.unplaced_declaration_down (lines : Nat) (found : SourceDeclaration) :
    (found.down lines).declaration.unplaced = found.declaration.unplaced := by
  simp only [declaration, Declaration.unplaced, text_down]
  rfl

theorem declaredIn_down (lines : Nat) (items : List BodyItem) :
    declaredIn (items.map (BodyItem.down lines)) = declaredIn items := by
  simp [declaredIn, declarationsOf_down, SourceDeclaration.unplaced_declaration_down]

theorem SourceRule.unplaced_rule_down (lines : Nat) (found : SourceRule) :
    (found.down lines).rule.unplaced = found.rule.unplaced := by
  simp [rule, Rule.unplaced, down, SourceDeclaration.unplaced_declaration_down]

theorem rulesIn_down (lines : Nat) (findings : List Finding) :
    rulesIn (findings.map (Finding.down lines)) = rulesIn findings := by
  rw [rulesIn, rulesIn, List.filterMap_map]
  refine congrFun (congrArg List.filterMap ?_) _
  funext finding
  cases finding with
  | kept found => exact congrArg some (found.unplaced_rule_down lines)
  | passedOver notice => rfl

/-! ## Bodies -/

/-- The declarations that a text means as the body of a rule. -/
def bodyDeclarations (text : Text) : List Declaration :=
  declaredIn (readBody (tokenize 0 text))

theorem declaredIn_readBody (line : Nat) (text : Text) :
    declaredIn (readBody (tokenize line text)) = bodyDeclarations text := by
  rw [tokenize_eq_down, readBody_down, declaredIn_down, bodyDeclarations]

theorem opens_of_idle {token : Token} (idle : (token.isGap || endsItem token) = true) :
    token.opens = none := by
  rw [Token.isGap, endsItem, Bool.or_eq_true, Bool.or_eq_true, beq_iff_eq, beq_iff_eq,
    beq_iff_eq] at idle
  rcases idle with (blank | comment) | semicolon <;> simp [Token.opens, *]

theorem opens_of_endsItem {token : Token} (ends : endsItem token = true) : token.opens = none :=
  opens_of_idle (by rw [ends, Bool.or_true])

theorem declarationsOf_append (front back : List BodyItem) :
    declarationsOf (front ++ back) = declarationsOf front ++ declarationsOf back :=
  List.filterMap_append

theorem declarationsOf_cons (item : BodyItem) (items : List BodyItem) :
    declarationsOf (item :: items) = declarationsOf [item] ++ declarationsOf items := by
  rw [← List.singleton_append, declarationsOf_append]

theorem declarationsOf_skipped (line : Nat) (text : Text) (items : List BodyItem) :
    declarationsOf (.skipped line text :: items) = declarationsOf items := rfl

/-- The same item, except that the text of a skipped one may go on through the mark behind it. -/
inductive BodyItem.Reported (mark : Text) : BodyItem → BodyItem → Prop
  | same (item : BodyItem) : Reported mark item item
  | further (line : Nat) (text : Text) :
      Reported mark (.skipped line text) (.skipped line (text ++ mark))

theorem BodyItem.reported_read (mark : Text) (first : Token) (tokens : List Token) (text : Text) :
    Reported mark (BodyItem.read first tokens text) (BodyItem.read first tokens (text ++ mark)) := by
  unfold BodyItem.read
  split
  · cases SourceDeclaration.read first tokens with
    | ok found => exact .same _
    | error line => exact .further line text
  · exact .further first.line text

theorem declarationsOf_of_reported {mark : Text} {items others : List BodyItem}
    (same : List.Forall₂ (BodyItem.Reported mark) items others) :
    declarationsOf others = declarationsOf items := by
  induction same with
  | nil => rfl
  | cons here _ ih =>
    rw [declarationsOf_cons, ih]
    cases here with
    | same => exact (declarationsOf_cons _ _).symm
    | further line text => rfl

/-- The head of an at-rule at the end of a body goes up to the next semicolon. -/
theorem readBody_atRule_append {front : List Token} (balanced : front.foldl nest [] = [])
    {mark : Token} (ends : endsItem mark = true) (back : List Token) :
    let alone := Statement.read endsAtRuleHead front
    let together := Statement.read endsAtRuleHead (front ++ mark :: back)
    together.head = alone.head ∧
      ((alone.rest.foldl nest [] = [] ∧ together.rest = alone.rest ++ mark :: back) ∨
        (alone.rest = [] ∧ together.rest = back)) := by
  intro alone together
  have stops : endsAtRuleHead mark = true := by
    rw [endsItem] at ends
    rw [endsAtRuleHead, ends, Bool.true_or]
  have noBlock : mark.opensBlock = false := by
    rw [endsItem, beq_iff_eq] at ends
    simp [Token.opensBlock, ends]
  cases cut : (cutAt endsAtRuleHead [] front).2 with
  | nil =>
    have whole := cutAt_eq_of_uncut cut
    have joined := cutAt_append_of_stop cut balanced stops back
    refine ⟨?_, .inr ⟨by simp only [alone, Statement.read, cut]; rfl, ?_⟩⟩
    · simp only [together, alone, Statement.read, Statement.close_head, joined, whole]
    · simp only [together, Statement.read, joined]
      simp [Statement.close, noBlock]
  | cons opening after =>
    refine ⟨?_, .inl ?_⟩
    · simp only [together, alone, Statement.read, Statement.close_head, cutAt_append_of_cut cut]
    have inside := foldl_nest_after_cut cut
    rw [balanced] at inside
    simp only [alone, together, Statement.read, cutAt_append_of_cut cut, cut]
    by_cases block : opening.opensBlock = true
    · have kind : opening.kind = .opening .curly := by simpa [Token.opensBlock] using block
      have opened : nest [] opening = [.curly] := by simp [nest, Token.opens, kind]
      rw [opened] at inside
      obtain ⟨closing, rest, closes, closed⟩ :=
        cutAt_closes_of_balanced (show after.foldl nest ([] ++ [.curly]) = [] from inside.symm)
      simp only [List.cons_append, Statement.close, block, ↓reduceIte, closes, List.tail_cons,
        cutAt_append_of_cut closes]
      exact ⟨closed, trivial⟩
    · have semicolon : endsItem opening = true := by
        have either := (foldl_nest_of_cut cut).2
        rw [endsAtRuleHead, Bool.or_eq_true] at either
        exact either.resolve_right block
      rw [nest_eq_nil_of_neutral (opens_of_endsItem semicolon)] at inside
      simp only [List.cons_append, Statement.close, block, Bool.false_eq_true, ↓reduceIte]
      exact ⟨inside.symm, trivial⟩

/-- A semicolon behind closed brackets ends whatever stands before it, and nothing else. -/
theorem readBody_append {front : List Token} (balanced : front.foldl nest [] = [])
    {mark : Token} (ends : endsItem mark = true) (back : List Token) :
    ∃ items, List.Forall₂ (BodyItem.Reported mark.text) (readBody front) items ∧
      readBody (front ++ mark :: back) = items ++ readBody back := by
  have idle : (mark.isGap || endsItem mark) = true := by rw [ends, Bool.or_true]
  fun_induction readBody front with
  | case1 => exact ⟨[], .nil, by rw [List.nil_append, readBody, if_pos idle, List.nil_append]⟩
  | case2 first rest passes ih =>
    rw [List.foldl_cons, nest_eq_nil_of_neutral (opens_of_idle passes)] at balanced
    rw [List.cons_append, readBody, if_pos passes]
    exact ih balanced
  | case3 first rest busy keyword rule ih =>
    have neutral : first.opens = none := by simp [Token.opens, keyword]
    rw [List.foldl_cons, nest_eq_nil_of_neutral neutral] at balanced
    rw [List.cons_append, readBody, if_neg busy, if_pos keyword]
    rcases readBody_atRule_append balanced ends back with ⟨head, ⟨closed, further⟩ | ⟨none, further⟩⟩
    · rcases ih closed with ⟨items, same, read⟩
      refine ⟨_ :: items, .cons (.same _) same, ?_⟩
      dsimp only
      rw [head, further]
      exact congrArg (List.cons _) read
    · have done : readBody rule.rest = [] := by
        rw [show rule.rest = [] from none, readBody]
      refine ⟨[_], .cons (.same _) (by rw [done]; exact .nil), ?_⟩
      dsimp only
      rw [head, further]
      rfl
  | case4 first rest busy noKeyword cut item ih =>
    rw [List.cons_append, readBody, if_neg busy, if_neg noKeyword]
    rw [List.foldl_cons] at balanced
    cases split : cut.2 with
    | nil =>
      have whole : cut.1 = rest := congrArg Prod.fst (cutAt_eq_of_uncut split)
      have joined := cutAt_append_of_stop split balanced ends back
      have text : source (first :: rest ++ (mark :: back).take 1) = item ++ mark.text := by
        simp [item, whole, split]
      refine ⟨[BodyItem.read first rest (item ++ mark.text)], ?_, ?_⟩
      · rw [whole, List.drop_nil, readBody]
        exact .cons (BodyItem.reported_read mark.text first rest item) .nil
      · rw [joined, ← text]
        rfl
    | cons semicolon after =>
      have closed := foldl_nest_after_cut (show (cutAt endsItem (nest [] first) rest).2 = _ from split)
      rw [balanced, nest_eq_nil_of_neutral (opens_of_endsItem (foldl_nest_of_cut split).2)] at closed
      rw [split] at ih
      rcases ih closed.symm with ⟨items, same, read⟩
      refine ⟨_ :: items, .cons (.same _) same, ?_⟩
      rw [cutAt_append_of_cut split]
      simp only [List.cons_append, List.drop_succ_cons, List.drop_zero] at read ⊢
      rw [read, show item = source (first :: cut.1 ++ (semicolon :: after).take 1) by rw [← split]]
      rfl

theorem declarationsOf_readBody_append {front : List Token} (balanced : front.foldl nest [] = [])
    {mark : Token} (ends : endsItem mark = true) (back : List Token) :
    declarationsOf (readBody (front ++ mark :: back)) =
      declarationsOf (readBody front) ++ declarationsOf (readBody back) := by
  rcases readBody_append balanced ends back with ⟨items, same, read⟩
  rw [read, declarationsOf_append, declarationsOf_of_reported same]

theorem declaredIn_append (front back : List BodyItem) :
    declaredIn (front ++ back) = declaredIn front ++ declaredIn back := by
  simp [declaredIn, declarationsOf]

/-- Blanks at the front of a body mean nothing. -/
theorem bodyDeclarations_dropWhile (text : Text) :
    bodyDeclarations (text.dropWhile isBlank) = bodyDeclarations text := by
  cases text with
  | nil => rfl
  | cons c rest =>
    by_cases blank : isBlank c = true
    · rw [List.dropWhile_cons_of_pos blank, bodyDeclarations.eq_def (c :: rest),
        tokenize_blank blank, readBody, if_pos (by rfl), declaredIn_readBody]
    · rw [List.dropWhile_cons_of_neg blank]

theorem bodyDeclarations_append {front : Text} (detached : isDetached front = true)
    (balanced : (tokenize 0 front).foldl nest [] = []) (back : Text) :
    bodyDeclarations (front ++ ';' :: back) =
      bodyDeclarations front ++ bodyDeclarations back := by
  rw [bodyDeclarations, declaredIn, tokenize_append detached 0 (stopped_cons (by decide) back),
    tokenize_punctuation (by rfl), declarationsOf_readBody_append balanced rfl, List.map_append]
  exact congrArg _ (declaredIn_readBody _ back)

theorem bodyDeclarations_join {test : Token → Bool} {items : List Text}
    (whole : ∀ item ∈ items, Whole test item) :
    bodyDeclarations (join [';'] items) = items.flatMap bodyDeclarations := by
  induction items with
  | nil => rw [join_nil, bodyDeclarations, tokenize_nil, readBody]; rfl
  | cons item rest ih =>
    have later := ih fun other met => whole other (List.mem_cons_of_mem _ met)
    have here := whole item List.mem_cons_self
    cases rest with
    | nil => simp
    | cons next rest =>
      rw [join_cons_cons, List.singleton_append,
        bodyDeclarations_append here.detached here.balanced, later]
      rfl

/-! ## Selectors -/

/-- Does the token end a selector? -/
def endsSelector (token : Token) : Bool :=
  isComma token || token.opensBlock

theorem piecesAt_join {pieces : List Text} (some : pieces ≠ [])
    (whole : ∀ piece ∈ pieces, Whole endsSelector piece) (last line : Nat) :
    (piecesAt isComma last [] (tokenize line (join [','] pieces))).map (source ∘ Prod.fst) =
      pieces := by
  induction pieces generalizing line with
  | nil => contradiction
  | cons piece rest ih =>
    have here := (whole piece List.mem_cons_self).of_imp
      (show ∀ token, isComma token = true → endsSelector token = true from
        fun token comma => by rw [endsSelector, comma, Bool.true_or])
    have uncut := here.uncut_at isComma_down line
    cases rest with
    | nil =>
      have alone := piecesAt_append uncut last []
      rw [List.append_nil] at alone
      rw [join_singleton, alone, piecesAt]
      simp [source_tokenize]
    | cons next rest =>
      have later := ih (List.cons_ne_nil next rest)
        (fun piece met => whole piece (List.mem_cons_of_mem _ met))
      rw [join_cons_cons, List.singleton_append,
        tokenize_append here.detached line (stopped_cons (by decide) _),
        tokenize_punctuation (by rfl), piecesAt_append uncut, here.balanced_at, piecesAt,
        if_pos (by rfl)]
      simp only [List.modifyHead_cons, List.map_cons, Function.comp_apply, List.append_nil,
        source_tokenize]
      rw [later]

/-- The pieces between the commas are the selectors, once none of them is empty. -/
theorem readSelectors_of_filled {last : Nat} {head : List Token}
    (filled : ∀ piece ∈ (piecesAt isComma last [] head).map Prod.fst, clean (source piece) ≠ []) :
    readSelectors last head = .ok ((piecesAt isComma last [] head).map Prod.fst) := by
  have none : (piecesAt isComma last [] head).find?
      (fun piece => (clean (source piece.1)).isEmpty) = none := by
    rw [List.find?_eq_none]
    intro piece met
    rw [List.isEmpty_iff]
    exact filled _ (List.mem_map_of_mem met)
  rw [readSelectors, none]

/-- Pieces that are not empty are the selectors between the commas. -/
theorem readSelectors_join {pieces : List Text} (some : pieces ≠ [])
    (whole : ∀ piece ∈ pieces, Whole endsSelector piece)
    (filled : ∀ piece ∈ pieces, clean piece ≠ []) (last line : Nat) :
    ∃ selectors, readSelectors last (tokenize line (join [','] pieces)) = .ok selectors ∧
      selectors.map (fun selector => clean (source selector)) = pieces.map clean := by
  have spelled := piecesAt_join some whole last line
  rw [← List.map_map] at spelled
  refine ⟨_, readSelectors_of_filled ?_, ?_⟩
  · intro piece met
    apply filled
    rw [← spelled]
    exact List.mem_map_of_mem met
  · conv_rhs => rw [← spelled, List.map_map]
    rfl

/-! ## Rules -/

/-- The rules that a text means as a list of rules. -/
def listedRules (fresh : Bool) (text : Text) : List Rule :=
  rulesIn (readRules fresh (tokenize 0 text))

theorem rulesIn_readRules (fresh : Bool) (line : Nat) (text : Text) :
    rulesIn (readRules fresh (tokenize line text)) = listedRules fresh text := by
  rw [tokenize_eq_down, readRules_down, rulesIn_down, listedRules]

theorem map_unplaced_parse_eq_listedRules (text : Text) :
    (Stylesheet.parse text).rules.map Rule.unplaced = listedRules true (withoutMark text) := by
  rw [map_unplaced_parse, findings, rulesIn_readRules]

theorem withoutMark_of_head {text : Text} (other : text.head? ≠ some '\uFEFF') :
    withoutMark text = text := by
  unfold withoutMark
  split
  · exact absurd rfl other
  · rfl

@[simp]
theorem listedRules_nil (fresh : Bool) : listedRules fresh [] = [] := by
  rw [listedRules, tokenize_nil, readRules]
  rfl

/-- Blanks at the front of a list of rules mean nothing. -/
theorem listedRules_dropWhile (fresh : Bool) (text : Text) :
    listedRules fresh (text.dropWhile isBlank) = listedRules fresh text := by
  cases text with
  | nil => rfl
  | cons c rest =>
    by_cases blank : isBlank c = true
    · rw [List.dropWhile_cons_of_pos blank, listedRules.eq_def fresh (c :: rest),
        tokenize_blank blank, readRules, if_pos (by rfl), rulesIn_readRules]
    · rw [List.dropWhile_cons_of_neg blank]

theorem listedRules_append_of_blank {lead : Text} (blanks : ∀ c ∈ lead, isBlank c = true)
    (fresh : Bool) (text : Text) : listedRules fresh (lead ++ text) = listedRules fresh text := by
  rw [← listedRules_dropWhile, List.dropWhile_append_of_pos blanks, listedRules_dropWhile]

/-- Does the text, as the first selector of a rule, begin a style rule? -/
def beginsRule (text : Text) : Bool :=
  match tokenize 0 text with
  | [] => false
  | first :: rest =>
    !isBetweenRules first && first.kind != .atKeyword && !startsCustomProperty first rest

theorem startsCustomProperty_append (first : Token) (rest : List Token) {mark : Token}
    (noGap : mark.isGap = false) (noColon : mark.kind ≠ .colon) (back : List Token) :
    startsCustomProperty first (rest ++ mark :: back) = startsCustomProperty first rest := by
  simp only [startsCustomProperty, skipGaps, List.dropWhile_append]
  cases left : rest.dropWhile Token.isGap with
  | nil => simp [List.dropWhile_cons_of_neg, noGap, noColon]
  | cons token more => simp

/-- The tokens of a first selector begin a style rule, whatever follows the mark that ends it. -/
theorem begins_of_beginsRule {text : Text} (begins : beginsRule text = true) (line : Nat) :
    ∃ first rest, tokenize line text = first :: rest ∧ isBetweenRules first = false ∧
      first.kind ≠ .atKeyword ∧ startsCustomProperty first rest = false := by
  rw [tokenize_eq_down]
  rw [beginsRule] at begins
  cases tokens : tokenize 0 text with
  | nil => simp [tokens] at begins
  | cons first rest =>
    simp only [tokens, Bool.and_eq_true, Bool.not_eq_true', bne_iff_ne, ne_eq] at begins
    refine ⟨first.down line, rest.map (Token.down line), rfl, begins.1.1, begins.1.2, ?_⟩
    rw [startsCustomProperty_down, begins.2]

theorem begins_join {pieces : List Text} (some : pieces ≠ [])
    (whole : ∀ piece ∈ pieces, Whole endsSelector piece)
    (begins : beginsRule (pieces.headD []) = true) :
    ∃ first more, tokenize 0 (join [','] pieces) = first :: more ∧ isBetweenRules first = false ∧
      first.kind ≠ .atKeyword ∧ startsCustomProperty first more = false := by
  cases pieces with
  | nil => contradiction
  | cons piece others =>
    obtain ⟨first, more, tokens, busy, noKeyword, noCustom⟩ := begins_of_beginsRule begins 0
    cases others with
    | nil =>
      rw [join_singleton]
      exact ⟨first, more, tokens, busy, noKeyword, noCustom⟩
    | cons next others =>
      rw [List.headD_cons] at tokens
      rw [join_cons_cons, List.singleton_append,
        tokenize_append (whole piece List.mem_cons_self).detached 0
          (stopped_cons (by decide) _), tokenize_punctuation (by rfl), tokens, List.cons_append]
      refine ⟨first, _, rfl, busy, noKeyword, ?_⟩
      rw [startsCustomProperty_append first more (by rfl) (by simp), noCustom]

/-- The rules that a block at the front of the tokens gives, once its selectors are usable. -/
theorem rulesIn_readRules_block {first opening : Token} {rest head contents after : List Token}
    {closing : Option Token} {selectors : List (List Token)} (fresh : Bool)
    (busy : isBetweenRules first = false) (noKeyword : first.kind ≠ .atKeyword)
    (noCustom : startsCustomProperty first rest = false)
    (statement : Statement.read Token.opensBlock (first :: rest) =
      ⟨head, .block opening contents closing, after⟩)
    (found : readSelectors opening.line head = .ok selectors) :
    rulesIn (readRules fresh (first :: rest)) =
      ⟨selectors.map fun selector => clean (source selector), declaredIn (readBody contents)⟩ ::
        rulesIn (readRules false after) := by
  rw [readRules, busy, if_neg Bool.false_ne_true, if_neg noKeyword, qualifiedRule, noCustom,
    statement, if_neg Bool.false_ne_true]
  simp only [styleRule, found, rulesIn_append, rulesIn_finding?, List.nil_append]
  simp [rulesIn, SourceRule.rule, Rule.unplaced, declaredIn, Function.comp_def]

/-- The statement that a head and a block make up when both are whole. -/
theorem read_of_whole {head body : Text} (headWhole : Whole Token.opensBlock head)
    (bodyWhole : Whole (Token.closes .curly) body) (rest : Text) :
    ∃ opening closing line bodyLine,
      tokenize 0 (head ++ '\x7b' :: (body ++ '\x7d' :: rest)) =
        tokenize 0 head ++ opening :: (tokenize bodyLine body ++ closing :: tokenize line rest) ∧
      opening.kind = .opening .curly ∧
      Statement.read Token.opensBlock
          (tokenize 0 head ++ opening :: (tokenize bodyLine body ++ closing :: tokenize line rest)) =
        ⟨tokenize 0 head, .block opening (tokenize bodyLine body) (some closing),
          tokenize line rest⟩ := by
  let opensAt := lineAfter 0 (tokenize 0 head)
  let bodyLine := opensAt + lineEnds ['\x7b']
  let closesAt := lineAfter bodyLine (tokenize bodyLine body)
  refine ⟨⟨.opening .curly, ['\x7b'], opensAt⟩, ⟨.closing .curly, ['\x7d'], closesAt⟩,
    closesAt + lineEnds ['\x7d'], bodyLine, ?_, rfl, ?_⟩
  · rw [tokenize_append headWhole.detached 0 (stopped_cons (by decide) _),
      tokenize_punctuation (by rfl),
      tokenize_append bodyWhole.detached _ (stopped_cons (by decide) _),
      tokenize_punctuation (by rfl)]
  · rw [Statement.read, headWhole.cutAt_tokens Token.down_opensBlock 0 (by rfl), Statement.close,
      bodyWhole.cutAt_tokens (Token.down_closes · .curly ·) _ (by rfl)]
    rfl

/-- A style rule that is put together from whole texts is read as what its parts mean. -/
theorem listedRules_rule {pieces : List Text} {body : Text} (some : pieces ≠ [])
    (whole : ∀ piece ∈ pieces, Whole endsSelector piece)
    (filled : ∀ piece ∈ pieces, clean piece ≠ []) (begins : beginsRule (pieces.headD []) = true)
    (closed : Whole (Token.closes .curly) body) (fresh : Bool) (rest : Text) :
    listedRules fresh (join [','] pieces ++ '\x7b' :: (body ++ '\x7d' :: rest)) =
      ⟨pieces.map clean, bodyDeclarations body⟩ :: listedRules false rest := by
  have head : Whole Token.opensBlock (join [','] pieces) :=
    Whole.join (fun piece met => (whole piece met).of_imp
      (fun token opens => by rw [endsSelector, opens, Bool.or_true]))
      Token.down_opensBlock ⟨by decide, by rfl, by rfl, fun _ => rfl⟩
  obtain ⟨opening, closing, line, bodyLine, split, opens, statement⟩ :=
    read_of_whole head closed rest
  obtain ⟨selectors, found, cleaned⟩ :=
    readSelectors_join some whole filled opening.line 0
  obtain ⟨first, more, tokens, busy, noKeyword, noCustom⟩ := begins_join some whole begins
  rw [tokens, List.cons_append] at split statement
  rw [tokens] at found
  rw [listedRules, split, rulesIn_readRules_block fresh busy noKeyword ?_ statement found, cleaned,
    declaredIn_readBody, rulesIn_readRules]
  rw [startsCustomProperty_append first more (by simp [Token.isGap, opens]) (by simp [opens]),
    noCustom]

end Swatch.Css
