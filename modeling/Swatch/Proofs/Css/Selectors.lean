import Swatch.Proofs.Css.Components

/-!
# Lists of selectors

The reader comes to the style rules of a list one after the other, and takes each of them by
its own tokens. A rule with a block is kept if every piece between the commas on top of its
head says something, with one selector for each piece; otherwise nothing of it is kept. The
rules around it are what they are by themselves in either case.
-/

namespace Swatch.Css

/-! ## Rules that are reached -/

/-- The tokens of each style rule that is reached, used or not, in the order of the source. -/
def reachedRules (tokens : List Token) : List (List Token) :=
  match tokens with
  | [] => []
  | first :: rest =>
    if isBetweenRules first then reachedRules rest
    else if first.kind = .atKeyword then
      let statement := Statement.read endsAtRuleHead rest
      let grouped :=
        if isGroupingName first.name && statement.hasBlock then reachedRules statement.contents
        else []
      grouped ++ reachedRules statement.rest
    else
      let statement := Statement.read Token.opensBlock (first :: rest)
      statement.tokens :: reachedRules statement.rest
termination_by tokens.length
decreasing_by
  · simp
  · have := Statement.read_contents_length_le endsAtRuleHead rest
    simp only [List.length_cons]
    omega
  · have := Statement.read_rest_length_le endsAtRuleHead rest
    simp only [List.length_cons]
    omega
  · exact Statement.read_rest_length_lt Token.opensBlock first rest

/-- A style rule that something follows has a block with its closing bracket. -/
theorem Statement.complete_of_rest {input : List Token}
    (more : (read Token.opensBlock input).rest ≠ []) :
    ∃ opening contents closing,
      (read Token.opensBlock input).ending = .block opening contents closing ∧
        (Ending.block opening contents closing).Complete ∧
        Enclosed Token.opensBlock (read Token.opensBlock input).head := by
  have hasBlock : ∃ opening contents closing,
      (read Token.opensBlock input).ending = .block opening contents closing := by
    cases cut : (cutAt Token.opensBlock [] input).2 with
    | nil =>
      rw [read, cut] at more
      exact absurd rfl more
    | cons mark after =>
      rw [read, cut, close, if_pos (foldl_nest_of_cut cut).2]
      exact ⟨mark, _, _, rfl⟩
  rcases hasBlock with ⟨opening, contents, closing, ends⟩
  rcases read_eq_block ends with ⟨after, outer, cut, kind, block, last, behind⟩
  cases outer with
  | nil =>
    rw [List.tail_nil] at behind
    exact absurd behind.symm more
  | cons bracket others =>
    have head := (foldl_nest_of_cut (congrArg Prod.snd cut)).1
    have inside := foldl_nest_of_cut (congrArg Prod.snd block)
    have uncutHead := cutAt_fst_uncut Token.opensBlock [] input
    have uncut := cutAt_fst_uncut (Token.closes .curly) [] after
    rw [cut] at head uncutHead
    rw [block] at inside uncut
    refine ⟨opening, contents, closing, ends, ?_, ⟨head, uncutHead⟩⟩
    rw [← last]
    exact .block kind ⟨inside.1, uncut⟩ (by simpa [Token.closes] using inside.2)

section StyleRule

variable {first : Token} {rest : List Token}

theorem Statement.tokens_eq_cons (first : Token) (rest : List Token) :
    ∃ more, (read Token.opensBlock (first :: rest)).tokens = first :: more := by
  have parts := read_append Token.opensBlock (first :: rest)
  cases tokens : (read Token.opensBlock (first :: rest)).tokens with
  | nil =>
    have shorter := read_rest_length_lt Token.opensBlock first rest
    rw [tokens, List.nil_append] at parts
    rw [parts] at shorter
    exact absurd shorter (Nat.lt_irrefl _)
  | cons token more =>
    rw [tokens, List.cons_append] at parts
    exact ⟨more, by rw [(List.cons.inj parts).1]⟩

/-- A style rule is read by itself, and then what follows it. -/
theorem keptRules_statement (busy : isBetweenRules first = false) (noKeyword : first.kind ≠ .atKeyword) :
    keptRules (first :: rest) =
      keptRules (Statement.read Token.opensBlock (first :: rest)).tokens ++
        keptRules (Statement.read Token.opensBlock (first :: rest)).rest := by
  have parts := Statement.read_append Token.opensBlock (first :: rest)
  -- A rule without its closing bracket takes all that is left, so nothing has to be cut off.
  by_cases last : (Statement.read Token.opensBlock (first :: rest)).rest = []
  · rw [last, List.append_nil] at parts
    rw [last, keptRules_nil, List.append_nil, parts]
  · rcases Statement.complete_of_rest last with ⟨opening, contents, closing, ends, complete, head⟩
    rcases Statement.tokens_eq_cons first rest with ⟨more, begins⟩
    have item : Item (first :: more) := by
      apply Item.styleRule busy noKeyword head complete
      rw [← begins, Statement.tokens, ends]
    conv_lhs => rw [← parts, begins]
    rw [item.keptRules_append, begins]

/-- A style rule is read by itself as it is read in its place. -/
theorem Statement.read_tokens (input : List Token) :
    read Token.opensBlock (read Token.opensBlock input).tokens =
      { read Token.opensBlock input with rest := [] } := by
  have parts := read_append Token.opensBlock input
  by_cases last : (read Token.opensBlock input).rest = []
  · rw [last, List.append_nil] at parts
    rw [parts, ← last]
  · rcases complete_of_rest last with ⟨opening, contents, closing, ends, complete, head⟩
    have alone := read_complete head complete (opensBlock_of_complete complete) []
    rw [List.append_nil] at alone
    simp only [tokens, ends, alone]

end StyleRule

/-- The rules of a style sheet are those that each rule gives by itself. -/
theorem keptRules_eq_flatMap (tokens : List Token) :
    keptRules tokens = (reachedRules tokens).flatMap keptRules := by
  fun_induction reachedRules tokens with
  | case1 => exact keptRules_nil
  | case2 first rest between ih => rw [keptRules_idle between, ih]
  | case3 first rest busy keyword statement grouped inner ih =>
    rw [keptRules_atRule keyword, List.flatMap_append, groupedRules, ← ih]
    congr 1
    simp only [grouped]
    split
    · exact inner
    · rfl
  | case4 first rest busy noKeyword statement ih =>
    rw [Bool.not_eq_true] at busy
    rw [keptRules_statement busy noKeyword, List.flatMap_cons, ← ih]

/-- The tokens of one style rule, to its end and no further. -/
structure IsStyleRule (rule : List Token) : Prop where
  begins : ∃ first more, rule = first :: more ∧ isBetweenRules first = false ∧ first.kind ≠ .atKeyword
  ends : (Statement.read Token.opensBlock rule).rest = []

theorem isStyleRule_of_reached {tokens rule : List Token} (reached : rule ∈ reachedRules tokens) :
    IsStyleRule rule := by
  fun_induction reachedRules tokens with
  | case1 => contradiction
  | case2 first rest between ih => exact ih reached
  | case3 first rest busy keyword statement grouped inner ih =>
    rcases List.mem_append.mp reached with inside | behind
    · simp only [grouped] at inside
      split at inside
      · exact inner inside
      · contradiction
    · exact ih behind
  | case4 first rest busy noKeyword statement ih =>
    rcases List.mem_cons.mp reached with rfl | behind
    · rcases Statement.tokens_eq_cons first rest with ⟨more, begins⟩
      refine ⟨⟨first, more, begins, Bool.eq_false_iff.mpr busy, noKeyword⟩, ?_⟩
      rw [Statement.read_tokens]
    · exact ih behind

theorem infix_of_reached {tokens rule : List Token} (reached : rule ∈ reachedRules tokens) :
    rule <:+: tokens := by
  fun_induction reachedRules tokens with
  | case1 => contradiction
  | case2 first rest between ih => exact (ih reached).trans (List.suffix_cons _ _).isInfix
  | case3 first rest busy keyword statement grouped inner ih =>
    have parts : statement.tokens ++ statement.rest = rest := Statement.read_append endsAtRuleHead rest
    have within : rest <:+: first :: rest := (List.suffix_cons _ _).isInfix
    rcases List.mem_append.mp reached with inside | behind
    · simp only [grouped] at inside
      split at inside
      · have before : statement.tokens <:+: rest := ⟨[], statement.rest, parts⟩
        exact ((inner inside).trans statement.contents_infix).trans (before.trans within)
      · contradiction
    · have after : statement.rest <:+: rest := ⟨statement.tokens, [], by rw [List.append_nil, parts]⟩
      exact (ih behind).trans (after.trans within)
  | case4 first rest busy noKeyword statement ih =>
    have parts : statement.tokens ++ statement.rest = first :: rest :=
      Statement.read_append Token.opensBlock (first :: rest)
    rcases List.mem_cons.mp reached with rfl | behind
    · exact ⟨[], statement.rest, parts⟩
    · have after : statement.rest <:+: first :: rest :=
        ⟨statement.tokens, [], by rw [List.append_nil, parts]⟩
      exact (ih behind).trans after

/-! ## Pieces of a head -/

/-- The pieces between the commas on top of a head. -/
def commaPieces (head : List Token) : List (List Token) :=
  ((components head).splitOnP (isSingle isComma)).map List.flatten

theorem opens_of_isComma {token : Token} (comma : isComma token = true) : token.opens = none := by
  rw [isComma, beq_iff_eq] at comma
  simp [Token.opens, comma]

theorem map_fst_piecesAt_comma {head : List Token} (balanced : head.foldl nest [] = [])
    (last : Nat) : (piecesAt isComma last [] head).map Prod.fst = commaPieces head := by
  have pieces := map_fst_piecesAt (fun _ => opens_of_isComma) (component_of_balanced balanced) last
  rwa [flatten_components] at pieces

theorem readSelectors_eq {head : List Token} (balanced : head.foldl nest [] = []) (last : Nat)
    (filled : ∀ piece ∈ commaPieces head, clean (source piece) ≠ []) :
    readSelectors last head = .ok (commaPieces head) := by
  rw [← map_fst_piecesAt_comma balanced last] at filled ⊢
  exact readSelectors_of_filled filled

theorem readSelectors_eq_error {head piece : List Token} (balanced : head.foldl nest [] = [])
    (last : Nat) (among : piece ∈ commaPieces head) (empty : clean (source piece) = []) :
    ∃ line, readSelectors last head = .error line := by
  rw [← map_fst_piecesAt_comma balanced last] at among
  rcases List.mem_map.mp among with ⟨found, met, rfl⟩
  cases first : (piecesAt isComma last [] head).find?
      (fun piece => (clean (source piece.1)).isEmpty) with
  | none =>
    have filled := List.find?_eq_none.mp first found met
    rw [empty] at filled
    exact absurd rfl filled
  | some other => exact ⟨other.2, by rw [readSelectors, first]⟩

/-- Joined with commas, the pieces are the text of the head. -/
theorem join_commaPieces {head : List Token} (spelled : ∀ token ∈ head, token.Spelled) :
    join [','] ((commaPieces head).map source) = source head := by
  have whole := flatten_components head
  have each : ∀ part ∈ components head, ∀ token ∈ part, token.Spelled := by
    intro part met token inside
    apply spelled
    rw [← whole]
    exact List.mem_flatten.mpr ⟨part, met, inside⟩
  rw [commaPieces]
  conv_rhs => rw [← whole]
  generalize components head = parts at each
  induction parts with
  | nil => rfl
  | cons part rest ih =>
    have later := ih fun other met => each other (List.mem_cons_of_mem _ met)
    have some : rest.splitOnP (isSingle isComma) ≠ [] := List.splitOnP_ne_nil _ _
    rw [List.splitOnP_cons_eq_if_modifyHead, List.flatten_cons, source_append, ← later]
    cases pieces : rest.splitOnP (isSingle isComma) with
    | nil => exact absurd pieces some
    | cons piece others =>
      split
      · rename_i single
        rcases eq_singleton_of_isSingle single with ⟨token, rfl, comma⟩
        rw [isComma, beq_iff_eq] at comma
        have text := (each _ List.mem_cons_self token List.mem_cons_self).comma comma
        simp only [List.map_cons, join_cons_cons, List.flatten_nil, source_nil, List.nil_append,
          source_cons, List.append_nil, text]
      · rw [List.modifyHead_cons, List.map_cons, List.map_cons, List.flatten_cons, source_append,
          List.map_cons, List.map_cons, join_cons_append]

/-! ## Rules of a style sheet -/

/-- The rules that style rules give when each is taken by its own tokens. -/
def rulesOf (rules : List (List Token)) : List Rule :=
  (rules.flatMap keptRules).map SourceRule.rule

theorem rulesOf_append (front back : List (List Token)) :
    rulesOf (front ++ back) = rulesOf front ++ rulesOf back := by
  rw [rulesOf, List.flatMap_append, List.map_append]
  rfl

theorem rules_parse_eq_rulesOf (text : Text) :
    (Stylesheet.parse text).rules = rulesOf (reachedRules (tokenize 1 (withoutMark text))) := by
  rw [rules_parse, keptRules_eq_flatMap, rulesOf]

section Block

variable {rule contents : List Token} {opening : Token} {closing : Option Token}

/-- A rule with a block that looks like no custom property gives what its selectors allow. -/
theorem keptRules_of_block (single : IsStyleRule rule)
    (block : (Statement.read Token.opensBlock rule).ending = .block opening contents closing)
    (noCustom : beginsCustomProperty (Statement.read Token.opensBlock rule).head = false) :
    keptRules rule =
      match readSelectors opening.line (Statement.read Token.opensBlock rule).head with
      | .ok selectors => [⟨selectors, declarationsOf (readBody contents)⟩]
      | .error _ => [] := by
  rcases single.begins with ⟨first, more, rfl, busy, noKeyword⟩
  rcases Statement.read_eq_block block with ⟨after, outer, cut, kind, -, -, -⟩
  have parts := cutAt_append Token.opensBlock [] (first :: more)
  rw [cut] at parts
  rw [← startsCustomProperty_eq_head kind parts] at noCustom
  rw [keptRules_styleRule busy noKeyword, single.ends, keptRules_nil, List.append_nil, qualifiedRule,
    noCustom, if_neg Bool.false_ne_true, styleRule, block]
  dsimp only
  cases readSelectors opening.line (Statement.read Token.opensBlock (first :: more)).head with
  | ok selectors => simp only [keptIn_append, keptIn_finding?, keptIn_kept, keptIn_nil, List.nil_append]
  | error line => rfl

theorem balanced_head
    (block : (Statement.read Token.opensBlock rule).ending = .block opening contents closing) :
    (Statement.read Token.opensBlock rule).head.foldl nest [] = [] := by
  rcases Statement.read_eq_block block with ⟨after, outer, cut, -, -, -, -⟩
  have closed := (foldl_nest_of_cut (congrArg Prod.snd cut)).1
  rwa [cut] at closed

end Block

/--
A style rule with a block that is reached has one selector for each piece between the commas on
top of its head, or it is not kept at all when one of the pieces is empty once it is cleaned. The
rules in front of it and behind it are in either case what they are by themselves.
-/
theorem rules_of_reached {text : Text} {front back : List (List Token)}
    {rule contents : List Token} {opening : Token} {closing : Option Token}
    (reached : reachedRules (tokenize 1 (withoutMark text)) = front ++ rule :: back)
    (block : (Statement.read Token.opensBlock rule).ending = .block opening contents closing)
    (noCustom : beginsCustomProperty (Statement.read Token.opensBlock rule).head = false) :
    let pieces := commaPieces (Statement.read Token.opensBlock rule).head
    let selectors := pieces.map fun piece => clean (source piece)
    let declarations := (declarationsOf (readBody contents)).map SourceDeclaration.declaration
    join [','] (pieces.map source) = source (Statement.read Token.opensBlock rule).head ∧
      ([] ∉ selectors → (Stylesheet.parse text).rules =
        rulesOf front ++ ⟨selectors, declarations⟩ :: rulesOf back) ∧
      ([] ∈ selectors → (Stylesheet.parse text).rules = rulesOf front ++ rulesOf back) := by
  intro pieces selectors declarations
  have met : rule ∈ reachedRules (tokenize 1 (withoutMark text)) := by
    rw [reached]
    simp
  have kept := keptRules_of_block (isStyleRule_of_reached met) block noCustom
  have balanced := balanced_head block
  have all : (Stylesheet.parse text).rules = rulesOf front ++ (rulesOf [rule] ++ rulesOf back) := by
    rw [rules_parse_eq_rulesOf, reached, rulesOf_append, ← List.singleton_append, rulesOf_append]
  have alone : rulesOf [rule] = (keptRules rule).map SourceRule.rule := by
    rw [rulesOf, List.flatMap_singleton]
  refine ⟨join_commaPieces ?_, ?_, ?_⟩
  · intro token inside
    apply spelled_of_mem_tokenize
    apply (infix_of_reached met).subset
    have parts := Statement.read_append Token.opensBlock rule
    rw [← parts, Statement.tokens, List.append_assoc]
    exact List.mem_append_left _ inside
  · intro filled
    have usable : ∀ piece ∈ pieces, clean (source piece) ≠ [] := by
      intro piece among empty
      exact filled (List.mem_map.mpr ⟨piece, among, empty⟩)
    rw [readSelectors_eq balanced _ usable] at kept
    rw [all, alone, kept]
    rfl
  · intro empty
    rcases List.mem_map.mp empty with ⟨piece, among, nothing⟩
    rcases readSelectors_eq_error balanced opening.line among nothing with ⟨line, fails⟩
    rw [fails] at kept
    rw [all, alone, kept]
    rfl

/-- The comma inside the brackets separates nothing. -/
theorem rules_of_reached_brackets :
    reachedRules (tokenize 1 (withoutMark "a,(,)\x7b\x7d".toList)) =
        [] ++ tokenize 1 "a,(,)\x7b\x7d".toList :: [] ∧
      (Statement.read Token.opensBlock (tokenize 1 "a,(,)\x7b\x7d".toList)).ending =
        .block ⟨.opening .curly, ['\x7b'], 1⟩ [] (some ⟨.closing .curly, ['\x7d'], 1⟩) ∧
      beginsCustomProperty
        (Statement.read Token.opensBlock (tokenize 1 "a,(,)\x7b\x7d".toList)).head = false ∧
      (Stylesheet.parse "a,(,)\x7b\x7d".toList).rules =
        [⟨["a".toList, "(,)".toList], []⟩] := by
  have reached : reachedRules (tokenize 1 (withoutMark "a,(,)\x7b\x7d".toList)) =
      [] ++ tokenize 1 "a,(,)\x7b\x7d".toList :: [] := by decide +kernel
  have block : (Statement.read Token.opensBlock (tokenize 1 "a,(,)\x7b\x7d".toList)).ending =
      .block ⟨.opening .curly, ['\x7b'], 1⟩ [] (some ⟨.closing .curly, ['\x7d'], 1⟩) := by
    decide +kernel
  have noCustom : beginsCustomProperty
      (Statement.read Token.opensBlock (tokenize 1 "a,(,)\x7b\x7d".toList)).head = false := by
    decide +kernel
  refine ⟨reached, block, noCustom, ?_⟩
  rw [(rules_of_reached reached block noCustom).2.1 (by decide +kernel)]
  decide +kernel

end Swatch.Css
