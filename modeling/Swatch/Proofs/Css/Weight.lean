import Swatch.Proofs.Css.Ink
import Mathlib.Algebra.GroupWithZero.Nat

/-!
# The weight of what is read

A declaration or a rule weighs as much as the ink that it takes to write it down.
What is read from a text never weighs more than the ink of the text: names and
values are no heavier than their spelling, whatever is passed over weighs nothing,
and the marks between the parts are counted with the parts.
-/

namespace Swatch.Css

/-- The ink of a declaration: its name, a colon, its value and the mark. -/
def Declaration.weight (declared : Declaration) : Nat :=
  ink declared.property + 1 + ink declared.value + if declared.important then 10 else 0

/-- The ink of declarations; semicolons hold none. -/
def weightOf (declared : List Declaration) : Nat :=
  (declared.map Declaration.weight).sum

/-- The ink of selectors, each with the comma or the bracket after it. -/
def selectorWeight (selectors : List Text) : Nat :=
  (selectors.map fun selector => ink selector + 1).sum

/-- The ink of a rule. -/
def Rule.weight (rule : Rule) : Nat :=
  selectorWeight rule.selectors + weightOf rule.declarations

@[simp]
theorem weightOf_nil : weightOf [] = 0 := rfl

@[simp]
theorem weightOf_cons (declared : Declaration) (rest : List Declaration) :
    weightOf (declared :: rest) = declared.weight + weightOf rest := rfl

@[simp]
theorem weightOf_append (front back : List Declaration) :
    weightOf (front ++ back) = weightOf front + weightOf back := by
  rw [weightOf, List.map_append, List.sum_append]
  rfl

/-! ## Tokens -/

theorem ink_source_append (front back : List Token) :
    ink (source (front ++ back)) = ink (source front) + ink (source back) := by
  rw [source_append, ink_append]

theorem ink_source_cons (token : Token) (tokens : List Token) :
    ink (source (token :: tokens)) = ink token.text + ink (source tokens) := by
  rw [source_cons, ink_append]

theorem ink_source_split (test : Token → Bool) (stack : List Bracket) (tokens : List Token) :
    ink (source (cutAt test stack tokens).1) + ink (source (cutAt test stack tokens).2) =
      ink (source tokens) := by
  rw [← ink_source_append, cutAt_append]

theorem ink_source_drop_le (count : Nat) (tokens : List Token) :
    ink (source (tokens.drop count)) ≤ ink (source tokens) := by
  conv => rhs; rw [← List.take_append_drop count tokens, ink_source_append]
  exact Nat.le_add_left _ _

/-- The tokens before a cut and the tokens from it on are tokens of the list. -/
theorem spelled_cutAt {tokens : List Token} (spelled : ∀ token ∈ tokens, token.Spelled)
    (test : Token → Bool) (stack : List Bracket) :
    (∀ token ∈ (cutAt test stack tokens).1, token.Spelled) ∧
      ∀ token ∈ (cutAt test stack tokens).2, token.Spelled :=
  List.forall_mem_append.mp ((cutAt_append test stack tokens).symm ▸ spelled)

namespace Statement

/-- A statement and what follows it hold the ink of the tokens. -/
theorem ink_read (test : Token → Bool) (tokens : List Token) :
    ink (source (read test tokens).tokens) + ink (source (read test tokens).rest) =
      ink (source tokens) := by
  rw [← ink_source_append, read_append]

theorem spelled_read {tokens : List Token} (spelled : ∀ token ∈ tokens, token.Spelled)
    (test : Token → Bool) :
    (∀ token ∈ (read test tokens).tokens, token.Spelled) ∧
      ∀ token ∈ (read test tokens).rest, token.Spelled :=
  List.forall_mem_append.mp ((read_append test tokens).symm ▸ spelled)

theorem mem_tokens_of_mem_contents {statement : Statement} {token : Token}
    (met : token ∈ statement.contents) : token ∈ statement.tokens := by
  unfold contents at met
  split at met
  · rename_i opening contents closing ends
    rw [tokens, ends, Ending.tokens]
    simp [met]
  · contradiction

theorem ink_contents_le (statement : Statement) :
    ink (source statement.contents) ≤ ink (source statement.tokens) := by
  unfold contents
  split
  · rename_i opening contents closing ends
    rw [tokens, ends, Ending.tokens]
    simp only [ink_source_append, ink_source_cons]
    omega
  · exact Nat.zero_le _

end Statement

/-! ## Values -/

theorem importantMark_eq_some {first word : Token} {rest after : List Token}
    (marked : importantMark first rest = some (word, after)) :
    first.text = ['!'] ∧ word.kind = .identifier ∧
      sameLetters word.name "important".toList = true ∧
      ∃ gaps, rest = gaps ++ word :: after ∧ ∀ token ∈ gaps, token.isGap = true := by
  unfold importantMark at marked
  split at marked
  · rename_i bang
    split at marked
    · rename_i other later skipped
      split at marked
      · rename_i fits
        rw [Option.some.injEq, Prod.mk.injEq] at marked
        rcases marked with ⟨rfl, rfl⟩
        refine ⟨bang.2, fits.1, fits.2, rest.takeWhile Token.isGap, ?_, ?_⟩
        · rw [← skipped, skipGaps, List.takeWhile_append_dropWhile]
        · intro token met
          exact List.mem_takeWhile_imp met
      · contradiction
    · contradiction
  · contradiction

theorem splitImportant_eq_none {stack : List Bracket} {tokens : List Token}
    (unmarked : (splitImportant stack tokens).2 = none) :
    (splitImportant stack tokens).1 = tokens := by
  induction tokens generalizing stack with
  | nil => rfl
  | cons token rest ih =>
    rw [splitImportant] at unmarked ⊢
    cases found : if stack.isEmpty then importantMark token rest else none with
    | some mark =>
      simp only [found] at unmarked
      contradiction
    | none =>
      simp only [found] at unmarked ⊢
      rw [ih unmarked]

theorem splitImportant_eq_some {stack : List Bracket} {tokens after : List Token} {word : Token}
    (marked : (splitImportant stack tokens).2 = some (word, after)) :
    ∃ bang rest, tokens = (splitImportant stack tokens).1 ++ bang :: rest ∧
      importantMark bang rest = some (word, after) := by
  induction tokens generalizing stack with
  | nil => contradiction
  | cons token rest ih =>
    rw [splitImportant] at marked ⊢
    cases found : if stack.isEmpty then importantMark token rest else none with
    | some mark =>
      simp only [found, Option.some.injEq] at marked ⊢
      subst marked
      split at found
      · exact ⟨token, rest, rfl, found⟩
      · contradiction
    | none =>
      simp only [found] at marked ⊢
      rcases ih marked with ⟨bang, later, same, mark⟩
      exact ⟨bang, later, congrArg (token :: ·) same, mark⟩

/-- How the tokens after a colon spell a value, with or without the mark. -/
inductive SpellsValue (tokens : List Token) (value : Text) : Bool → Prop
  | plain (fades : Fades (source tokens) value) : SpellsValue tokens value false
  | marked {front gaps after : List Token} {bang word : Token}
      (parts : tokens = front ++ bang :: (gaps ++ word :: after))
      (fades : Fades (source front) value) (bang_text : bang.text = ['!'])
      (gaps_before : ∀ token ∈ gaps, token.isGap = true) (word_kind : word.kind = .identifier)
      (word_name : sameLetters word.name "important".toList = true)
      (gaps_after : ∀ token ∈ after, token.isGap = true) : SpellsValue tokens value true

theorem fades_withoutEndGaps {value : List Token} (spelled : ∀ token ∈ value, token.Spelled) :
    Fades (source value) (source (withoutEndGaps value)) := by
  unfold withoutEndGaps
  split
  · have parts : value = dropEndWhile Token.isGap value ++
        (value.reverse.takeWhile Token.isGap).reverse := by
      rw [dropEndWhile, ← List.reverse_append, List.takeWhile_append_dropWhile,
        List.reverse_reverse]
    have gaps : ∀ token ∈ (value.reverse.takeWhile Token.isGap).reverse, token.isGap = true := by
      intro token met
      exact List.mem_takeWhile_imp (List.mem_reverse.mp met)
    have lost := fades_gaps (fun token met => spelled token
      (parts ▸ List.mem_append_right _ met)) gaps
    have together := (Fades.refl (source (dropEndWhile Token.isGap value))).append lost
    rwa [← source_append, ← parts, List.append_nil] at together
  · exact Fades.refl _

/-- A value is spelled by the tokens before its mark, if only gaps follow the mark. -/
theorem spellsValue_of_split {value : List Token} (spelled : ∀ token ∈ value, token.Spelled)
    (nothing : ∀ mark ∈ (splitImportant [] value).2, skipGaps mark.2 = []) :
    SpellsValue value (clean (source (withoutEndGaps (splitImportant [] value).1)))
      (splitImportant [] value).2.isSome := by
  cases marked : (splitImportant [] value).2 with
  | none =>
    rw [splitImportant_eq_none marked]
    exact .plain ((fades_withoutEndGaps spelled).trans (fades_clean _))
  | some mark =>
    rcases mark with ⟨word, after⟩
    rcases splitImportant_eq_some marked with ⟨bang, rest, split, found⟩
    rcases importantMark_eq_some found with ⟨bangText, kind, letters, gaps, rfl, blanks⟩
    have before := (List.forall_mem_append.mp (split ▸ spelled)).1
    exact .marked split ((fades_withoutEndGaps before).trans (fades_clean _)) bangText blanks
      kind letters (List.dropWhile_eq_nil_iff.mp (nothing _ marked))

/-- A declaration that is read is made up of gaps, a colon and the spelling of its value. -/
theorem read_eq_ok {name : Token} {tokens : List Token} {found : SourceDeclaration}
    (reads : SourceDeclaration.read name tokens = .ok found)
    (spelled : ∀ token ∈ tokens, token.Spelled) :
    ∃ between colon value, tokens = between ++ colon :: value ∧
      (∀ token ∈ between, token.isGap = true) ∧ colon.kind = .colon ∧ found.name = name ∧
      SpellsValue value found.text found.important := by
  have named := name_of_read reads
  rw [SourceDeclaration.read] at reads
  cases skipped : skipGaps tokens with
  | nil =>
    rw [skipped] at reads
    contradiction
  | cons colon value =>
    rw [skipped] at reads
    have parts : tokens = tokens.takeWhile Token.isGap ++ colon :: value := by
      rw [← skipped, skipGaps, List.takeWhile_append_dropWhile]
    have inside : ∀ token ∈ value, token.Spelled :=
      (List.forall_mem_cons.mp (List.forall_mem_append.mp (parts ▸ spelled)).2).2
    by_cases isColon : colon.kind = .colon
    · simp only [isColon, ↓reduceIte] at reads
      split at reads
      · contradiction
      · rename_i fine
        rw [not_or, not_ne_iff] at fine
        rw [Except.ok.injEq] at reads
        subst reads
        refine ⟨tokens.takeWhile Token.isGap, colon, value, parts,
          fun token met => List.mem_takeWhile_imp met, isColon, named, ?_⟩
        apply spellsValue_of_split inside
        intro mark marked
        rw [Option.mem_def.mp marked] at fine
        exact fine.2
    · simp only [isColon, ↓reduceIte] at reads
      contradiction

theorem ink_of_sameLetters {left right : Text} (same : sameLetters left right = true) :
    ink left = ink right := by
  rw [sameLetters, beq_iff_eq] at same
  rw [← ink_lower left, same, ink_lower]

/-- A value and its mark hold no more ink than the tokens that spell them. -/
theorem SpellsValue.ink_le {tokens : List Token} {value : Text} {important : Bool}
    (spells : SpellsValue tokens value important) :
    ink value + (if important then 10 else 0) ≤ ink (source tokens) := by
  cases spells with
  | plain fades => exact fades.ink_le
  | @marked front gaps after bang word parts fades bangText _ kind letters _ =>
    have before := fades.ink_le
    have named : ink word.name = 9 := ink_of_sameLetters letters
    rw [Token.name, if_neg (by rw [kind]; decide)] at named
    have spelling := ink_resolve_le word.text
    rw [parts, source_append, source_cons, source_append, source_cons, bangText, ink_append,
      ink_append, ink_append, ink_append, if_pos rfl, show ink ['!'] = 1 from rfl]
    omega

/-- A property holds no more ink than the name that spells it. -/
theorem ink_property_le {found : SourceDeclaration} (kind : found.name.kind = .identifier) :
    ink found.declaration.property ≤ ink found.name.text := by
  rw [SourceDeclaration.declaration, ink_propertyName, Token.name, if_neg (by rw [kind]; decide)]
  exact ink_resolve_le found.name.text

theorem weight_unplaced (found : SourceDeclaration) :
    found.declaration.unplaced.weight = ink found.declaration.property + 1 + ink found.text +
      if found.important then 10 else 0 := rfl

theorem weight_read_le {name : Token} {tokens : List Token} {found : SourceDeclaration}
    (kind : name.kind = .identifier) (reads : SourceDeclaration.read name tokens = .ok found)
    (spelled : ∀ token ∈ tokens, token.Spelled) :
    found.declaration.unplaced.weight ≤ ink name.text + ink (source tokens) := by
  rcases read_eq_ok reads spelled with ⟨between, colon, value, rfl, -, isColon, rfl, spells⟩
  have property := ink_property_le kind
  have held := spells.ink_le
  rw [weight_unplaced, ink_source_append, ink_source_cons,
    (spelled colon (by simp)).colon isColon, show ink [':'] = 1 from rfl]
  omega

/-! ## Bodies -/

theorem declaredIn_cons (item : BodyItem) (items : List BodyItem) :
    declaredIn (item :: items) = declaredIn [item] ++ declaredIn items :=
  declaredIn_append [item] items

/-- An item is passed over, or it is the declaration that is read from its tokens. -/
theorem declaredIn_read (first : Token) (tokens : List Token) (text : Text) :
    declaredIn [BodyItem.read first tokens text] = [] ∨
      ∃ found, first.kind = .identifier ∧ SourceDeclaration.read first tokens = .ok found ∧
        declaredIn [BodyItem.read first tokens text] = [found.declaration.unplaced] := by
  unfold BodyItem.read
  split
  · rename_i kind
    cases reads : SourceDeclaration.read first tokens with
    | ok found => exact .inr ⟨found, kind, rfl, rfl⟩
    | error line => exact .inl rfl
  · exact .inl rfl

theorem weight_item_le (first : Token) {tokens : List Token} (text : Text)
    (spelled : ∀ token ∈ tokens, token.Spelled) :
    weightOf (declaredIn [BodyItem.read first tokens text]) ≤
      ink first.text + ink (source tokens) := by
  rcases declaredIn_read first tokens text with none | ⟨found, kind, reads, one⟩
  · rw [none]
    exact Nat.zero_le _
  · rw [one, weightOf_cons]
    exact weight_read_le kind reads spelled

/-- The declarations of a body weigh no more than its ink. -/
theorem weight_readBody_le {tokens : List Token} (spelled : ∀ token ∈ tokens, token.Spelled) :
    weightOf (declaredIn (readBody tokens)) ≤ ink (source tokens) := by
  fun_induction readBody tokens with
  | case1 => exact Nat.le_refl 0
  | case2 first rest idle ih =>
    have later := ih (List.forall_mem_cons.mp spelled).2
    rw [ink_source_cons]
    omega
  | case3 first rest busy keyword rule ih =>
    have inside := (List.forall_mem_cons.mp spelled).2
    have later := ih (Statement.spelled_read inside endsAtRuleHead).2
    have total : ink (source rule.tokens) + ink (source rule.rest) = ink (source rest) :=
      Statement.ink_read endsAtRuleHead rest
    change weightOf (declaredIn (readBody rule.rest)) ≤ _
    rw [ink_source_cons]
    omega
  | case4 first rest busy noKeyword cut item ih =>
    rcases spelled_cutAt (List.forall_mem_cons.mp spelled).2 endsItem (nest [] first) with
      ⟨before, behind⟩
    have here : weightOf (declaredIn [BodyItem.read first cut.1 item]) ≤ _ :=
      weight_item_le first item before
    have later := ih fun token met => behind token (List.mem_of_mem_drop met)
    have total : ink (source cut.1) + ink (source cut.2) = ink (source rest) :=
      ink_source_split endsItem (nest [] first) rest
    have shorter := ink_source_drop_le 1 cut.2
    rw [declaredIn_cons, weightOf_append, ink_source_cons]
    omega

/-- Behind an at-rule, the declarations of a body weigh no more than what follows its keyword. -/
theorem weight_readBody_atRule_le {first : Token} {rest : List Token}
    (keyword : first.kind = .atKeyword) (spelled : ∀ token ∈ rest, token.Spelled) :
    weightOf (declaredIn (readBody (first :: rest))) ≤ ink (source rest) := by
  have busy : ¬ (first.isGap || endsItem first) = true := by
    simp [Token.isGap, endsItem, keyword]
  have later := weight_readBody_le (Statement.spelled_read spelled endsAtRuleHead).2
  have total := Statement.ink_read endsAtRuleHead rest
  rw [readBody, if_neg busy, if_pos keyword, declaredIn_cons]
  change weightOf (declaredIn (readBody (Statement.read endsAtRuleHead rest).rest)) ≤ _
  omega

/-! ## Selectors -/

theorem piecesAt_ne_nil (test : Token → Bool) (last : Nat) (stack : List Bracket)
    (tokens : List Token) : piecesAt test last stack tokens ≠ [] := by
  induction tokens generalizing stack with
  | nil => exact List.cons_ne_nil _ _
  | cons token rest ih =>
    rw [piecesAt]
    split
    · exact List.cons_ne_nil _ _
    · intro empty
      cases pieces : piecesAt test last (nest stack token) rest with
      | nil => exact ih _ pieces
      | cons piece others =>
        rw [pieces] at empty
        contradiction

/-- The pieces between commas and the commas hold the ink of the tokens. -/
theorem sum_ink_piecesAt (last : Nat) (stack : List Bracket) {tokens : List Token}
    (spelled : ∀ token ∈ tokens, token.Spelled) :
    ((piecesAt isComma last stack tokens).map fun piece => ink (source piece.1) + 1).sum =
      ink (source tokens) + 1 := by
  induction tokens generalizing stack with
  | nil => rfl
  | cons token rest ih =>
    have later := fun stack => ih stack fun token met => spelled token (List.mem_cons_of_mem _ met)
    rw [piecesAt]
    split
    · rename_i comma
      rw [Bool.and_eq_true, isComma, beq_iff_eq] at comma
      rw [List.map_cons, List.sum_cons, later, source_cons,
        (spelled token List.mem_cons_self).comma comma.2, ink_append, source_nil, ink_nil,
        show ink [','] = 1 from rfl]
      omega
    · have pieces := later (nest stack token)
      cases found : piecesAt isComma last (nest stack token) rest with
      | nil => exact absurd found (piecesAt_ne_nil _ _ _ _)
      | cons piece others =>
        rw [found, List.map_cons, List.sum_cons] at pieces
        rw [List.modifyHead_cons, List.map_cons, List.sum_cons, source_cons, ink_append,
          source_cons, ink_append]
        omega

/-- The selectors that pieces spell. -/
def cleanedPieces (pieces : List (List Token × Nat)) : List Text :=
  pieces.map fun piece => clean (source piece.1)

theorem selectorWeight_cleanedPieces_le (pieces : List (List Token × Nat)) :
    selectorWeight (cleanedPieces pieces) ≤
      (pieces.map fun piece => ink (source piece.1) + 1).sum := by
  induction pieces with
  | nil => exact Nat.le_refl 0
  | cons piece rest ih =>
    have here := (fades_clean (source piece.1)).ink_le
    rw [selectorWeight, cleanedPieces, List.map_map] at ih
    rw [selectorWeight, cleanedPieces, List.map_map, List.map_cons, List.map_cons, List.sum_cons,
      List.sum_cons, Function.comp_apply]
    omega

/-- The selectors of a rule weigh no more than its head and its bracket. -/
theorem selectorWeight_piecesAt_le (last : Nat) {head : List Token}
    (spelled : ∀ token ∈ head, token.Spelled) :
    selectorWeight (cleanedPieces (piecesAt isComma last [] head)) ≤ ink (source head) + 1 := by
  rw [← sum_ink_piecesAt last [] spelled]
  exact selectorWeight_cleanedPieces_le _

theorem readSelectors_eq_ok {last : Nat} {head : List Token} {selectors : List (List Token)}
    (reads : readSelectors last head = .ok selectors) :
    selectors.map (fun selector => clean (source selector)) =
        cleanedPieces (piecesAt isComma last [] head) ∧
      ∀ selector ∈ cleanedPieces (piecesAt isComma last [] head), selector ≠ [] := by
  unfold readSelectors at reads
  simp only at reads
  split at reads
  · contradiction
  · rename_i filled
    rw [Except.ok.injEq] at reads
    subst reads
    refine ⟨List.map_map, ?_⟩
    intro selector met
    rcases List.mem_map.mp met with ⟨piece, among, rfl⟩
    simpa using List.find?_eq_none.mp filled piece among

/-! ## Rules -/

/-- The ink of rules. -/
def rulesWeight (rules : List Rule) : Nat :=
  (rules.map Rule.weight).sum

@[simp]
theorem rulesWeight_nil : rulesWeight [] = 0 := rfl

@[simp]
theorem rulesWeight_cons (rule : Rule) (rest : List Rule) :
    rulesWeight (rule :: rest) = rule.weight + rulesWeight rest := rfl

@[simp]
theorem rulesWeight_append (front back : List Rule) :
    rulesWeight (front ++ back) = rulesWeight front + rulesWeight back := by
  rw [rulesWeight, List.map_append, List.sum_append]
  rfl

/-- A statement with a block is its head, a bracket, the contents and what closes them. -/
theorem Statement.read_eq_block {test : Token → Bool} {input : List Token}
    {opening : Token} {contents : List Token} {closing : Option Token}
    (block : (Statement.read test input).ending = .block opening contents closing) :
    ∃ after outer, cutAt test [] input = ((Statement.read test input).head, opening :: after) ∧
      opening.kind = .opening .curly ∧ cutAt (Token.closes .curly) [] after = (contents, outer) ∧
      outer.head? = closing ∧ outer.tail = (Statement.read test input).rest := by
  rw [Statement.read] at block ⊢
  cases cut : (cutAt test [] input).2 with
  | nil =>
    rw [cut] at block
    contradiction
  | cons mark after =>
    rw [cut] at block
    by_cases opens : mark.opensBlock = true
    · simp only [Statement.close, opens, ↓reduceIte, Ending.block.injEq] at block
      rcases block with ⟨rfl, rfl, rfl⟩
      refine ⟨after, _, ?_, ?_, rfl, rfl, ?_⟩
      · rw [Statement.close_head, ← cut]
      · simpa [Token.opensBlock] using opens
      · simp only [Statement.close, opens, ↓reduceIte]
    · simp only [Statement.close, opens, Bool.false_eq_true, ↓reduceIte] at block
      contradiction

/-- A style rule is either passed over or is made up of its selectors and its block. -/
theorem rulesIn_styleRule (first : Token) (statement : Statement) :
    rulesIn (styleRule first statement) = [] ∨
      ∃ opening contents closing, statement.ending = .block opening contents closing ∧
        (∀ selector ∈ cleanedPieces (piecesAt isComma opening.line [] statement.head),
          selector ≠ []) ∧
        rulesIn (styleRule first statement) =
          [⟨cleanedPieces (piecesAt isComma opening.line [] statement.head),
            declaredIn (readBody contents)⟩] := by
  unfold styleRule
  cases ends : statement.ending with
  | block opening contents closing =>
    simp only
    cases reads : readSelectors opening.line statement.head with
    | ok selectors =>
      rcases readSelectors_eq_ok reads with ⟨cleaned, filled⟩
      right
      refine ⟨opening, contents, closing, rfl, filled, ?_⟩
      rw [rulesIn_append, rulesIn_finding?, List.nil_append, ← cleaned]
      simp [rulesIn, SourceRule.rule, Rule.unplaced, declaredIn, Function.comp_def]
    | error line => exact .inl rfl
  | semicolon mark => exact .inl rfl
  | missing => exact .inl rfl

/-- The ink of a statement with a block. -/
theorem Statement.ink_block {statement : Statement} {opening : Token} {contents : List Token}
    {closing : Option Token} (ends : statement.ending = .block opening contents closing)
    (bracket : opening.text = ['\x7b']) :
    ink (source statement.tokens) =
      ink (source statement.head) + (1 + (ink (source contents) + ink (source closing.toList))) := by
  rw [Statement.tokens, ends, Ending.tokens, ink_source_append, List.cons_append, ink_source_cons,
    ink_source_append, bracket]
  rfl

/-- The selectors of a rule weigh no more than its head, and the declarations no more than its block. -/
theorem Statement.weights_le {statement : Statement} {opening : Token} {contents : List Token}
    {closing : Option Token}
    (spelled : ∀ token ∈ statement.head ++ (Ending.block opening contents closing).tokens,
      token.Spelled) :
    selectorWeight (cleanedPieces (piecesAt isComma opening.line [] statement.head)) ≤
        ink (source statement.head) + 1 ∧
      weightOf (declaredIn (readBody contents)) ≤ ink (source contents) := by
  refine ⟨selectorWeight_piecesAt_le opening.line fun token met => ?_,
    weight_readBody_le fun token met => ?_⟩
  · exact spelled token (List.mem_append_left _ met)
  · exact spelled token (by simp [Ending.tokens, met])

theorem weight_qualifiedRule_le (first : Token) {rest : List Token}
    (spelled : ∀ token ∈ first :: rest, token.Spelled) :
    rulesWeight (rulesIn (qualifiedRule first rest)) ≤
      ink (source (Statement.read Token.opensBlock (first :: rest)).tokens) := by
  unfold qualifiedRule
  simp only
  split
  · exact Nat.zero_le _
  · rcases rulesIn_styleRule first (Statement.read Token.opensBlock (first :: rest)) with
      none | ⟨opening, contents, closing, ends, -, kept⟩
    · rw [none]
      exact Nat.zero_le _
    · have inside := (Statement.spelled_read spelled Token.opensBlock).1
      rcases Statement.read_eq_block ends with ⟨_, _, -, opens, -⟩
      rw [Statement.tokens, ends] at inside
      have bracket := (inside opening (by simp [Ending.tokens])).opening opens
      rcases Statement.weights_le inside with ⟨selectors, declared⟩
      simp only [kept, rulesWeight_cons, rulesWeight_nil, Rule.weight,
        Statement.ink_block ends bracket]
      omega

/-- What an at-rule gives weighs no more than what follows its keyword. -/
theorem weight_atRule_le (fresh : Bool) (first : Token) {statement : Statement}
    (inner : rulesWeight (rulesIn (readRules true statement.contents)) ≤
      ink (source statement.contents)) :
    rulesWeight (rulesIn
      (if fresh && sameLetters first.name "charset".toList then []
      else if isGroupingName first.name && statement.hasBlock then
        readRules true statement.contents
      else [.passedOver (atRuleNotice first statement)])) ≤ ink (source statement.tokens) := by
  split
  · exact Nat.zero_le _
  · split
    · exact Nat.le_trans inner statement.ink_contents_le
    · exact Nat.zero_le _

/-- The rules of a list weigh no more than its ink. -/
theorem weight_readRules_le (fresh : Bool) {tokens : List Token}
    (spelled : ∀ token ∈ tokens, token.Spelled) :
    rulesWeight (rulesIn (readRules fresh tokens)) ≤ ink (source tokens) := by
  fun_induction readRules fresh tokens with
  | case1 => exact Nat.le_refl 0
  | case2 fresh first rest between ih =>
    have later := ih (List.forall_mem_cons.mp spelled).2
    rw [ink_source_cons]
    omega
  | case3 fresh first rest busy keyword statement findings inner ih =>
    rcases Statement.spelled_read (List.forall_mem_cons.mp spelled).2 endsAtRuleHead with
      ⟨inside, behind⟩
    have later := ih behind
    have total : ink (source statement.tokens) + ink (source statement.rest) = ink (source rest) :=
      Statement.ink_read endsAtRuleHead rest
    have found : rulesWeight (rulesIn findings) ≤ ink (source statement.tokens) :=
      weight_atRule_le fresh first (inner fun token met =>
        inside token (Statement.mem_tokens_of_mem_contents met))
    rw [rulesIn_append, rulesWeight_append, ink_source_cons]
    omega
  | case4 fresh first rest busy noKeyword ih =>
    have here := weight_qualifiedRule_le first spelled
    have later := ih (Statement.spelled_read spelled Token.opensBlock).2
    have total := Statement.ink_read Token.opensBlock (first :: rest)
    rw [rulesIn_append, rulesWeight_append]
    omega

/-- The rules of a list that begins with an at-rule weigh no more than what follows its keyword. -/
theorem weight_readRules_atRule_le (fresh : Bool) {first : Token} {rest : List Token}
    (keyword : first.kind = .atKeyword) (spelled : ∀ token ∈ rest, token.Spelled) :
    rulesWeight (rulesIn (readRules fresh (first :: rest))) ≤ ink (source rest) := by
  have busy : ¬ isBetweenRules first = true := by
    simp [isBetweenRules, Token.isGap, keyword]
  rcases Statement.spelled_read spelled endsAtRuleHead with ⟨inside, behind⟩
  have later := weight_readRules_le false behind
  have found := weight_atRule_le fresh first (weight_readRules_le true fun token met =>
    inside token (Statement.mem_tokens_of_mem_contents met))
  have total := Statement.ink_read endsAtRuleHead rest
  rw [readRules, if_neg busy, if_pos keyword, rulesIn_append, rulesWeight_append]
  omega

end Swatch.Css
