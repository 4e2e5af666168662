import Swatch.Proofs.Css.Weight

/-!
# Reading that loses nothing

When what is read weighs as much as the ink of its tokens, nothing with ink was
passed over. A list of rules then begins with a style rule, a body begins with a
declaration behind tokens without ink, and the same holds for what follows them,
so the tokens can be followed part by part.
-/

namespace Swatch.Css

/-! ## Blocks -/

/-- The contents of a block, and what follows them: nothing, or the bracket that closes them. -/
structure Block (contents outer : List Token) : Prop where
  uncut : (cutAt (Token.closes .curly) [] contents).2 = []
  outer : outer = [] ∨ contents.foldl nest [] = [] ∧
    ∃ closing rest, outer = closing :: rest ∧ closing.kind = .closing .curly

theorem cutAt_fst_uncut (test : Token → Bool) (stack : List Bracket) (tokens : List Token) :
    (cutAt test stack (cutAt test stack tokens).1).2 = [] := by
  induction tokens generalizing stack with
  | nil => rfl
  | cons token rest ih =>
    by_cases stops : (stack.isEmpty && test token) = true
    · rw [cutAt, if_pos stops]
      rfl
    · rw [cutAt, if_neg stops]
      exact uncut_cons_iff.mpr ⟨Bool.eq_false_iff.mpr stops, ih _⟩

theorem uncut_of_append {test : Token → Bool} {stack : List Bracket} {front back : List Token}
    (uncut : (cutAt test stack (front ++ back)).2 = []) :
    (cutAt test stack front).2 = [] ∧ (cutAt test (front.foldl nest stack) back).2 = [] := by
  cases cut : (cutAt test stack front).2 with
  | nil =>
    rw [cutAt_uncut_append cut] at uncut
    exact ⟨rfl, uncut⟩
  | cons mark after =>
    rw [cutAt_append_of_cut cut] at uncut
    contradiction

theorem uncut_of_neutral_cons {test : Token → Bool} {token : Token} {rest : List Token}
    (neutral : token.opens = none) (uncut : (cutAt test [] (token :: rest)).2 = []) :
    (cutAt test [] rest).2 = [] := by
  have parts := uncut_of_append (show (cutAt test [] ([token] ++ rest)).2 = [] from uncut)
  rw [foldl_nest_cons_of_neutral neutral] at parts
  exact parts.2

namespace Block

variable {contents front back outer : List Token}

theorem of_cut {tokens : List Token} (cut : cutAt (Token.closes .curly) [] tokens = (contents, outer)) :
    Block contents outer := by
  have first : (cutAt (Token.closes .curly) [] tokens).1 = contents := congrArg Prod.fst cut
  have second : (cutAt (Token.closes .curly) [] tokens).2 = outer := congrArg Prod.snd cut
  refine ⟨first ▸ cutAt_fst_uncut _ _ _, ?_⟩
  cases outer with
  | nil => exact .inl rfl
  | cons closing rest =>
    rcases foldl_nest_of_cut second with ⟨balanced, closes⟩
    right
    refine ⟨first ▸ balanced, closing, rest, rfl, ?_⟩
    simpa [Token.closes] using closes

/-- What follows closed brackets inside a block is the contents of a block. -/
theorem drop (block : Block (front ++ back) outer) (balanced : front.foldl nest [] = []) :
    Block back outer := by
  have parts := uncut_of_append block.uncut
  rw [balanced] at parts
  refine ⟨parts.2, ?_⟩
  rcases block.outer with none | ⟨closed, closing⟩
  · exact .inl none
  · rw [List.foldl_append, balanced] at closed
    exact .inr ⟨closed, closing⟩

end Block

/-! ## Bodies -/

/-- A body that begins with a declaration, behind tokens without ink. -/
inductive Declares (tokens : List Token) (declared : Declaration) (others : List Declaration) :
    Prop
  | mk {skipped between value after : List Token} {name colon : Token}
      {found : SourceDeclaration}
      (parts : tokens = skipped ++ name :: (between ++ colon :: (value ++ after)))
      (skipped_ink : ink (source skipped) = 0) (between_ink : ink (source between) = 0)
      (name_kind : name.kind = .identifier) (colon_kind : colon.kind = .colon)
      (cut : cutAt endsItem [] (between ++ colon :: (value ++ after)) =
        (between ++ colon :: value, after))
      (reads : SourceDeclaration.read name (between ++ colon :: value) = .ok found)
      (same : found.declaration.unplaced = declared)
      (spells : SpellsValue value declared.value declared.important)
      (name_ink : ink name.text = ink declared.property)
      (value_ink : ink declared.value + (if declared.important then 10 else 0) =
        ink (source value))
      (later : declaredIn (readBody (after.drop 1)) = others)
      (tight : weightOf others = ink (source (after.drop 1)))

theorem Declares.skip {front tokens : List Token} {declared : Declaration}
    {others : List Declaration} (declares : Declares tokens declared others)
    (empty : ink (source front) = 0) : Declares (front ++ tokens) declared others := by
  cases declares with
  | mk parts skippedInk betweenInk nameKind colonKind cut reads same spells nameInk valueInk later
      tight =>
    refine .mk (by rw [parts, ← List.append_assoc]) ?_ betweenInk nameKind colonKind cut reads same
      spells nameInk valueInk later tight
    rw [source_append, ink_append, empty, skippedInk]

/-- A declaration that holds, with what is read behind it, the ink of all its tokens. -/
theorem Declares.of_read {first : Token} {tokens after : List Token} {found : SourceDeclaration}
    (kind : first.kind = .identifier) (spelled : ∀ token ∈ tokens ++ after, token.Spelled)
    (cut : cutAt endsItem [] (tokens ++ after) = (tokens, after))
    (reads : SourceDeclaration.read first tokens = .ok found)
    (tight : found.declaration.unplaced.weight + weightOf (declaredIn (readBody (after.drop 1))) =
      ink first.text + (ink (source tokens) + ink (source after))) :
    Declares (first :: (tokens ++ after)) found.declaration.unplaced
      (declaredIn (readBody (after.drop 1))) := by
  rcases List.forall_mem_append.mp spelled with ⟨before, behind⟩
  have bound : weightOf (declaredIn (readBody (after.drop 1))) ≤ ink (source (after.drop 1)) :=
    weight_readBody_le fun token met => behind token (List.mem_of_mem_drop met)
  have shorter := ink_source_drop_le 1 after
  rcases read_eq_ok reads before with ⟨between, colon, value, rfl, -, isColon, rfl, spells⟩
  have colonText := (before colon (by simp)).colon isColon
  have property := ink_property_le kind
  have value_le := spells.ink_le
  rw [weight_unplaced, ink_source_append, ink_source_cons, colonText, show ink [':'] = 1 from rfl]
    at tight
  rw [List.append_assoc, List.cons_append] at cut ⊢
  -- Every part holds at most its own ink and the sums are equal, so each part holds all of it.
  refine .mk (List.nil_append _).symm rfl ?_ kind isColon cut reads rfl spells ?_ ?_ rfl ?_
  · omega
  · change ink found.name.text = ink found.declaration.property
    omega
  · change ink found.text + (if found.important then 10 else 0) = _
    omega
  · omega

/-- A body whose declarations hold all its ink begins with the first of them. -/
theorem declares_of_tight {tokens : List Token} {declared : Declaration}
    {others : List Declaration} (spelled : ∀ token ∈ tokens, token.Spelled)
    (read : declaredIn (readBody tokens) = declared :: others)
    (tight : weightOf (declared :: others) = ink (source tokens)) :
    Declares tokens declared others := by
  fun_induction readBody tokens with
  | case1 => contradiction
  | case2 first rest idle ih =>
    have inside := (List.forall_mem_cons.mp spelled).2
    have bound := weight_readBody_le inside
    rw [read] at bound
    rw [ink_source_cons] at tight
    have empty : ink (source [first]) = 0 := by
      rw [ink_source_cons, source_nil, ink_nil]
      omega
    exact (ih inside read (by omega)).skip empty
  | case3 first rest busy keyword rule =>
    rcases List.forall_mem_cons.mp spelled with ⟨here, inside⟩
    have bound := weight_readBody_atRule_le keyword inside
    have seen := here.ink_keyword_pos keyword
    rw [readBody, if_neg busy, if_pos keyword, read, tight, ink_source_cons] at bound
    omega
  | case4 first rest busy noKeyword cut item ih =>
    have inside := (List.forall_mem_cons.mp spelled).2
    have parts : cut.1 ++ cut.2 = rest := cutAt_append endsItem (nest [] first) rest
    have behind : ∀ token ∈ cut.2.drop 1, token.Spelled := fun token met =>
      inside token (parts ▸ List.mem_append_right _ (List.mem_of_mem_drop met))
    rw [declaredIn_cons] at read
    rw [← parts, ink_source_cons, ink_source_append] at tight
    rcases declaredIn_read first cut.1 item with none | ⟨found, kind, reads, one⟩
    · have bound := weight_readBody_le behind
      have mark : ink (source (cut.2.take 1)) + ink (source (cut.2.drop 1)) =
          ink (source cut.2) := by
        rw [← ink_source_append, List.take_append_drop]
      rw [none, List.nil_append] at read
      rw [read] at bound
      have passed := ih behind read (by omega)
      have empty : ink (source (first :: (cut.1 ++ cut.2.take 1))) = 0 := by
        rw [ink_source_cons, ink_source_append]
        omega
      have together := passed.skip empty
      rwa [List.cons_append, List.append_assoc, List.take_append_drop, parts] at together
    · rw [one, List.singleton_append, List.cons.injEq] at read
      rcases read with ⟨rfl, rfl⟩
      have noBracket : nest [] first = [] := nest_eq_nil_of_neutral (by simp [Token.opens, kind])
      have again : cutAt endsItem [] (cut.1 ++ cut.2) = (cut.1, cut.2) := by
        rw [parts, ← noBracket]
      rw [← parts]
      exact .of_read kind (parts ▸ inside) again reads tight

/-! ## Rules -/

/-- A list of rules that begins with a style rule. -/
inductive Opens (tokens : List Token) (rule : Rule) (others : List Rule) : Prop
  | mk {head contents outer : List Token} {opening : Token}
      (cut : cutAt Token.opensBlock [] tokens = (head, opening :: (contents ++ outer)))
      (opening_kind : opening.kind = .opening .curly) (block : Block contents outer)
      (selectors : cleanedPieces (piecesAt isComma opening.line [] head) = rule.selectors)
      (filled : ∀ selector ∈ rule.selectors, selector ≠ [])
      (head_ink : selectorWeight rule.selectors = ink (source head) + 1)
      (body : declaredIn (readBody contents) = rule.declarations)
      (body_ink : weightOf rule.declarations = ink (source contents))
      (later : rulesIn (readRules false (outer.drop 1)) = others)
      (tight : rulesWeight others = ink (source (outer.drop 1)))

/-- A statement that ends at a curly bracket has a block, or it is everything that is left. -/
theorem read_opensBlock_cases (input : List Token) :
    (Statement.read Token.opensBlock input).rest = [] ∨
      ∃ opening contents closing,
        (Statement.read Token.opensBlock input).ending = .block opening contents closing := by
  rw [Statement.read]
  cases cut : (cutAt Token.opensBlock [] input).2 with
  | nil => exact .inl rfl
  | cons mark after =>
    have opens := (foldl_nest_of_cut cut).2
    right
    simp only [Statement.close, opens, ↓reduceIte]
    exact ⟨_, _, _, rfl⟩

/-- A list that begins with an at-rule holds more ink than its rules, that of the keyword. -/
theorem no_keyword_of_tight {fresh : Bool} {first : Token} {rest : List Token}
    (spelled : ∀ token ∈ first :: rest, token.Spelled)
    (tight : rulesWeight (rulesIn (readRules fresh (first :: rest))) =
      ink (source (first :: rest))) : first.kind ≠ .atKeyword := by
  intro keyword
  rcases List.forall_mem_cons.mp spelled with ⟨here, inside⟩
  have bound := weight_readRules_atRule_le fresh keyword inside
  have seen := here.ink_keyword_pos keyword
  rw [tight, ink_source_cons] at bound
  omega

/-- The first rule of a list that loses no ink is not passed over, for its bracket holds ink. -/
theorem rulesIn_qualifiedRule_ne_nil {first : Token} {rest : List Token} {rule : Rule}
    {others : List Rule} (spelled : ∀ token ∈ first :: rest, token.Spelled)
    (read : rulesIn (qualifiedRule first rest) ++
      rulesIn (readRules false (Statement.read Token.opensBlock (first :: rest)).rest) =
        rule :: others)
    (tight : rulesWeight (rule :: others) = ink (source (first :: rest))) :
    rulesIn (qualifiedRule first rest) ≠ [] := by
  intro none
  rw [none, List.nil_append] at read
  rcases read_opensBlock_cases (first :: rest) with nothing | ⟨opening, contents, closing, ends⟩
  · rw [nothing, readRules] at read
    contradiction
  · rcases Statement.spelled_read spelled Token.opensBlock with ⟨inside, behind⟩
    have later := weight_readRules_le false behind
    have total := Statement.ink_read Token.opensBlock (first :: rest)
    rcases Statement.read_eq_block ends with ⟨_, _, -, opens, -⟩
    rw [Statement.tokens, ends, Ending.tokens] at inside
    rw [Statement.ink_block ends ((inside opening (by simp)).opening opens)] at total
    rw [read, tight] at later
    omega

/-- A style rule that holds, with what is read behind it, the ink of all its tokens. -/
theorem Opens.of_styleRule {tokens : List Token} {opening : Token} {contents : List Token}
    {closing : Option Token} (spelled : ∀ token ∈ tokens, token.Spelled)
    (ends : (Statement.read Token.opensBlock tokens).ending = .block opening contents closing)
    (filled : ∀ selector ∈ cleanedPieces (piecesAt isComma opening.line []
      (Statement.read Token.opensBlock tokens).head), selector ≠ [])
    (tight : selectorWeight (cleanedPieces (piecesAt isComma opening.line []
        (Statement.read Token.opensBlock tokens).head)) +
          weightOf (declaredIn (readBody contents)) +
        rulesWeight (rulesIn (readRules false (Statement.read Token.opensBlock tokens).rest)) =
      ink (source tokens)) :
    Opens tokens
      ⟨cleanedPieces (piecesAt isComma opening.line [] (Statement.read Token.opensBlock tokens).head),
        declaredIn (readBody contents)⟩
      (rulesIn (readRules false (Statement.read Token.opensBlock tokens).rest)) := by
  rcases Statement.spelled_read spelled Token.opensBlock with ⟨inside, behind⟩
  have total := Statement.ink_read Token.opensBlock tokens
  have later := weight_readRules_le false behind
  rcases Statement.read_eq_block ends with ⟨after, outer, cut, opens, closes, -, left⟩
  rw [Statement.tokens, ends] at inside
  rw [Statement.ink_block ends ((inside opening (by simp [Ending.tokens])).opening opens)] at total
  rcases Statement.weights_le inside with ⟨selectors, declared⟩
  have split : after = contents ++ outer := by
    have whole := cutAt_append (Token.closes .curly) [] after
    rw [closes] at whole
    exact whole.symm
  -- Every part holds at most its own ink and the sums are equal, so each part holds all of it.
  refine .mk (split ▸ cut) opens (Block.of_cut closes) rfl filled ?_ rfl ?_ ?_ ?_
  · simp only
    omega
  · simp only
    omega
  · rw [List.drop_one, left]
  · rw [List.drop_one, left]
    omega

/-- A list whose rules hold all its ink begins with the first of them. -/
theorem opens_of_tight {fresh : Bool} {first : Token} {rest : List Token} {rule : Rule}
    {others : List Rule} (spelled : ∀ token ∈ first :: rest, token.Spelled)
    (busy : isBetweenRules first = false)
    (read : rulesIn (readRules fresh (first :: rest)) = rule :: others)
    (tight : rulesWeight (rule :: others) = ink (source (first :: rest))) :
    first.kind ≠ .atKeyword ∧ startsCustomProperty first rest = false ∧
      Opens (first :: rest) rule others := by
  have keyword : first.kind ≠ .atKeyword := no_keyword_of_tight spelled (by rw [read, tight])
  rw [readRules, if_neg (by rw [busy]; decide), if_neg keyword, rulesIn_append] at read
  have some := rulesIn_qualifiedRule_ne_nil spelled read tight
  have custom : startsCustomProperty first rest = false := by
    rw [Bool.eq_false_iff]
    intro custom
    apply some
    simp only [qualifiedRule, custom, ↓reduceIte]
    rfl
  simp only [qualifiedRule, custom, Bool.false_eq_true, ↓reduceIte] at read some
  refine ⟨keyword, custom, ?_⟩
  rcases rulesIn_styleRule first (Statement.read Token.opensBlock (first :: rest)) with
    none | ⟨opening, contents, closing, ends, filled, kept⟩
  · exact absurd none some
  · rw [kept, List.singleton_append, List.cons.injEq] at read
    rcases read with ⟨rfl, rfl⟩
    exact .of_styleRule spelled ends filled tight

end Swatch.Css
