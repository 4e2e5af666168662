import Swatch.Proofs.Css.Whole

/-!
# Reading on other lines

Moving tokens down moves what is read from them down by as many lines and
changes nothing else. So the meaning of a text can be studied from line zero.
-/

namespace Swatch.Css

namespace Token

variable (lines : Nat) (token : Token)

@[simp]
theorem down_endLine : (token.down lines).endLine = lines + token.endLine :=
  Nat.add_assoc ..

end Token

/-! ## Parts of a declaration -/

/-- The statement on later lines. -/
def Statement.down (lines : Nat) (statement : Statement) : Statement where
  head := statement.head.map (Token.down lines)
  ending :=
    match statement.ending with
    | .block opening contents closing =>
      .block (opening.down lines) (contents.map (Token.down lines))
        (closing.map (Token.down lines))
    | .semicolon mark => .semicolon (mark.down lines)
    | .missing => .missing
  rest := statement.rest.map (Token.down lines)

/-- The declaration on later lines. -/
def SourceDeclaration.down (lines : Nat) (found : SourceDeclaration) : SourceDeclaration :=
  ⟨found.name.down lines, found.value.map (Token.down lines), found.important⟩

/-- The item on later lines. -/
def BodyItem.down (lines : Nat) : BodyItem → BodyItem
  | .declaration found => .declaration (found.down lines)
  | .skipped line text => .skipped (lines + line) text

/-- The rule on later lines. -/
def SourceRule.down (lines : Nat) (found : SourceRule) : SourceRule :=
  ⟨found.selectors.map (List.map (Token.down lines)),
    found.declarations.map (SourceDeclaration.down lines)⟩

/-- The notice on later lines. -/
def Notice.down (lines : Nat) : Notice → Notice
  | .rule line text fault => .rule (lines + line) text fault
  | .declaration line text => .declaration (lines + line) text

/-- The finding on later lines. -/
def Finding.down (lines : Nat) : Finding → Finding
  | .kept found => .kept (found.down lines)
  | .passedOver notice => .passedOver (notice.down lines)

namespace Keeps

variable {change : Token → Token}

theorem isGap (keeps : Keeps change) : Token.isGap ∘ change = Token.isGap := by
  funext token
  rw [Function.comp_apply, Token.isGap, Token.isGap, keeps.kind]

theorem skipGaps (keeps : Keeps change) (tokens : List Token) :
    skipGaps (tokens.map change) = (skipGaps tokens).map change := by
  rw [Css.skipGaps, List.dropWhile_map, keeps.isGap, Css.skipGaps]

theorem importantMark (keeps : Keeps change) (first : Token) (rest : List Token) :
    importantMark (change first) (rest.map change) =
      (importantMark first rest).map (Prod.map change (List.map change)) := by
  simp only [Css.importantMark, keeps.skipGaps, keeps.kind, keeps.bang]
  split
  · cases Css.skipGaps rest with
    | nil => rfl
    | cons word after =>
      simp only [List.map_cons, keeps.kind, keeps.letters]
      split <;> rfl
  · rfl

theorem splitImportant (keeps : Keeps change) (stack : List Bracket) (tokens : List Token) :
    splitImportant stack (tokens.map change) =
      ((splitImportant stack tokens).1.map change,
        (splitImportant stack tokens).2.map (Prod.map change (List.map change))) := by
  induction tokens generalizing stack with
  | nil => rfl
  | cons token rest ih =>
    rw [List.map_cons, Css.splitImportant, Css.splitImportant, keeps.importantMark, keeps.nest, ih]
    cases stack with
    | nil => cases Css.importantMark token rest <;> rfl
    | cons bracket outer => rfl

theorem withoutEndGaps (keeps : Keeps change) (value : List Token) :
    withoutEndGaps (value.map change) = (withoutEndGaps value).map change := by
  rw [Css.withoutEndGaps, Css.withoutEndGaps, keeps.foldl_nest, dropEndWhile_map, keeps.isGap]
  split <;> rfl

end Keeps

variable (lines : Nat)

theorem skipGaps_down (tokens : List Token) :
    skipGaps (tokens.map (Token.down lines)) = (skipGaps tokens).map (Token.down lines) :=
  (keeps_down lines).skipGaps tokens

theorem lastLine_down (first : Token) (rest : List Token) :
    lastLine (first.down lines) (rest.map (Token.down lines)) = lines + lastLine first rest := by
  rw [lastLine, List.getLastD_map, Token.down_endLine, lastLine]

theorem splitImportant_down (stack : List Bracket) (tokens : List Token) :
    splitImportant stack (tokens.map (Token.down lines)) =
      ((splitImportant stack tokens).1.map (Token.down lines),
        (splitImportant stack tokens).2.map
          (Prod.map (Token.down lines) (List.map (Token.down lines)))) :=
  (keeps_down lines).splitImportant stack tokens

theorem withoutEndGaps_down (value : List Token) :
    withoutEndGaps (value.map (Token.down lines)) =
      (withoutEndGaps value).map (Token.down lines) :=
  (keeps_down lines).withoutEndGaps value

theorem SourceDeclaration.text_down (found : SourceDeclaration) :
    (found.down lines).text = found.text := by
  rw [text, text, down, source_down]

theorem SourceDeclaration.read_down (name : Token) (tokens : List Token) :
    read (name.down lines) (tokens.map (Token.down lines)) =
      match read name tokens with
      | .ok found => .ok (found.down lines)
      | .error line => .error (lines + line) := by
  rw [read, read, skipGaps_down, lastLine_down]
  cases skipGaps tokens with
  | nil => rfl
  | cons colon value =>
    rw [List.map_cons]
    simp only [Token.down_kind, splitImportant_down, withoutEndGaps_down]
    by_cases colons : colon.kind = .colon
    · rw [if_pos colons, if_pos colons]
      have texts := text_down lines
        ⟨name, withoutEndGaps (splitImportant [] value).1, (splitImportant [] value).2.isSome⟩
      rw [down] at texts
      rw [Option.isSome_map, texts]
      cases (splitImportant [] value).2 with
      | none =>
        simp only [Option.map_none, Option.getD_none, ne_eq, not_true_eq_false, or_false]
        split <;> rfl
      | some mark =>
        simp only [Option.map_some, Option.getD_some, Prod.map_fst, Prod.map_snd, skipGaps_down,
          ne_eq, List.map_eq_nil_iff, Token.down_endLine]
        split <;> rfl
    · rw [if_neg colons, if_neg colons, Token.down_endLine]

/-! ## Bodies -/

theorem Statement.close_down (head input : List Token) :
    close (head.map (Token.down lines)) (input.map (Token.down lines)) =
      (close head input).down lines := by
  cases input with
  | nil => rfl
  | cons mark rest =>
    rw [List.map_cons, close, close, Token.down_opensBlock]
    split
    · simp [down, cutAt_down (Token.down_closes · .curly ·)]
    · rfl

theorem Statement.read_down {test : Token → Bool}
    (blind : ∀ lines token, test (token.down lines) = test token) (input : List Token) :
    read test (input.map (Token.down lines)) = (read test input).down lines := by
  rw [read, cutAt_down blind, close_down, read]

theorem endsAtRuleHead_down (token : Token) :
    endsAtRuleHead (token.down lines) = endsAtRuleHead token := rfl

theorem endsItem_down (token : Token) : endsItem (token.down lines) = endsItem token := rfl

theorem BodyItem.read_down (first : Token) (tokens : List Token) (text : Text) :
    read (first.down lines) (tokens.map (Token.down lines)) text =
      (read first tokens text).down lines := by
  rw [read, read, Token.down_kind, SourceDeclaration.read_down]
  split
  · cases SourceDeclaration.read first tokens <;> rfl
  · rfl

theorem readBody_down (tokens : List Token) :
    readBody (tokens.map (Token.down lines)) = (readBody tokens).map (BodyItem.down lines) := by
  fun_induction readBody tokens with
  | case1 => rw [List.map_nil, readBody, List.map_nil]
  | case2 first rest idle ih =>
    rw [List.map_cons, readBody, Token.down_isGap, endsItem_down, if_pos idle, ih]
  | case3 first rest busy keyword rule ih =>
    rw [List.map_cons, readBody, Token.down_isGap, endsItem_down, if_neg busy, Token.down_kind,
      if_pos keyword, Statement.read_down lines endsAtRuleHead_down]
    simp only [Statement.down, ← List.map_cons, source_down]
    rw [List.map_cons, ← List.map_cons, ih]
    simp [BodyItem.down, rule]
  | case4 first rest busy noKeyword cut item ih =>
    rw [List.map_cons, readBody, Token.down_isGap, endsItem_down, if_neg busy, Token.down_kind,
      if_neg noKeyword, nest_down, cutAt_down endsItem_down]
    simp only [← List.map_take, ← List.map_drop]
    rw [ih, ← List.map_cons, ← List.map_append, source_down, BodyItem.read_down]
    rfl

theorem declarationsOf_down (items : List BodyItem) :
    declarationsOf (items.map (BodyItem.down lines)) =
      (declarationsOf items).map (SourceDeclaration.down lines) := by
  rw [declarationsOf, declarationsOf, List.filterMap_map, List.map_filterMap]
  refine congrFun (congrArg List.filterMap ?_) _
  funext item
  cases item <;> rfl

theorem filterMap_finding?_down (items : List BodyItem) :
    (items.map (BodyItem.down lines)).filterMap BodyItem.finding? =
      (items.filterMap BodyItem.finding?).map (Finding.down lines) := by
  rw [List.filterMap_map, List.map_filterMap]
  refine congrFun (congrArg List.filterMap ?_) _
  funext item
  cases item <;> rfl

/-! ## Lists of rules -/

theorem piecesAt_down {test : Token → Bool}
    (blind : ∀ lines token, test (token.down lines) = test token) (last : Nat)
    (stack : List Bracket) (tokens : List Token) :
    piecesAt test (lines + last) stack (tokens.map (Token.down lines)) =
      (piecesAt test last stack tokens).map
        (Prod.map (List.map (Token.down lines)) (lines + ·)) := by
  induction tokens generalizing stack with
  | nil => rfl
  | cons token rest ih =>
    rw [List.map_cons, piecesAt, piecesAt, blind, nest_down, ih, ih]
    split
    · rfl
    · cases piecesAt test last (nest stack token) rest <;> rfl

theorem isComma_down (token : Token) : isComma (token.down lines) = isComma token := rfl

theorem readSelectors_down (last : Nat) (head : List Token) :
    readSelectors (lines + last) (head.map (Token.down lines)) =
      match readSelectors last head with
      | .ok selectors => .ok (selectors.map (List.map (Token.down lines)))
      | .error line => .error (lines + line) := by
  have blind : (fun piece : List Token × Nat => (clean (source piece.1)).isEmpty) ∘
      Prod.map (List.map (Token.down lines)) (lines + ·) =
      fun piece => (clean (source piece.1)).isEmpty := by
    funext piece
    simp
  rw [readSelectors, readSelectors, piecesAt_down lines isComma_down]
  simp only [List.find?_map, blind]
  cases (piecesAt isComma last [] head).find?
      (fun piece => (clean (source piece.1)).isEmpty) with
  | none => simp [Function.comp_def]
  | some piece => rfl

theorem Statement.tokens_down (statement : Statement) :
    (statement.down lines).tokens = statement.tokens.map (Token.down lines) := by
  obtain ⟨head, ending, rest⟩ := statement
  cases ending with
  | block opening contents closing => cases closing <;> simp [tokens, down, Ending.tokens]
  | semicolon mark => simp [tokens, down, Ending.tokens]
  | missing => simp [tokens, down, Ending.tokens]

theorem Statement.hasBlock_down (statement : Statement) :
    (statement.down lines).hasBlock = statement.hasBlock := by
  obtain ⟨head, ending, rest⟩ := statement
  cases ending <;> rfl

theorem Statement.contents_down (statement : Statement) :
    (statement.down lines).contents = statement.contents.map (Token.down lines) := by
  obtain ⟨head, ending, rest⟩ := statement
  cases ending <;> rfl

theorem styleRule_down (first : Token) (statement : Statement) :
    styleRule (first.down lines) (statement.down lines) =
      (styleRule first statement).map (Finding.down lines) := by
  obtain ⟨head, ending, rest⟩ := statement
  cases ending with
  | block opening contents closing =>
    simp only [styleRule, Statement.down]
    rw [show (opening.down lines).line = lines + opening.line from rfl, readSelectors_down,
      readBody_down, filterMap_finding?_down, declarationsOf_down]
    cases readSelectors opening.line head with
    | ok selectors => simp [Finding.down, SourceRule.down]
    | error line => simp [Finding.down, Notice.down]
  | semicolon mark => simp [styleRule, Statement.down, Finding.down, Notice.down, lastLine_down]
  | missing => simp [styleRule, Statement.down, Finding.down, Notice.down, lastLine_down]

theorem startsCustomProperty_down (first : Token) (rest : List Token) :
    startsCustomProperty (first.down lines) (rest.map (Token.down lines)) =
      startsCustomProperty first rest := by
  rw [startsCustomProperty, startsCustomProperty, skipGaps_down, List.head?_map, Option.map_map]
  rfl

theorem qualifiedRule_down (first : Token) (rest : List Token) :
    qualifiedRule (first.down lines) (rest.map (Token.down lines)) =
      (qualifiedRule first rest).map (Finding.down lines) := by
  rw [qualifiedRule, qualifiedRule, startsCustomProperty_down, ← List.map_cons,
    Statement.read_down lines Token.down_opensBlock, styleRule_down, Statement.tokens_down,
    source_down]
  split <;> rfl

theorem atRuleNotice_down (keyword : Token) (statement : Statement) :
    atRuleNotice (keyword.down lines) (statement.down lines) =
      (atRuleNotice keyword statement).down lines := by
  rw [atRuleNotice, atRuleNotice, Token.down_name, Statement.tokens_down, lastLine_down,
    ← List.map_cons, source_down, Token.down_endLine]
  simp only [Statement.down, ← List.map_cons, source_down]
  split <;> rfl

theorem readRules_down (fresh : Bool) (tokens : List Token) :
    readRules fresh (tokens.map (Token.down lines)) =
      (readRules fresh tokens).map (Finding.down lines) := by
  fun_induction readRules fresh tokens with
  | case1 => rw [List.map_nil, readRules, List.map_nil]
  | case2 fresh first rest idle ih =>
    rw [List.map_cons, readRules, if_pos (by exact idle), ih]
  | case3 fresh first rest busy keyword statement findings ihContents ihRest =>
    rw [List.map_cons, readRules, if_neg (by exact busy), if_pos (by exact keyword),
      Statement.read_down lines endsAtRuleHead_down]
    simp only [Token.down_name, Statement.hasBlock_down, Statement.contents_down,
      atRuleNotice_down, List.map_append, findings, statement]
    rw [ihContents, ← ihRest]
    congr 1
    split
    · rfl
    · split <;> rfl
  | case4 fresh first rest busy noKeyword ih =>
    rw [List.map_cons, readRules, if_neg (by exact busy), if_neg (by exact noKeyword),
      qualifiedRule_down, ← List.map_cons, Statement.read_down lines Token.down_opensBlock,
      List.map_append, ← ih]
    rfl

end Swatch.Css
