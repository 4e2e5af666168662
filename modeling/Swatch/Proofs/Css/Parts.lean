import Swatch.Proofs.Css.Names
import Mathlib.Data.List.Forall2

/-!
# Parts of a printed rule

A printed rule is a list of pieces with commas between them and a block of items
with semicolons between them. A piece spells a selector, an item spells a
declaration: blanks, the name, a colon and the text of the value. When all these
parts are whole, the rule that is read has the selectors and the declarations
that its parts spell by themselves.
-/

namespace Swatch.Css

/-- Does the token end a declaration in a block? -/
def endsDeclaration (token : Token) : Bool :=
  endsItem token || token.closes .curly

theorem endsDeclaration_down (lines : Nat) (token : Token) :
    endsDeclaration (token.down lines) = endsDeclaration token := rfl

/-! ## Values -/

/-- What the text after the colon of a declaration means: its value, and whether it is marked. -/
def valueIn (text : Text) : Option (Text × Bool) :=
  match SourceDeclaration.read ⟨.identifier, [], 0⟩ (⟨.colon, [':'], 0⟩ :: tokenize 0 text) with
  | .ok found => some (found.text, found.important)
  | .error _ => none

/-- The value before the first mark on top, unless it is empty or more follows the mark. -/
theorem valueIn_eq (text : Text) :
    valueIn text =
      let split := splitImportant [] (tokenize 0 text)
      let value := clean (source (withoutEndGaps split.1))
      if value = [] ∨ (split.2.map fun mark => skipGaps mark.2).getD [] ≠ [] then none
      else some (value, split.2.isSome) := by
  have reads : skipGaps (⟨.colon, [':'], 0⟩ :: tokenize 0 text) =
      ⟨.colon, [':'], 0⟩ :: tokenize 0 text := rfl
  rw [valueIn, SourceDeclaration.read, reads]
  simp only [↓reduceIte]
  by_cases fails : SourceDeclaration.text ⟨⟨.identifier, [], 0⟩,
      withoutEndGaps (splitImportant [] (tokenize 0 text)).1,
      (splitImportant [] (tokenize 0 text)).2.isSome⟩ = [] ∨
      ((splitImportant [] (tokenize 0 text)).2.map fun mark => skipGaps mark.2).getD [] ≠ []
  · rw [if_pos fails]
    exact (if_pos fails).symm
  · rw [if_neg fails]
    exact (if_neg fails).symm

/-- Only the tokens after the colon decide what the value of a declaration is. -/
theorem read_of_same_value {name other colon mark : Token} {tokens others value : List Token}
    {found : SourceDeclaration} (left : skipGaps tokens = colon :: value)
    (right : skipGaps others = mark :: value) (colons : mark.kind = .colon)
    (reads : SourceDeclaration.read name tokens = .ok found) :
    SourceDeclaration.read other others = .ok { found with name := other } := by
  rw [SourceDeclaration.read, left] at reads
  rw [SourceDeclaration.read, right]
  simp only [colons, ↓reduceIte] at reads ⊢
  split at reads
  · split at reads
    · contradiction
    · rename_i fine
      rw [Except.ok.injEq] at reads
      subst reads
      exact if_neg fine
  · contradiction

theorem name_of_read {name : Token} {tokens : List Token} {found : SourceDeclaration}
    (reads : SourceDeclaration.read name tokens = .ok found) : found.name = name := by
  rw [SourceDeclaration.read] at reads
  split at reads
  · contradiction
  · split at reads
    · simp only at reads
      split at reads
      · contradiction
      · rw [Except.ok.injEq] at reads
        rw [← reads]
    · contradiction

/-- The declaration of a name with a given text after its colon. -/
theorem read_of_valueIn {text value : Text} {important : Bool}
    (means : valueIn text = some (value, important)) (name : Token) (colonLine line : Nat) :
    ∃ found, SourceDeclaration.read name (⟨.colon, [':'], colonLine⟩ :: tokenize line text) =
        .ok found ∧
      found.declaration = ⟨propertyName name.name, value, important, name.line⟩ := by
  rw [valueIn] at means
  cases reads : SourceDeclaration.read ⟨.identifier, [], 0⟩ (⟨.colon, [':'], 0⟩ :: tokenize 0 text) with
  | error stop => simp [reads] at means
  | ok found =>
    simp only [reads, Option.some.injEq, Prod.mk.injEq] at means
    have moved := SourceDeclaration.read_down line ⟨.identifier, [], 0⟩
      (⟨.colon, [':'], 0⟩ :: tokenize 0 text)
    rw [reads, List.map_cons, ← tokenize_eq_down] at moved
    refine ⟨{ found.down line with name := name }, ?_, ?_⟩
    · exact read_of_same_value rfl rfl rfl moved
    · have texts : SourceDeclaration.text { found.down line with name := name } = found.text :=
        SourceDeclaration.text_down line found
      rw [SourceDeclaration.declaration, texts, means.1, ← means.2]
      rfl

/-! ## The search for the mark -/

/-- Is the token the first half of a mark? -/
def isBang (token : Token) : Bool :=
  token.kind == .delimiter && token.text == ['!']

theorem opens_of_isBang {token : Token} (bang : isBang token = true) : token.opens = none := by
  rw [isBang, Bool.and_eq_true, beq_iff_eq] at bang
  simp [Token.opens, bang.1]

theorem importantMark_of_not_bang {first : Token} (noBang : isBang first = false)
    (rest : List Token) : importantMark first rest = none := by
  unfold importantMark
  apply if_neg
  rintro ⟨kind, text⟩
  rw [isBang, kind, text] at noBang
  contradiction

/-- Tokens without a `!` on top are passed over by the search for the mark. -/
theorem splitImportant_append {stack : List Bracket} {front : List Token}
    (uncut : (cutAt isBang stack front).2 = []) (back : List Token) :
    splitImportant stack (front ++ back) =
      (front ++ (splitImportant (front.foldl nest stack) back).1,
        (splitImportant (front.foldl nest stack) back).2) := by
  induction front generalizing stack with
  | nil => rfl
  | cons token front ih =>
    rcases uncut_cons_iff.mp uncut with ⟨goesOn, later⟩
    have noMark : (if stack.isEmpty = true then importantMark token (front ++ back) else none) =
        none := by
      split
      · rename_i onTop
        rw [onTop, Bool.true_and] at goesOn
        exact importantMark_of_not_bang goesOn _
      · rfl
    rw [List.cons_append, splitImportant, noMark]
    simp only [ih later]
    rfl

/-! ## Items -/

/-- The text of a declaration: blanks, its name, a colon and the text of its value. -/
def itemText (lead name value : Text) : Text :=
  lead ++ (name ++ ':' :: value)

section Item

variable {lead name value : Text}

theorem whole_name {test : Token → Bool} (literal : isLiteralName name = true)
    (passes : test ⟨.identifier, name, 0⟩ = false) : Whole test name := by
  have alone := tokenize_name literal 0 (show Stopped [] from trivial)
  rw [List.append_nil, tokenize_nil] at alone
  refine ⟨?_, ?_, ?_⟩
  · have cut := tokenize_name literal 0 (stopped_cons (show isStop ';' = true by decide) [])
    have front : source [Token.mk .identifier name 0] = name := List.append_nil name
    exact isDetached_of_cut rfl (cut.trans (List.singleton_append).symm) front
  · rw [alone]
    rfl
  · rw [alone, cutAt, passes]
    rfl

theorem head?_of_literal (literal : isLiteralName name = true) (rest : Text) :
    (name ++ rest).head?.any isBlank = false := by
  cases name with
  | nil => exact absurd literal (by decide)
  | cons first more =>
    exact isBlank_of_nameChar (isNameChar_of_literal literal first List.mem_cons_self)

theorem whole_item (blanks : ∀ c ∈ lead, isBlank c = true) (literal : isLiteralName name = true)
    (whole : Whole endsDeclaration value) : Whole endsDeclaration (itemText lead name value) := by
  apply (Whole.blanks_append_iff blanks (fun _ _ => rfl) endsDeclaration_down).mpr
  exact (whole_name literal rfl).append_cons whole endsDeclaration_down
    ⟨by decide, by rfl, by rfl, fun _ => rfl⟩

theorem endsDeclaration_of_endsItem (token : Token) (ends : endsItem token = true) :
    endsDeclaration token = true := by
  rw [endsDeclaration, ends, Bool.true_or]

/-- A name, a colon and tokens that no semicolon ends are one item. -/
theorem readBody_item {name colon : Token} {tokens : List Token}
    (identifier : name.kind = .identifier) (isColon : colon.kind = .colon)
    (uncut : (cutAt endsItem [] tokens).2 = []) :
    readBody (name :: colon :: tokens) =
      [BodyItem.read name (colon :: tokens) (source (name :: colon :: tokens))] := by
  have busy : (name.isGap || endsItem name) = false := by
    simp [Token.isGap, endsItem, identifier]
  have noKeyword : name.kind ≠ .atKeyword := by
    simp [identifier]
  have opened : nest [] name = [] := by
    simp [nest, Token.opens, identifier]
  have passes : (([] : List Bracket).isEmpty && endsItem colon) = false := by
    simp [endsItem, isColon]
  have passed : nest [] colon = [] := by
    simp [nest, Token.opens, isColon]
  have cut : cutAt endsItem (nest [] name) (colon :: tokens) = (colon :: tokens, []) := by
    rw [opened]
    exact cutAt_eq_of_uncut (uncut_cons_iff.mpr ⟨passes, by rwa [passed]⟩)
  rw [readBody, busy, if_neg Bool.false_ne_true, if_neg noKeyword, cut]
  simp only [List.drop_nil, List.take_nil, List.append_nil]
  rw [readBody]

/-- An item that is whole means the declaration that it spells. -/
theorem bodyDeclarations_item (blanks : ∀ c ∈ lead, isBlank c = true)
    (own : isOwnName name = true) (whole : Whole endsDeclaration value) {read : Text}
    {important : Bool} (means : valueIn value = some (read, important)) :
    bodyDeclarations (itemText lead name value) = [⟨name, read, important, 0⟩] := by
  rw [isOwnName, Bool.and_eq_true, beq_iff_eq] at own
  have dropped : (itemText lead name value).dropWhile isBlank = name ++ ':' :: value := by
    rw [itemText, List.dropWhile_append_of_pos blanks]
    have begins := head?_of_literal own.1 (':' :: value)
    cases text : name ++ ':' :: value with
    | nil => rfl
    | cons c rest =>
      rw [text, List.head?_cons, Option.any_some] at begins
      rw [List.dropWhile_cons_of_neg (by rw [begins]; decide)]
  rw [← bodyDeclarations_dropWhile, dropped, bodyDeclarations,
    tokenize_name own.1 0 (stopped_cons (by decide) _), tokenize_punctuation (by rfl)]
  generalize 0 + lineEnds name = line
  have uncut : (cutAt endsItem [] (tokenize (line + lineEnds [':']) value)).2 = [] :=
    (whole.of_imp endsDeclaration_of_endsItem).uncut_at endsItem_down _
  obtain ⟨found, reads, declared⟩ :=
    read_of_valueIn means ⟨.identifier, name, 0⟩ line (line + lineEnds [':'])
  rw [readBody_item rfl rfl uncut, BodyItem.read, if_pos rfl, reads]
  simp only [declaredIn, declarationsOf, List.filterMap_cons, List.filterMap_nil, List.map_cons,
    List.map_nil, declared, Token.name]
  simp [Declaration.unplaced, resolve_of_literal own.1, own.2]

/-- Blanks alone are an item that means nothing. -/
theorem bodyDeclarations_blanks (blanks : ∀ c ∈ lead, isBlank c = true) :
    bodyDeclarations lead = [] := by
  rw [← bodyDeclarations_dropWhile, List.dropWhile_eq_nil_iff.mpr blanks, bodyDeclarations, tokenize_nil, readBody]
  rfl

theorem whole_blanks {test : Token → Bool} (blanks : ∀ c ∈ lead, isBlank c = true)
    (passes : ∀ line spelling, test ⟨.blank, spelling, line⟩ = false)
    (blind : ∀ lines token, test (token.down lines) = test token) : Whole test lead := by
  have whole := (Whole.blanks_append_iff blanks passes blind).mpr (Whole.nil : Whole test [])
  rwa [List.append_nil] at whole

end Item

/-! ## Rules -/

/-- The text of a rule, from its pieces and its items. -/
def ruleText (pieces items : List Text) : Text :=
  join [','] pieces ++ '\x7b' :: (join [';'] items ++ ['\x7d'])

/-- The piece is a selector by itself and spells the given one. -/
structure SpellsSelector (piece selector : Text) : Prop where
  whole : Whole endsSelector piece
  cleaned : clean piece = selector
  filled : selector ≠ []

/-- The pieces of a rule spell its selectors and begin a style rule. -/
structure SpellsSelectors (pieces selectors : List Text) : Prop where
  some : pieces ≠ []
  each : List.Forall₂ SpellsSelector pieces selectors
  begins : beginsRule (pieces.headD []) = true

theorem SpellsSelectors.map_clean {pieces selectors : List Text}
    (each : List.Forall₂ SpellsSelector pieces selectors) : pieces.map clean = selectors := by
  induction each with
  | nil => rfl
  | cons here _ ih => rw [List.map_cons, here.cleaned, ih]

/-- A rule that is printed from whole parts is read as what its parts spell. -/
theorem listedRules_ruleText {pieces items selectors : List Text}
    (spells : SpellsSelectors pieces selectors)
    (whole : ∀ item ∈ items, Whole endsDeclaration item) (fresh : Bool) (rest : Text) :
    listedRules fresh (ruleText pieces items ++ rest) =
      ⟨selectors, items.flatMap bodyDeclarations⟩ :: listedRules false rest := by
  have closed : Whole (Token.closes .curly) (join [';'] items) :=
    Whole.join (fun item met => (whole item met).of_imp
      (fun token closes => by rw [endsDeclaration, closes, Bool.or_true]))
      (Token.down_closes · .curly ·) ⟨by decide, by rfl, by rfl, fun _ => rfl⟩
  have spelled : ∀ piece ∈ pieces, SpellsSelector piece (clean piece) := by
    intro piece met
    rcases List.forall₂_iff_get.mp spells.each with ⟨_, related⟩
    rcases List.mem_iff_getElem.mp met with ⟨index, within, rfl⟩
    have here := related index within (spells.each.length_eq ▸ within)
    exact ⟨here.whole, rfl, here.cleaned ▸ here.filled⟩
  have read := listedRules_rule spells.some (fun piece met => (spelled piece met).whole)
    (fun piece met => (spelled piece met).filled) spells.begins closed fresh rest
  rw [SpellsSelectors.map_clean spells.each, bodyDeclarations_join whole] at read
  rw [← read, ruleText]
  simp

end Swatch.Css
