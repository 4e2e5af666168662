import Swatch.Proofs.Css.Standing

/-!
# Complete items

A list of rules is a sequence of items with tokens between them that mean nothing. An
item is complete when its own semicolon or closing bracket ends it; whether it is of any
use does not matter. Reading a complete item never looks behind its end. So the rules of
a complete item and of what follows it are the rules of the two, one after the other.
-/

namespace Swatch.Css

/-- The tokens close every bracket that they open, and none on top satisfies the test. -/
structure Enclosed (test : Token → Bool) (tokens : List Token) : Prop where
  balanced : tokens.foldl nest [] = []
  uncut : (cutAt test [] tokens).2 = []

/-- An ending that is there: a semicolon, or a block with its closing bracket. -/
inductive Ending.Complete : Ending → Prop
  | semicolon {mark : Token} (kind : mark.kind = .semicolon) : Complete (.semicolon mark)
  | block {opening closing : Token} {contents : List Token}
      (opens : opening.kind = .opening .curly) (inside : Enclosed (Token.closes .curly) contents)
      (closes : closing.kind = .closing .curly) :
      Complete (.block opening contents (some closing))

/-- The tokens of one item: an at-rule, or a style rule with its block. -/
inductive Item : List Token → Prop
  | atRule {keyword : Token} {head : List Token} {ending : Ending}
      (kind : keyword.kind = .atKeyword) (enclosed : Enclosed endsAtRuleHead head)
      (complete : ending.Complete) : Item (keyword :: (head ++ ending.tokens))
  | styleRule {first opening : Token} {head contents rest : List Token} {closing : Option Token}
      (busy : isBetweenRules first = false) (noKeyword : first.kind ≠ .atKeyword)
      (enclosed : Enclosed Token.opensBlock head)
      (complete : (Ending.block opening contents closing).Complete)
      (begins : head ++ (Ending.block opening contents closing).tokens = first :: rest) :
      Item (first :: rest)

/-- A token between items that ends by itself: a comment needs its closing mark. -/
structure Idle (token : Token) : Prop where
  between : isBetweenRules token = true
  closed : token.kind = .comment → ∃ body, token.text = "/*".toList ++ body ++ "*/".toList

/-- The tokens are complete items, with idle tokens around them. -/
inductive Items : List Token → Prop
  | nil : Items []
  | idle {token : Token} {rest : List Token} (idle : Idle token) (further : Items rest) :
      Items (token :: rest)
  | item {tokens rest : List Token} (item : Item tokens) (further : Items rest) :
      Items (tokens ++ rest)

/-! ## Rules that are kept -/

/-- The rules that are kept among the tokens of a list of rules. -/
def keptRules (tokens : List Token) : List SourceRule :=
  keptIn (readRules true tokens)

/-- The rules that an at-rule keeps: those in its block, if it groups rules. -/
def groupedRules (keyword : Token) (statement : Statement) : List SourceRule :=
  if isGroupingName keyword.name && statement.hasBlock then keptRules statement.contents else []

theorem isGroupingName_of_charset {name : Text}
    (charset : sameLetters name "charset".toList = true) : isGroupingName name = false := by
  rw [sameLetters, beq_iff_eq] at charset
  simp only [isGroupingName, groupingNames, List.any_map, List.any_cons, List.any_nil, Function.comp,
    sameLetters, charset]
  decide

theorem keptIn_readRules_atRule {keyword : Token} (kind : keyword.kind = .atKeyword) (fresh : Bool)
    (rest : List Token) :
    keptIn (readRules fresh (keyword :: rest)) =
      groupedRules keyword (Statement.read endsAtRuleHead rest) ++
        keptIn (readRules false (Statement.read endsAtRuleHead rest).rest) := by
  have busy : isBetweenRules keyword = false := by
    rw [isBetweenRules, Token.isGap, kind]
    rfl
  rw [readRules, if_neg (by rw [busy]; exact Bool.false_ne_true), if_pos kind, keptIn_append]
  congr 1
  unfold groupedRules
  by_cases grouping : (isGroupingName keyword.name &&
      (Statement.read endsAtRuleHead rest).hasBlock) = true
  · have other : (fresh && sameLetters keyword.name "charset".toList) = false := by
      rw [Bool.and_eq_true] at grouping
      cases charset : sameLetters keyword.name "charset".toList with
      | false => rw [Bool.and_false]
      | true =>
        rw [isGroupingName_of_charset charset] at grouping
        exact absurd grouping.1 Bool.false_ne_true
    rw [other, if_neg Bool.false_ne_true, if_pos grouping, if_pos grouping, keptRules]
  · rw [if_neg grouping, if_neg grouping]
    split <;> rfl

theorem keptIn_readRules_styleRule {first : Token} (busy : isBetweenRules first = false)
    (noKeyword : first.kind ≠ .atKeyword) (fresh : Bool) (rest : List Token) :
    keptIn (readRules fresh (first :: rest)) =
      keptIn (qualifiedRule first rest) ++
        keptIn (readRules false (Statement.read Token.opensBlock (first :: rest)).rest) := by
  rw [readRules, if_neg (by rw [busy]; exact Bool.false_ne_true), if_neg noKeyword, keptIn_append]

/-- What is kept does not depend on whether a rule may be the first one. -/
theorem keptIn_readRules (fresh : Bool) (tokens : List Token) :
    keptIn (readRules fresh tokens) = keptRules tokens := by
  induction tokens with
  | nil => rw [keptRules, readRules, readRules]
  | cons first rest ih =>
    by_cases between : isBetweenRules first = true
    · rw [keptRules, readRules, if_pos between, readRules, if_pos between, ih, keptRules]
    · rw [Bool.not_eq_true] at between
      by_cases kind : first.kind = .atKeyword
      · rw [keptRules, keptIn_readRules_atRule kind, keptIn_readRules_atRule kind]
      · rw [keptRules, keptIn_readRules_styleRule between kind, keptIn_readRules_styleRule between kind]

theorem keptRules_nil : keptRules [] = [] := by
  rw [keptRules, readRules, keptIn_nil]

theorem keptRules_idle {token : Token} (between : isBetweenRules token = true) (rest : List Token) :
    keptRules (token :: rest) = keptRules rest := by
  rw [keptRules, readRules, if_pos between, keptRules]

theorem keptRules_atRule {keyword : Token} (kind : keyword.kind = .atKeyword) (rest : List Token) :
    keptRules (keyword :: rest) =
      groupedRules keyword (Statement.read endsAtRuleHead rest) ++
        keptRules (Statement.read endsAtRuleHead rest).rest := by
  rw [keptRules, keptIn_readRules_atRule kind, keptIn_readRules]

theorem keptRules_styleRule {first : Token} (busy : isBetweenRules first = false)
    (noKeyword : first.kind ≠ .atKeyword) (rest : List Token) :
    keptRules (first :: rest) =
      keptIn (qualifiedRule first rest) ++
        keptRules (Statement.read Token.opensBlock (first :: rest)).rest := by
  rw [keptRules, keptIn_readRules_styleRule busy noKeyword, keptIn_readRules]

/-! ## Reading complete items -/

theorem Enclosed.cutAt_append {test : Token → Bool} {tokens : List Token}
    (enclosed : Enclosed test tokens) {mark : Token} (stops : test mark = true)
    (rest : List Token) : cutAt test [] (tokens ++ mark :: rest) = (tokens, mark :: rest) :=
  cutAt_append_of_stop enclosed.uncut enclosed.balanced stops rest

theorem opensBlock_iff {token : Token} : token.opensBlock = true ↔ token.kind = .opening .curly := by
  rw [Token.opensBlock, beq_iff_eq]

/-- A statement with a complete ending is read up to its end. -/
theorem Statement.read_complete {test : Token → Bool} {head : List Token} {ending : Ending}
    (enclosed : Enclosed test head) (complete : ending.Complete)
    (stops : ∀ mark ∈ ending.tokens.head?, test mark = true) (rest : List Token) :
    read test (head ++ ending.tokens ++ rest) = ⟨head, ending, rest⟩ := by
  cases complete with
  | @semicolon mark kind =>
    have shut : mark.opensBlock = false := by
      rw [Token.opensBlock, kind]
      rfl
    rw [read, List.append_assoc, Ending.tokens, List.singleton_append,
      enclosed.cutAt_append (stops mark rfl), close, if_neg (by rw [shut]; exact Bool.false_ne_true)]
  | @block opening closing contents opens inside closes =>
    have ends : closing.closes .curly = true := by
      rw [Token.closes, closes]
      rfl
    have parts : head ++ (Ending.block opening contents (some closing)).tokens ++ rest =
        head ++ opening :: (contents ++ closing :: rest) := by simp [Ending.tokens]
    rw [parts, read, enclosed.cutAt_append (stops opening rfl), close,
      if_pos (opensBlock_iff.mpr opens), inside.cutAt_append ends]
    rfl

theorem endsAtRuleHead_of_complete {ending : Ending} (complete : ending.Complete) :
    ∀ mark ∈ ending.tokens.head?, endsAtRuleHead mark = true := by
  intro mark met
  cases complete with
  | semicolon kind =>
    cases met
    rw [endsAtRuleHead, kind]
    rfl
  | block opens _ _ =>
    cases met
    rw [endsAtRuleHead, opensBlock_iff.mpr opens, Bool.or_true]

theorem opensBlock_of_complete {opening : Token} {contents : List Token} {closing : Option Token}
    (complete : (Ending.block opening contents closing).Complete) :
    ∀ mark ∈ (Ending.block opening contents closing).tokens.head?, mark.opensBlock = true := by
  intro mark met
  cases complete with
  | block opens _ _ =>
    cases met
    exact opensBlock_iff.mpr opens

/-- Do the tokens begin with a name in two dashes and a colon? -/
def beginsCustomProperty : List Token → Bool
  | [] => false
  | first :: rest => startsCustomProperty first rest

/-- Whether a rule looks like a custom property is known at its opening bracket. -/
theorem startsCustomProperty_eq_head {first opening : Token} {head more after : List Token}
    (opens : opening.kind = .opening .curly) (begins : head ++ opening :: after = first :: more) :
    startsCustomProperty first more = beginsCustomProperty head := by
  cases head with
  | nil =>
    rcases List.cons.inj begins with ⟨rfl, rfl⟩
    simp [startsCustomProperty, beginsCustomProperty, opens]
  | cons token rest =>
    rw [List.cons_append] at begins
    rcases List.cons.inj begins with ⟨rfl, rfl⟩
    exact startsCustomProperty_append token rest (by simp [Token.isGap, opens]) (by simp [opens]) after

theorem startsCustomProperty_block {first opening : Token} {head contents rest : List Token}
    {closing : Option Token} (complete : (Ending.block opening contents closing).Complete)
    (begins : head ++ (Ending.block opening contents closing).tokens = first :: rest)
    (back : List Token) : startsCustomProperty first (rest ++ back) = startsCustomProperty first rest := by
  cases complete with
  | @block opening closing contents opens _ _ =>
    have longer := congrArg (· ++ back) begins
    simp only [Ending.tokens, List.append_assoc, List.cons_append] at longer
    rw [startsCustomProperty_eq_head opens longer, startsCustomProperty_eq_head opens begins]

/-- A complete item is read by itself, whatever follows it. -/
theorem Item.keptRules_append {tokens : List Token} (item : Item tokens) (rest : List Token) :
    keptRules (tokens ++ rest) = keptRules tokens ++ keptRules rest := by
  cases item with
  | @atRule keyword head ending kind enclosed complete =>
    have stops := endsAtRuleHead_of_complete complete
    have alone := Statement.read_complete enclosed complete stops []
    rw [List.append_nil] at alone
    rw [List.cons_append, keptRules_atRule kind, Statement.read_complete enclosed complete stops rest,
      keptRules_atRule kind, alone, keptRules_nil, List.append_nil]
    rfl
  | @styleRule first opening head contents more closing busy noKeyword enclosed complete begins =>
    have stops := opensBlock_of_complete complete
    have alone := Statement.read_complete enclosed complete stops []
    have together := Statement.read_complete enclosed complete stops rest
    rw [begins] at alone together
    rw [List.append_nil] at alone
    rw [List.cons_append] at together
    -- The look for the colon of a custom property stops at the bracket of the block.
    have same : qualifiedRule first (more ++ rest) = qualifiedRule first more := by
      unfold qualifiedRule
      rw [together, alone, startsCustomProperty_block complete begins]
      rfl
    rw [List.cons_append, keptRules_styleRule busy noKeyword, together, same,
      keptRules_styleRule busy noKeyword, alone, keptRules_nil, List.append_nil]

/-- A complete item ends with a semicolon or with a closing curly bracket. -/
theorem Item.exists_last {tokens : List Token} (item : Item tokens) :
    ∃ front last, tokens = front ++ [last] ∧
      (last.kind = .semicolon ∨ last.kind = .closing .curly) := by
  have ends {ending : Ending} (complete : ending.Complete) : ∃ front last,
      ending.tokens = front ++ [last] ∧ (last.kind = .semicolon ∨ last.kind = .closing .curly) := by
    cases complete with
    | semicolon kind => exact ⟨[], _, rfl, .inl kind⟩
    | @block opening closing contents _ _ closes => exact ⟨opening :: contents, closing, rfl, .inr closes⟩
  cases item with
  | @atRule keyword head ending kind enclosed complete =>
    rcases ends complete with ⟨front, last, shape, kinds⟩
    exact ⟨keyword :: (head ++ front), last, by rw [shape]; simp, kinds⟩
  | @styleRule first opening head contents more closing busy noKeyword enclosed complete begins =>
    rcases ends complete with ⟨front, last, shape, kinds⟩
    exact ⟨head ++ front, last, by rw [← begins, shape, List.append_assoc], kinds⟩

end Swatch.Css
