import Swatch.Css.Stylesheet
import Swatch.Proofs.Css.Weight

/-!
# Where declarations stand

Every declaration that is read stands in the tokens: its name, gaps, a colon, and
the tokens of its value, with nothing between them. The declarations of a body, of a
rule and of nested lists of rules stand one behind the other, in the order in which
they are read. So whatever is true of the tokens of a text in their order is true of
its declarations in theirs.
-/

namespace Swatch.Css

/-- The declarations stand in the tokens, one behind the other. -/
inductive Stands : List Token → List SourceDeclaration → Prop
  | none (tokens : List Token) : Stands tokens []
  | skip (token : Token) {rest : List Token} {found : List SourceDeclaration}
      (later : Stands rest found) : Stands (token :: rest) found
  | here {declared : SourceDeclaration} {between rest : List Token} {colon : Token}
      {found : List SourceDeclaration} (name_kind : declared.name.kind = .identifier)
      (gaps : ∀ token ∈ between, token.isGap = true) (colon_kind : colon.kind = .colon)
      (filled : declared.text ≠ []) (later : Stands rest found) :
      Stands (declared.name :: (between ++ colon :: (declared.value ++ rest))) (declared :: found)

namespace Stands

variable {tokens front back : List Token} {found first second : List SourceDeclaration}

theorem behind (stands : Stands back found) (front : List Token) : Stands (front ++ back) found := by
  induction front with
  | nil => exact stands
  | cons token _ ih => exact .skip token ih

theorem append (before : Stands front first) (after : Stands back second) :
    Stands (front ++ back) (first ++ second) := by
  induction before with
  | none tokens => exact after.behind tokens
  | skip token _ ih => exact .skip token ih
  | here nameKind gaps colonKind filled _ ih =>
    have joined := here nameKind gaps colonKind filled ih
    simpa using joined

theorem before (stands : Stands front found) (back : List Token) : Stands (front ++ back) found := by
  have together := stands.append (.none back)
  rwa [List.append_nil] at together

/-- The names stand in the order of the declarations. -/
theorem names (stands : Stands tokens found) :
    (found.map SourceDeclaration.name).Sublist tokens := by
  induction stands with
  | none tokens => exact List.nil_sublist tokens
  | skip token _ ih => exact ih.cons token
  | here _ _ _ _ _ ih =>
    apply List.Sublist.cons_cons
    apply (ih.trans (List.sublist_append_right _ _)).trans
    apply (List.sublist_cons_self _ _).trans
    exact List.sublist_append_right _ _

/-- What stands in the tokens for one of the declarations. -/
theorem of_mem (stands : Stands tokens found) {declared : SourceDeclaration}
    (met : declared ∈ found) :
    declared.name.kind = .identifier ∧ declared.text ≠ [] ∧ declared.value <:+: tokens := by
  induction stands with
  | none => contradiction
  | skip token _ ih =>
    rcases ih met with ⟨kind, filled, stands⟩
    exact ⟨kind, filled, stands.trans (List.suffix_cons token _).isInfix⟩
  | @here one between rest colon found nameKind gaps colonKind filled _ ih =>
    have parts : one.name :: (between ++ colon :: (one.value ++ rest)) =
        (one.name :: (between ++ [colon])) ++ (one.value ++ rest) := by simp
    rw [parts]
    rcases List.mem_cons.mp met with rfl | later
    · exact ⟨nameKind, filled, _, rest, List.append_assoc _ _ _⟩
    · rcases ih later with ⟨kind, some, stands⟩
      refine ⟨kind, some, stands.trans ?_⟩
      exact (List.suffix_append _ rest).isInfix.trans (List.suffix_append _ _).isInfix

end Stands

/-! ## Declarations -/

theorem prefix_of_withoutEndGaps (value : List Token) : withoutEndGaps value <+: value := by
  unfold withoutEndGaps
  split
  · exact List.rdropWhile_prefix _ _
  · exact List.prefix_refl value

theorem prefix_of_splitImportant (stack : List Bracket) (tokens : List Token) :
    (splitImportant stack tokens).1 <+: tokens := by
  cases marked : (splitImportant stack tokens).2 with
  | none =>
    exact ⟨[], (List.append_nil _).trans (splitImportant_eq_none marked)⟩
  | some mark =>
    rcases splitImportant_eq_some marked with ⟨bang, rest, parts, -⟩
    exact ⟨bang :: rest, parts.symm⟩

/-- A declaration that is read stands in its tokens. -/
theorem stands_read {name : Token} {tokens : List Token} {found : SourceDeclaration}
    (kind : name.kind = .identifier) (reads : SourceDeclaration.read name tokens = .ok found) :
    Stands (name :: tokens) [found] := by
  rw [SourceDeclaration.read] at reads
  split at reads
  · contradiction
  · rename_i colon value skipped
    split at reads
    · rename_i isColon
      simp only at reads
      split at reads
      · contradiction
      · rename_i fine
        rw [not_or] at fine
        cases reads
        have within := (prefix_of_withoutEndGaps (splitImportant [] value).1).trans
          (prefix_of_splitImportant [] value)
        rcases within with ⟨rest, whole⟩
        have parts : tokens = tokens.takeWhile Token.isGap ++ colon ::
            (withoutEndGaps (splitImportant [] value).1 ++ rest) := by
          rw [whole, ← skipped, skipGaps, List.takeWhile_append_dropWhile]
        rw [parts]
        exact .here kind (fun token met => List.mem_takeWhile_imp met) isColon fine.1 (.none rest)
    · contradiction

theorem stands_item (first : Token) (tokens : List Token) (text : Text) :
    Stands (first :: tokens) (declarationsOf [BodyItem.read first tokens text]) := by
  unfold BodyItem.read
  split
  · rename_i kind
    cases reads : SourceDeclaration.read first tokens with
    | ok found => exact stands_read kind reads
    | error line => exact .none _
  · exact .none _

/-- The declarations of a body stand in its tokens. -/
theorem stands_readBody (tokens : List Token) : Stands tokens (declarationsOf (readBody tokens)) := by
  fun_induction readBody tokens with
  | case1 => exact .none []
  | case2 first rest idle ih => exact .skip first ih
  | case3 first rest busy keyword rule ih =>
    have parts : rule.tokens ++ rule.rest = rest := Statement.read_append endsAtRuleHead rest
    rw [declarationsOf_skipped, ← parts]
    exact .skip first (ih.behind rule.tokens)
  | case4 first rest busy noKeyword cut item ih =>
    have parts : cut.1 ++ cut.2 = rest := cutAt_append endsItem (nest [] first) rest
    have after := ih.behind (cut.2.take 1)
    rw [List.take_append_drop] at after
    rw [declarationsOf_cons, ← parts, ← List.cons_append]
    exact (stands_item first cut.1 item).append after

/-! ## Rules -/

/-- The rules that are kept among findings. -/
def keptIn (findings : List Finding) : List SourceRule :=
  findings.filterMap fun
    | .kept found => some found
    | .passedOver _ => none

@[simp]
theorem keptIn_nil : keptIn [] = [] := rfl

@[simp]
theorem keptIn_append (front back : List Finding) :
    keptIn (front ++ back) = keptIn front ++ keptIn back :=
  List.filterMap_append

@[simp]
theorem keptIn_passedOver (notice : Notice) (rest : List Finding) :
    keptIn (.passedOver notice :: rest) = keptIn rest := rfl

@[simp]
theorem keptIn_kept (found : SourceRule) (rest : List Finding) :
    keptIn (.kept found :: rest) = found :: keptIn rest := rfl

theorem keptIn_finding? (items : List BodyItem) :
    keptIn (items.filterMap BodyItem.finding?) = [] := by
  rw [keptIn, List.filterMap_filterMap, List.filterMap_eq_nil_iff]
  intro item _
  cases item <;> rfl

/-- The declarations of rules, rule by rule. -/
def declaredBy (rules : List SourceRule) : List SourceDeclaration :=
  rules.flatMap SourceRule.declarations

theorem mem_declaredBy {rules : List SourceRule} {found : SourceRule} (kept : found ∈ rules)
    {declared : SourceDeclaration} (met : declared ∈ found.declarations) :
    declared ∈ declaredBy rules :=
  List.mem_flatMap.mpr ⟨found, kept, met⟩

@[simp]
theorem declaredBy_append (front back : List SourceRule) :
    declaredBy (front ++ back) = declaredBy front ++ declaredBy back :=
  List.flatMap_append

theorem Statement.contents_infix (statement : Statement) : statement.contents <:+: statement.tokens := by
  unfold contents
  split
  · rename_i opening contents closing ends
    rw [tokens, ends, Ending.tokens]
    exact ⟨statement.head ++ [opening], closing.toList, by simp⟩
  · exact List.nil_infix

theorem stands_infix {inner outer : List Token} {found : List SourceDeclaration}
    (within : inner <:+: outer) (stands : Stands inner found) : Stands outer found := by
  rcases within with ⟨front, back, rfl⟩
  exact (stands.behind front).before back

theorem stands_styleRule (first : Token) (statement : Statement) :
    Stands statement.tokens (declaredBy (keptIn (styleRule first statement))) := by
  unfold styleRule
  split
  · rename_i opening contents closing ends
    have inside := statement.contents_infix
    rw [Statement.contents, ends] at inside
    split
    · rename_i selectors _
      rw [keptIn_append, keptIn_finding?, List.nil_append, keptIn_kept, keptIn_nil]
      have body := stands_infix inside (stands_readBody contents)
      rwa [← List.append_nil (declarationsOf (readBody contents))] at body
    · exact .none _
  · exact .none _

/-- The declarations of a list of rules stand in its tokens. -/
theorem stands_readRules (fresh : Bool) (tokens : List Token) :
    Stands tokens (declaredBy (keptIn (readRules fresh tokens))) := by
  fun_induction readRules fresh tokens with
  | case1 => exact .none []
  | case2 fresh first rest between ih => exact .skip first ih
  | case3 fresh first rest busy keyword statement findings inner ih =>
    have parts : statement.tokens ++ statement.rest = rest := Statement.read_append endsAtRuleHead rest
    have here : Stands statement.tokens (declaredBy (keptIn findings)) := by
      simp only [findings]
      split
      · exact .none _
      · split
        · exact stands_infix statement.contents_infix inner
        · exact .none _
    rw [keptIn_append, declaredBy_append, ← parts]
    exact .skip first (here.append ih)
  | case4 fresh first rest busy noKeyword ih =>
    have parts := Statement.read_append Token.opensBlock (first :: rest)
    have here : Stands (Statement.read Token.opensBlock (first :: rest)).tokens
        (declaredBy (keptIn (qualifiedRule first rest))) := by
      unfold qualifiedRule
      simp only
      split
      · exact .none _
      · exact stands_styleRule first _
    have together := here.append ih
    rw [parts] at together
    rwa [keptIn_append, declaredBy_append]

/-- The declarations that a text keeps stand in its tokens. -/
theorem stands_sourceRules (text : Text) :
    Stands (tokenize 1 (withoutMark text)) (declaredBy (sourceRules text)) :=
  stands_readRules true _

end Swatch.Css
