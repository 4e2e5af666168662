import Swatch.Proofs.Css.Bodies
import Swatch.Proofs.Css.Components
import Swatch.Proofs.Css.Recovered

/-!
# The grammar of declarations

What a declaration means can be said of the components of its value alone, without a reader:
the first `!` with `important` directly behind it is the mark, and it has to be the end of the
value. Gaps between components do not count, and what is inside a component is never looked
at. The reader accepts exactly this.
-/

namespace Swatch.Css

/-! ## Marks -/

/-- Is the token the word of a mark, in any letter case? -/
def isImportant (token : Token) : Bool :=
  token.kind == .identifier && sameLetters token.name "important".toList

/-- The components begin with a mark: `!` and `important`, with only gaps between them. -/
inductive Mark : List (List Token) → List (List Token) → Prop
  | intro {bang word : List Token} {gaps after : List (List Token)}
      (isMark : isSingle isBang bang = true)
      (between : ∀ gap ∈ gaps, isSingle Token.isGap gap = true)
      (isWord : isSingle isImportant word = true) : Mark (bang :: (gaps ++ word :: after)) after

/-- No mark begins anywhere among the components. -/
inductive Unmarked : List (List Token) → Prop
  | nil : Unmarked []
  | cons {part : List Token} {rest : List (List Token)} (noMark : ¬∃ after, Mark (part :: rest) after)
      (further : Unmarked rest) : Unmarked (part :: rest)

/-- What stands before the first mark among the components, and what follows it. -/
inductive FirstMark : List (List Token) → List (List Token) → List (List Token) → Prop
  | here {parts after : List (List Token)} (mark : Mark parts after) : FirstMark parts [] after
  | later {part : List Token} {rest before after : List (List Token)}
      (noMark : ¬∃ after, Mark (part :: rest) after) (further : FirstMark rest before after) :
      FirstMark (part :: rest) (part :: before) after

theorem unmarked_or_firstMark (parts : List (List Token)) :
    Unmarked parts ∨ ∃ before after, FirstMark parts before after := by
  induction parts with
  | nil => exact .inl .nil
  | cons part rest ih =>
    by_cases mark : ∃ after, Mark (part :: rest) after
    · rcases mark with ⟨after, mark⟩
      exact .inr ⟨[], after, .here mark⟩
    · rcases ih with unmarked | ⟨before, after, first⟩
      · exact .inl (.cons mark unmarked)
      · exact .inr ⟨part :: before, after, .later mark first⟩

theorem FirstMark.before_prefix {parts before after : List (List Token)}
    (first : FirstMark parts before after) : before <+: parts := by
  induction first with
  | here => exact List.nil_prefix
  | later _ _ ih => exact List.prefix_cons_inj _ |>.mpr ih

theorem FirstMark.after_suffix {parts before after : List (List Token)}
    (first : FirstMark parts before after) : after <:+ parts := by
  induction first with
  | here mark =>
    cases mark with
    | @intro bang word gaps after =>
      exact ⟨bang :: (gaps ++ [word]), by simp⟩
  | later _ _ ih => exact ih.trans (List.suffix_cons _ _)

/-! ## The grammar -/

/-- The value that components spell: their text up to the end of the last one that is no gap. -/
def spelledValue (parts : List (List Token)) : Text :=
  clean (source (dropEndWhile (isSingle Token.isGap) parts).flatten)

/-- What a value means, by its components: its text and whether it is marked, or nothing. -/
inductive Grammar (parts : List (List Token)) : Option (Text × Bool) → Prop
  | plain (unmarked : Unmarked parts) (filled : spelledValue parts ≠ []) :
      Grammar parts (some (spelledValue parts, false))
  | marked {before after : List (List Token)} (first : FirstMark parts before after)
      (nothing : ∀ part ∈ after, isSingle Token.isGap part = true)
      (filled : spelledValue before ≠ []) : Grammar parts (some (spelledValue before, true))
  | further {before after : List (List Token)} {part : List Token}
      (first : FirstMark parts before after) (among : part ∈ after)
      (something : isSingle Token.isGap part = false) : Grammar parts none
  | emptyPlain (unmarked : Unmarked parts) (empty : spelledValue parts = []) : Grammar parts none
  | emptyMarked {before after : List (List Token)} (first : FirstMark parts before after)
      (empty : spelledValue before = []) : Grammar parts none

/-- The grammar leaves no value without a meaning. -/
theorem Grammar.total (parts : List (List Token)) : ∃ result, Grammar parts result := by
  rcases unmarked_or_firstMark parts with unmarked | ⟨before, after, first⟩
  · by_cases empty : spelledValue parts = []
    · exact ⟨none, .emptyPlain unmarked empty⟩
    · exact ⟨_, .plain unmarked empty⟩
  · by_cases nothing : ∀ part ∈ after, isSingle Token.isGap part = true
    · by_cases empty : spelledValue before = []
      · exact ⟨none, .emptyMarked first empty⟩
      · exact ⟨_, .marked first nothing empty⟩
    · push Not at nothing
      rcases nothing with ⟨part, among, something⟩
      exact ⟨none, .further first among (Bool.eq_false_iff.mpr something)⟩

/-! ## The reader on components -/

variable {parts before after : List (List Token)}

theorem not_gap_of_important {part : List Token} (word : isSingle isImportant part = true) :
    isSingle Token.isGap part = false := by
  rcases eq_singleton_of_isSingle word with ⟨token, rfl, important⟩
  rw [isImportant, Bool.and_eq_true, beq_iff_eq] at important
  simp [isSingle, Token.isGap, important.1]

theorem Mark.importantMark_flatten {bang : Token} {rest : List (List Token)}
    (mark : Mark ([bang] :: rest) after) (each : ∀ part ∈ rest, Component part) :
    ∃ word, importantMark bang rest.flatten = some (word, after.flatten) := by
  generalize whole : [bang] :: rest = parts at mark
  cases mark with
  | @intro single word gaps _ isMark between isWord =>
    rcases List.cons.inj whole with ⟨rfl, rfl⟩
    have skipped : (gaps ++ word :: after).dropWhile (isSingle Token.isGap) = word :: after := by
      rw [List.dropWhile_append_of_pos between,
        List.dropWhile_cons_of_neg (by rw [not_gap_of_important isWord]; exact Bool.false_ne_true)]
    rcases eq_singleton_of_isSingle isWord with ⟨token, rfl, important⟩
    have isBang : bang.kind = .delimiter ∧ bang.text = ['!'] := by
      simpa [isSingle, isBang] using isMark
    have letters : token.kind = .identifier ∧
        sameLetters token.name "important".toList = true := by
      simpa [isImportant] using important
    refine ⟨token, ?_⟩
    rw [importantMark, if_pos isBang, skipGaps_flatten each, skipped, List.flatten_cons,
      List.singleton_append]
    exact if_pos letters

theorem importantMark_flatten_eq_none {bang : Token} {rest : List (List Token)}
    (noMark : ¬∃ after, Mark ([bang] :: rest) after) (each : ∀ part ∈ rest, Component part) :
    importantMark bang rest.flatten = none := by
  unfold importantMark
  split
  · rename_i isBang
    rw [skipGaps_flatten each]
    have parts := List.takeWhile_append_dropWhile (p := isSingle Token.isGap) (l := rest)
    -- The first component that is no gap is a token by itself or a bracket, and no bracket is a word.
    cases skipped : rest.dropWhile (isSingle Token.isGap) with
    | nil => rfl
    | cons word after =>
      rw [skipped] at parts
      have component := each word (parts ▸ by simp)
      cases component with
      | @single token neutral =>
        apply if_neg
        intro important
        apply noMark
        refine ⟨after, parts ▸ .intro ?_ (fun gap met => List.mem_takeWhile_imp met) ?_⟩
        · simpa [isSingle, Css.isBang] using isBang
        · simpa [isSingle, isImportant] using important
      | block opens _ _ =>
        apply if_neg
        rintro ⟨kind, -⟩
        rw [Token.opens, kind] at opens
        contradiction
  · rfl

/-- Before a component where no mark begins, the search goes on. -/
theorem splitImportant_component {part : List Token} {rest : List (List Token)}
    (each : ∀ other ∈ part :: rest, Component other) (noMark : ¬∃ after, Mark (part :: rest) after) :
    splitImportant [] (part :: rest).flatten =
      (part ++ (splitImportant [] rest.flatten).1, (splitImportant [] rest.flatten).2) := by
  rcases List.forall_mem_cons.mp each with ⟨component, others⟩
  by_cases bang : isSingle isBang part = true
  · rcases eq_singleton_of_isSingle bang with ⟨token, rfl, isBang⟩
    have none : (if ([] : List Bracket).isEmpty = true then importantMark token rest.flatten
        else none) = none := importantMark_flatten_eq_none noMark others
    rw [List.flatten_cons, List.singleton_append, splitImportant, none,
      nest_eq_nil_of_neutral (opens_of_isBang isBang)]
    rfl
  · have uncut := component.uncut (fun _ => opens_of_isBang) (Bool.eq_false_iff.mpr bang)
    rw [List.flatten_cons, splitImportant_append uncut, component.balanced]

theorem Unmarked.splitImportant_flatten (unmarked : Unmarked parts)
    (each : ∀ part ∈ parts, Component part) :
    splitImportant [] parts.flatten = (parts.flatten, none) := by
  induction unmarked with
  | nil => rfl
  | cons noMark _ ih =>
    rw [splitImportant_component each noMark, ih (List.forall_mem_cons.mp each).2]
    rfl

theorem FirstMark.splitImportant_flatten (first : FirstMark parts before after)
    (each : ∀ part ∈ parts, Component part) :
    ∃ word, splitImportant [] parts.flatten = (before.flatten, some (word, after.flatten)) := by
  induction first with
  | @here parts after mark =>
    have whole := mark
    cases mark with
    | @intro bang word gaps _ isMark between isWord =>
      rcases eq_singleton_of_isSingle isMark with ⟨token, rfl, isBang⟩
      rcases whole.importantMark_flatten (List.forall_mem_cons.mp each).2 with ⟨found, marked⟩
      have here : (if ([] : List Bracket).isEmpty = true then
          importantMark token (gaps ++ word :: after).flatten else none) =
          some (found, after.flatten) := marked
      refine ⟨found, ?_⟩
      rw [List.flatten_cons, List.singleton_append, splitImportant, here]
      rfl
  | later noMark _ ih =>
    rcases ih (List.forall_mem_cons.mp each).2 with ⟨word, split⟩
    refine ⟨word, ?_⟩
    rw [splitImportant_component each noMark, split]
    rfl

theorem clean_withoutEndGaps (each : ∀ part ∈ parts, Component part) :
    clean (source (withoutEndGaps parts.flatten)) = spelledValue parts := by
  rw [withoutEndGaps_flatten each, spelledValue]

theorem skipGaps_flatten_eq_nil_iff (each : ∀ part ∈ parts, Component part) :
    skipGaps parts.flatten = [] ↔ ∀ part ∈ parts, isSingle Token.isGap part = true := by
  constructor
  · intro nothing part met
    by_contra noGap
    rw [Bool.not_eq_true] at noGap
    rcases ((each part met).ends_of_not_gap noGap).1 with ⟨first, rest, rfl, seen⟩
    have gap := List.dropWhile_eq_nil_iff.mp nothing first
      (List.mem_flatten.mpr ⟨_, met, List.mem_cons_self⟩)
    rw [seen] at gap
    contradiction
  · intro gaps
    rw [skipGaps_flatten each, List.dropWhile_eq_nil_iff.mpr gaps, List.flatten_nil]

theorem Unmarked.valueIn_eq {value : Text} (unmarked : Unmarked parts)
    (each : ∀ part ∈ parts, Component part) (whole : parts.flatten = tokenize 0 value) :
    valueIn value =
      if spelledValue parts = [] then none else some (spelledValue parts, false) := by
  rw [Css.valueIn_eq, ← whole, unmarked.splitImportant_flatten each]
  simp [clean_withoutEndGaps each]

theorem FirstMark.valueIn_eq {value : Text} (first : FirstMark parts before after)
    (each : ∀ part ∈ parts, Component part) (whole : parts.flatten = tokenize 0 value) :
    valueIn value =
      if spelledValue before = [] ∨ skipGaps after.flatten ≠ [] then none
      else some (spelledValue before, true) := by
  have eachBefore : ∀ part ∈ before, Component part := fun part met =>
    each part (first.before_prefix.subset met)
  rcases first.splitImportant_flatten each with ⟨word, split⟩
  rw [Css.valueIn_eq, ← whole, split]
  simp [clean_withoutEndGaps eachBefore]

/-- The reader finds what the grammar says. -/
theorem Grammar.valueIn_eq {value : Text} {result : Option (Text × Bool)}
    (grammar : Grammar parts result) (each : ∀ part ∈ parts, Component part)
    (whole : parts.flatten = tokenize 0 value) : valueIn value = result := by
  have behind {before after : List (List Token)} (first : FirstMark parts before after) :
      ∀ part ∈ after, Component part := fun part met =>
    each part (first.after_suffix.subset met)
  cases grammar with
  | plain unmarked filled => rw [unmarked.valueIn_eq each whole, if_neg filled]
  | marked first nothing filled =>
    rw [first.valueIn_eq each whole, if_neg]
    rw [not_or, not_ne_iff, skipGaps_flatten_eq_nil_iff (behind first)]
    exact ⟨filled, nothing⟩
  | further first among something =>
    rw [first.valueIn_eq each whole, if_pos]
    right
    rw [ne_eq, skipGaps_flatten_eq_nil_iff (behind first)]
    intro gaps
    rw [gaps _ among] at something
    contradiction
  | emptyPlain unmarked empty => rw [unmarked.valueIn_eq each whole, if_pos empty]
  | emptyMarked first empty => rw [first.valueIn_eq each whole, if_pos (.inl empty)]

/-! ## Declarations -/

/-- The text is one identifier, wherever it stands before a stop. -/
structure IsIdentifier (name : Text) : Prop where
  detached : isDetached name = true
  alone : tokenize 0 name = [⟨.identifier, name, 0⟩]

theorem IsIdentifier.tokenize_append {name : Text} (identifier : IsIdentifier name) (line : Nat)
    {tail : Text} (stopped : Stopped tail) :
    tokenize line (name ++ tail) =
      ⟨.identifier, name, line⟩ :: tokenize (line + lineEnds name) tail := by
  rw [Css.tokenize_append identifier.detached line stopped, lineAfter_tokenize, tokenize_eq_down,
    identifier.alone]
  rfl

theorem IsIdentifier.whole {name : Text} (identifier : IsIdentifier name) {test : Token → Bool}
    (passes : test ⟨.identifier, name, 0⟩ = false) : Whole test name := by
  refine ⟨identifier.detached, ?_, ?_⟩
  · rw [identifier.alone]
    rfl
  · rw [identifier.alone, cutAt, passes]
    rfl

/-- What a name with a colon and a value declares is what the value means. -/
theorem declarationsOf_read {name colon : Token} {line : Nat} {value : Text} {text : Text}
    (identifier : name.kind = .identifier) (isColon : colon = ⟨.colon, [':'], line⟩) (start : Nat) :
    (declarationsOf [BodyItem.read name (colon :: tokenize start value) text]).map
        SourceDeclaration.declaration =
      (valueIn value).toList.map fun read =>
        ⟨propertyName name.name, read.1, read.2, name.line⟩ := by
  rw [BodyItem.read, if_pos identifier, isColon]
  cases reads : SourceDeclaration.read name (⟨.colon, [':'], line⟩ :: tokenize start value) with
  | ok found =>
    rw [valueIn_of_read rfl reads, ← name_of_read reads]
    rfl
  | error stop =>
    cases means : valueIn value with
    | none => rfl
    | some meant =>
      rcases read_of_valueIn means name line start with ⟨found, fine, -⟩
      rw [fine] at reads
      contradiction

theorem rules_declaration {name value : Text} (identifier : IsIdentifier name)
    (whole : Whole endsDeclaration value) :
    (Stylesheet.parse (ruleAround (name ++ ':' :: value))).rules =
      [⟨[".s".toList], (valueIn value).toList.map fun read =>
        ⟨propertyName (resolve name), read.1, read.2, 1⟩⟩] := by
  have inside : Whole endsDeclaration (name ++ ':' :: value) :=
    (identifier.whole rfl).append_cons whole endsDeclaration_down ⟨rfl, rfl, rfl, fun _ => rfl⟩
  have closed : Whole (Token.closes .curly) (name ++ ':' :: value) :=
    inside.of_imp fun token closes => by rw [endsDeclaration, closes, Bool.or_true]
  have uncut (line : Nat) : (cutAt endsItem [] (tokenize line value)).2 = [] :=
    (whole.of_imp endsDeclaration_of_endsItem).uncut_at endsItem_down line
  rcases cutBody_of_whole closed with ⟨closing, cut⟩
  rw [rules_ruleAround, cut, identifier.tokenize_append 1 (stopped_cons rfl _),
    tokenize_punctuation rfl, readBody_item rfl rfl (uncut _), declarationsOf_read rfl rfl]
  simp [readRules, Token.name]

/--
A name with a colon and a value declares exactly what the grammar of values says, which gives
every value one meaning.
-/
theorem rules_declaration_iff_grammar {name value : Text} (identifier : IsIdentifier name)
    (whole : Whole endsDeclaration value) :
    (∃ result, Grammar (components (tokenize 0 value)) result) ∧
      ∀ result, Grammar (components (tokenize 0 value)) result ↔
        (Stylesheet.parse (ruleAround (name ++ ':' :: value))).rules =
          [⟨[".s".toList], result.toList.map fun read =>
            ⟨propertyName (resolve name), read.1, read.2, 1⟩⟩] := by
  have means {result : Option (Text × Bool)} (grammar : Grammar (components (tokenize 0 value)) result) :
      valueIn value = result :=
    grammar.valueIn_eq (component_of_balanced whole.balanced) (flatten_components _)
  refine ⟨Grammar.total _, fun result => ?_⟩
  rw [rules_declaration identifier whole]
  constructor
  · intro grammar
    rw [means grammar]
  · intro same
    rcases Grammar.total (components (tokenize 0 value)) with ⟨other, grammar⟩
    rw [means grammar] at same
    have equal : other = result := by
      cases other <;> cases result <;> simp_all [Prod.ext_iff]
    rwa [← equal]

/-- A mark inside a function belongs to the value; the one at the end has a comment in it. -/
theorem rules_declaration_iff_grammar_marked :
    IsIdentifier "Color".toList ∧
      Whole endsDeclaration " f( !important) ! /**/ IMPORTANT ".toList ∧
      Grammar (components (tokenize 0 " f( !important) ! /**/ IMPORTANT ".toList))
        (some ("f( !important)".toList, true)) := by
  have identifier : IsIdentifier "Color".toList := ⟨by decide +kernel, by decide +kernel⟩
  have whole : Whole endsDeclaration " f( !important) ! /**/ IMPORTANT ".toList :=
    ⟨by decide +kernel, by decide +kernel, by decide +kernel⟩
  refine ⟨identifier, whole, ?_⟩
  apply ((rules_declaration_iff_grammar identifier whole).2 _).mpr
  decide +kernel

end Swatch.Css
