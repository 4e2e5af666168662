import Swatch.Proofs.Css.Concatenation

/-!
# Bodies that fall into parts

A semicolon on top of a body is a seam: what stands before it is read as if it were the
whole body, and so is what follows it. This does not depend on whether the parts are
declarations. So an item that cannot be read costs only itself, and all that is different
about it behind a seam is that the report of it may take in the semicolon.
-/

namespace Swatch.Css

/-- A style rule with the text as its body. -/
def ruleAround (body : Text) : Text :=
  ".s\x7b".toList ++ body ++ "\x7d".toList

/-- The tokens of the selector of that rule. -/
def selectorAround : List Token :=
  [⟨.delimiter, ['.'], 1⟩, ⟨.identifier, ['s'], 1⟩]

/-- The tokens of a body and its closing bracket, cut at the first bracket that closes the body. -/
def cutBody (line : Nat) (body : Text) : List Token × List Token :=
  cutAt (Token.closes .curly) [] (tokenize line (body ++ ['\x7d']))

/-- What is passed over among findings. -/
def noticesIn (findings : List Finding) : List Notice :=
  findings.filterMap fun
    | .kept _ => none
    | .passedOver notice => some notice

@[simp]
theorem noticesIn_append (front back : List Finding) :
    noticesIn (front ++ back) = noticesIn front ++ noticesIn back :=
  List.filterMap_append

@[simp]
theorem noticesIn_kept (found : SourceRule) (rest : List Finding) :
    noticesIn (.kept found :: rest) = noticesIn rest := rfl

theorem noticesIn_down (lines : Nat) (findings : List Finding) :
    noticesIn (findings.map (Finding.down lines)) =
      (noticesIn findings).map (Notice.down lines) := by
  rw [noticesIn, noticesIn, List.filterMap_map, List.map_filterMap]
  apply List.filterMap_congr
  intro finding _
  cases finding <;> rfl

/-! ## One rule -/

theorem tokenize_ruleAround (body : Text) :
    tokenize 1 (ruleAround body) =
      selectorAround ++ ⟨.opening .curly, ['\x7b'], 1⟩ :: tokenize 1 (body ++ ['\x7d']) := by
  have detached : isDetached ".s".toList = true := by decide +kernel
  have selector : tokenize 1 ".s".toList = selectorAround := by decide +kernel
  have parts : ruleAround body = ".s".toList ++ '\x7b' :: (body ++ ['\x7d']) := by
    simp [ruleAround]
  rw [parts, tokenize_append detached 1 (stopped_cons rfl _), selector, tokenize_punctuation rfl]
  rfl

/-- The rule is kept with the declarations of its body, whatever the body holds. -/
theorem findings_ruleAround (body : Text) :
    findings (ruleAround body) =
      (readBody (cutBody 1 body).1).filterMap BodyItem.finding? ++
        .kept ⟨[selectorAround], declarationsOf (readBody (cutBody 1 body).1)⟩ ::
          readRules false (cutBody 1 body).2.tail := by
  have noMark : (ruleAround body).head? ≠ some '\uFEFF' := by
    simp [ruleAround]
  have statement : Statement.read Token.opensBlock
      (selectorAround ++ ⟨.opening .curly, ['\x7b'], 1⟩ :: tokenize 1 (body ++ ['\x7d'])) =
      ⟨selectorAround, .block ⟨.opening .curly, ['\x7b'], 1⟩ (cutBody 1 body).1
        (cutBody 1 body).2.head?, (cutBody 1 body).2.tail⟩ := rfl
  have selectors : readSelectors 1 selectorAround = .ok [selectorAround] := by decide +kernel
  rw [findings, withoutMark_of_head noMark, tokenize_ruleAround]
  unfold selectorAround at statement ⊢
  rw [List.cons_append] at statement ⊢
  rw [readRules, if_neg (by decide), if_neg (by decide), qualifiedRule, statement,
    if_neg (by simp [startsCustomProperty])]
  simp only [styleRule]
  rw [← selectorAround, selectors]
  simp

theorem rules_ruleAround (body : Text) :
    (Stylesheet.parse (ruleAround body)).rules =
      ⟨[".s".toList],
          (declarationsOf (readBody (cutBody 1 body).1)).map SourceDeclaration.declaration⟩ ::
        (keptIn (readRules false (cutBody 1 body).2.tail)).map SourceRule.rule := by
  have selector : clean (source selectorAround) = ".s".toList := by decide +kernel
  have kept : sourceRules (ruleAround body) = keptIn (findings (ruleAround body)) := rfl
  rw [Stylesheet.parse, kept, findings_ruleAround, keptIn_append, keptIn_finding?,
    List.nil_append, keptIn_kept, List.map_cons, SourceRule.rule, List.map_singleton, selector]

theorem notices_ruleAround (body : Text) :
    notices (ruleAround body) =
      noticesIn ((readBody (cutBody 1 body).1).filterMap BodyItem.finding?) ++
        noticesIn (readRules false (cutBody 1 body).2.tail) := by
  have noted : notices (ruleAround body) = noticesIn (findings (ruleAround body)) := rfl
  rw [noted, findings_ruleAround, noticesIn_append, noticesIn_kept]

/-! ## Two parts -/

/-- A whole body is cut at the bracket that closes the rule. -/
theorem cutBody_of_whole {front : Text} (whole : Whole (Token.closes .curly) front) :
    ∃ closing, cutBody 1 front = (tokenize 1 front, [closing]) := by
  refine ⟨⟨.closing .curly, ['\x7d'], lineAfter 1 (tokenize 1 front)⟩, ?_⟩
  rw [cutBody, tokenize_append whole.detached 1 (stopped_cons rfl []), tokenize_punctuation rfl,
    tokenize_nil, whole.cutAt_tokens (Token.down_closes · .curly ·) 1 rfl]

/-- Behind a whole text and a semicolon, a body is cut where it is cut by itself. -/
theorem cutBody_append {front : Text} (whole : Whole (Token.closes .curly) front) (back : Text) :
    cutBody 1 (front ++ ';' :: back) =
      (tokenize 1 front ++ ⟨.semicolon, [';'], lineAfter 1 (tokenize 1 front)⟩ ::
          (cutBody 1 back).1.map (Token.down (lineEnds front)),
        (cutBody 1 back).2.map (Token.down (lineEnds front))) := by
  have after : lineAfter 1 (tokenize 1 front) + lineEnds [';'] = lineEnds front + 1 := by
    rw [lineAfter_tokenize, Nat.add_comm 1]
    rfl
  have semicolon (rest : List Token) :
      cutAt (Token.closes .curly) []
          (⟨.semicolon, [';'], lineAfter 1 (tokenize 1 front)⟩ :: rest) =
        (⟨.semicolon, [';'], lineAfter 1 (tokenize 1 front)⟩ ::
          (cutAt (Token.closes .curly) [] rest).1, (cutAt (Token.closes .curly) [] rest).2) := rfl
  rw [cutBody, List.append_assoc, List.cons_append,
    tokenize_append whole.detached 1 (stopped_cons rfl _), tokenize_punctuation rfl, after,
    tokenize_down, cutAt_uncut_append (whole.uncut_at (Token.down_closes · .curly ·) 1),
    whole.balanced_at, semicolon, cutAt_down (Token.down_closes · .curly ·), cutBody]

/-- The same notice, except that the text of a passed-over declaration may go on through the mark. -/
inductive Notice.Reported (mark : Text) : Notice → Notice → Prop
  | same (notice : Notice) : Reported mark notice notice
  | further (line : Nat) (text : Text) :
      Reported mark (.declaration line text) (.declaration line (text ++ mark))

theorem noticesIn_of_reported {mark : Text} {items others : List BodyItem}
    (same : List.Forall₂ (BodyItem.Reported mark) items others) :
    List.Forall₂ (Notice.Reported mark) (noticesIn (items.filterMap BodyItem.finding?))
      (noticesIn (others.filterMap BodyItem.finding?)) := by
  induction same with
  | nil => exact .nil
  | @cons item other _ _ here _ ih =>
    cases here with
    | same =>
      cases item with
      | declaration found => exact ih
      | skipped line text => exact .cons (.same _) ih
    | further line text => exact .cons (.further line text) ih

/-- The items of a whole text and of any text behind a semicolon are read one after the other. -/
theorem readBody_cutBody_append {front : Text} (whole : Whole (Token.closes .curly) front)
    (back : Text) :
    ∃ items, List.Forall₂ (BodyItem.Reported [';']) (readBody (cutBody 1 front).1) items ∧
      readBody (cutBody 1 (front ++ ';' :: back)).1 =
        items ++ (readBody (cutBody 1 back).1).map (BodyItem.down (lineEnds front)) := by
  rcases cutBody_of_whole whole with ⟨closing, alone⟩
  have ends : endsItem ⟨.semicolon, [';'], lineAfter 1 (tokenize 1 front)⟩ = true := rfl
  rcases readBody_append (whole.balanced_at 1) ends
    ((cutBody 1 back).1.map (Token.down (lineEnds front))) with ⟨items, same, read⟩
  refine ⟨items, ?_, ?_⟩
  · rwa [alone]
  · rw [cutBody_append whole, read, readBody_down]

theorem rules_ruleAround_append {front : Text} (whole : Whole (Token.closes .curly) front)
    {back : Text} {first second : List Declaration} {later : List Rule}
    (alone : (Stylesheet.parse (ruleAround front)).rules = [⟨[".s".toList], first⟩])
    (behind : (Stylesheet.parse (ruleAround back)).rules = ⟨[".s".toList], second⟩ :: later) :
    (Stylesheet.parse (ruleAround (front ++ ';' :: back))).rules =
      ⟨[".s".toList], first ++ second.map (Declaration.down (lineEnds front))⟩ ::
        later.map (Rule.down (lineEnds front)) := by
  rcases readBody_cutBody_append whole back with ⟨items, same, read⟩
  rw [rules_ruleAround] at alone behind
  have here := (Rule.mk.inj (List.cons.inj alone).1).2
  have next := (Rule.mk.inj (List.cons.inj behind).1).2
  have others := (List.cons.inj behind).2
  have both : declarationsOf (items ++ (readBody (cutBody 1 back).1).map
      (BodyItem.down (lineEnds front))) =
        declarationsOf (readBody (cutBody 1 front).1) ++
          (declarationsOf (readBody (cutBody 1 back).1)).map
            (SourceDeclaration.down (lineEnds front)) := by
    rw [declarationsOf_append, declarationsOf_of_reported same, declarationsOf_down]
  rw [rules_ruleAround, read, both, List.map_append, map_declaration_down, here, next,
    cutBody_append whole, ← List.map_tail, readRules_down, keptIn_down, map_rule_down, others]

theorem notices_ruleAround_append {front : Text} (whole : Whole (Token.closes .curly) front)
    (back : Text) :
    ∃ noted, List.Forall₂ (Notice.Reported [';']) (notices (ruleAround front)) noted ∧
      notices (ruleAround (front ++ ';' :: back)) =
        noted ++ (notices (ruleAround back)).map (Notice.down (lineEnds front)) := by
  rcases readBody_cutBody_append whole back with ⟨items, same, read⟩
  rcases cutBody_of_whole whole with ⟨closing, alone⟩
  have nothing : noticesIn (readRules false (cutBody 1 front).2.tail) = [] := by
    rw [alone, List.tail_cons, readRules]
    rfl
  refine ⟨noticesIn (items.filterMap BodyItem.finding?), ?_, ?_⟩
  · rw [notices_ruleAround, nothing, List.append_nil]
    exact noticesIn_of_reported same
  · rw [notices_ruleAround, read, List.filterMap_append, filterMap_finding?_down, noticesIn_append,
      noticesIn_down, cutBody_append whole, ← List.map_tail, readRules_down, noticesIn_down,
      notices_ruleAround back, List.map_append, List.append_assoc]

/--
The body of a rule falls into two parts at a semicolon behind a whole text: the first part means
what it means as the whole body, and so does the second one, whatever it is. As many items are
passed over as in the parts. So a whole item without a declaration changes nothing around it.
-/
theorem parse_ruleAround_append {front : Text} (whole : Whole (Token.closes .curly) front)
    (back : Text) :
    ∃ first second later noted,
      (Stylesheet.parse (ruleAround front)).rules = [⟨[".s".toList], first⟩] ∧
      (Stylesheet.parse (ruleAround back)).rules = ⟨[".s".toList], second⟩ :: later ∧
      (Stylesheet.parse (ruleAround (front ++ ';' :: back))).rules =
        ⟨[".s".toList], first ++ second.map (Declaration.down (lineEnds front))⟩ ::
          later.map (Rule.down (lineEnds front)) ∧
      List.Forall₂ (Notice.Reported [';']) (notices (ruleAround front)) noted ∧
      notices (ruleAround (front ++ ';' :: back)) =
        noted ++ (notices (ruleAround back)).map (Notice.down (lineEnds front)) ∧
      ∀ item, Whole (Token.closes .curly) item →
        (Stylesheet.parse (ruleAround item)).rules = [⟨[".s".toList], []⟩] →
        (Stylesheet.parse (ruleAround (front ++ ';' :: (item ++ ';' :: back)))).rules =
          ⟨[".s".toList],
              first ++ second.map (Declaration.down (lineEnds front + lineEnds item))⟩ ::
            later.map (Rule.down (lineEnds front + lineEnds item)) := by
  rcases cutBody_of_whole whole with ⟨closing, cut⟩
  have nothing : keptIn (readRules false (cutBody 1 front).2.tail) = [] := by
    rw [cut, List.tail_cons, readRules, keptIn_nil]
  have alone := rules_ruleAround front
  rw [nothing, List.map_nil] at alone
  have behind := rules_ruleAround back
  rcases notices_ruleAround_append whole back with ⟨noted, same, notes⟩
  refine ⟨_, _, _, noted, alone, behind, rules_ruleAround_append whole alone behind, same, notes, ?_⟩
  intro item wholeItem empty
  have middle := rules_ruleAround_append wholeItem empty behind
  rw [rules_ruleAround_append whole alone middle, List.nil_append]
  simp only [List.map_map, Function.comp_def, Declaration.down_down, Rule.down_down]

/-- An at-rule with a block stands between two declarations and takes neither of them along. -/
theorem parse_ruleAround_append_atRule :
    Whole (Token.closes .curly) "color: red".toList ∧
      Whole (Token.closes .curly) "@x \x7by\x7d".toList ∧
      (Stylesheet.parse (ruleAround "color: red;@x \x7by\x7d;top: 0".toList)).rules =
        [⟨[".s".toList], [⟨"color".toList, "red".toList, false, 1⟩,
          ⟨"top".toList, "0".toList, false, 1⟩]⟩] := by
  have whole : Whole (Token.closes .curly) "color: red".toList :=
    ⟨by decide +kernel, by decide +kernel, by decide +kernel⟩
  have wholeItem : Whole (Token.closes .curly) "@x \x7by\x7d".toList :=
    ⟨by decide +kernel, by decide +kernel, by decide +kernel⟩
  refine ⟨whole, wholeItem, ?_⟩
  rcases parse_ruleAround_append whole "top: 0".toList with
    ⟨first, second, later, noted, alone, behind, -, -, -, inserted⟩
  have first_eq : (Stylesheet.parse (ruleAround "color: red".toList)).rules =
      [⟨[".s".toList], [⟨"color".toList, "red".toList, false, 1⟩]⟩] := by decide +kernel
  have second_eq : (Stylesheet.parse (ruleAround "top: 0".toList)).rules =
      [⟨[".s".toList], [⟨"top".toList, "0".toList, false, 1⟩]⟩] := by decide +kernel
  rw [first_eq, List.cons.injEq, Rule.mk.injEq] at alone
  rw [second_eq, List.cons.injEq, Rule.mk.injEq] at behind
  have three := inserted "@x \x7by\x7d".toList wholeItem (by decide +kernel)
  rw [← alone.1.2, ← behind.1.2, ← behind.2] at three
  exact three

end Swatch.Css
