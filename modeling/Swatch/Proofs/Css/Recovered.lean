import Swatch.Proofs.Css.Lossless

/-!
# Parts recovered from a text

A printed text puts its parts together with marks that hold ink: colons, commas
and curly brackets. When reading it gives the parts back without losing ink, the
same marks separate the tokens, since the same ink stands before them on both
sides. So every part is whole where it stands, and means by itself what it means
there.
-/

namespace Swatch.Css

/-- The text of a value behind its colon: the value and white space, or a blank, the value and the mark. -/
inductive PrintedValue (value : Text) : Bool → Text → Prop
  | plain {text : Text} (seen : visible text = visible value) : PrintedValue value false text
  | marked : PrintedValue value true (' ' :: (value ++ " !important".toList))

/-- Is the character a semicolon or a closing curly bracket? -/
def isEnd (c : Char) : Bool :=
  c == ';' || c == '\x7d'

theorem end_cases {c : Char} (ends : isEnd c = true) : c = ';' ∨ c = '\x7d' := by
  simpa [isEnd] using ends

theorem isStop_of_end {c : Char} (ends : isEnd c = true) : isStop c = true := by
  rcases end_cases ends with rfl | rfl <;> decide

theorem isWhite_of_end {c : Char} (ends : isEnd c = true) : isWhite c = false := by
  rcases end_cases ends with rfl | rfl <;> decide

theorem isBlank_of_end {c : Char} (ends : isEnd c = true) : isBlank c = false := by
  rcases end_cases ends with rfl | rfl <;> decide

theorem countP_eq_of_visible_eq {left right : Text} (same : visible left = visible right) :
    left.countP (fun c => !isWhite c) = right.countP (fun c => !isWhite c) := by
  rw [List.countP_eq_length_filter, List.countP_eq_length_filter]
  exact congrArg List.length same

/-- Gaps without ink are blanks. -/
theorem isBlank_of_gaps {gaps : List Token} (spelled : ∀ token ∈ gaps, token.Spelled)
    (each : ∀ token ∈ gaps, token.isGap = true) (empty : ink (source gaps) = 0) :
    ∀ c ∈ source gaps, isBlank c = true := by
  intro c met
  rcases List.mem_flatMap.mp met with ⟨token, among, inside⟩
  have none : ink token.text = 0 := by
    have part : ink token.text ≤ ink (source gaps) := by
      rcases List.append_of_mem among with ⟨front, back, rfl⟩
      simp only [source_append, source_cons, ink_append]
      omega
    omega
  have between : isBetweenRules token = true := by
    rw [isBetweenRules, each token among, Bool.true_or, Bool.true_or]
  have blank := (spelled token among).blank_of_between between none
  exact (spelled token among).blank blank c inside

theorem eq_nil_of_blank_append {gap further : Text} {c : Char} {rest : Text}
    (blanks : ∀ d ∈ gap, isBlank d = true) (same : gap ++ further = c :: rest)
    (notBlank : isBlank c = false) : gap = [] := by
  cases gap with
  | nil => rfl
  | cons d more =>
    rw [List.cons_append, List.cons.injEq] at same
    have blank := blanks d List.mem_cons_self
    rw [same.1, notBlank] at blank
    contradiction

/-- Without a mark, the same characters are seen in the tokens and in the printed text. -/
theorem source_eq_of_plain {text : Text} {tokens : List Token} {c : Char} {behind further : Text}
    (printed : visible text = visible (source tokens)) (ends : isEnd c = true)
    (next : ∀ d rest, further = d :: rest → isEnd d = true)
    (same : text ++ c :: behind = source tokens ++ further) :
    source tokens = text ∧ further = c :: behind := by
  have notWhite : (!isWhite c) = true := by rw [isWhite_of_end ends]; rfl
  cases further with
  | nil =>
    rw [List.append_nil] at same
    have counts := congrArg (List.countP fun c => !isWhite c) same
    rw [List.countP_append, countP_eq_of_visible_eq printed, List.countP_cons, if_pos notWhite] at counts
    omega
  | cons d rest =>
    have other : (!isWhite d) = true := by rw [isWhite_of_end (next d rest rfl)]; rfl
    rcases eq_of_countP_eq same notWhite other (countP_eq_of_visible_eq printed) with
      ⟨left, rfl, rfl⟩
    exact ⟨left.symm, rfl⟩

/-- The word of a mark that holds only its own ink is spelled plainly. -/
theorem word_eq_of_ink {word : Token} {behind further : Text} {c : Char}
    (kind : word.kind = .identifier)
    (letters : sameLetters word.name "important".toList = true) (held : ink word.text = 9)
    (same : "important".toList ++ c :: behind = word.text ++ further) :
    word.text = "important".toList ∧ further = c :: behind := by
  have name : word.name = resolve word.text := by
    rw [Token.name, if_neg (by rw [kind]; decide)]
  have size : (resolve word.text).length = 9 := by
    rw [sameLetters, beq_iff_eq, name] at letters
    have lengths := congrArg List.length letters
    rwa [lower, lower, List.length_map, List.length_map] at lengths
  have longer := resolve_length_le word.text
  rcases List.append_eq_append_iff.mp same with ⟨more, spelled, left⟩ | ⟨more, spelled, left⟩
  · have nothing : ink more = 0 := by
      rw [spelled, ink_append, show ink "important".toList = 9 from rfl] at held
      omega
    have noSlash : '\\' ∉ word.text := by
      rw [spelled, List.mem_append, not_or]
      refine ⟨by decide, fun met => ?_⟩
      have := ink_le_of_mem (c := '\\') rfl met
      omega
    have lengths := resolve_length_of_noSlash noSlash
    rw [size, spelled, List.length_append, show "important".toList.length = 9 from rfl] at lengths
    have none : more = [] := List.eq_nil_of_length_eq_zero (by omega)
    rw [none, List.append_nil] at spelled
    rw [none, List.nil_append] at left
    exact ⟨spelled, left.symm⟩
  · have lengths := congrArg List.length spelled
    rw [List.length_append, show "important".toList.length = 9 from rfl] at lengths
    have none : more = [] := List.eq_nil_of_length_eq_zero (by omega)
    rw [none, List.append_nil] at spelled
    rw [none, List.nil_append] at left
    exact ⟨spelled.symm, left⟩

/-- With a mark, the ink before it and inside it is that of the printed text. -/
theorem source_eq_of_marked {value : Text} {tokens : List Token} {c : Char}
    {behind further : Text} (spelled : ∀ token ∈ tokens, token.Spelled)
    (spells : SpellsValue tokens value true) (held : ink value + 10 = ink (source tokens))
    (ends : isEnd c = true)
    (same : ' ' :: (value ++ " !important".toList) ++ c :: behind = source tokens ++ further) :
    source tokens = ' ' :: (value ++ " !important".toList) ∧ further = c :: behind := by
  cases spells with
  | @marked front gaps after bang word parts fades bangText gapsBefore kind letters gapsAfter =>
    have front_le := fades.ink_le
    have named : ink word.name = 9 := ink_of_sameLetters letters
    rw [Token.name, if_neg (by rw [kind]; decide)] at named
    have word_le := ink_resolve_le word.text
    have total : ink (source tokens) = ink (source front) +
        (1 + (ink (source gaps) + (ink word.text + ink (source after)))) := by
      rw [parts, source_append, source_cons, source_append, source_cons, bangText]
      simp only [ink_append, show ink ['!'] = 1 from rfl]
    have inside {token : Token} (met : token ∈ gaps ∨ token ∈ after) : token.Spelled := by
      apply spelled
      rw [parts]
      rcases met with met | met <;> simp [met]
    have before := isBlank_of_gaps (fun token met => inside (.inl met)) gapsBefore (by omega)
    have behindWord := isBlank_of_gaps (fun token met => inside (.inr met)) gapsAfter (by omega)
    have spelling : source tokens =
        source front ++ '!' :: (source gaps ++ (word.text ++ source after)) := by
      rw [parts, source_append, source_cons, source_append, source_cons, bangText,
        List.singleton_append]
    have split : ' ' :: (value ++ [' ']) ++ '!' :: ("important".toList ++ c :: behind) =
        source front ++ '!' :: (source gaps ++ (word.text ++ (source after ++ further))) := by
      rw [spelling] at same
      simpa using same
    have counts : (' ' :: (value ++ [' '])).countP isInk = (source front).countP isInk := by
      change ink (' ' :: (value ++ [' '])) = ink (source front)
      rw [ink_cons, ink_append, show ink [' '] = 0 from rfl]
      omega
    rcases eq_of_countP_eq split rfl rfl counts with ⟨front_eq, -, rest_eq⟩
    have noGap : source gaps = [] :=
      eq_nil_of_blank_append before rest_eq.symm (show isBlank 'i' = false by decide)
    rw [noGap, List.nil_append] at rest_eq
    rcases word_eq_of_ink kind letters (by omega) rest_eq with ⟨word_eq, after_eq⟩
    have noTrail : source after = [] :=
      eq_nil_of_blank_append behindWord after_eq (isBlank_of_end ends)
    rw [noTrail, List.nil_append] at after_eq
    refine ⟨?_, after_eq⟩
    rw [spelling, ← front_eq, noGap, word_eq, noTrail]
    simp

/-- The tokens of a value that lost nothing spell the printed text. -/
theorem PrintedValue.source_eq {value text : Text} {important : Bool} {tokens : List Token}
    {c : Char} {behind further : Text} (printed : PrintedValue value important text)
    (spelled : ∀ token ∈ tokens, token.Spelled) (spells : SpellsValue tokens value important)
    (held : ink value + (if important then 10 else 0) = ink (source tokens))
    (ends : isEnd c = true) (next : ∀ d rest, further = d :: rest → isEnd d = true)
    (same : text ++ c :: behind = source tokens ++ further) :
    source tokens = text ∧ further = c :: behind := by
  cases printed with
  | plain seen =>
    cases spells with
    | plain fades => exact source_eq_of_plain (seen.trans (fades.visible_eq held)) ends next same
  | marked => exact source_eq_of_marked spelled spells held ends same

/-! ## Declarations -/

/-- Behind blanks that are one token, a name and a colon stand where they were printed. -/
theorem item_parts {lead name value blank skipped spelling between rest : Text}
    (same : lead ++ (name ++ ':' :: value) = blank ++ (skipped ++ (spelling ++ (between ++ ':' :: rest))))
    (blanks : ink lead = 0) (blank_ink : ink blank = 0) (skipped_ink : ink skipped = 0)
    (between_ink : ink between = 0) (name_ink : ink spelling = ink name)
    (covers : lead.length ≤ blank.length) (spells : name.length ≤ spelling.length) :
    blank = lead ∧ skipped = [] ∧ spelling = name ∧ between = [] ∧ rest = value := by
  have split : lead ++ name ++ ':' :: value =
      blank ++ skipped ++ spelling ++ between ++ ':' :: rest := by
    simpa using same
  have counts : (lead ++ name).countP isInk =
      (blank ++ skipped ++ spelling ++ between).countP isInk := by
    change ink (lead ++ name) = ink (blank ++ skipped ++ spelling ++ between)
    simp only [ink_append]
    omega
  rcases eq_of_countP_eq split rfl rfl counts with ⟨front, -, rfl⟩
  have lengths := congrArg List.length front
  simp only [List.length_append] at lengths
  have noSkipped : skipped = [] := List.eq_nil_of_length_eq_zero (by omega)
  have noBetween : between = [] := List.eq_nil_of_length_eq_zero (by omega)
  rw [noSkipped, noBetween, List.append_nil, List.append_nil] at front
  rcases List.append_inj front (by omega) with ⟨rfl, rfl⟩
  exact ⟨rfl, noSkipped, rfl, noBetween, rfl⟩

/-- A text is whole when its tokens are, in the place where a stop follows it. -/
theorem whole_of_tokens {test : Token → Bool} {text behind : Text} {c : Char} {line : Nat}
    {tokens back : List Token} (stop : isStop c = true)
    (blind : ∀ lines token, test (token.down lines) = test token)
    (cut : tokenize line (text ++ c :: behind) = tokens ++ back) (spelled : source tokens = text)
    (balanced : tokens.foldl nest [] = []) (uncut : (cutAt test [] tokens).2 = []) :
    Whole test text := by
  have same := (eq_tokenize_of_cut stop cut spelled).1
  rw [tokenize_eq_down] at same
  rw [same, foldl_nest_down] at balanced
  rw [same, cutAt_down blind, List.map_eq_nil_iff] at uncut
  exact ⟨isDetached_of_cut stop cut spelled, balanced, uncut⟩

/-- What a text means behind a colon is what it means behind any colon. -/
theorem valueIn_of_read {name colon : Token} {text : Text} {line : Nat}
    {found : SourceDeclaration} (isColon : colon.kind = .colon)
    (reads : SourceDeclaration.read name (colon :: tokenize line text) = .ok found) :
    valueIn text = some (found.text, found.important) := by
  have notGap : (colon :: tokenize line text).dropWhile Token.isGap = colon :: tokenize line text :=
    List.dropWhile_cons_of_neg (by simp [Token.isGap, isColon])
  have moved := SourceDeclaration.read_down line ⟨.identifier, [], 0⟩
    (⟨.colon, [':'], 0⟩ :: tokenize 0 text)
  rw [List.map_cons, ← tokenize_eq_down] at moved
  have again : SourceDeclaration.read (Token.down line ⟨.identifier, [], 0⟩)
      (Token.down line ⟨.colon, [':'], 0⟩ :: tokenize line text) =
      .ok { found with name := Token.down line ⟨.identifier, [], 0⟩ } :=
    read_of_same_value notGap rfl rfl reads
  rw [valueIn]
  cases alone : SourceDeclaration.read ⟨.identifier, [], 0⟩
      (⟨.colon, [':'], 0⟩ :: tokenize 0 text) with
  | error stop =>
    rw [alone, again] at moved
    contradiction
  | ok other =>
    rw [alone, again] at moved
    simp only [Except.ok.injEq] at moved
    have texts := SourceDeclaration.text_down line other
    rw [← moved] at texts
    have marks : SourceDeclaration.important _ = SourceDeclaration.important _ :=
      congrArg SourceDeclaration.important moved
    exact congrArg some (Prod.ext texts.symm marks.symm)

/-- Tokens that neither of two tests cuts are not cut by both together. -/
theorem uncut_of_or {first second both : Token → Bool}
    (either : ∀ token, both token = (first token || second token)) {stack : List Bracket}
    {tokens : List Token} (left : (cutAt first stack tokens).2 = [])
    (right : (cutAt second stack tokens).2 = []) : (cutAt both stack tokens).2 = [] := by
  induction tokens generalizing stack with
  | nil => rfl
  | cons token rest ih =>
    rcases uncut_cons_iff.mp left with ⟨one, leftLater⟩
    rcases uncut_cons_iff.mp right with ⟨other, rightLater⟩
    refine uncut_cons_iff.mpr ⟨?_, ih leftLater rightLater⟩
    rw [either, Bool.and_or_distrib_left, one, other, Bool.or_false]

/-- The contents of a block hold declarations and no other ink. -/
structure Holds (contents outer : List Token) (declared : List Declaration) : Prop where
  spelled : ∀ token ∈ contents ++ outer, token.Spelled
  block : Block contents outer
  read : declaredIn (readBody contents) = declared
  tight : weightOf declared = ink (source contents)

/-- Every bracket is closed before a semicolon that ends an item, and before the end of a block. -/
theorem balanced_of_end {tokens after outer : List Token}
    (cut : cutAt endsItem [] (tokens ++ after) = (tokens, after))
    (block : Block (tokens ++ after) outer) (further : after ++ outer ≠ []) :
    tokens.foldl nest [] = [] := by
  cases after with
  | nil =>
    rw [List.append_nil] at block
    rcases block.outer with none | ⟨closed, -⟩
    · exact absurd none further
    · exact closed
  | cons mark rest =>
    have balanced := (foldl_nest_of_cut (congrArg Prod.snd cut)).1
    rwa [show (cutAt endsItem [] (tokens ++ mark :: rest)).1 = tokens from congrArg Prod.fst cut]
      at balanced

/-- What follows the tokens of a declaration begins with a character that ends it. -/
theorem isEnd_of_after {tokens after outer : List Token} {d : Char} {rest : Text}
    (spelled : ∀ token ∈ after ++ outer, token.Spelled)
    (cut : cutAt endsItem [] (tokens ++ after) = (tokens, after))
    (block : Block (tokens ++ after) outer) (begins : source (after ++ outer) = d :: rest) :
    isEnd d = true := by
  cases after with
  | nil =>
    rcases block.outer with none | ⟨-, closing, later, rfl, closes⟩
    · rw [none] at begins
      contradiction
    · rw [List.nil_append, source_cons, (spelled closing (by simp)).closing closes,
        List.singleton_append, List.cons.injEq] at begins
      rw [← begins.1]
      rfl
  | cons mark more =>
    have stops := (foldl_nest_of_cut (congrArg Prod.snd cut)).2
    rw [endsItem, beq_iff_eq] at stops
    rw [List.cons_append, source_cons, (spelled mark (by simp)).semicolon stops,
      List.singleton_append, List.cons.injEq] at begins
    rw [← begins.1]
    rfl

/-- Contents that hold declarations begin with all the blanks that stand before them. -/
theorem Holds.blanks {lead text : Text} {line : Nat} {contents outer : List Token}
    {declared : Declaration} {others : List Declaration} (some : lead ≠ [])
    (blanks : ∀ d ∈ lead, isBlank d = true)
    (tokens : tokenize line (lead ++ text) = contents ++ outer)
    (holds : Holds contents outer (declared :: others)) :
    ∃ blank inner, contents = blank :: inner ∧ blank.kind = .blank ∧
      lead.length ≤ blank.text.length ∧ ink blank.text = 0 ∧ Declares inner declared others := by
  cases contents with
  | nil =>
    have read := holds.read
    rw [readBody] at read
    contradiction
  | cons blank inner =>
    cases lead with
    | nil => contradiction
    | cons d more =>
      rw [List.cons_append, tokenize_blank (blanks d List.mem_cons_self), List.cons_append,
        List.cons.injEq] at tokens
      have kind : blank.kind = .blank := by rw [← tokens.1]
      have inside : ∀ token ∈ blank :: inner, token.Spelled := fun token met =>
        holds.spelled token (List.mem_append_left _ met)
      have empty : ink blank.text = 0 :=
        ink_of_blank ((inside blank List.mem_cons_self).blank kind)
      have idle : (blank.isGap || endsItem blank) = true := by
        rw [Token.isGap, kind]
        rfl
      have read := holds.read
      have tight := holds.tight
      rw [readBody, if_pos idle] at read
      rw [source_cons, ink_append, empty, Nat.zero_add] at tight
      refine ⟨blank, inner, rfl, kind, ?_, empty,
        declares_of_tight (fun token met => inside token (List.mem_cons_of_mem _ met)) read tight⟩
      rw [← tokens.1, List.takeWhile_append_of_pos fun c met => blanks c (List.mem_cons_of_mem _ met)]
      simp

section Located

variable {lead name value text behind : Text} {important : Bool} {c : Char} {line : Nat}
  {blank word colon : Token} {spelling after outer : List Token} {others : List Declaration}

/--
A printed declaration in the tokens of a block, where it was printed: the blanks are one token,
the name and the colon follow, and the value reaches to what ends the item.
-/
structure Located (lead name value : Text) (important : Bool) (others : List Declaration)
    (blank word colon : Token) (spelling after : List Token) : Prop where
  blank_text : blank.text = lead
  word_text : word.text = name
  word_kind : word.kind = .identifier
  property : propertyName word.name = name
  colon_text : colon.text = [':']
  colon_kind : colon.kind = .colon
  cut : cutAt endsItem [] (colon :: spelling ++ after) = (colon :: spelling, after)
  reads : ∃ found, SourceDeclaration.read word (colon :: spelling) = .ok found ∧
    found.text = value ∧ found.important = important
  spells : SpellsValue spelling value important
  value_ink : ink value + (if important then 10 else 0) = ink (source spelling)
  later : declaredIn (readBody (after.drop 1)) = others
  tight : weightOf others = ink (source (after.drop 1))

/-- The first declaration of a body stands behind the blanks where it was printed. -/
theorem Declares.located {inner : List Token} (blanks : ∀ d ∈ lead, isBlank d = true)
    (covers : lead.length ≤ blank.text.length) (empty : ink blank.text = 0)
    (tokens : tokenize line (lead ++ (name ++ ':' :: text)) = blank :: (inner ++ outer))
    (declares : Declares inner ⟨name, value, important, 0⟩ others) :
    ∃ word colon spelling after, inner = word :: (colon :: spelling ++ after) ∧
      Located lead name value important others blank word colon spelling after := by
  cases declares with
  | @mk skipped between spelling after word colon found parts skippedInk betweenInk wordKind
      colonKind cut reads same spells wordInk valueInk read tight =>
    have spelled : ∀ token ∈ blank :: (inner ++ outer), token.Spelled := fun token met =>
      spelled_of_mem_tokenize (tokens ▸ met)
    subst parts
    have colonText := (spelled colon (by simp)).colon colonKind
    have source_eq := source_tokenize line (lead ++ (name ++ ':' :: text))
    rw [tokens] at source_eq
    simp only [source_append, source_cons, colonText, List.append_assoc, List.cons_append,
      List.nil_append] at source_eq
    have property : propertyName word.name = name := by
      rw [← name_of_read reads]
      exact congrArg Declaration.property same
    have size : name.length ≤ word.text.length := by
      rw [← property, propertyName_length, Token.name, if_neg (by rw [wordKind]; decide)]
      exact resolve_length_le word.text
    rcases item_parts source_eq.symm (ink_of_blank blanks) empty skippedInk betweenInk wordInk
      covers size with ⟨blankText, noSkipped, wordText, noBetween, -⟩
    obtain rfl := eq_nil_of_source_eq_nil (fun token met => spelled token (by simp [met])) noSkipped
    obtain rfl := eq_nil_of_source_eq_nil (fun token met => spelled token (by simp [met])) noBetween
    exact ⟨word, colon, spelling, after, rfl, {
      blank_text := blankText
      word_text := wordText
      word_kind := wordKind
      property := property
      colon_text := colonText
      colon_kind := colonKind
      cut := cut
      reads := ⟨found, reads, congrArg Declaration.value same, congrArg Declaration.important same⟩
      spells := spells
      value_ink := valueInk
      later := read
      tight := tight }⟩

namespace Located

theorem neutral_colon
    (located : Located lead name value important others blank word colon spelling after) :
    colon.opens = none := by
  simp [Token.opens, located.colon_kind]

/-- The tokens of the value spell the printed text, up to the character that ends it. -/
theorem source_eq
    (located : Located lead name value important others blank word colon spelling after)
    (printed : PrintedValue value important text) (ends : isEnd c = true)
    (block : Block (colon :: spelling ++ after) outer)
    (tokens : tokenize line (text ++ c :: behind) = spelling ++ (after ++ outer)) :
    source spelling = text := by
  have spelled : ∀ token ∈ spelling ++ (after ++ outer), token.Spelled := fun token met =>
    spelled_of_mem_tokenize (tokens ▸ met)
  rcases List.forall_mem_append.mp spelled with ⟨inside, further⟩
  have same := source_tokenize line (text ++ c :: behind)
  rw [tokens, source_append] at same
  exact (printed.source_eq inside located.spells located.value_ink ends
    (fun _ _ begins => isEnd_of_after further located.cut block begins) same.symm).1

/-- Every bracket of the value is closed before what ends it. -/
theorem balanced
    (located : Located lead name value important others blank word colon spelling after)
    (block : Block (colon :: spelling ++ after) outer) (further : after ++ outer ≠ []) :
    spelling.foldl nest [] = [] := by
  rw [← foldl_nest_cons_of_neutral located.neutral_colon]
  exact balanced_of_end located.cut block further

/-- The printed value is whole by itself. -/
theorem whole
    (located : Located lead name value important others blank word colon spelling after)
    (ends : isEnd c = true) (block : Block (colon :: spelling ++ after) outer)
    (tokens : tokenize line (text ++ c :: behind) = spelling ++ (after ++ outer))
    (spelled : source spelling = text) (balanced : spelling.foldl nest [] = []) :
    Whole endsDeclaration text := by
  have items : (cutAt endsItem [] (colon :: spelling)).2 = [] := by
    have uncut := cutAt_fst_uncut endsItem [] (colon :: spelling ++ after)
    rwa [located.cut] at uncut
  have either : (cutAt endsDeclaration [] (colon :: spelling)).2 = [] :=
    uncut_of_or (fun _ => rfl) items (uncut_of_append block.uncut).1
  exact whole_of_tokens (isStop_of_end ends) endsDeclaration_down tokens spelled balanced
    (uncut_of_neutral_cons located.neutral_colon either)

/-- The printed value means by itself what it means where it stands. -/
theorem valueIn_eq
    (located : Located lead name value important others blank word colon spelling after)
    (alone : spelling = tokenize line text) : valueIn text = some (value, important) := by
  rcases located.reads with ⟨found, reads, rfl, rfl⟩
  rw [alone] at reads
  exact valueIn_of_read located.colon_kind reads

/-- Behind the value stands the end of the block, or a semicolon and the other declarations. -/
theorem rest
    (located : Located lead name value important others blank word colon spelling after)
    (spelled : ∀ token ∈ after ++ outer, token.Spelled)
    (block : Block (colon :: spelling ++ after) outer) (balanced : spelling.foldl nest [] = []) :
    after = [] ∧ others = [] ∨
      ∃ mark rest, after = mark :: rest ∧ mark.kind = .semicolon ∧ Holds rest outer others := by
  cases after with
  | nil =>
    have read := located.later
    rw [List.drop_nil, readBody] at read
    exact .inl ⟨rfl, read.symm⟩
  | cons mark after =>
    have stops := (foldl_nest_of_cut (congrArg Prod.snd located.cut)).2
    have markKind : mark.kind = .semicolon := by simpa [endsItem] using stops
    have closed : (colon :: spelling ++ [mark]).foldl nest [] = [] := by
      rw [List.cons_append, foldl_nest_cons_of_neutral located.neutral_colon, List.foldl_append,
        balanced]
      exact nest_eq_nil_of_neutral (opens_of_endsItem stops)
    rw [List.append_cons] at block
    exact .inr ⟨mark, after, rfl, markKind, (List.forall_mem_cons.mp spelled).2, block.drop closed,
      located.later, located.tight⟩

end Located

end Located

/-- A printed declaration that comes back from the contents of a block is printable. -/
theorem Holds.declaration {lead name value text behind : Text} {important : Bool} {c : Char}
    {line : Nat} {contents outer : List Token} {others : List Declaration} (some : lead ≠ [])
    (blanks : ∀ d ∈ lead, isBlank d = true) (printed : PrintedValue value important text)
    (ends : isEnd c = true)
    (tokens : tokenize line (itemText lead name text ++ c :: behind) = contents ++ outer)
    (holds : Holds contents outer (⟨name, value, important, 0⟩ :: others)) :
    (isOwnName name = true ∧ Whole endsDeclaration text ∧
        valueIn text = .some (value, important)) ∧
      ∃ later after, tokenize later (c :: behind) = after ++ outer ∧
        (after = [] ∧ others = [] ∨
          ∃ mark rest, after = mark :: rest ∧ mark.kind = .semicolon ∧
            Holds rest outer others) := by
  have layout : itemText lead name text ++ c :: behind =
      lead ++ (name ++ ':' :: (text ++ c :: behind)) := by
    simp [itemText]
  rw [layout] at tokens
  rcases holds.blanks some blanks tokens with ⟨blank, inner, rfl, kind, covers, empty, declares⟩
  rw [List.cons_append] at tokens
  rcases declares.located blanks covers empty tokens with
    ⟨word, colon, spelling, after, rfl, located⟩
  have block : Block (colon :: spelling ++ after) outer :=
    Block.drop (show Block ([blank, word] ++ (colon :: spelling ++ after)) outer from holds.block)
      (by simp [nest, Token.opens, kind, located.word_kind])
  rcases tokenize_after_source (show tokenize _ _ = [blank] ++ _ from tokens)
    (by simp [located.blank_text]) with ⟨ofName, nameTokens⟩
  rcases tokenize_after_source (show tokenize _ ((name ++ [':']) ++ _) = [word, colon] ++ _ by
    simpa using nameTokens) (by simp [located.word_text, located.colon_text]) with
    ⟨ofValue, valueTokens⟩
  have spelled := located.source_eq printed ends block valueTokens
  rcases eq_tokenize_of_cut (isStop_of_end ends) valueTokens spelled with ⟨alone, behind_eq⟩
  have balanced := located.balanced block
    (by rw [behind_eq, tokenize_cons]; exact List.cons_ne_nil _ _)
  have own : isOwnName name = true :=
    isOwnName_of_token (show isStop ':' = true by decide) nameTokens located.word_text
      located.word_kind located.property
  refine ⟨⟨own, located.whole ends block valueTokens spelled balanced, located.valueIn_eq alone⟩,
    _, after, behind_eq.symm, located.rest ?_ block balanced⟩
  intro token met
  exact spelled_of_mem_tokenize (valueTokens ▸ List.mem_append_right _ met)

/-- A closing bracket that follows the contents of a block is not one of them. -/
theorem Block.eq_nil {contents outer : List Token} {behind : Text} {line : Nat}
    (block : Block contents outer)
    (tokens : tokenize line ('\x7d' :: behind) = contents ++ outer) : contents = [] := by
  cases contents with
  | nil => rfl
  | cons token rest =>
    rw [tokenize_punctuation (by rfl), List.cons_append, List.cons.injEq] at tokens
    have uncut := block.uncut
    rw [← tokens.1, cutAt_cons_of_stop (by rfl)] at uncut
    contradiction

/-- Blanks before the bracket are the last thing in a block. -/
theorem Block.close {lead behind : Text} {line : Nat} {contents outer : List Token}
    (blanks : ∀ c ∈ lead, isBlank c = true) (block : Block contents outer)
    (tokens : tokenize line (lead ++ '\x7d' :: behind) = contents ++ outer) :
    ∃ later, outer = tokenize later ('\x7d' :: behind) := by
  cases lead with
  | nil =>
    rw [List.nil_append] at tokens
    rw [block.eq_nil tokens, List.nil_append] at tokens
    exact ⟨line, tokens.symm⟩
  | cons c more =>
    have left : (more ++ '\x7d' :: behind).dropWhile isBlank = '\x7d' :: behind := by
      rw [List.dropWhile_append_of_pos fun d met => blanks d (List.mem_cons_of_mem _ met)]
      exact List.dropWhile_cons_of_neg (by decide)
    rw [List.cons_append, tokenize_blank (blanks c List.mem_cons_self), left] at tokens
    cases contents with
    | nil =>
      rcases block.outer with none | ⟨-, closing, rest, same, kind⟩
      · rw [none] at tokens
        contradiction
      · rw [List.nil_append, same, List.cons.injEq] at tokens
        rw [← tokens.1] at kind
        contradiction
    | cons blank inner =>
      rw [List.cons_append, List.cons.injEq] at tokens
      rcases tokens with ⟨rfl, tokens⟩
      have inside : Block inner outer := Block.drop (show Block ([_] ++ inner) outer from block) (by rfl)
      rw [inside.eq_nil tokens, List.nil_append] at tokens
      exact ⟨_, tokens.symm⟩

/-! ## Selectors -/

theorem piecesAt_eq_cut (test : Token → Bool) (last : Nat) (stack : List Bracket)
    (tokens : List Token) :
    piecesAt test last stack tokens =
      match (cutAt test stack tokens).2 with
      | [] => [((cutAt test stack tokens).1, last)]
      | mark :: rest => ((cutAt test stack tokens).1, mark.line) :: piecesAt test last [] rest := by
  induction tokens generalizing stack with
  | nil => rfl
  | cons token rest ih =>
    by_cases stops : (stack.isEmpty && test token) = true
    · have empty : stack = [] := by
        rw [Bool.and_eq_true, List.isEmpty_iff] at stops
        exact stops.1
      rw [piecesAt, cutAt, if_pos stops, if_pos stops, empty]
    · rw [piecesAt, cutAt, if_neg stops, if_neg stops, ih]
      simp only
      split <;> rfl

/--
The selectors of a head: what all of it says, or what stands before its first comma says and
the selectors behind the comma.
-/
theorem cleanedPieces_cases (last : Nat) (head : List Token) :
    (cutAt isComma [] head).2 = [] ∧
        cleanedPieces (piecesAt isComma last [] head) = [clean (source head)] ∨
      ∃ front mark after, head = front ++ mark :: after ∧ (cutAt isComma [] front).2 = [] ∧
        front.foldl nest [] = [] ∧ mark.kind = .comma ∧
        cleanedPieces (piecesAt isComma last [] head) =
          clean (source front) :: cleanedPieces (piecesAt isComma last [] after) := by
  have parts := cutAt_append isComma [] head
  rw [piecesAt_eq_cut]
  cases cut : (cutAt isComma [] head).2 with
  | nil =>
    rw [cutAt_eq_of_uncut cut]
    exact .inl ⟨rfl, rfl⟩
  | cons mark after =>
    rcases foldl_nest_of_cut cut with ⟨closed, comma⟩
    rw [cut] at parts
    exact .inr ⟨_, mark, after, parts.symm, cutAt_fst_uncut isComma [] head, closed,
      by simpa [isComma] using comma, rfl⟩

/-- Tokens that hold the ink of the text before a mark spell that text. -/
theorem source_eq_of_ink {line : Nat} {text behind : Text} {c : Char} {mark : Token}
    {head back : List Token} (tokens : tokenize line (text ++ c :: behind) = head ++ mark :: back)
    (spelled : mark.text = [c]) (inked : isInk c = true) (held : ink (source head) = ink text) :
    source head = text := by
  have same := source_tokenize line (text ++ c :: behind)
  rw [tokens, source_append, source_cons, spelled, List.singleton_append] at same
  exact (eq_of_countP_eq same inked inked held).1

theorem endsSelector_down (lines : Nat) (token : Token) :
    endsSelector (token.down lines) = endsSelector token := rfl

/-- A piece whose tokens hold the ink of its selector spells the selector. -/
theorem spellsSelector_of_tokens {piece behind : Text} {c : Char} {line : Nat}
    {tokens back : List Token} (stop : isStop c = true)
    (cut : tokenize line (piece ++ c :: behind) = tokens ++ back) (spelled : source tokens = piece)
    (balanced : tokens.foldl nest [] = []) (commas : (cutAt isComma [] tokens).2 = [])
    (blocks : (cutAt Token.opensBlock [] tokens).2 = []) (filled : clean (source tokens) ≠ []) :
    SpellsSelector piece (clean (source tokens)) :=
  ⟨whole_of_tokens stop endsSelector_down cut spelled balanced (uncut_of_or (fun _ => rfl) commas blocks),
    by rw [spelled], filled⟩

theorem selectorWeight_cons (selector : Text) (rest : List Text) :
    selectorWeight (selector :: rest) = ink selector + 1 + selectorWeight rest := rfl

/-- Pieces that are read as selectors with all their ink spell these selectors. -/
theorem spellsSelectors_of_tokens {last : Nat} {pieces selectors : List Text}
    (same : List.Forall₂ (fun piece selector => ink piece = ink selector) pieces selectors)
    {line : Nat} {behind : Text} {head back : List Token} {opening : Token}
    (tokens : tokenize line (join [','] pieces ++ '\x7b' :: behind) = head ++ opening :: back)
    (kind : opening.kind = .opening .curly) (uncut : (cutAt Token.opensBlock [] head).2 = [])
    (balanced : head.foldl nest [] = [])
    (read : cleanedPieces (piecesAt isComma last [] head) = selectors)
    (filled : ∀ selector ∈ selectors, selector ≠ [])
    (held : selectorWeight selectors = ink (source head) + 1) :
    List.Forall₂ SpellsSelector pieces selectors ∧ source head = join [','] pieces := by
  induction same generalizing line head with
  | nil => exact absurd (List.map_eq_nil_iff.mp read) (piecesAt_ne_nil _ _ _ _)
  | @cons piece selector others rest here later ih =>
    have spelled : ∀ token ∈ head ++ opening :: back, token.Spelled := fun token met =>
      spelled_of_mem_tokenize (tokens ▸ met)
    have bracket := (spelled opening (by simp)).opening kind
    have some := filled selector List.mem_cons_self
    rw [selectorWeight_cons] at held
    rcases cleanedPieces_cases last head with
      ⟨commas, all⟩ | ⟨front, mark, after, rfl, commas, closed, comma, parts⟩
    · rw [all, List.cons.injEq] at read
      rcases read with ⟨rfl, rfl⟩
      cases later
      rw [show selectorWeight [] = 0 from rfl] at held
      rw [join_singleton] at tokens ⊢
      have spelling := source_eq_of_ink tokens bracket rfl (by omega)
      exact ⟨.cons (spellsSelector_of_tokens (by decide) tokens spelling balanced commas uncut some)
        .nil, spelling⟩
    · rw [parts, List.cons.injEq] at read
      rcases read with ⟨rfl, read⟩
      cases later with
      | nil => exact absurd (List.map_eq_nil_iff.mp read) (piecesAt_ne_nil _ _ _ _)
      | @cons next _ others _ nextSame otherSame =>
        have commaText := (spelled mark (by simp)).comma comma
        have flat : mark.opens = none := by simp [Token.opens, comma]
        have first_le := (fades_clean (source front)).ink_le
        have rest_le : _ ≤ ink (source after) + 1 :=
          selectorWeight_piecesAt_le last fun token met => spelled token (by simp [met])
        rw [read] at rest_le
        rw [ink_source_append, ink_source_cons, commaText, show ink [','] = 1 from rfl] at held
        rw [join_cons_cons] at tokens ⊢
        have again : tokenize line (piece ++ ',' :: (join [','] (next :: others) ++
            '\x7b' :: behind)) = front ++ mark :: (after ++ opening :: back) := by
          simpa using tokens
        obtain rfl := source_eq_of_ink again commaText rfl (by omega)
        rcases tokenize_after_source (show tokenize line ((source front ++ [',']) ++ _) =
          (front ++ [mark]) ++ _ by simpa using again) (by simp [commaText]) with
          ⟨_, nextTokens⟩
        rcases uncut_of_append uncut with ⟨blocks, further⟩
        rw [closed] at further
        rw [List.foldl_append, closed, foldl_nest_cons_of_neutral flat] at balanced
        rcases ih nextTokens (uncut_of_neutral_cons flat further) balanced read
          (fun selector met => filled selector (List.mem_cons_of_mem _ met)) (by omega) with
          ⟨spells, joined⟩
        refine ⟨.cons ?_ spells, ?_⟩
        · exact spellsSelector_of_tokens (by decide) again rfl closed commas blocks some
        · rw [source_append, source_cons, commaText, joined]

/-! ## Rules -/

/-- What follows the first piece of a rule: a comma or the bracket. -/
theorem join_append_eq (first : Text) (others : List Text) (behind : Text) :
    ∃ c rest, join [','] (first :: others) ++ '\x7b' :: behind = first ++ c :: rest ∧
      (c = ',' ∨ c = '\x7b') := by
  cases others with
  | nil => exact ⟨'\x7b', behind, by rw [join_singleton], .inr rfl⟩
  | cons next others =>
    exact ⟨',', join [','] (next :: others) ++ '\x7b' :: behind, by simp [join_cons_cons], .inl rfl⟩

theorem beginsRule_of_tokens {piece rest : Text} {c : Char} {first : Token} {more : List Token}
    (whole : Whole endsSelector piece) (filled : piece ≠ []) (mark : c = ',' ∨ c = '\x7b')
    (tokens : tokenize 0 (piece ++ c :: rest) = first :: more)
    (busy : isBetweenRules first = false) (noKeyword : first.kind ≠ .atKeyword)
    (noCustom : startsCustomProperty first more = false) : beginsRule piece = true := by
  have stop : isStop c = true := by rcases mark with rfl | rfl <;> decide
  rw [tokenize_append whole.detached 0 (stopped_cons stop rest)] at tokens
  cases alone : tokenize 0 piece with
  | nil =>
    have spelled := source_tokenize 0 piece
    rw [alone] at spelled
    exact absurd spelled.symm filled
  | cons token inner =>
    rw [alone, List.cons_append, List.cons.injEq] at tokens
    rcases tokens with ⟨rfl, rfl⟩
    have custom : startsCustomProperty token inner = false := by
      rcases mark with rfl | rfl
      · rwa [tokenize_punctuation (by rfl), startsCustomProperty_append _ _ (by rfl) (by simp)]
          at noCustom
      · rwa [tokenize_punctuation (by rfl), startsCustomProperty_append _ _ (by rfl) (by simp)]
          at noCustom
    rw [beginsRule, alone]
    simp only [busy, custom, Bool.not_false, Bool.and_true, Bool.true_and, bne_iff_ne]
    exact noKeyword

/-- A token before the rules has no ink, so it is a blank. -/
theorem isBetweenRules_of_tight {fresh : Bool} {first : Token} {rest : List Token}
    (spelled : ∀ token ∈ first :: rest, token.Spelled)
    (tight : rulesWeight (rulesIn (readRules fresh (first :: rest))) = ink (source (first :: rest)))
    (notBlank : first.text.head?.any isBlank = false) : isBetweenRules first = false := by
  rw [Bool.eq_false_iff]
  intro between
  rw [readRules, if_pos between, source_cons, ink_append] at tight
  have bound := weight_readRules_le fresh fun token met => spelled token (List.mem_cons_of_mem _ met)
  have here := spelled first List.mem_cons_self
  have kind := here.blank_of_between between (by omega)
  rcases here.begins with ⟨c, tail, same, -⟩
  have blank := here.blank kind c (by rw [same]; exact List.mem_cons_self)
  rw [same, List.head?_cons, Option.any_some, blank] at notBlank
  contradiction

/-- The first of the pieces that spell selectors begins a style rule, as all of them do. -/
theorem SpellsSelectors.of_tokens {pieces selectors : List Text} {behind : Text} {first : Token}
    {more : List Token} (some : pieces ≠ [])
    (each : List.Forall₂ SpellsSelector pieces selectors)
    (tokens : tokenize 0 (join [','] pieces ++ '\x7b' :: behind) = first :: more)
    (busy : isBetweenRules first = false) (noKeyword : first.kind ≠ .atKeyword)
    (noCustom : startsCustomProperty first more = false) : SpellsSelectors pieces selectors := by
  refine ⟨some, each, ?_⟩
  cases each with
  | nil => contradiction
  | @cons piece selector pieces _ here =>
    rcases join_append_eq piece pieces behind with ⟨c, rest, joined, mark⟩
    rw [joined] at tokens
    refine beginsRule_of_tokens here.whole ?_ mark tokens busy noKeyword noCustom
    rintro rfl
    apply here.filled
    rw [← here.cleaned, clean, skipGap, cleanAtoms]

/-- A text whose rules lose no ink begins with the first of them, unless it begins with a blank. -/
theorem opens_of_listedRules {fresh : Bool} {text : Text} {first : Token} {rest : List Token}
    {rule : Rule} {others : List Rule} (notBlank : text.head?.any isBlank = false)
    (tokens : tokenize 0 text = first :: rest) (read : listedRules fresh text = rule :: others)
    (tight : rulesWeight (rule :: others) = ink text) :
    isBetweenRules first = false ∧ first.kind ≠ .atKeyword ∧
      startsCustomProperty first rest = false ∧ Opens (first :: rest) rule others := by
  have spelled : ∀ token ∈ first :: rest, token.Spelled := fun token met =>
    spelled_of_mem_tokenize (tokens ▸ met)
  have same := source_tokenize 0 text
  rw [tokens] at same
  rw [listedRules, tokens] at read
  rw [← same] at tight notBlank
  have begins : first.text.head?.any isBlank = false := by
    rcases (spelled first List.mem_cons_self).begins with ⟨c, tail, spelling, -⟩
    rw [source_cons, spelling] at notBlank
    rw [spelling]
    exact notBlank
  have busy : isBetweenRules first = false :=
    isBetweenRules_of_tight spelled (by rw [read, tight]) begins
  exact ⟨busy, opens_of_tight spelled busy read tight⟩

/-- A printed rule that comes back without losing ink has its selectors and its block back. -/
theorem rule_of_tight {fresh : Bool} {pieces : List Text} {body behind : Text} {rule : Rule}
    {others : List Rule}
    (notBlank : (join [','] pieces ++ '\x7b' :: (body ++ '\x7d' :: behind)).head?.any isBlank = false)
    (read : listedRules fresh (join [','] pieces ++ '\x7b' :: (body ++ '\x7d' :: behind)) =
      rule :: others)
    (tight : rulesWeight (rule :: others) =
      ink (join [','] pieces ++ '\x7b' :: (body ++ '\x7d' :: behind)))
    (same : List.Forall₂ (fun piece selector => ink piece = ink selector) pieces rule.selectors) :
    SpellsSelectors pieces rule.selectors ∧
      ∃ line contents outer, tokenize line (body ++ '\x7d' :: behind) = contents ++ outer ∧
        Holds contents outer rule.declarations ∧
        ∀ later, outer = tokenize later ('\x7d' :: behind) →
          listedRules false behind = others ∧ rulesWeight others = ink behind := by
  cases tokens : tokenize 0 (join [','] pieces ++ '\x7b' :: (body ++ '\x7d' :: behind)) with
  | nil => exact absurd (congrArg source tokens) (by rw [source_tokenize]; simp)
  | cons first rest =>
    rcases opens_of_listedRules notBlank tokens read tight with ⟨busy, noKeyword, noCustom, opens⟩
    cases opens with
    | @mk head contents outer opening cut kind block selectors filled headInk bodyRead bodyInk later
        rest_tight =>
      have parts := cutAt_append Token.opensBlock [] (first :: rest)
      have uncut := cutAt_fst_uncut Token.opensBlock [] (first :: rest)
      have balanced := (foldl_nest_of_cut (congrArg Prod.snd cut)).1
      rw [cut] at parts uncut balanced
      have again := tokens
      rw [← parts] at again
      have spelled : ∀ token ∈ head ++ opening :: (contents ++ outer), token.Spelled :=
        fun token met => spelled_of_mem_tokenize (again ▸ met)
      rcases spellsSelectors_of_tokens same again kind uncut balanced selectors filled headInk with
        ⟨each, headText⟩
      have bracket := (spelled opening (by simp)).opening kind
      rcases tokenize_after_source (show tokenize 0 ((join [','] pieces ++ ['\x7b']) ++ _) =
        (head ++ [opening]) ++ _ by simpa using again) (by simp [headText, bracket]) with
        ⟨line, bodyTokens⟩
      have some : pieces ≠ [] := by
        rintro rfl
        rw [List.forall₂_nil_left_iff.mp each] at selectors
        exact piecesAt_ne_nil _ _ _ _ (List.map_eq_nil_iff.mp selectors)
      refine ⟨.of_tokens some each tokens busy noKeyword noCustom, line, contents, outer, bodyTokens,
        ⟨?_, block, bodyRead, bodyInk⟩, ?_⟩
      · intro token met
        exact spelled token (List.mem_append_right _ (List.mem_cons_of_mem _ met))
      · rintro later' rfl
        rw [tokenize_punctuation (by rfl), List.drop_one, List.tail_cons] at later rest_tight
        rw [rulesIn_readRules] at later
        rw [source_tokenize] at rest_tight
        exact ⟨later, rest_tight⟩

end Swatch.Css
