import Swatch.Css.Stylesheet
import Swatch.Proofs.Css.Boundary
import Swatch.Proofs.Css.Characters

/-!
# Whole texts

A text is whole for a test when it is detached, closes every bracket that it
opens, and has no token on top that satisfies the test. A cut at the test then
runs through the text and goes on behind it as if it began there, so whole texts
are the unit from which statements, lists of selectors and bodies are put
together.
-/

namespace Swatch.Css

/-! ## Cuts through a list of tokens -/

theorem uncut_cons_iff {test : Token → Bool} {stack : List Bracket} {token : Token}
    {rest : List Token} :
    (cutAt test stack (token :: rest)).2 = [] ↔
      (stack.isEmpty && test token) = false ∧ (cutAt test (nest stack token) rest).2 = [] := by
  rw [cutAt]
  cases stack.isEmpty && test token <;> simp

theorem cutAt_uncut_append {test : Token → Bool} {stack : List Bracket} {front : List Token}
    (uncut : (cutAt test stack front).2 = []) (back : List Token) :
    cutAt test stack (front ++ back) =
      (front ++ (cutAt test (front.foldl nest stack) back).1,
        (cutAt test (front.foldl nest stack) back).2) := by
  induction front generalizing stack with
  | nil => rfl
  | cons token front ih =>
    rcases uncut_cons_iff.mp uncut with ⟨goesOn, later⟩
    rw [List.cons_append, cutAt, goesOn, if_neg Bool.false_ne_true, ih later]
    rfl

theorem cutAt_cons_of_stop {test : Token → Bool} {token : Token} (stops : test token = true)
    (rest : List Token) : cutAt test [] (token :: rest) = ([], token :: rest) := by
  simp [cutAt, stops]

theorem cutAt_eq_of_uncut {test : Token → Bool} {stack : List Bracket} {tokens : List Token}
    (uncut : (cutAt test stack tokens).2 = []) : cutAt test stack tokens = (tokens, []) := by
  have parts := cutAt_append test stack tokens
  rw [uncut, List.append_nil] at parts
  exact Prod.ext parts uncut

/-- The first stop that stands outside all brackets is where the cut goes. -/
theorem cutAt_append_of_stop {test : Token → Bool} {stack : List Bracket} {front : List Token}
    (uncut : (cutAt test stack front).2 = []) (balanced : front.foldl nest stack = [])
    {mark : Token} (stops : test mark = true) (back : List Token) :
    cutAt test stack (front ++ mark :: back) = (front, mark :: back) := by
  rw [cutAt_uncut_append uncut, balanced, cutAt_cons_of_stop stops, List.append_nil]

theorem uncut_append {test : Token → Bool} {stack : List Bracket} {front back : List Token}
    (first : (cutAt test stack front).2 = [])
    (second : (cutAt test (front.foldl nest stack) back).2 = []) :
    (cutAt test stack (front ++ back)).2 = [] := by
  rw [cutAt_uncut_append first, second]

theorem uncut_of_imp {narrow wide : Token → Bool}
    (imp : ∀ token, narrow token = true → wide token = true) {stack : List Bracket}
    {tokens : List Token} (uncut : (cutAt wide stack tokens).2 = []) :
    (cutAt narrow stack tokens).2 = [] := by
  induction tokens generalizing stack with
  | nil => rfl
  | cons token rest ih =>
    rcases uncut_cons_iff.mp uncut with ⟨goesOn, later⟩
    refine uncut_cons_iff.mpr ⟨?_, ih later⟩
    rw [Bool.and_eq_false_imp] at goesOn ⊢
    intro onTop
    rw [Bool.eq_false_iff]
    exact fun stops => Bool.eq_false_iff.mp (goesOn onTop) (imp token stops)

/-- A cut that was made before the end of some tokens is made there whatever follows them. -/
theorem cutAt_append_of_cut {test : Token → Bool} {stack : List Bracket} {front after : List Token}
    {mark : Token} (cut : (cutAt test stack front).2 = mark :: after) (back : List Token) :
    cutAt test stack (front ++ back) = ((cutAt test stack front).1, mark :: after ++ back) := by
  induction front generalizing stack with
  | nil => simp [cutAt] at cut
  | cons token front ih =>
    by_cases stops : (stack.isEmpty && test token) = true
    · rw [cutAt, if_pos stops] at cut ⊢
      rw [List.cons_append, cutAt, if_pos stops, ← List.cons_append, ← cut]
    · rw [cutAt, if_neg stops] at cut ⊢
      rw [List.cons_append, cutAt, if_neg stops, ih cut]

/-- Every bracket is closed before a cut, and the cut is made at a token that satisfies the test. -/
theorem foldl_nest_of_cut {test : Token → Bool} {stack : List Bracket}
    {tokens after : List Token} {mark : Token} (cut : (cutAt test stack tokens).2 = mark :: after) :
    (cutAt test stack tokens).1.foldl nest stack = [] ∧ test mark = true := by
  induction tokens generalizing stack with
  | nil => simp [cutAt] at cut
  | cons token rest ih =>
    by_cases stops : (stack.isEmpty && test token) = true
    · rw [cutAt, if_pos stops] at cut ⊢
      rw [Bool.and_eq_true, List.isEmpty_iff] at stops
      obtain ⟨rfl, -⟩ := List.cons.inj cut
      exact ⟨stops.1, stops.2⟩
    · rw [cutAt, if_neg stops] at cut ⊢
      exact ih cut

/-- The brackets that are open at the end, seen from a cut. -/
theorem foldl_nest_after_cut {test : Token → Bool} {stack : List Bracket}
    {tokens after : List Token} {mark : Token} (cut : (cutAt test stack tokens).2 = mark :: after) :
    tokens.foldl nest stack = after.foldl nest (nest [] mark) := by
  have parts := cutAt_append test stack tokens
  rw [cut] at parts
  rw [← parts, List.foldl_append, (foldl_nest_of_cut cut).1, List.foldl_cons]

theorem nest_eq_nil_of_neutral {token : Token} (neutral : token.opens = none) :
    nest [] token = [] := by
  simp [nest, neutral]

theorem foldl_nest_cons_of_neutral {token : Token} (neutral : token.opens = none)
    (rest : List Token) : (token :: rest).foldl nest [] = rest.foldl nest [] := by
  rw [List.foldl_cons, nest_eq_nil_of_neutral neutral]

/-- Only the kind of a token matters for the open brackets. -/
theorem nest_of_kind {token other : Token} (same : token.kind = other.kind) (stack : List Bracket) :
    nest stack token = nest stack other := by
  have opens : token.opens = other.opens := by
    rw [Token.opens, Token.opens, same]
  have closes (bracket : Bracket) : token.closes bracket = other.closes bracket := by
    rw [Token.closes, Token.closes, same]
  unfold nest
  rw [opens]
  simp only [closes]

theorem foldl_nest_of_flat {tokens : List Token} (flat : ∀ token ∈ tokens, token.opens = none) :
    tokens.foldl nest [] = [] := by
  induction tokens with
  | nil => rfl
  | cons token rest ih =>
    rw [List.foldl_cons, nest_eq_nil_of_neutral (flat token List.mem_cons_self)]
    exact ih fun other met => flat other (List.mem_cons_of_mem _ met)

theorem uncut_of_passes {test : Token → Bool} {tokens : List Token}
    (passes : ∀ token ∈ tokens, test token = false) (stack : List Bracket) :
    (cutAt test stack tokens).2 = [] := by
  induction tokens generalizing stack with
  | nil => rfl
  | cons token rest ih =>
    refine uncut_cons_iff.mpr ⟨?_, ih (fun other met => passes other (List.mem_cons_of_mem _ met)) _⟩
    rw [passes token List.mem_cons_self, Bool.and_false]

/-- What is inside a bracket does not touch the brackets around it, until it is closed. -/
theorem nest_append (stack : List Bracket) (outer : Bracket) {token : Token}
    (stays : (stack.isEmpty && token.closes outer) = false) :
    nest (stack ++ [outer]) token = nest stack token ++ [outer] := by
  unfold nest
  cases token.opens with
  | some bracket => rfl
  | none =>
    cases stack with
    | nil =>
      rw [List.isEmpty_nil, Bool.true_and] at stays
      simp [stays]
    | cons bracket rest =>
      simp only [List.cons_append]
      split <;> rfl

/-- A block that is closed at the end was closed at the first bracket on top of its contents. -/
theorem cutAt_closes_of_balanced {outer : Bracket} {stack : List Bracket} {tokens : List Token}
    (balanced : tokens.foldl nest (stack ++ [outer]) = []) :
    ∃ mark after, (cutAt (Token.closes outer) stack tokens).2 = mark :: after ∧
      after.foldl nest [] = [] := by
  induction tokens generalizing stack with
  | nil => simp at balanced
  | cons token rest ih =>
    by_cases stops : (stack.isEmpty && token.closes outer) = true
    · rw [cutAt, if_pos stops]
      rw [Bool.and_eq_true, List.isEmpty_iff] at stops
      obtain ⟨rfl, closes⟩ := stops
      refine ⟨token, rest, rfl, ?_⟩
      have kind : token.kind = .closing outer := by simpa [Token.closes] using closes
      have closed : nest [outer] token = [] := by simp [nest, Token.opens, kind, closes]
      rwa [List.foldl_cons, List.nil_append, closed] at balanced
    · rw [cutAt, if_neg stops]
      rw [List.foldl_cons, nest_append stack outer (Bool.eq_false_iff.mpr stops)] at balanced
      exact ih balanced

theorem piecesAt_append {test : Token → Bool} {stack : List Bracket} {front : List Token}
    (uncut : (cutAt test stack front).2 = []) (last : Nat) (back : List Token) :
    piecesAt test last stack (front ++ back) =
      (piecesAt test last (front.foldl nest stack) back).modifyHead fun piece =>
        (front ++ piece.1, piece.2) := by
  induction front generalizing stack with
  | nil =>
    exact (congrFun List.modifyHead_id _).symm
  | cons token front ih =>
    rcases uncut_cons_iff.mp uncut with ⟨goesOn, later⟩
    rw [List.cons_append, piecesAt, goesOn, if_neg Bool.false_ne_true, ih later,
      List.modifyHead_modifyHead]
    rfl

/-! ## Changes that are not seen -/

/-- A change of tokens that keeps their kinds, and their names up to letter case. -/
structure Keeps (change : Token → Token) : Prop where
  kind : ∀ token, (change token).kind = token.kind
  bang : ∀ token, (change token).text = ['!'] ↔ token.text = ['!']
  letters : ∀ token word, sameLetters (change token).name word = sameLetters token.name word

namespace Keeps

variable {change : Token → Token}

theorem nest (keeps : Keeps change) (stack : List Bracket) (token : Token) :
    nest stack (change token) = nest stack token :=
  nest_of_kind (keeps.kind token) stack

theorem foldl_nest (keeps : Keeps change) (stack : List Bracket) (tokens : List Token) :
    (tokens.map change).foldl Css.nest stack = tokens.foldl Css.nest stack := by
  rw [List.foldl_map]
  simp only [keeps.nest]

theorem cutAt (keeps : Keeps change) {test : Token → Bool}
    (blind : ∀ token, test (change token) = test token) (stack : List Bracket)
    (tokens : List Token) :
    cutAt test stack (tokens.map change) =
      ((cutAt test stack tokens).1.map change, (cutAt test stack tokens).2.map change) := by
  induction tokens generalizing stack with
  | nil => rfl
  | cons token rest ih =>
    rw [List.map_cons, Css.cutAt, Css.cutAt, blind, keeps.nest, ih]
    split <;> simp

end Keeps

theorem keeps_down (lines : Nat) : Keeps (Token.down lines) :=
  ⟨fun _ => rfl, fun _ => Iff.rfl, fun _ _ => rfl⟩

@[simp]
theorem nest_down (lines : Nat) (stack : List Bracket) (token : Token) :
    nest stack (token.down lines) = nest stack token :=
  (keeps_down lines).nest stack token

theorem foldl_nest_down (lines : Nat) (stack : List Bracket) (tokens : List Token) :
    (tokens.map (Token.down lines)).foldl nest stack = tokens.foldl nest stack :=
  (keeps_down lines).foldl_nest stack tokens

theorem cutAt_down {test : Token → Bool}
    (blind : ∀ lines token, test (token.down lines) = test token) (lines : Nat)
    (stack : List Bracket) (tokens : List Token) :
    cutAt test stack (tokens.map (Token.down lines)) =
      ((cutAt test stack tokens).1.map (Token.down lines),
        (cutAt test stack tokens).2.map (Token.down lines)) :=
  (keeps_down lines).cutAt (blind lines) stack tokens

/-! ## Whole texts -/

/-- The text makes up whole tokens before any stop, closes its brackets, and is not cut by the test. -/
structure Whole (test : Token → Bool) (text : Text) : Prop where
  detached : isDetached text = true
  balanced : (tokenize 0 text).foldl nest [] = []
  uncut : (cutAt test [] (tokenize 0 text)).2 = []

namespace Whole

variable {test : Token → Bool} {text : Text}

theorem balanced_at (whole : Whole test text) (line : Nat) :
    (tokenize line text).foldl nest [] = [] := by
  rw [tokenize_eq_down, foldl_nest_down, whole.balanced]

theorem uncut_at (whole : Whole test text)
    (blind : ∀ lines token, test (token.down lines) = test token) (line : Nat) :
    (cutAt test [] (tokenize line text)).2 = [] := by
  rw [tokenize_eq_down, cutAt_down blind, whole.uncut, List.map_nil]

theorem of_imp {narrow : Token → Bool} (whole : Whole test text)
    (imp : ∀ token, narrow token = true → test token = true) : Whole narrow text :=
  ⟨whole.detached, whole.balanced, uncut_of_imp imp whole.uncut⟩

/-- A cut at a stop behind a whole text takes exactly the text. -/
theorem cutAt_tokens (whole : Whole test text)
    (blind : ∀ lines token, test (token.down lines) = test token) (line : Nat) {token : Token}
    (stops : test token = true) (rest : List Token) :
    cutAt test [] (tokenize line text ++ token :: rest) =
      (tokenize line text, token :: rest) :=
  cutAt_append_of_stop (whole.uncut_at blind line) (whole.balanced_at line) stops rest

end Whole

/-! ## Putting texts together -/

/-- Punctuation is a token by itself. -/
theorem tokenize_punctuation {c : Char} {kind : TokenKind} (known : punctuation c = some kind)
    (line : Nat) (rest : Text) :
    tokenize line (c :: rest) = ⟨kind, [c], line⟩ :: tokenize (line + lineEnds [c]) rest := by
  rw [tokenize_cons]
  simp [lexeme, known]

theorem punctuation_of_blank {c : Char} (blank : isBlank c = true) : punctuation c = none := by
  unfold punctuation
  split <;> first | rfl | exact absurd blank (by decide)

/-- Blanks at the front are one token. -/
theorem tokenize_blank {c : Char} (blank : isBlank c = true) (line : Nat) (rest : Text) :
    tokenize line (c :: rest) =
      ⟨.blank, c :: rest.takeWhile isBlank, line⟩ ::
        tokenize (line + lineEnds (c :: rest.takeWhile isBlank)) (rest.dropWhile isBlank) := by
  have found : lexeme c rest = (.blank, 1 + blankLength rest) := by
    simp [lexeme, punctuation_of_blank blank, blank]
  have size : 1 + (rest.takeWhile isBlank).length - 1 = (rest.takeWhile isBlank).length := by omega
  have taken : rest.take (rest.takeWhile isBlank).length = rest.takeWhile isBlank :=
    List.prefix_iff_eq_take.mp (List.takeWhile_prefix isBlank) |>.symm
  have left : rest.drop (rest.takeWhile isBlank).length = rest.dropWhile isBlank := by
    conv => lhs; arg 2; rw [← List.takeWhile_append_dropWhile (p := isBlank) (l := rest)]
    rw [List.drop_left]
  rw [tokenize_cons, found, blankLength, size, taken, left]

/-- A token that begins with a blank holds nothing else. -/
theorem isBlank_of_mem_first {first c : Char} {rest : Text} (begins : isBlank first = true)
    (among : c ∈ first :: rest.take ((lexeme first rest).2 - 1)) : isBlank c = true := by
  have same := (tokenize_cons 0 first rest).symm.trans (tokenize_blank begins 0 rest)
  have spelled : first :: rest.take ((lexeme first rest).2 - 1) = first :: rest.takeWhile isBlank :=
    congrArg Token.text (List.cons.inj same).1
  rw [spelled] at among
  rcases List.mem_cons.mp among with rfl | inside
  · exact begins
  · exact List.mem_takeWhile_imp inside

/-- The character is a token of the given kind wherever it stands, and the test passes over it. -/
structure Separates (test : Token → Bool) (c : Char) (kind : TokenKind) : Prop where
  stop : isStop c = true
  known : punctuation c = some kind
  neutral : (Token.mk kind [c] 0).opens = none
  passes : ∀ line, test ⟨kind, [c], line⟩ = false

namespace Whole

variable {test : Token → Bool}

theorem nil : Whole test [] := by
  refine ⟨by decide +kernel, ?_, ?_⟩ <;> rw [tokenize_nil] <;> rfl

/-- Whole texts with a separator between them. -/
theorem append_cons {front back : Text} {c : Char} {kind : TokenKind} (first : Whole test front)
    (second : Whole test back) (blind : ∀ lines token, test (token.down lines) = test token)
    (separates : Separates test c kind) : Whole test (front ++ c :: back) := by
  have whole (line : Nat) (tail : Text) (stopped : Stopped tail) :
      tokenize line (front ++ c :: back ++ tail) =
        tokenize line front ++ ⟨kind, [c], lineAfter line (tokenize line front)⟩ ::
          (tokenize (lineAfter line (tokenize line front) + lineEnds [c]) back ++
            tokenize (lineAfter (lineAfter line (tokenize line front) + lineEnds [c])
              (tokenize (lineAfter line (tokenize line front) + lineEnds [c]) back)) tail) := by
    rw [List.append_assoc, List.cons_append, tokenize_append first.detached line
        (stopped_cons separates.stop _),
      tokenize_punctuation separates.known, tokenize_append second.detached _ stopped]
  have plain := whole 0 [] trivial
  rw [List.append_nil, tokenize_nil, List.append_nil] at plain
  have mark := nest_eq_nil_of_neutral separates.neutral
  refine ⟨?_, ?_, ?_⟩
  · have cut := whole 0 [';'] (stopped_cons (by decide) [])
    rw [← List.cons_append, ← List.append_assoc] at cut
    refine isDetached_of_cut (by decide) cut ?_
    simp [source_tokenize]
  · rw [plain, List.foldl_append, first.balanced, List.foldl_cons]
    have same : nest [] ⟨kind, [c], lineAfter 0 (tokenize 0 front)⟩ = [] := mark
    rw [same, second.balanced_at]
  · rw [plain]
    refine uncut_append first.uncut ?_
    have same : nest [] ⟨kind, [c], lineAfter 0 (tokenize 0 front)⟩ = [] := mark
    rw [first.balanced, cutAt, separates.passes]
    simp only [List.isEmpty_nil, Bool.and_false, Bool.false_eq_true, ↓reduceIte]
    rw [same, second.uncut_at blind]

/-- Blanks at the front make no difference to whether a text is whole. -/
theorem dropWhile_iff (passes : ∀ line spelling, test ⟨.blank, spelling, line⟩ = false)
    (blind : ∀ lines token, test (token.down lines) = test token) {text : Text} :
    Whole test (text.dropWhile isBlank) ↔ Whole test text := by
  cases text with
  | nil => exact Iff.rfl
  | cons c rest =>
    by_cases blank : isBlank c = true
    · rw [List.dropWhile_cons_of_pos blank]
      have split := tokenize_blank blank 0 rest
      have detached : isDetached (c :: rest) = isDetached (rest.dropWhile isBlank) := by
        have run : (rest ++ [';']).dropWhile isBlank = rest.dropWhile isBlank ++ [';'] := by
          cases left : rest.dropWhile isBlank with
          | nil => simp [List.dropWhile_append, left, show isBlank ';' = false by decide]
          | cons other more => simp [List.dropWhile_append, left]
        rw [isDetached, List.cons_append, tokenize_blank blank, run, tokenize_eq_down, isDetached,
          List.getLast?_cons, List.getLast?_map]
        cases last : (tokenize 0 (rest.dropWhile isBlank ++ [';'])).getLast? with
        | some token => rfl
        | none =>
          have spelled := source_tokenize 0 (rest.dropWhile isBlank ++ [';'])
          rw [List.getLast?_eq_none_iff.mp last] at spelled
          exact absurd spelled.symm (by simp)
      have balanced : (tokenize 0 (c :: rest)).foldl nest [] =
          (tokenize 0 (rest.dropWhile isBlank)).foldl nest [] := by
        rw [split, tokenize_eq_down, List.foldl_cons, foldl_nest_down]
        rfl
      have uncut : (cutAt test [] (tokenize 0 (c :: rest))).2 = [] ↔
          (cutAt test [] (tokenize 0 (rest.dropWhile isBlank))).2 = [] := by
        have opens : nest [] ⟨.blank, c :: rest.takeWhile isBlank, 0⟩ = [] := rfl
        rw [split, cutAt, passes, Bool.and_false, if_neg Bool.false_ne_true, opens,
          tokenize_eq_down, cutAt_down blind]
        exact List.map_eq_nil_iff
      constructor
      · intro whole
        exact ⟨detached.trans whole.detached, balanced.trans whole.balanced,
          uncut.mpr whole.uncut⟩
      · intro whole
        exact ⟨detached.symm.trans whole.detached, balanced.symm.trans whole.balanced,
          uncut.mp whole.uncut⟩
    · rw [List.dropWhile_cons_of_neg blank]

/-- A text behind blanks is whole when the text is. -/
theorem blanks_append_iff {lead text : Text} (blanks : ∀ c ∈ lead, isBlank c = true)
    (passes : ∀ line spelling, test ⟨.blank, spelling, line⟩ = false)
    (blind : ∀ lines token, test (token.down lines) = test token) :
    Whole test (lead ++ text) ↔ Whole test text := by
  rw [← dropWhile_iff passes blind, List.dropWhile_append_of_pos blanks,
    dropWhile_iff passes blind]

/-- The pieces of a list with separators are whole together. -/
theorem join {c : Char} {kind : TokenKind} {pieces : List Text}
    (whole : ∀ piece ∈ pieces, Whole test piece)
    (blind : ∀ lines token, test (token.down lines) = test token)
    (separates : Separates test c kind) : Whole test (Swatch.join [c] pieces) := by
  induction pieces with
  | nil => exact nil
  | cons piece rest ih =>
    have here := whole piece List.mem_cons_self
    have later := ih fun piece met => whole piece (List.mem_cons_of_mem _ met)
    cases rest with
    | nil => rwa [join_singleton]
    | cons next rest =>
      rw [join_cons_cons, List.singleton_append]
      exact here.append_cons later blind separates

end Whole

end Swatch.Css
