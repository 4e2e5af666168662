import Swatch.Property
import Swatch.Proofs.Printing
import Swatch.Proofs.Recase
import Swatch.Proofs.Css.Calm

/-!
# Plain rules

Selectors and values are plain when they are made of words over a few harmless
characters with one space between the words; properties are plain when they are
in lower case. However a word is cut into names, numbers, hashes and single
characters, the seams that printing puts around it stay where they are. So both
printers can be undone on plain rules, the one of layouts and the one of palettes.
-/

namespace Swatch

open Css

/-- One or more words with one space between any two neighbours. -/
def Worded (inWord : Char → Bool) (text : Text) : Prop :=
  ∃ words : List Text, words ≠ [] ∧ (∀ word ∈ words, word ≠ [] ∧ ∀ c ∈ word, inWord c = true) ∧
    text = join [' '] words

/-- Letters, digits and the marks of simple selectors. -/
def isSelectorChar (c : Char) : Bool :=
  c.isAlphanum || "_-.#*".toList.contains c

/-- Letters, digits and the marks of numbers, hashes and lists. -/
def isValueChar (c : Char) : Bool :=
  c.isAlphanum || "#.%_-,".toList.contains c

/-- A plain selector begins with a letter or with the mark of a class, a name or any element. -/
structure PlainSelector (text : Text) : Prop where
  worded : Worded isSelectorChar text
  begins : text.head?.any (fun c => c.isAlpha || ".#*".toList.contains c) = true

/-- A plain property is made of small letters and dashes and begins with a letter. -/
structure PlainProperty (text : Text) : Prop where
  chars : ∀ c ∈ text, c.isLower = true ∨ c = '-'
  begins : text.head?.any Char.isLower = true

/-- A plain value is made of words. -/
def PlainValue (text : Text) : Prop :=
  Worded isValueChar text

/-- A style rule that is plain in all its parts. -/
structure PlainRule (styleRule : Rule) : Prop where
  some : styleRule.selectors ≠ []
  selectors : ∀ selector ∈ styleRule.selectors, PlainSelector selector
  properties : ∀ declared ∈ styleRule.declarations, PlainProperty declared.property
  values : ∀ declared ∈ styleRule.declarations, PlainValue declared.value

/-- An entry of a palette that is plain in all its parts. -/
structure PlainEntry (entry : Palette.Entry) : Prop where
  some : entry.selectors ≠ []
  selectors : ∀ selector ∈ entry.selectors, PlainSelector selector
  property : Property.carriesColor entry.property = true
  value : PlainValue entry.value

/-! ## Words -/

section Words

variable {inWord : Char → Bool} {text : Text}

theorem Worded.mem (worded : Worded inWord text) {c : Char} (among : c ∈ text) :
    inWord c = true ∨ c = ' ' := by
  rcases worded with ⟨words, -, each, rfl⟩
  induction words with
  | nil => cases among
  | cons word rest ih =>
    have later := ih fun other met => each other (List.mem_cons_of_mem _ met)
    cases rest with
    | nil =>
      rw [join_singleton] at among
      exact .inl ((each word List.mem_cons_self).2 c among)
    | cons next others =>
      rw [join_cons_cons, List.mem_append, List.mem_append, List.mem_singleton] at among
      rcases among with inside | rfl | further
      · exact .inl ((each word List.mem_cons_self).2 c inside)
      · exact .inr rfl
      · exact later further

theorem Worded.of_all {words : List Text} (spelled : text = join [' '] words) (some : words ≠ [])
    (filled : words.all (fun word => !word.isEmpty) = true)
    (chars : words.all (fun word => word.all inWord) = true) : Worded inWord text := by
  rw [List.all_eq_true] at filled chars
  refine ⟨words, some, fun word met => ⟨?_, List.all_eq_true.mp (chars word met)⟩, spelled⟩
  intro empty
  have filled := filled word met
  rw [empty] at filled
  contradiction

/-- The first and the last character of words belong to words. -/
theorem Worded.ends (worded : Worded inWord text) :
    (∃ c rest, text = c :: rest ∧ inWord c = true) ∧
      ∃ front c, text = front ++ [c] ∧ inWord c = true := by
  rcases worded with ⟨words, some, each, rfl⟩
  induction words with
  | nil => contradiction
  | cons word rest ih =>
    obtain ⟨filled, chars⟩ := each word List.mem_cons_self
    constructor
    · cases word with
      | nil => contradiction
      | cons c more =>
        have begins := chars c List.mem_cons_self
        cases rest with
        | nil => exact ⟨c, more, join_singleton _ _, begins⟩
        | cons next others => exact ⟨c, _, join_cons_cons _ _ _ _, begins⟩
    · cases rest with
      | nil =>
        have last := chars _ (List.getLast_mem filled)
        exact ⟨_, _, (join_singleton _ _).trans (List.dropLast_append_getLast filled).symm, last⟩
      | cons next others =>
        obtain ⟨-, front, c, same, last⟩ := ih (List.cons_ne_nil _ _) fun other met =>
          each other (List.mem_cons_of_mem _ met)
        refine ⟨word ++ ([' '] ++ front), c, ?_, last⟩
        rw [join_cons_cons, same]
        simp

theorem Worded.clean_eq (worded : Worded inWord text)
    (atoms : ∀ c, inWord c = true → isAtom c = true) {lead trail : Text}
    (before : ∀ c ∈ lead, isWhite c = true) (behind : ∀ c ∈ trail, isWhite c = true) :
    clean (lead ++ (text ++ trail)) = text := by
  rcases worded with ⟨words, -, each, rfl⟩
  apply clean_words _ before behind
  intro word met
  exact ⟨(each word met).1, fun c among => atoms c ((each word met).2 c among)⟩

end Words

/-! ## Selectors -/

theorem isSelectorChar_iff (c : Char) :
    isSelectorChar c = true ↔ 65 ≤ c.toNat ∧ c.toNat ≤ 90 ∨ 97 ≤ c.toNat ∧ c.toNat ≤ 122 ∨
      48 ≤ c.toNat ∧ c.toNat ≤ 57 ∨ c.toNat = 95 ∨ c.toNat = 45 ∨ c.toNat = 46 ∨
      c.toNat = 35 ∨ c.toNat = 42 := by
  have marks : "_-.#*".toList = ['_', '-', '.', '#', '*'] := rfl
  rw [isSelectorChar, marks]
  simp only [Bool.or_eq_true, isAlphanum_iff, List.contains_cons, List.contains_nil, Bool.or_false,
    beq_iff_eq, eq_iff_toNat]
  simp only [Char.reduceToNat]
  omega

theorem isValueChar_iff (c : Char) :
    isValueChar c = true ↔ 65 ≤ c.toNat ∧ c.toNat ≤ 90 ∨ 97 ≤ c.toNat ∧ c.toNat ≤ 122 ∨
      48 ≤ c.toNat ∧ c.toNat ≤ 57 ∨ c.toNat = 35 ∨ c.toNat = 46 ∨ c.toNat = 37 ∨
      c.toNat = 95 ∨ c.toNat = 45 ∨ c.toNat = 44 := by
  have marks : "#.%_-,".toList = ['#', '.', '%', '_', '-', ','] := rfl
  rw [isValueChar, marks]
  simp only [Bool.or_eq_true, isAlphanum_iff, List.contains_cons, List.contains_nil, Bool.or_false,
    beq_iff_eq, eq_iff_toNat]
  simp only [Char.reduceToNat]
  omega

section Chars

variable {c : Char}

theorem isCalm_of_selectorChar (inside : isSelectorChar c = true) : isCalm c = true := by
  rw [isSelectorChar_iff] at inside
  rw [isCalm_iff]
  omega

theorem isCalm_of_valueChar (inside : isValueChar c = true) : isCalm c = true := by
  rw [isValueChar_iff] at inside
  rw [isCalm_iff]
  omega

theorem isAtom_of_selectorChar (inside : isSelectorChar c = true) : isAtom c = true := by
  rw [isSelectorChar_iff] at inside
  rw [isAtom_iff, isQuote_iff, isWhite_iff]
  omega

theorem isAtom_of_valueChar (inside : isValueChar c = true) : isAtom c = true := by
  rw [isValueChar_iff] at inside
  rw [isAtom_iff, isQuote_iff, isWhite_iff]
  omega

theorem isBlank_of_selectorChar (inside : isSelectorChar c = true) : isBlank c = false := by
  rw [isSelectorChar_iff] at inside
  rw [Bool.eq_false_iff, ne_eq, isBlank_iff]
  omega

theorem isBlank_of_valueChar (inside : isValueChar c = true) : isBlank c = false := by
  rw [isValueChar_iff] at inside
  rw [Bool.eq_false_iff, ne_eq, isBlank_iff]
  omega

end Chars

theorem spellsSelector_of_plain {selector : Text} (plain : PlainSelector selector) {trail : Text}
    (blanks : ∀ c ∈ trail, c = ' ') : SpellsSelector (selector ++ trail) selector := by
  have chars : ∀ c ∈ selector ++ trail, isSelectorChar c = true ∨ c = ' ' := by
    intro c among
    rcases List.mem_append.mp among with inside | behind
    · exact plain.worded.mem inside
    · exact .inr (blanks c behind)
  have calm : ∀ c ∈ selector ++ trail, isCalm c = true := by
    intro c among
    rcases chars c among with inside | rfl
    · exact isCalm_of_selectorChar inside
    · rfl
  have noComma : ',' ∉ selector ++ trail := by
    intro among
    rcases chars _ among with inside | same
    · exact absurd inside (by decide)
    · exact absurd same (by decide)
  refine ⟨?_, ?_, ?_⟩
  · apply whole_calm calm
    intro token met
    exact (calm_of_mem_tokenize calm met).endsSelector fun among =>
      noComma (mem_of_mem_token met among)
  · apply plain.worded.clean_eq (fun _ => isAtom_of_selectorChar) (List.forall_mem_nil _)
    intro c among
    rw [blanks c among]
    rfl
  · obtain ⟨⟨c, rest, rfl, -⟩, -⟩ := plain.worded.ends
    exact List.cons_ne_nil c rest

theorem beginsRule_of_plain {selector : Text} (plain : PlainSelector selector) {trail : Text}
    (blanks : ∀ c ∈ trail, c = ' ') : beginsRule (selector ++ trail) = true := by
  obtain ⟨⟨c, rest, same, begins⟩, -⟩ := plain.worded.ends
  have calm : ∀ c ∈ selector ++ trail, isCalm c = true := by
    intro c among
    rcases List.mem_append.mp among with inside | behind
    · rcases plain.worded.mem inside with inWord | rfl
      · exact isCalm_of_selectorChar inWord
      · rfl
    · rw [blanks c behind]
      rfl
  have tokens (token : Token) (met : token ∈ tokenize 0 (selector ++ trail)) : token.Calm :=
    calm_of_mem_tokenize calm met
  rw [beginsRule]
  subst same
  rw [List.cons_append, tokenize_cons] at tokens ⊢
  have first := tokens _ List.mem_cons_self
  have noBlank : (lexeme c (rest ++ trail)).1 ≠ .blank := by
    intro blank
    have all := first.blank blank c List.mem_cons_self
    rw [isBlank_of_selectorChar begins] at all
    contradiction
  have noCustom := startsCustomProperty_calm ⟨(lexeme c (rest ++ trail)).1,
    c :: (rest ++ trail).take ((lexeme c (rest ++ trail)).2 - 1), 0⟩
    fun token met => tokens token (List.mem_cons_of_mem _ met)
  simp only [first.isBetweenRules noBlank, noCustom, Bool.not_false, Bool.true_and, Bool.and_true,
    bne_iff_ne]
  exact first.kind_ne_atKeyword

theorem spellsSelectors_of_plain {selectors : List Text} (some : selectors ≠ [])
    (plain : ∀ selector ∈ selectors, PlainSelector selector) :
    SpellsSelectors (selectorPieces selectors) selectors := by
  refine ⟨selectorPieces_ne_nil _, ?_, ?_⟩
  · induction selectors with
    | nil => contradiction
    | cons selector rest ih =>
      have here := plain selector List.mem_cons_self
      cases rest with
      | nil => exact .cons (spellsSelector_of_plain here (by simp)) .nil
      | cons next others =>
        have alone := spellsSelector_of_plain here (List.forall_mem_nil _)
        rw [List.append_nil] at alone
        exact .cons alone (ih (List.cons_ne_nil _ _) fun other met =>
          plain other (List.mem_cons_of_mem _ met))
  · match selectors, some with
    | [last], _ => exact beginsRule_of_plain (plain last List.mem_cons_self) (by simp)
    | selector :: next :: others, _ =>
      have begins := beginsRule_of_plain (plain selector List.mem_cons_self) (List.forall_mem_nil _)
      rwa [List.append_nil] at begins

/-! ## Declarations -/

theorem isOwnName_of_plain {name : Text} (plain : PlainProperty name) : isOwnName name = true := by
  have ranges : ∀ c ∈ name, 97 ≤ c.toNat ∧ c.toNat ≤ 122 ∨ c.toNat = 45 := by
    intro c among
    rcases plain.chars c among with small | rfl
    · exact .inl ((isLower_iff c).mp small)
    · exact .inr rfl
  have chars : ∀ c ∈ name, (isNameChar c && c != '\x00') = true := by
    intro c among
    have range := ranges c among
    rw [Bool.and_eq_true, isNameChar_iff, bne_iff_ne, ne_eq, eq_iff_toNat,
      show '\x00'.toNat = 0 from rfl]
    omega
  have same : lower name = name := by
    refine (List.map_congr_left fun c among => ?_).trans (List.map_id name)
    have range := ranges c among
    exact toLower_of_small (by omega)
  cases name with
  | nil => exact absurd plain.begins (by decide)
  | cons c rest =>
    have begins : 97 ≤ c.toNat ∧ c.toNat ≤ 122 := by
      have small := plain.begins
      rw [List.head?_cons, Option.any_some] at small
      exact (isLower_iff c).mp small
    have noDash : c ≠ '-' := by
      rw [ne_eq, eq_iff_toNat, show '-'.toNat = 45 from rfl]
      omega
    have starts : isNameStart c = true := by
      rw [isNameStart_iff]
      omega
    have noDashes : ('-' == c) = false := beq_eq_false_iff_ne.mpr (Ne.symm noDash)
    have noCustom : "--".toList.isPrefixOf (c :: rest) = false := by
      rw [show "--".toList = ['-', '-'] from rfl, List.isPrefixOf, noDashes]
      rfl
    rw [isOwnName, isLiteralName, List.all_eq_true.mpr chars, propertyName, noCustom, same]
    simp [startsName, noDash, starts]

theorem calm_of_plainValue {value : Text} (plain : PlainValue value) :
    ∀ c ∈ ' ' :: value, isCalm c = true ∧ c ≠ '!' := by
  intro c among
  rcases List.mem_cons.mp among with rfl | inside
  · exact ⟨rfl, by decide⟩
  · rcases plain.mem inside with inside | rfl
    · exact ⟨isCalm_of_valueChar inside, ne_of_class inside (by decide)⟩
    · exact ⟨rfl, by decide⟩

theorem clean_plainValue {value : Text} (plain : PlainValue value) :
    clean (' ' :: value) = value := by
  have blank : ∀ c ∈ [' '], isWhite c = true := List.forall_mem_singleton.mpr rfl
  have words := plain.clean_eq (fun _ => isAtom_of_valueChar) blank (List.forall_mem_nil _)
  rwa [List.append_nil] at words

/-- What a plain value means with something behind it that is no part of the value. -/
theorem valueIn_append {value : Text} (plain : PlainValue value) {tail : Text}
    (halted : Halted tail) {gaps : List Token} {mark : Option (Token × List Token)}
    (split : splitImportant [] (tokenize 0 tail) = (gaps, mark))
    (gap : ∀ token ∈ gaps, token.isGap = true)
    (done : (mark.map fun found => skipGaps found.2).getD [] = []) :
    valueIn (' ' :: (value ++ tail)) = some (value, mark.isSome) := by
  obtain ⟨⟨c, rest, begins, -⟩, front, last, ends, inWord⟩ := plain.ends
  have calm : ∀ c ∈ ' ' :: value, isCalm c = true := fun c among =>
    (calm_of_plainValue plain c among).1
  have noBlank := isBlank_of_valueChar inWord
  have apart : Apart (' ' :: value) tail := by
    left
    rw [ends, ← List.cons_append, List.getLast?_concat, Option.any_some, noBlank]
  have tokens := tokenize_calm calm halted apart 0
  rw [List.cons_append] at tokens
  generalize lineAfter 0 (tokenize 0 (' ' :: value)) = line at tokens
  have later := splitImportant_down line [] (tokenize 0 tail)
  rw [← tokenize_eq_down, split] at later
  have noMark : ∀ token ∈ tokenize 0 (' ' :: value), token.text ≠ ['!'] := by
    intro token met same
    have among : '!' ∈ ' ' :: value :=
      mem_of_mem_token met (same ▸ List.mem_cons_self)
    exact (calm_of_plainValue plain _ among).2 rfl
  have whole := splitImportant_append_of_flat
    (fun token met => (calm_of_mem_tokenize calm met).opens) noMark (tokenize line tail)
  rw [later] at whole
  have spelled : withoutEndGaps (tokenize 0 (' ' :: value) ++ gaps.map (Token.down line)) =
      tokenize 0 (' ' :: value) := by
    rw [ends, ← List.cons_append] at calm ⊢
    apply withoutEndGaps_calm calm noBlank
    intro token met
    rcases List.mem_map.mp met with ⟨gapToken, among, rfl⟩
    exact gap gapToken among
  have filled : value ≠ [] := begins ▸ List.cons_ne_nil c rest
  rw [valueIn_eq, tokens, whole]
  simp only [spelled, source_tokenize, clean_plainValue plain, Option.isSome_map]
  refine if_neg ?_
  rw [not_or, Decidable.not_not]
  refine ⟨filled, ?_⟩
  cases mark with
  | none => rfl
  | some found =>
    rw [Option.map_some, Option.getD_some] at done
    rw [Option.map_some, Option.map_some, Option.getD_some, Prod.map_snd, skipGaps_down, done,
      List.map_nil]

theorem tokenize_blank_alone : tokenize 0 [' '] = [⟨.blank, [' '], 0⟩] := by
  decide +kernel

theorem tokenize_mark : tokenize 0 " !important".toList =
    [⟨.blank, [' '], 0⟩, ⟨.delimiter, ['!'], 0⟩, ⟨.identifier, "important".toList, 0⟩] := by
  decide +kernel

theorem whole_plainValue {value trail : Text} (plain : PlainValue value)
    (calmTrail : ∀ c ∈ trail, isCalm c = true) :
    Whole endsDeclaration (' ' :: (value ++ trail)) := by
  have calm : ∀ c ∈ ' ' :: (value ++ trail), isCalm c = true := by
    intro c among
    rw [← List.cons_append] at among
    rcases List.mem_append.mp among with inside | behind
    · exact (calm_of_plainValue plain c inside).1
    · exact calmTrail c behind
  exact whole_calm calm fun token met => (calm_of_mem_tokenize calm met).endsDeclaration

/-- Declarations with a plain property and a plain value are printable. -/
theorem printable_of_plain {declared : Declaration} (property : PlainProperty declared.property)
    (value : PlainValue declared.value) : declared.Printable := by
  refine ⟨isOwnName_of_plain property, ?_, ?_⟩
  · apply whole_plainValue value
    split
    · exact List.all_eq_true.mp (by decide)
    · exact List.forall_mem_nil _
  · rw [Declaration.valueText]
    cases declared.important with
    | false =>
      exact valueIn_append value (show Halted [] from trivial)
        (show splitImportant [] (tokenize 0 []) = ([], none) by rw [tokenize_nil]; rfl)
        (List.forall_mem_nil _) rfl
    | true =>
      exact valueIn_append value (show Halted " !important".toList by rfl)
        (show _ = ([⟨.blank, [' '], 0⟩], some (⟨.identifier, "important".toList, 0⟩, [])) by
          rw [tokenize_mark]; decide +kernel) (by decide) rfl

theorem rule_preserve (styleRule : Rule) : HexCase.preserve.rule styleRule = styleRule := by
  have same : HexCase.preserve.declaration = id := by
    funext declared
    rw [HexCase.declaration, HexCase.apply_preserve]
    rfl
  rw [HexCase.rule, same, List.map_id]

theorem PlainRule.printable {styleRule : Rule} (plain : PlainRule styleRule) :
    styleRule.Printable := by
  refine ⟨spellsSelectors_of_plain plain.some plain.selectors, ?_⟩
  intro declared met
  exact printable_of_plain (plain.properties declared met) (plain.values declared met)

theorem isOwnName_of_carriesColor {name : Text} (carries : Property.carriesColor name = true) :
    isOwnName name = true := by
  have names : ∀ row ∈ Property.table, isOwnName row.1 = true := by decide
  rw [Property.carriesColor, Property.longhand?, List.lookup_isSome_iff] at carries
  rcases carries with ⟨row, met, same⟩
  rw [eq_of_beq same]
  exact names row met

/-! ## Both printers -/

theorem head?_of_plainSelectors {selectors : List Text} (some : selectors ≠ [])
    (plain : ∀ selector ∈ selectors, PlainSelector selector) (separator back : Text) :
    (join separator selectors ++ back).head? ≠ .some '\uFEFF' := by
  match selectors, some with
  | first :: others, _ =>
    obtain ⟨⟨c, rest, same, inWord⟩, -⟩ := (plain first List.mem_cons_self).worded.ends
    rw [same, head?_join_cons]
    intro mark
    rw [Option.some.inj mark] at inWord
    exact absurd inWord (by decide)

/-- The rule that an entry of a palette stands for. -/
def Palette.Entry.rule (entry : Palette.Entry) : Rule :=
  ⟨entry.selectors, [⟨entry.property, entry.value, false, 0⟩]⟩

theorem parse_sheet_of_plain {width : Nat} {delimiter : Text}
    (separates : delimiter = ",".toList ∨ delimiter = ", ".toList) {rules : List Rule}
    (plain : ∀ styleRule ∈ rules, PlainRule styleRule) :
    (Stylesheet.parse
        (Layout.sheet ⟨List.replicate width ' ', delimiter, .preserve⟩ ⟨rules⟩)).rules.map
      Rule.unplaced = rules.map Rule.unplaced := by
  have indent : ∀ c ∈ List.replicate width ' ', isBlank c = true := by
    intro c among
    rw [List.eq_of_mem_replicate among]
    rfl
  obtain ⟨gap, layout⟩ : ∃ gap,
      Layout.Plain ⟨List.replicate width ' ', delimiter, .preserve⟩ gap := by
    rcases separates with rfl | rfl
    · exact ⟨[], indent, rfl, List.forall_mem_nil _⟩
    · exact ⟨[' '], indent, rfl, List.forall_mem_singleton.mpr rfl⟩
  have noMark : (Layout.sheet ⟨List.replicate width ' ', delimiter, .preserve⟩
      ⟨rules⟩).head? ≠ some '\uFEFF' := by
    match rules with
    | [] => exact nofun
    | [last] =>
      have here := plain last List.mem_cons_self
      rw [Layout.sheet, List.map_singleton, join_singleton, Layout.rule, List.append_assoc,
        List.append_assoc]
      exact head?_of_plainSelectors here.some here.selectors _ _
    | styleRule :: next :: rest =>
      have here := plain styleRule List.mem_cons_self
      rw [Layout.sheet, List.map_cons, List.map_cons, join_cons_cons, Layout.rule,
        List.append_assoc, List.append_assoc, List.append_assoc]
      exact head?_of_plainSelectors here.some here.selectors _ _
  rw [map_unplaced_parse_eq_listedRules, withoutMark_of_head noMark, layout.listedRules_sheet]
  · exact List.map_congr_left fun styleRule _ => by rw [rule_preserve]
  · intro styleRule met
    rw [rule_preserve]
    exact (plain styleRule met).printable

theorem parse_lines_of_plain {entries : List Palette.Entry}
    (plain : ∀ entry ∈ entries, PlainEntry entry) :
    (Stylesheet.parse
        (entries.flatMap fun entry => entry.css ++ "\n\n".toList)).rules.map Rule.unplaced =
      entries.map Palette.Entry.rule := by
  have noMark : (entries.flatMap fun entry => entry.css ++ "\n\n".toList).head? ≠
      some '\uFEFF' := by
    match entries with
    | [] => exact nofun
    | entry :: rest =>
      have here := plain entry List.mem_cons_self
      rw [List.flatMap_cons, Palette.Entry.css]
      simp only [List.append_assoc]
      exact head?_of_plainSelectors here.some here.selectors _ _
  rw [map_unplaced_parse_eq_listedRules, withoutMark_of_head noMark, Palette.listedRules_lines]
  intro entry met fresh rest
  have here := plain entry met
  exact Palette.Entry.listedRules_css rfl (spellsSelectors_of_plain here.some here.selectors)
    (isOwnName_of_carriesColor here.property) (whole_plainValue here.value (List.forall_mem_singleton.mpr rfl))
    (valueIn_append here.value (show Halted [' '] by rfl)
      (show _ = ([⟨.blank, [' '], 0⟩], none) by rw [tokenize_blank_alone]; decide +kernel)
      (by decide) rfl) fresh rest

/-- Reading undoes both printers on plain rules. -/
theorem plain_rules_round_trip :
    (∀ (width : Nat) (delimiter : Text), delimiter = ",".toList ∨ delimiter = ", ".toList →
      ∀ rules : List Rule, (∀ styleRule ∈ rules, PlainRule styleRule) →
        (Stylesheet.parse
            (Layout.sheet ⟨List.replicate width ' ', delimiter, .preserve⟩ ⟨rules⟩)).rules.map
          Rule.unplaced = rules.map Rule.unplaced) ∧
    ∀ entries : List Palette.Entry, (∀ entry ∈ entries, PlainEntry entry) →
      (Stylesheet.parse
          (entries.flatMap fun entry => entry.css ++ "\n\n".toList)).rules.map Rule.unplaced =
        entries.map Palette.Entry.rule :=
  ⟨fun _ _ separates _ plain => parse_sheet_of_plain separates plain,
    fun _ plain => parse_lines_of_plain plain⟩

/-- A rule with a marked declaration that is printed twice, and one line of a palette. -/
theorem plain_rules_round_trip_sample :
    let styleRule : Rule :=
      ⟨[".a b".toList, "*".toList], [⟨"color".toList, "1px #abc".toList, true, 3⟩]⟩
    let entry : Palette.Entry :=
      ⟨"border-color".toList, [".a b".toList, "*".toList], "1px #abc".toList⟩
    (PlainRule styleRule ∧
      (Stylesheet.parse (Layout.sheet ⟨List.replicate 2 ' ', ", ".toList, .preserve⟩
        ⟨[styleRule, styleRule]⟩)).rules.map Rule.unplaced =
          [styleRule, styleRule].map Rule.unplaced) ∧
    PlainEntry entry ∧
      (Stylesheet.parse ([entry].flatMap fun entry => entry.css ++ "\n\n".toList)).rules.map
        Rule.unplaced = [entry].map Palette.Entry.rule := by
  intro styleRule entry
  have selectors : ∀ selector ∈ [".a b".toList, "*".toList], PlainSelector selector := by
    intro selector met
    simp only [List.mem_cons, List.not_mem_nil, or_false] at met
    rcases met with rfl | rfl
    · have spelled : ".a b".toList = join [' '] [".a".toList, "b".toList] := rfl
      exact ⟨.of_all spelled (by decide) (by decide) (by decide), by decide⟩
    · have spelled : "*".toList = join [' '] ["*".toList] := rfl
      exact ⟨.of_all spelled (by decide) (by decide) (by decide), by decide⟩
  have value : PlainValue "1px #abc".toList := by
    have spelled : "1px #abc".toList = join [' '] ["1px".toList, "#abc".toList] := rfl
    exact .of_all spelled (by decide) (by decide) (by decide)
  have property : PlainProperty "color".toList := by
    refine ⟨?_, by decide⟩
    have letters : "color".toList.all Char.isLower = true := by decide
    exact fun c met => .inl (List.all_eq_true.mp letters c met)
  have plain : PlainRule styleRule :=
    ⟨by decide, selectors, fun declared met => List.mem_singleton.mp met ▸ property,
      fun declared met => List.mem_singleton.mp met ▸ value⟩
  have plainEntry : PlainEntry entry := ⟨by decide, selectors, by decide, value⟩
  refine ⟨⟨plain, ?_⟩, plainEntry, ?_⟩
  · apply plain_rules_round_trip.1 2 _ (.inr rfl)
    intro other met
    rw [List.mem_cons, List.mem_singleton, or_self] at met
    exact met ▸ plain
  · apply plain_rules_round_trip.2
    intro other met
    exact List.mem_singleton.mp met ▸ plainEntry

end Swatch
