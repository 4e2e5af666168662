import Swatch.Proofs.Css.Values
import Swatch.Proofs.Formatting
import Swatch.Proofs.Listing
import Swatch.Proofs.Plain

/-!
# Running again on the output

The output of a run is a style sheet with one rule for each property of the table.
When every line of the table is readable, a second run finds the same properties
with the same pieces and values, and what it prints is what every later run prints.
-/

namespace Swatch

open Css

/-! ## Values that are reported -/

theorem isWhite_of_alphanum {c : Char} (alphanum : c.isAlphanum = true) : isWhite c = false := by
  rw [Char.isAlphanum, Bool.or_eq_true, isAlpha_iff, isDigit_iff] at alphanum
  rw [Bool.eq_false_iff, ne_eq, isWhite_iff]
  omega

theorem Color.trim_hash (color : Color) : trim color.hash = color.hash := by
  apply trim_of_seen
  intro c met
  rcases List.mem_cons.mp met with rfl | inside
  · rfl
  · exact isWhite_of_alphanum (List.all_eq_true.mp color.token_alphanum c inside)

theorem Criterion.accepts_of_trim_lower_eq (criterion : Criterion) (color : Color)
    {left right : Text} (same : lower (trim left) = lower (trim right)) :
    criterion.accepts left color = criterion.accepts right color := by
  have trimmed (value : Text) : criterion.accepts (trim value) color = criterion.accepts value color := by
    cases criterion with
    | exact => simp only [accepts, trim_trim]
    | substring => simp only [accepts, trim_trim]
  rw [← trimmed left, ← trimmed right, criterion.accepts_of_lower_eq color same]

theorem occursIn_cons_self (c : Char) (text : Text) : occursIn text (c :: text) = true := by
  cases text with
  | nil => rfl
  | cons d rest => simp [occursIn]

/-- The hash of a color is a use of the color. -/
theorem Criterion.accepts_hash (criterion : Criterion) (color : Color) :
    criterion.accepts color.hash color = true := by
  cases criterion with
  | exact => rw [accepts_exact_hash color.trim_hash, sameLetters, beq_self_eq_true]
  | substring =>
    rw [accepts, color.trim_hash, Color.hash, lower_cons]
    exact occursIn_cons_self _ _

namespace Palette

/-- An entry that would be made again from a declaration that says what it says. -/
structure Entry.Settled (entry : Entry) (color : Color) (criterion : Criterion) : Prop where
  longhand : Property.longhand? entry.property = some entry.property
  accepted : criterion.accepts entry.value color = true
  trimmed : trim entry.value = entry.value
  resolved : criterion.resolve entry.value color false = entry.value

theorem longhand_of_longhand {name longhand : Text} (found : Property.longhand? name = some longhand) :
    Property.longhand? longhand = some longhand := by
  have rows : ∀ row ∈ Property.table, Property.longhand? row.2 = some row.2 := by decide
  rw [Property.longhand?, List.lookup_eq_some_iff] at found
  rcases found with ⟨front, back, parts, -⟩
  exact rows (name, longhand) (by rw [parts]; simp)

variable {color : Color} {criterion : Criterion}

theorem exists_of_mem_extract {sheet : Stylesheet} {entry : Entry}
    (met : entry ∈ (extract sheet color criterion).entries) :
    entry = group color criterion (matching sheet color criterion) entry.property ∧
      membersOf entry.property (matching sheet color criterion) ≠ [] := by
  rw [entries_extract] at met
  rcases List.mem_map.mp met with ⟨key, among, rfl⟩
  rcases List.mem_map.mp (List.mem_eraseDups.mp among) with ⟨member, found, rfl⟩
  refine ⟨rfl, List.ne_nil_of_mem (List.mem_filter.mpr ⟨found, ?_⟩)⟩
  exact beq_self_eq_true _

/-- What a match reports is trimmed, and would be reported again. -/
theorem settled_valueOf {found : Rule × Declaration} (holds : isMatch color criterion found = true) :
    Entry.Settled ⟨keyOf found, [], valueOf color criterion found⟩ color criterion := by
  rw [isMatch, Bool.and_eq_true, Property.carriesColor, Option.isSome_iff_exists] at holds
  rcases holds with ⟨⟨longhand, known⟩, accepted⟩
  have key : keyOf found = longhand := by rw [keyOf, known, Option.getD_some]
  have plain : valueOf color criterion found = color.hash ∨
      criterion = .substring ∧ valueOf color criterion found = trim found.2.value := by
    rw [valueOf]
    cases criterion with
    | exact => exact .inl rfl
    | substring =>
      rw [Criterion.resolve]
      split
      · exact .inl rfl
      · exact .inr ⟨rfl, rfl⟩
  have longhands : Property.longhand? (keyOf found) = some (keyOf found) := by
    rw [key]
    exact longhand_of_longhand known
  rcases plain with hash | ⟨rfl, trimmed⟩
  · rw [hash]
    refine ⟨longhands, criterion.accepts_hash color, color.trim_hash, ?_⟩
    cases criterion with
    | exact => rfl
    | substring => exact color.trim_hash
  · rw [trimmed]
    refine ⟨longhands, ?_, trim_trim _, trim_trim _⟩
    rw [Criterion.accepts_of_trim_lower_eq .substring color (congrArg lower (trim_trim _))]
    exact accepted

theorem settled_of_mem_extract {sheet : Stylesheet} {entry : Entry}
    (met : entry ∈ (extract sheet color criterion).entries) : entry.Settled color criterion := by
  rcases exists_of_mem_extract met with ⟨same, some⟩
  rcases List.eq_nil_or_concat (membersOf entry.property (matching sheet color criterion)) with
    none | ⟨front, last, members⟩
  · exact absurd none some
  have among : last ∈ membersOf entry.property (matching sheet color criterion) := by
    rw [members]
    simp
  rw [membersOf, List.mem_filter, beq_iff_eq] at among
  rcases among with ⟨found, key⟩
  have value : entry.value = valueOf color criterion last := by
    rw [same, group, members]
    simp
  have settled := settled_valueOf (List.mem_filter.mp found).2
  rw [key, ← value] at settled
  exact ⟨settled.longhand, settled.accepted, settled.trimmed, settled.resolved⟩

/-- The pieces of an entry are the selectors of the rules that it was collected from. -/
theorem lists_of_mem_ofText {text : Text} {entry : Entry}
    (met : entry ∈ (ofText text color criterion).entries) :
    entry.Lists (collected (Stylesheet.parse text) color criterion entry.property).flatten := by
  rcases exists_of_mem_extract met with ⟨same, some⟩
  have selected (list : List Text)
      (among : list ∈ collected (Stylesheet.parse text) color criterion entry.property) :
      list ≠ [] ∧ ∀ piece ∈ list, ∃ c rest, piece = c :: rest ∧ isWhite c = false := by
    rcases List.mem_map.mp among with ⟨member, inside, rfl⟩
    have found := (List.mem_filter.mp (List.mem_filter.mp inside).1).1
    rcases List.mem_flatMap.mp found with ⟨styleRule, rules, declared⟩
    rcases List.mem_map.mp declared with ⟨declaration, -, rfl⟩
    have read := selected_of_mem_parse rules
    exact ⟨read.some, read.seen⟩
  refine ⟨⟨collected (Stylesheet.parse text) color criterion entry.property, ?_, rfl, ?_,
    fun list among => (selected list among).1⟩, ?_⟩
  · conv => lhs; rw [same]
    rw [group, collected, List.map_map]
    rfl
  · exact fun none => some (List.map_eq_nil_iff.mp none)
  · intro piece inside
    rcases List.mem_flatten.mp inside with ⟨list, among, within⟩
    exact (selected list among).2 piece within

/-! ## Values that are read again -/

/-- The value of a readable line is that of the entry, with nothing but spaces behind it. -/
theorem Entry.spaces_of_means {entry : Entry} {value : Text} (trimmed : trim value = entry.value)
    (means : valueIn entry.valueText = some (value, false)) :
    ∃ spaces, value = entry.value ++ spaces ∧ ∀ c ∈ spaces, c = ' ' := by
  rcases valueIn_eq_unmarked means with ⟨spelling, ⟨behind, front⟩, cleaned, some, -⟩
  rcases trim_parts value with ⟨lead, spaces, parts, before, after⟩
  have noLead : lead = [] := by
    cases lead with
    | nil => rfl
    | cons c rest =>
      have notWhite := isWhite_of_clean (cleaned.trans parts)
      rw [before c List.mem_cons_self] at notWhite
      contradiction
  rw [noLead, List.nil_append, trimmed] at parts
  refine ⟨spaces, parts, fun c met => ?_⟩
  by_contra other
  -- Cleaning adds no such character, and the text of the entry has it inside the value only.
  have inText : spelling.count c ≤ entry.valueText.count c := by
    rw [← front, List.count_append]
    omega
  have inEntry : entry.valueText.count c = entry.value.count c := by
    rw [Entry.valueText, List.count_cons_of_ne (Ne.symm other), List.count_append,
      List.count_eq_zero.mpr fun inside => other (List.mem_singleton.mp inside), Nat.add_zero]
  have added := count_clean_le other spelling
  rw [cleaned, parts, List.count_append] at added
  have here := List.count_pos_iff.mpr met
  omega

/-- The entry with all its pieces in one line and the value as it is written in a case. -/
def Entry.rewritten (hexCase : HexCase) (criterion : Criterion) (entry : Entry)
    (pieces : List Text) : Entry :=
  ⟨entry.property, [join ", ".toList pieces],
    match criterion with
    | .exact => entry.value
    | .substring => hexCase.apply entry.value⟩

theorem lower_rewritten (hexCase : HexCase) (criterion : Criterion) (entry : Entry)
    (pieces : List Text) :
    lower (entry.rewritten hexCase criterion pieces).value = lower entry.value := by
  cases criterion with
  | exact => rfl
  | substring => exact hexCase.lower_apply entry.value

theorem trim_apply (hexCase : HexCase) {value : Text} (trimmed : trim value = value) :
    trim (hexCase.apply value) = hexCase.apply value := by
  have letters := hexCase.lower_apply value
  apply trim_eq_self_of_length
  apply length_eq_of_lower_eq
  rw [← trim_lower, letters, trim_lower, trimmed]

/-- What is reported for the value of a line that was written in a case. -/
theorem Entry.Settled.resolve_apply {entry : Entry} (settled : entry.Settled color criterion)
    (hexCase : HexCase) (pieces : List Text) {spaces : Text} (each : ∀ c ∈ spaces, c = ' ') :
    criterion.resolve (hexCase.apply (entry.value ++ spaces)) color false =
      (entry.rewritten hexCase criterion pieces).value := by
  cases criterion with
  | exact => exact settled.resolved
  | substring =>
    have white : ∀ c ∈ spaces, isWhite c = true := by
      intro c met
      rw [each c met]
      rfl
    rw [hexCase.apply_append_spaces entry.value each]
    exact (trim_append_white white).trans (trim_apply hexCase settled.trimmed)

theorem Entry.lower_valueText {entry other : Entry} (same : lower entry.value = lower other.value) :
    lower entry.valueText = lower other.valueText := by
  rw [Entry.valueText, Entry.valueText, lower_cons, lower_cons, lower_append, lower_append, same]

/-- What the line of an entry means, it means in another case as well. -/
theorem Entry.means_of_lower_eq {entry other : Entry} {value : Text}
    (same : lower entry.value = lower other.value) (trimmed : trim value = entry.value)
    (means : valueIn entry.valueText = some (value, false)) :
    ∃ again, trim again = other.value ∧ valueIn other.valueText = some (again, false) ∧
      lower again = lower value := by
  have texts := Entry.lower_valueText same
  rcases valueIn_of_lower_eq texts means with ⟨again, meansAgain, letters⟩
  rcases valueIn_eq_unmarked meansAgain with ⟨-, -, -, -, fades⟩
  have held : ink again = ink other.valueText := by
    rw [← ink_lower again, letters, ink_lower, ← ink_eq_of_visible_eq (visible_of_trimmed trimmed),
      ← ink_lower, texts, ink_lower]
  refine ⟨again, ?_, meansAgain, letters⟩
  apply eq_of_lower_eq_of_visible_eq
  · rw [← trim_lower, letters, trim_lower, trimmed, same]
  · rw [visible_trim, fades.visible_eq held, other.visible_valueText]

/-- The lines of a second run are readable when those of the first one are. -/
theorem Entry.Readable.rewritten {entry : Entry} {pieces : List Text}
    (readable : entry.Readable pieces) (hexCase : HexCase) (criterion : Criterion) :
    (entry.rewritten hexCase criterion pieces).Readable pieces := by
  have letters := lower_rewritten hexCase criterion entry pieces
  rcases readable.means with ⟨value, trimmed, means⟩
  rcases Entry.means_of_lower_eq letters.symm trimmed means with ⟨again, same, meansAgain, -⟩
  exact ⟨readable.selectors,
    readable.whole.of_lower_eq (fun _ => rfl) (Entry.lower_valueText letters.symm),
    again, same, meansAgain⟩

/-- A second run reads what the first one wrote, up to the case that both write. -/
theorem Entry.Readable.asRule_rewritten {entry : Entry} {pieces : List Text}
    (readable : entry.Readable pieces) (hexCase : HexCase) (criterion : Criterion) :
    hexCase.rule ((entry.rewritten hexCase criterion pieces).asRule pieces) =
      hexCase.rule (entry.asRule pieces) := by
  cases criterion with
  | exact => rfl
  | substring =>
    have letters := lower_rewritten hexCase .substring entry pieces
    rcases readable.means with ⟨value, trimmed, means⟩
    rcases Entry.means_of_lower_eq letters.symm trimmed means with ⟨again, same, meansAgain, lowered⟩
    rcases Entry.spaces_of_means trimmed means with ⟨spaces, parts, each⟩
    rcases Entry.spaces_of_means same meansAgain with ⟨others, partsAgain, eachAgain⟩
    have size := length_eq_of_lower_eq lowered
    have sizes := length_eq_of_lower_eq letters
    rw [parts, partsAgain, List.length_append, List.length_append, sizes] at size
    have equal : others = spaces := by
      rw [List.eq_replicate_of_mem each, List.eq_replicate_of_mem eachAgain, Nat.add_left_cancel size]
    have written : hexCase.apply again = hexCase.apply value := by
      have value_eq : (entry.rewritten hexCase .substring pieces).value =
          hexCase.apply entry.value := rfl
      rw [partsAgain, parts, equal, value_eq, hexCase.apply_append_spaces _ each,
        hexCase.apply_append_spaces _ each, HexCase.apply_apply id]
    rw [Entry.asRule, Entry.asRule, meansAgain, means]
    simp only [HexCase.rule, HexCase.declaration, List.map_cons, List.map_nil, Option.map_some,
      Option.getD_some, written]
    rfl

/-! ## The second run -/

section SecondRun

variable {entries : List Entry} {pieces : Text → List Text} {hexCase : HexCase}

/-- A run on rules that are read back finds what the entries say, in the case of the rules. -/
theorem extract_of_read {sheet : Stylesheet}
    (read : sheet.rules.map Rule.unplaced =
      entries.map fun entry => hexCase.rule (entry.asRule (pieces entry.property)))
    (settled : ∀ entry ∈ entries, entry.Settled color criterion)
    (readable : ∀ entry ∈ entries, entry.Readable (pieces entry.property))
    (distinct : (entries.map Entry.property).Nodup) :
    (extract sheet color criterion).entries =
        entries.map (fun entry => entry.rewritten hexCase criterion (pieces entry.property)) ∧
      ∀ entry ∈ entries,
        collected sheet color criterion entry.property = [pieces entry.property] := by
  have rows : sheet.declarations.map rowOf = entries.map fun entry =>
      (pieces entry.property, entry.property,
        hexCase.apply (((valueIn entry.valueText).map Prod.fst).getD [])) := by
    rw [map_rowOf_declarations, read, List.flatMap_map, ← List.flatMap_singleton' (entries.map _),
      List.flatMap_map]
    rfl
  have accepted (entry : Entry) (met : entry ∈ entries) :
      criterion.accepts (hexCase.apply (((valueIn entry.valueText).map Prod.fst).getD [])) color =
        true := by
    rcases (readable entry met).means with ⟨value, trimmed, means⟩
    rw [means, Option.map_some, Option.getD_some, ← (settled entry met).accepted]
    apply criterion.accepts_of_trim_lower_eq color
    rw [← trim_lower, hexCase.lower_apply, trim_lower, trimmed, (settled entry met).trimmed]
  rcases extract_of_distinct rows (List.forall_mem_map.mpr fun entry met => (settled entry met).longhand)
    (List.forall_mem_map.mpr accepted) (by rw [List.map_map]; exact distinct) with ⟨found, lists⟩
  refine ⟨?_, fun entry met => lists _ (List.mem_map_of_mem met)⟩
  rw [found, List.map_map]
  apply List.map_congr_left
  intro entry met
  rcases (readable entry met).means with ⟨value, trimmed, means⟩
  rcases Entry.spaces_of_means trimmed means with ⟨spaces, rfl, each⟩
  rw [Function.comp_apply, means, Option.map_some, Option.getD_some,
    (settled entry met).resolve_apply hexCase (pieces entry.property) each]
  rfl

theorem Entry.Lists.rewritten {entry : Entry} {pieces : List Text} (lists : entry.Lists pieces)
    (hexCase : HexCase) (criterion : Criterion) :
    (entry.rewritten hexCase criterion pieces).Lists pieces := by
  refine ⟨⟨[pieces], rfl, by simp, List.cons_ne_nil _ _, ?_⟩, lists.seen⟩
  intro list met
  rcases lists.gapped with ⟨first, _, others, same, -⟩
  rw [List.mem_singleton.mp met, same]
  exact List.cons_ne_nil _ _

theorem map_rule_unplaced (hexCase : HexCase) (rules : List Rule) :
    rules.map (fun styleRule => (hexCase.rule styleRule).unplaced) =
      (rules.map Rule.unplaced).map hexCase.rule := by
  rw [List.map_map]
  apply List.map_congr_left
  intro styleRule _
  rw [Function.comp_apply, HexCase.rule, HexCase.rule, Rule.unplaced, Rule.unplaced, List.map_map,
    List.map_map]
  rfl

/-- The lines of the second run are read as those of the first, in the case of the second. -/
theorem map_rule_parse_rewritten (lists : ∀ entry ∈ entries, entry.Lists (pieces entry.property))
    (own : ∀ entry ∈ entries, isOwnName entry.property = true)
    (readable : ∀ entry ∈ entries, entry.Readable (pieces entry.property))
    (noMark : (lines entries).head? ≠ some '\uFEFF') (hexCase : HexCase) (criterion : Criterion) :
    (Stylesheet.parse (lines (entries.map fun entry =>
        entry.rewritten hexCase criterion (pieces entry.property)))).rules.map
          (fun styleRule => (hexCase.rule styleRule).unplaced) =
      (Stylesheet.parse (lines entries)).rules.map
        fun styleRule => (hexCase.rule styleRule).unplaced := by
  let again := entries.map fun entry => entry.rewritten hexCase criterion (pieces entry.property)
  have listsAgain : ∀ entry ∈ again, entry.Lists (pieces entry.property) :=
    List.forall_mem_map.mpr fun entry met => (lists entry met).rewritten hexCase criterion
  have readableAgain : ∀ entry ∈ again, entry.Readable (pieces entry.property) :=
    List.forall_mem_map.mpr fun entry met => (readable entry met).rewritten hexCase criterion
  have ownAgain : ∀ entry ∈ again, isOwnName entry.property = true :=
    List.forall_mem_map.mpr own
  have sameHead : (lines again).head? = (lines entries).head? := by
    rw [head?_lines lists, head?_lines listsAgain, List.head?_map]
    cases entries.head? <;> rfl
  have parsed := map_unplaced_parse_lines listsAgain ownAgain readableAgain (sameHead ▸ noMark)
  rw [map_rule_unplaced, map_rule_unplaced, parsed, map_unplaced_parse_lines lists own readable noMark, List.map_map,
    List.map_map, List.map_map]
  apply List.map_congr_left
  intro entry met
  exact (readable entry met).asRule_rewritten hexCase criterion

end SecondRun

/-! ## Formats of the command line -/

/-- The layout for an indent and a case, or none. -/
def layoutOf (choice : Option (Nat × HexCase)) : Option Layout :=
  choice.map fun given => { Layout.standard.withIndent given.1 with hexCase := given.2 }

/-- The case that hex colors are printed in. -/
def caseOf (choice : Option (Nat × HexCase)) : HexCase :=
  (choice.map Prod.snd).getD .preserve

/-- What is printed for a palette. -/
def output (table : Palette) (choice : Option (Nat × HexCase)) : Text :=
  (layoutOf choice).elim table.css fun layout => layout.format table.css

/-- The output for a palette is read as what was printed: its lines, and the rules of its layout. -/
structure ReadBack (table : Palette) (pieces : Text → List Text) (choice : Option (Nat × HexCase)) :
    Prop where
  lines : List.Forall₂ (fun styleRule entry => entry.ReadAs (pieces entry.property) styleRule)
    (Stylesheet.parse table.css).rules table.entries
  laidOut : (Stylesheet.parse (table.output choice)).rules.map Rule.unplaced =
    (Stylesheet.parse table.css).rules.map fun styleRule =>
      ((caseOf choice).rule styleRule).unplaced

/--
A run on the output for a palette finds its properties in their order, each with all its
pieces in one rule and with its value up to the case of hex colors, and the output of that run
is the output of every later one.
-/
structure Repeats (table : Palette) (pieces : Text → List Text) (color : Color)
    (criterion : Criterion) (choice : Option (Nat × HexCase)) : Prop where
  entries : List.Forall₂
    (fun again entry =>
      again.property = entry.property ∧
        collected (Stylesheet.parse (table.output choice)) color criterion entry.property =
          [pieces entry.property] ∧
        again.selectors = [join ", ".toList (pieces entry.property)] ∧
        HexCase.lower.apply again.value = HexCase.lower.apply entry.value)
    (ofText (table.output choice) color criterion).entries table.entries
  settles : ∃ further,
    (ofText (table.output choice) color criterion).render (layoutOf choice) = some further ∧
      (ofText further color criterion).render (layoutOf choice) = some further

section Run

variable {table : Palette} {pieces : Text → List Text} {choice : Option (Nat × HexCase)}

theorem render_of_some (some : table.entries ≠ []) (choice : Option (Nat × HexCase)) :
    table.render (layoutOf choice) = .some (table.output choice) := by
  have filled : table.isEmpty = false := by rwa [isEmpty, List.isEmpty_eq_false_iff]
  unfold render
  rw [filled, if_neg Bool.false_ne_true]
  cases choice <;> rfl

theorem css_eq_lines (table : Palette) : table.css = lines table.entries := rfl

theorem eq_of_entries_eq {first second : Palette} (same : first.entries = second.entries) :
    first = second := by
  rcases first with ⟨entries, nodup⟩
  rcases second with ⟨others, distinct⟩
  cases (show entries = others from same)
  rfl

/-- A layout prints the first character of the first piece first, as the lines do. -/
theorem head?_sheet_of_readAs {entries : List Entry} {rules : List Rule}
    (lists : ∀ entry ∈ entries, entry.Lists (pieces entry.property))
    (readAs : List.Forall₂ (fun styleRule entry => entry.ReadAs (pieces entry.property) styleRule)
      rules entries) (layout : Layout) :
    (layout.sheet ⟨rules⟩).head? = (lines entries).head? := by
  cases readAs with
  | nil => rfl
  | @cons styleRule entry rules entries here later =>
    have first := lists entry List.mem_cons_self
    rcases first.gapped with ⟨piece, _, others, same, -, -⟩
    rcases first.seen piece (same ▸ List.mem_cons_self) with ⟨c, rest, rfl, -⟩
    have begins : (lines (entry :: entries)).head? = some c := by
      rw [head?_lines lists, List.head?_cons, Option.bind_some, same]
      rfl
    rw [begins, Layout.sheet, List.map_cons, Layout.rule, here.selectors, same]
    cases rules.map layout.rule with
    | nil => simp only [join_singleton, List.append_assoc, head?_join_cons]
    | cons next more => simp only [join_cons_cons, List.append_assoc, head?_join_cons]

/-- An output whose lines and rules are all readable is read back. -/
theorem readBack_of_readable (lists : ∀ entry ∈ table.entries, entry.Lists (pieces entry.property))
    (own : ∀ entry ∈ table.entries, isOwnName entry.property = true)
    (readable : ∀ entry ∈ table.entries, entry.Readable (pieces entry.property))
    (noMark : table.css.head? ≠ some '\uFEFF')
    (printable : ∀ given ∈ choice, ∀ styleRule ∈ (Stylesheet.parse table.css).rules,
      (given.2.rule styleRule).Printable) :
    table.ReadBack pieces choice := by
  refine ⟨(parse_lines_iff lists own).mpr ⟨readable, noMark⟩, ?_⟩
  cases choice with
  | none =>
    apply List.map_congr_left
    intro styleRule _
    rw [caseOf, Option.map_none, Option.getD_none, rule_preserve]
  | some given =>
    rcases given with ⟨width, hexCase⟩
    have plain := Layout.plain_standard width hexCase
    have readAs := (parse_lines_iff lists own).mpr ⟨readable, noMark⟩
    have begins := head?_sheet_of_readAs lists readAs
      { Layout.standard.withIndent width with hexCase := hexCase }
    refine (plain.parse_sheet_iff fun styleRule met => selected_of_mem_parse met).mpr
      ⟨printable (width, hexCase) rfl, ?_⟩
    exact begins ▸ noMark

theorem read_of_readBack (lists : ∀ entry ∈ table.entries, entry.Lists (pieces entry.property))
    (own : ∀ entry ∈ table.entries, isOwnName entry.property = true)
    (readable : ∀ entry ∈ table.entries, entry.Readable (pieces entry.property))
    (noMark : table.css.head? ≠ some '\uFEFF') (back : table.ReadBack pieces choice) :
    (Stylesheet.parse (table.output choice)).rules.map Rule.unplaced =
      table.entries.map fun entry =>
        (caseOf choice).rule (entry.asRule (pieces entry.property)) := by
  rw [back.laidOut, map_rule_unplaced, css_eq_lines,
    map_unplaced_parse_lines lists own readable noMark, List.map_map]
  rfl

/-- The output of the second run is read as the output of the first one is. -/
theorem ofText_output_rewritten
    (lists : ∀ entry ∈ table.entries, entry.Lists (pieces entry.property))
    (own : ∀ entry ∈ table.entries, isOwnName entry.property = true)
    (settled : ∀ entry ∈ table.entries, entry.Settled color criterion)
    (readable : ∀ entry ∈ table.entries, entry.Readable (pieces entry.property))
    (noMark : table.css.head? ≠ some '\uFEFF') (back : table.ReadBack pieces choice)
    {second : Palette} (same : second.entries = table.entries.map fun entry =>
      entry.rewritten (caseOf choice) criterion (pieces entry.property)) :
    ofText (second.output choice) color criterion =
      ofText (table.output choice) color criterion := by
  have again := map_rule_parse_rewritten lists own readable noMark (caseOf choice) criterion
  rw [← same] at again
  cases choice with
  | none =>
    have preserved : HexCase.preserve.rule = id := funext rule_preserve
    rw [map_rule_unplaced, map_rule_unplaced, show caseOf none = .preserve from rfl, preserved,
      List.map_id, List.map_id] at again
    have read := read_of_readBack lists own readable noMark back
    apply eq_of_entries_eq
    have first := extract_of_read read settled readable table.nodup
    have later := extract_of_read (again.trans read) settled readable table.nodup
    exact later.1.trans first.1.symm
  | some given =>
    have stable : second.output (some given) = table.output (some given) :=
      Layout.sheet_of_same again
    rw [stable]

/-- When an output is read back, another run repeats it. -/
theorem repeats_of_readBack (lists : ∀ entry ∈ table.entries, entry.Lists (pieces entry.property))
    (own : ∀ entry ∈ table.entries, isOwnName entry.property = true)
    (settled : ∀ entry ∈ table.entries, entry.Settled color criterion)
    (some : table.entries ≠ [])
    (readable : ∀ entry ∈ table.entries, entry.Readable (pieces entry.property))
    (noMark : table.css.head? ≠ .some '\uFEFF') (back : table.ReadBack pieces choice) :
    table.Repeats pieces color criterion choice := by
  have read := read_of_readBack lists own readable noMark back
  rcases extract_of_read read settled readable table.nodup with ⟨found, single⟩
  have same : (ofText (table.output choice) color criterion).entries = table.entries.map fun entry =>
      entry.rewritten (caseOf choice) criterion (pieces entry.property) := found
  refine ⟨?_, ?_⟩
  · rw [same, List.forall₂_map_left_iff, List.forall₂_same]
    intro entry met
    refine ⟨rfl, single entry met, rfl, ?_⟩
    have decides : HexCase.lower = .preserve → caseOf choice = .preserve := nofun
    cases criterion with
    | exact => rfl
    | substring => exact HexCase.apply_apply decides entry.value
  · have filled : (ofText (table.output choice) color criterion).entries ≠ [] := by
      rw [same]
      exact fun none => some (List.map_eq_nil_iff.mp none)
    refine ⟨_, render_of_some filled choice, ?_⟩
    rw [ofText_output_rewritten lists own settled readable noMark back same]
    exact render_of_some filled choice

end Run

/--
A run on the output of a run reads back what was printed and repeats its table, if and only if
the table is not empty, each of its lines taken by itself is readable, the first character is not
taken for a byte order mark, and each rule that a layout prints is printable.
-/
theorem rerun_repeats_iff (text : Text) (color : Color) (criterion : Criterion)
    (choice : Option (Nat × HexCase)) :
    let table := ofText text color criterion
    let pieces := fun property =>
      (collected (Stylesheet.parse text) color criterion property).flatten
    (table.render (layoutOf choice) = some (table.output choice) ∧ table.ReadBack pieces choice ∧
        table.Repeats pieces color criterion choice) ↔
      table.entries ≠ [] ∧ (∀ entry ∈ table.entries, entry.Readable (pieces entry.property)) ∧
        table.css.head? ≠ some '\uFEFF' ∧
        ∀ given ∈ choice, ∀ styleRule ∈ (Stylesheet.parse table.css).rules,
          (given.2.rule styleRule).Printable := by
  intro table pieces
  have lists : ∀ entry ∈ table.entries, entry.Lists (pieces entry.property) :=
    fun entry met => lists_of_mem_ofText met
  have settled : ∀ entry ∈ table.entries, entry.Settled color criterion :=
    fun entry met => settled_of_mem_extract met
  have own : ∀ entry ∈ table.entries, isOwnName entry.property = true := by
    intro entry met
    apply isOwnName_of_carriesColor
    rw [Property.carriesColor, (settled entry met).longhand]
    rfl
  constructor
  · rintro ⟨rendered, back, -⟩
    rcases (parse_lines_iff lists own).mp back.lines with ⟨readable, noMark⟩
    refine ⟨?_, readable, noMark, ?_⟩
    · intro none
      have empty : table.isEmpty = true := by rw [isEmpty, none]; rfl
      unfold render at rendered
      rw [empty, if_pos rfl] at rendered
      contradiction
    · rintro ⟨width, hexCase⟩ met
      cases Option.mem_def.mp met
      exact (((Layout.plain_standard width hexCase).parse_sheet_iff
        fun styleRule met => selected_of_mem_parse met).mp back.laidOut).1
  · rintro ⟨some, readable, noMark, printable⟩
    have back := readBack_of_readable lists own readable noMark printable
    exact ⟨render_of_some some choice, back,
      repeats_of_readBack lists own settled some readable noMark back⟩

/-- A selector that begins with a wide space is printed without it, and may turn into an at-rule. -/
theorem rerun_loses_at_sign :
    let color : Color := ⟨"fff".toList, by decide, by decide⟩
    let table := ofText "\u00a0@x\x7bcolor:#fff\x7d".toList color .exact
    table.render none = some "@x \x7b color: #fff \x7d\n\n".toList ∧
      (ofText (table.output none) color .exact).entries = [] := by
  decide +kernel

end Palette

end Swatch
