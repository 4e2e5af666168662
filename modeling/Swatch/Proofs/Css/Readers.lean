import Swatch.Css.Token

/-!
# How the token at the front is read

The first characters of a text decide which reader takes the token at the front; only
then does the reader look further. What two texts have in common at the front therefore
splits in two: they choose the same reader, and this reader finds the same in both.
-/

namespace Swatch.Css

/-- The readers of tokens. -/
inductive Reader where
  /-- Takes a token whose kind and length are known. -/
  | fixed (kind : TokenKind) (size : Nat)
  | blanks
  | string
  | comment
  | number
  | name
  /-- Takes the name behind a mark. -/
  | marked (kind : TokenKind)

/-- The reader of the token that begins with these characters. -/
def readerOf (first : Char) (rest : Text) : Reader :=
  match punctuation first with
  | some kind => .fixed kind 1
  | none =>
    if isBlank first then .blanks
    else if isQuote first then .string
    else if "/*".toList.isPrefixOf (first :: rest) then .comment
    else if startsNumber (first :: rest) then .number
    else if "<!--".toList.isPrefixOf (first :: rest) then .fixed .hideOpen 4
    else if "-->".toList.isPrefixOf (first :: rest) then .fixed .hideClose 3
    else if startsName (first :: rest) then .name
    else if first == '#' && startsHashName rest then .marked .hash
    else if first == '@' && startsName rest then .marked .atKeyword
    else if "$*^|~".toList.contains first && rest.head? == some '=' then .fixed .comparison 2
    else .fixed .delimiter 1

/-- The kind and the length of the token that the reader takes. -/
def Reader.read (first : Char) (rest : Text) : Reader → TokenKind × Nat
  | .fixed kind size => (kind, size)
  | .blanks => (.blank, 1 + blankLength rest)
  | .string => ((stringTail first rest).1, 1 + (stringTail first rest).2)
  | .comment => (.comment, 2 + commentTailLength (rest.drop 1))
  | .number => numeric (first :: rest)
  | .name => named (first :: rest)
  | .marked kind => (kind, 1 + nameLength rest)

variable {first : Char} {rest : Text}

theorem lexeme_eq_read (first : Char) (rest : Text) :
    lexeme first rest = (readerOf first rest).read first rest := by
  unfold lexeme readerOf
  cases punctuation first with
  | some kind => rfl
  | none =>
    simp only [apply_ite (Reader.read first rest)]
    rfl

/-- What the choice of a reader shows about the characters at the front. -/
inductive Reader.Chosen (first : Char) (rest : Text) : Reader → Prop
  | punctuation {kind : TokenKind} (known : punctuation first = some kind) :
      Chosen first rest (.fixed kind 1)
  | blanks (blank : isBlank first = true) : Chosen first rest .blanks
  | string (quote : isQuote first = true) : Chosen first rest .string
  | comment (mark : "/*".toList.isPrefixOf (first :: rest) = true) : Chosen first rest .comment
  | number (starts : startsNumber (first :: rest) = true) : Chosen first rest .number
  | hideOpen (mark : "<!--".toList.isPrefixOf (first :: rest) = true) :
      Chosen first rest (.fixed .hideOpen 4)
  | hideClose (mark : "-->".toList.isPrefixOf (first :: rest) = true) :
      Chosen first rest (.fixed .hideClose 3)
  | name (starts : startsName (first :: rest) = true) : Chosen first rest .name
  | hash (mark : first = '#') (starts : startsHashName rest = true) :
      Chosen first rest (.marked .hash)
  | atKeyword (mark : first = '@') (starts : startsName rest = true) :
      Chosen first rest (.marked .atKeyword)
  | comparison (noBlank : isBlank first = false) (equals : rest.head? = some '=')
      (mark : first ∈ "$*^|~".toList) : Chosen first rest (.fixed .comparison 2)
  | delimiter (noBlank : isBlank first = false) (noQuote : isQuote first = false) :
      Chosen first rest (.fixed .delimiter 1)

theorem chosen_readerOf (first : Char) (rest : Text) :
    (readerOf first rest).Chosen first rest := by
  unfold readerOf
  cases known : punctuation first with
  | some kind => exact .punctuation known
  | none =>
    refine iteInduction .blanks fun blank => ?_
    have noBlank : isBlank first = false := Bool.eq_false_iff.mpr blank
    refine iteInduction .string fun quote => ?_
    have noQuote : isQuote first = false := Bool.eq_false_iff.mpr quote
    refine iteInduction .comment fun _ => ?_
    refine iteInduction .number fun _ => ?_
    refine iteInduction .hideOpen fun _ => ?_
    refine iteInduction .hideClose fun _ => ?_
    refine iteInduction .name fun _ => ?_
    simp only [Bool.and_eq_true, beq_iff_eq, List.contains_iff_mem]
    refine iteInduction (fun mark => .hash mark.1 mark.2) fun _ => ?_
    refine iteInduction (fun mark => .atKeyword mark.1 mark.2) fun _ => ?_
    exact iteInduction (fun mark => .comparison noBlank mark.2 mark.1)
      fun _ => .delimiter noBlank noQuote

theorem isQuote_of_string (reader : readerOf first rest = .string) : isQuote first = true := by
  have chosen := chosen_readerOf first rest
  rw [reader] at chosen
  cases chosen with
  | string quote => exact quote

theorem star_of_comment (reader : readerOf first rest = .comment) : ∃ more, rest = '*' :: more := by
  have chosen := chosen_readerOf first rest
  rw [reader] at chosen
  cases chosen with
  | comment mark =>
    rcases List.isPrefixOf_iff_prefix.mp mark with ⟨more, parts⟩
    exact ⟨more, (List.cons.inj parts).2.symm⟩

end Swatch.Css
