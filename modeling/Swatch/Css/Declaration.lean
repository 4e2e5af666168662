import Swatch.Css.Nesting
import Swatch.Css.Cleaning

/-!
# Declarations

The body of a style rule is a list of items. An item that begins with an
identifier is read as a declaration and reaches to the next semicolon on top;
an at-rule reaches to its semicolon or through its block; any other item
reaches to the next semicolon on top. Only declarations mean something here.
Every other item is passed over, and passing over one never touches the next.

A declaration has a colon after its name and a value that is not empty once it
is cleaned. The first `!important` on top ends the value and has to be the end
of the declaration too. A passed-over item is reported by the line on which
reading it stopped.
-/

namespace Swatch.Css

/--
A property with its value, and the line on which the property stands, which is counted like the
lines of tokens.
-/
structure Declaration where
  property : Text
  value : Text
  important : Bool
  line : Nat
  deriving DecidableEq, Repr

/--
A declaration as it stands in the source: its name, and the tokens of its value from the
colon on, without the gaps at their end.
-/
structure SourceDeclaration where
  name : Token
  value : List Token
  important : Bool
  deriving DecidableEq, Repr

/-- One item of a body: a declaration, or text that was passed over. -/
inductive BodyItem where
  | declaration (found : SourceDeclaration)
  /-- The line on which reading stopped, and the text of the whole item. -/
  | skipped (line : Nat) (text : Text)
  deriving DecidableEq, Repr

/--
The word of the mark `!important` at the front, after its `!`, with the tokens that
follow the mark.
-/
def importantMark (first : Token) (rest : List Token) : Option (Token × List Token) :=
  if first.kind = .delimiter ∧ first.text = ['!'] then
    match skipGaps rest with
    | word :: after =>
      if word.kind = .identifier ∧ sameLetters word.name "important".toList then
        some (word, after)
      else none
    | [] => none
  else none

/-- The tokens before the first mark on top, and the mark with what follows it. -/
def splitImportant (stack : List Bracket) :
    List Token → List Token × Option (Token × List Token)
  | [] => ([], none)
  | token :: rest =>
    match if stack.isEmpty then importantMark token rest else none with
    | some mark => ([], some mark)
    | none =>
      let split := splitImportant (nest stack token) rest
      (token :: split.1, split.2)

/--
The tokens of a value without the gaps at its end. While a bracket is open, a gap
belongs to what the bracket holds and stays.
-/
def withoutEndGaps (value : List Token) : List Token :=
  if value.foldl nest [] = [] then dropEndWhile Token.isGap value else value

/-- Property names are lower case, except for those that begin with two dashes. -/
def propertyName (name : Text) : Text :=
  if "--".toList.isPrefixOf name then name else lower name

namespace SourceDeclaration

/-- The value in the spelling of the source, cleaned. -/
def text (found : SourceDeclaration) : Text :=
  clean (source found.value)

/-- What the declaration says. -/
def declaration (found : SourceDeclaration) : Declaration :=
  ⟨propertyName found.name.name, found.text, found.important, found.name.line⟩

/--
Reads a declaration from its name and the tokens up to its semicolon. A
failure is the line on which reading stopped.
-/
def read (name : Token) (tokens : List Token) : Except Nat SourceDeclaration :=
  match skipGaps tokens with
  | [] => .error (lastLine name tokens)
  | colon :: value =>
    if colon.kind = .colon then
      let split := splitImportant [] value
      let found := SourceDeclaration.mk name (withoutEndGaps split.1) split.2.isSome
      let stop := (split.2.map fun mark => mark.1.endLine).getD (lastLine name tokens)
      let extra := (split.2.map fun mark => skipGaps mark.2).getD []
      if found.text = [] ∨ extra ≠ [] then .error stop else .ok found
    else .error name.endLine

end SourceDeclaration

/-- Does the token end the head of an at-rule? -/
def endsAtRuleHead (token : Token) : Bool :=
  token.kind == .semicolon || token.opensBlock

/-- Does the token end an item of a body? -/
def endsItem (token : Token) : Bool :=
  token.kind == .semicolon

/--
The item that begins with a token, from the tokens up to its semicolon and the whole
text of it.
-/
def BodyItem.read (first : Token) (tokens : List Token) (text : Text) : BodyItem :=
  if first.kind = .identifier then
    match SourceDeclaration.read first tokens with
    | .ok found => .declaration found
    | .error line => .skipped line text
  else .skipped first.line text

/-- The items of a body, from the tokens between its curly brackets. -/
def readBody (tokens : List Token) : List BodyItem :=
  match tokens with
  | [] => []
  | first :: rest =>
    if first.isGap || endsItem first then readBody rest
    else if first.kind = .atKeyword then
      let rule := Statement.read endsAtRuleHead rest
      .skipped first.endLine (source (first :: rule.head)) :: readBody rule.rest
    else
      let cut := cutAt endsItem (nest [] first) rest
      let item := source (first :: cut.1 ++ cut.2.take 1)
      BodyItem.read first cut.1 item :: readBody (cut.2.drop 1)
termination_by tokens.length
decreasing_by
  · simp
  · have := Statement.read_rest_length_le endsAtRuleHead rest
    simp only [List.length_cons]
    omega
  · have := cutAt_length_le endsItem (nest [] first) rest
    simp only [List.length_drop, List.length_cons]
    omega

/-- The declarations among the items of a body. -/
def declarationsOf (items : List BodyItem) : List SourceDeclaration :=
  items.filterMap fun
    | .declaration found => some found
    | .skipped _ _ => none

end Swatch.Css
