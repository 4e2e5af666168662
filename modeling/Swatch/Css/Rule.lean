import Swatch.Css.Declaration

/-!
# Rules

A list of rules is the whole style sheet or the contents of a grouping block.
Grouping blocks are transparent: the rules inside them stand in the list where
the block does. Every other at-rule is passed over with its whole block, and so
is a rule whose selectors cannot be used. Whatever is passed over ends where its
own text ends, so the next rule is read as if it came first.

Reading gives one list of findings in the order of the source. It holds the
rules that are kept and a notice for everything that is passed over, except for
an `@charset` that comes first in its list.
-/

namespace Swatch.Css

/-- A style rule: its selectors and its declarations. -/
structure Rule where
  selectors : List Text
  declarations : List Declaration
  deriving DecidableEq, Repr

/-- The selectors of a rule in one line. -/
def Rule.selectorText (rule : Rule) : Text :=
  join ", ".toList rule.selectors

/-- A style rule as it stands in the source: the tokens of each selector, and its declarations. -/
structure SourceRule where
  selectors : List (List Token)
  declarations : List SourceDeclaration
  deriving DecidableEq, Repr

/--
What the rule says: its selectors in the spelling of the source, cleaned, and its
declarations.
-/
def SourceRule.rule (found : SourceRule) : Rule :=
  ⟨found.selectors.map fun selector => clean (source selector),
    found.declarations.map SourceDeclaration.declaration⟩

/-- Why a rule was passed over. -/
inductive RuleFault where
  /-- An at-rule that does not group rules, or a selector that is empty. -/
  | unusable
  /-- A style rule without a block. -/
  | missingBlock
  /-- A grouping at-rule without a block. -/
  | ungrouped
  /-- A style rule that begins like the declaration of a custom property. -/
  | customProperty
  deriving DecidableEq, Repr

/-- Something that was passed over: the line on which reading it stopped, and its text. -/
inductive Notice where
  | rule (line : Nat) (text : Text) (fault : RuleFault)
  | declaration (line : Nat) (text : Text)
  deriving DecidableEq, Repr

/-- What reading a list of rules finds. -/
inductive Finding where
  | kept (found : SourceRule)
  | passedOver (notice : Notice)
  deriving DecidableEq, Repr

/-- The at-rules whose blocks hold rules of the list that they stand in. -/
def groupingNames : List Text :=
  ["media", "supports", "document", "layer", "container"].map String.toList

/-- Does an at-rule of this name group rules? -/
def isGroupingName (name : Text) : Bool :=
  groupingNames.any (sameLetters name)

/-- Is the token of no meaning between two rules? -/
def isBetweenRules (token : Token) : Bool :=
  token.isGap || token.kind == .hideOpen || token.kind == .hideClose

/-- Does the token end a list element? -/
def isComma (token : Token) : Bool :=
  token.kind == .comma

/--
Does a style rule that begins with these tokens look like the declaration of a custom
property?
-/
def startsCustomProperty (first : Token) (rest : List Token) : Bool :=
  first.kind == .identifier && "--".toList.isPrefixOf first.name &&
    ((skipGaps rest).head?.map Token.kind == some .colon)

/--
The selectors of a rule whose block opens on the given line. A selector that is
empty once it is cleaned is a failure, with the line on which the first one ends.
-/
def readSelectors (last : Nat) (head : List Token) : Except Nat (List (List Token)) :=
  let pieces := piecesAt isComma last [] head
  match pieces.find? fun piece => (clean (source piece.1)).isEmpty with
  | some piece => .error piece.2
  | none => .ok (pieces.map Prod.fst)

/-- The finding that an item of a body leaves beside the rule: a notice if it was passed over. -/
def BodyItem.finding? : BodyItem → Option Finding
  | .declaration _ => none
  | .skipped line text => some (.passedOver (.declaration line text))

/-- What a style rule gives: a notice for each passed-over item of its body, then the rule. -/
def styleRule (first : Token) (statement : Statement) : List Finding :=
  match statement.ending with
  | .block opening contents _ =>
    match readSelectors opening.line statement.head with
    | .ok selectors =>
      let items := readBody contents
      items.filterMap BodyItem.finding? ++ [.kept ⟨selectors, declarationsOf items⟩]
    | .error line =>
      [.passedOver (.rule line (source (statement.head ++ [opening])) .unusable)]
  | _ =>
    [.passedOver (.rule (lastLine first statement.head) (source statement.head) .missingBlock)]

/-- What the style rule at the front of the tokens gives. -/
def qualifiedRule (first : Token) (rest : List Token) : List Finding :=
  let statement := Statement.read Token.opensBlock (first :: rest)
  if startsCustomProperty first rest then
    [.passedOver (.rule first.line (source statement.tokens) .customProperty)]
  else styleRule first statement

/-- The notice for an at-rule that is passed over. -/
def atRuleNotice (keyword : Token) (statement : Statement) : Notice :=
  if isGroupingName keyword.name then
    .rule (lastLine keyword statement.tokens) (source (keyword :: statement.tokens)) .ungrouped
  else .rule keyword.endLine (source (keyword :: statement.head)) .unusable

/--
The findings in a list of rules. `fresh` holds until the first rule of the
list, which may be an `@charset` and is then dropped in silence.
-/
def readRules (fresh : Bool) (tokens : List Token) : List Finding :=
  match tokens with
  | [] => []
  | first :: rest =>
    if isBetweenRules first then readRules fresh rest
    else if first.kind = .atKeyword then
      let statement := Statement.read endsAtRuleHead rest
      let findings :=
        if fresh && sameLetters first.name "charset".toList then []
        else if isGroupingName first.name && statement.hasBlock then
          readRules true statement.contents
        else [.passedOver (atRuleNotice first statement)]
      findings ++ readRules false statement.rest
    else
      qualifiedRule first rest ++
        readRules false (Statement.read Token.opensBlock (first :: rest)).rest
termination_by tokens.length
decreasing_by
  · simp
  · have := Statement.read_contents_length_le endsAtRuleHead rest
    simp only [List.length_cons]
    omega
  · have := Statement.read_rest_length_le endsAtRuleHead rest
    simp only [List.length_cons]
    omega
  · exact Statement.read_rest_length_lt Token.opensBlock first rest

end Swatch.Css
