import Swatch.Css.Rule

/-!
# Style sheets

A style sheet is the list of its style rules in the order of the source, with
the rules of grouping blocks among them. Reading one never fails; what it had
to pass over is kept as a list of notices.
-/

namespace Swatch.Css

/-- The rules of a style sheet. -/
structure Stylesheet where
  rules : List Rule
  deriving DecidableEq, Repr

/-- A byte order mark at the front is not part of the style sheet. -/
def withoutMark : Text → Text
  | '\uFEFF' :: rest => rest
  | text => text

/-- Everything that reading a text finds. -/
def findings (text : Text) : List Finding :=
  readRules true (tokenize 1 (withoutMark text))

/-- What reading a text passes over. -/
def notices (text : Text) : List Notice :=
  (findings text).filterMap fun
    | .kept _ => none
    | .passedOver notice => some notice

/-- The rules that reading a text keeps, as they stand in the source. -/
def sourceRules (text : Text) : List SourceRule :=
  (findings text).filterMap fun
    | .kept found => some found
    | .passedOver _ => none

namespace Stylesheet

/-- Reads a style sheet. -/
def parse (text : Text) : Stylesheet :=
  ⟨(sourceRules text).map SourceRule.rule⟩

/-- Every declaration together with the rule that it stands in, in the order of the source. -/
def declarations (sheet : Stylesheet) : List (Rule × Declaration) :=
  sheet.rules.flatMap fun rule => rule.declarations.map fun declared => (rule, declared)

end Stylesheet

end Swatch.Css
