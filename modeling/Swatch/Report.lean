import Swatch.Extraction
import Swatch.Text.Quoted

/-!
# Reports

What the program tells about its work: for each step a record with a level, the
part of the program that speaks, and a message. Reading a style sheet reports
everything that it passes over, a scan reports every use of the color, and a run
reports how many rules it found and what it wrote.
-/

namespace Swatch

open Css

/-- How much attention a record asks for. -/
inductive Level where
  | info
  | debug
  deriving DecidableEq, Repr

/-- The part of the program that a record comes from. -/
inductive Origin where
  | reading
  | scanning
  | running
  deriving DecidableEq, Repr

/-- One record of a report. -/
structure Record where
  level : Level
  origin : Origin
  message : Text
  deriving DecidableEq, Repr

/-- The name of a level. -/
def Level.name : Level → Text
  | .info => "INFO".toList
  | .debug => "DEBUG".toList

/-- The name of a part of the program. -/
def Origin.name : Origin → Text
  | .reading => "colorsift::stylesheet".toList
  | .scanning => "colorsift::extract".toList
  | .running => "colorsift::driver".toList

/-- The words for a fault of a rule. -/
def faultText : RuleFault → Text
  | .unusable => "Custom(())".toList
  | .missingBlock => "Basic(EndOfInput)".toList
  | .ungrouped => "Basic(UnexpectedToken(Semicolon))".toList
  | .customProperty => "Basic(QualifiedRuleInvalid)".toList

/-- The message about something that was passed over. -/
def noticeText : Notice → Text
  | .rule line text fault =>
    "skipping rule at line ".toList ++ decimal line ++ ": ".toList ++ quoted (trim text) ++
      " (".toList ++ faultText fault ++ ")".toList
  | .declaration line text =>
    "skipping declaration at line ".toList ++ decimal line ++ ": ".toList ++ quoted (trim text)

/-- The message about a use of the color. -/
def useText (use : Use) : Text :=
  "line ".toList ++ decimal use.declaration.line ++ ": ".toList ++ use.selector ++
    " \x7b ".toList ++ use.declaration.property ++ ": ".toList ++ use.declaration.value ++
    " \x7d -> ".toList ++ use.property

/-- The records of reading a text. -/
def readingReport (text : Text) : List Record :=
  (notices text).map fun notice => ⟨.debug, .reading, noticeText notice⟩

/-- The records of reading and scanning a text. -/
def extractionReport (text : Text) (color : Color) (criterion : Criterion) : List Record :=
  readingReport text ++
    (usesOf (Stylesheet.parse text) color criterion).map fun use =>
      ⟨.debug, .scanning, useText use⟩

end Swatch
