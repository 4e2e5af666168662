import Swatch.Report
import Swatch.Storage
import Swatch.Text.Utf8

/-!
# Jobs

A job is one run of the program: read a style sheet from a file, collect the
uses of a color, and print the result or write it to a file. What the job asks
for is checked before any file is touched, first the color and then the input.
A job that fails, finds nothing or prints its result leaves all files alone.
-/

namespace Swatch

/-- What is asked for. -/
structure Job where
  color : Option Text
  input : Option Text
  /-- Where to write the result; it is printed when there is no such place. -/
  output : Option Text
  criterion : Criterion
  /-- The layout of the result, unless it is to be left as it was put together. -/
  layout : Option Layout
  deriving DecidableEq, Repr

/-- Why a job failed. -/
inductive Failure where
  | missingColor
  | invalidColor (given : Text)
  | missingInput
  | unreadable (path : Text)
  | unwritable (path : Text) (fault : WriteFault)
  deriving DecidableEq, Repr

/-- The message about a failure. -/
def Failure.message : Failure → Text
  | .missingColor => "You need to specify the color to look for".toList
  | .invalidColor given => "Invalid color token: ".toList ++ given
  | .missingInput => "No input file specified.".toList
  | .unreadable path => "No file named ".toList ++ path ++ " found in the directory!".toList
  | .unwritable path fault => "Failed to write ".toList ++ path ++ ": ".toList ++ fault.message

/-- What a job did. -/
inductive Outcome where
  | noMatches
  | generated (css : Text)
  | written (path : Text) (rules : Nat)
  deriving DecidableEq, Repr

/-- How a job ended, and what it told on the way. -/
structure Completion where
  report : List Record
  result : Except Failure Outcome

/-- Reads a color; a text that is none is a failure. -/
def Color.read (text : Text) : Except Failure Color :=
  match Color.parse? text with
  | some color => .ok color
  | none => .error (.invalidColor text)

namespace Job

/-- The color and the input path of a job. -/
def check (job : Job) : Except Failure (Color × Text) := do
  let color ←
    match job.color.filter fun text => trim text ≠ [] with
    | some text => Color.read text
    | none => .error .missingColor
  match job.input.filter (· ≠ []) with
  | some path => .ok (color, path)
  | none => .error .missingInput

/-- The record of how many rules were found. -/
def countRecord (path : Text) (palette : Palette) (color : Color) : Record :=
  ⟨.info, .running,
    path ++ ": ".toList ++ decimal palette.size ++ " color rule(s) for ".toList ++ color.hash⟩

/-- The record of a file that was written. -/
def writtenRecord (path : Text) : Record :=
  ⟨.info, .running, "wrote ".toList ++ path⟩

/-- The records of laying out a palette, for which its text is read once more. -/
def layoutReport (palette : Palette) (layout : Option Layout) : List Record :=
  if layout.isSome && !palette.isEmpty then readingReport palette.css else []

/-- Delivers the result of a job whose input was read. -/
def deliver {m : Type → Type} [Monad m] (storage : Storage m) (job : Job) (color : Color)
    (path text : Text) : m Completion := do
  let palette := Palette.ofText text color job.criterion
  let report := extractionReport text color job.criterion ++ [countRecord path palette color] ++
    layoutReport palette job.layout
  match palette.render job.layout, job.output with
  | none, _ => return ⟨report, .ok .noMatches⟩
  | some css, none => return ⟨report, .ok (.generated css)⟩
  | some css, some output =>
    match ← storage.write output (Utf8.encode css) with
    | some fault => return ⟨report, .error (.unwritable output fault)⟩
    | none => return ⟨report ++ [writtenRecord output], .ok (.written output palette.size)⟩

/-- Runs a job. -/
def run {m : Type → Type} [Monad m] (storage : Storage m) (job : Job) : m Completion := do
  match job.check with
  | .error failure => return ⟨[], .error failure⟩
  | .ok (color, path) =>
    match ← storage.read path with
    | none => return ⟨[], .error (.unreadable path)⟩
    | some bytes => job.deliver storage color path (Utf8.decode bytes)

end Job

end Swatch
