import Swatch.Settings
import Swatch.Text.Terminal

/-!
# The command line

A program run reads its arguments, runs the job that they ask for and leaves an
exit code, a text for the output and a text for the error output: the records
that the verbosity lets through, and the message of a failure. Records are shown
without control sequences, each by itself; the message of a failure is not
touched. A run whose job cannot be made breaks off before anything is done.
-/

namespace Swatch

/-- What the program leaves behind besides files. -/
structure Execution where
  code : Nat
  output : Text
  errors : Text
  deriving DecidableEq, Repr

/-- A level name with spaces after it up to five characters. -/
def Level.padded (level : Level) : Text :=
  level.name ++ List.replicate (5 - level.name.length) ' '

/-- What stands before the message of a record. -/
def Record.heading (record : Record) : Text :=
  "[".toList ++ record.level.padded ++ " ".toList ++ record.origin.name ++ "] ".toList

/-- A message with its further lines indented. -/
def indented (message : Text) : Text :=
  message.flatMap fun c => if c = '\n' then '\n' :: List.replicate 4 ' ' else [c]

/-- A record as it is shown, with the line end after it. -/
def Record.text (record : Record) : Text :=
  Terminal.shown (record.heading ++ indented record.message ++ "\n".toList)

/-- What is printed for the result of a job. -/
def Settings.printed (settings : Settings) : Except Failure Outcome → Text
  | .ok (.generated css) => css ++ "\n".toList
  | .ok (.written _ _) => if settings.quiet then [] else "All done!\n".toList
  | .ok .noMatches => []
  | .error _ => []

/-- How a program run ends that ran a job. -/
def Settings.execution (settings : Settings) (completion : Completion) : Execution :=
  let records := completion.report.filter fun record => settings.shows record.level
  let shown := records.flatMap Record.text
  let output := settings.printed completion.result
  match completion.result with
  | .ok _ => ⟨0, output, shown⟩
  | .error failure => ⟨1, output, shown ++ "error: ".toList ++ failure.message ++ "\n".toList⟩

/-- How a program run ends that did not come to run a job. -/
def Stop.execution : Stop → Execution
  | .version => ⟨0, "colorsift 0.1.0\n".toList, []⟩
  | .misuse => ⟨2, [], "usage: colorsift [OPTIONS] [COLOR] [INPUT] [OUTPUT]\n".toList⟩

/-- How a program run ends that breaks off because a text would be too long. -/
def Execution.overflow : Execution :=
  ⟨101, [], "capacity overflow\n".toList⟩

/-- Runs the program with its arguments. -/
def execute {m : Type → Type} [Monad m] (storage : Storage m) (arguments : List Text) :
    m Execution := do
  match Settings.parse arguments with
  | .error stop => return stop.execution
  | .ok settings =>
    match settings.job? with
    | none => return .overflow
    | some job => return settings.execution (← job.run storage)

end Swatch
