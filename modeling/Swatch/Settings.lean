import Swatch.Job

/-!
# Settings

The arguments of the program say which job to run and what to tell about it.
They are read from left to right, and the first thing that decides the matter
wins: an argument that cannot be used, or the question for the version. Options
and positional arguments mix freely, `--` makes everything after it positional,
and no option but `--verbose` may be given twice.

An option with a value takes it after `=` or from the next argument, which must
not begin with `-`. Short flags can be written together behind one dash.
-/

namespace Swatch

/-- What the arguments ask for. -/
structure Settings where
  color : Option Text
  input : Option Text
  output : Option Text
  criterion : Option Criterion
  raw : Bool
  indent : Option Nat
  hexCase : Option HexCase
  quiet : Bool
  verbosity : Nat
  deriving DecidableEq, Repr

/-- Why reading the arguments stopped before their end. -/
inductive Stop where
  | misuse
  | version
  deriving DecidableEq, Repr

/-- The options that take a value. -/
inductive ValueOption where
  | criterion
  | indent
  | hexCase
  deriving DecidableEq, Repr

/-- The options without a value. -/
inductive Flag where
  | raw
  | quiet
  | verbose
  | version
  deriving DecidableEq, Repr

/-- The option with a value that a long name stands for. -/
def ValueOption.ofName? (name : Text) : Option ValueOption :=
  if name = "match".toList then some .criterion
  else if name = "indent".toList then some .indent
  else if name = "color-case".toList then some .hexCase
  else none

/-- The flag that a long name stands for. -/
def Flag.ofName? (name : Text) : Option Flag :=
  if name = "raw".toList then some .raw
  else if name = "quiet".toList then some .quiet
  else if name = "verbose".toList then some .verbose
  else if name = "version".toList then some .version
  else none

/-- The flag that a letter stands for. -/
def Flag.ofLetter? (letter : Char) : Option Flag :=
  if letter = 'q' then some .quiet
  else if letter = 'v' then some .verbose
  else if letter = 'V' then some .version
  else none

/-- The criterion of a name. -/
def Criterion.ofName? (name : Text) : Option Criterion :=
  if name = "exact".toList then some .exact
  else if name = "substring".toList then some .substring
  else none

/-- The letter case of a name. -/
def HexCase.ofName? (name : Text) : Option HexCase :=
  if name = "lower".toList then some .lower
  else if name = "upper".toList then some .upper
  else if name = "preserve".toList then some .preserve
  else none

/-- Leaves out a plus sign at the front. -/
def withoutPlus : Text → Text
  | '+' :: rest => rest
  | text => text

/-- A count that is written in decimal digits and fits into 64 bits. -/
def countOf? (text : Text) : Option Nat :=
  let digits := withoutPlus text
  let count := digits.foldl (fun value digit => 10 * value + (digit.toNat - '0'.toNat)) 0
  if digits ≠ [] ∧ digits.all Char.isDigit = true ∧ count < UInt64.size then some count else none

namespace Settings

/-- Nothing is asked for yet. -/
def initial : Settings :=
  ⟨none, none, none, none, false, none, none, false, 0⟩

/--
Takes one more positional argument: the color, the input and the output, of which paths
are not empty.
-/
def addPositional (settings : Settings) (argument : Text) : Except Stop Settings :=
  if settings.color.isNone then .ok { settings with color := some argument }
  else if argument = [] then .error .misuse
  else if settings.input.isNone then .ok { settings with input := some argument }
  else if settings.output.isNone then .ok { settings with output := some argument }
  else .error .misuse

/-- Takes an option with its value. -/
def addValue (settings : Settings) (given : ValueOption) (value : Text) :
    Except Stop Settings :=
  match given with
  | .criterion =>
    match settings.criterion, Criterion.ofName? value with
    | none, some criterion => .ok { settings with criterion := some criterion }
    | _, _ => .error .misuse
  | .indent =>
    match settings.indent, countOf? value with
    | none, some indent => .ok { settings with indent := some indent }
    | _, _ => .error .misuse
  | .hexCase =>
    match settings.hexCase, HexCase.ofName? value with
    | none, some hexCase => .ok { settings with hexCase := some hexCase }
    | _, _ => .error .misuse

/-- Takes a flag. -/
def addFlag (settings : Settings) (flag : Flag) : Except Stop Settings :=
  match flag with
  | .raw => if settings.raw then .error .misuse else .ok { settings with raw := true }
  | .quiet => if settings.quiet then .error .misuse else .ok { settings with quiet := true }
  | .verbose => .ok { settings with verbosity := settings.verbosity + 1 }
  | .version => .error .version

/-- Takes short flags that are written together. -/
def addLetters (settings : Settings) (letters : Text) : Except Stop Settings :=
  letters.foldlM
    (fun current letter =>
      match Flag.ofLetter? letter with
      | some flag => current.addFlag flag
      | none => .error .misuse)
    settings

/-- What a long option is written as: its name, and its value if it has one after `=`. -/
def splitLong (argument : Text) : Text × Option Text :=
  let name := argument.takeWhile (· ≠ '=')
  match argument.drop name.length with
  | _ :: value => (name, some value)
  | [] => (name, none)

/-- Takes all arguments. -/
def addAll (settings : Settings) : List Text → Except Stop Settings
  | [] => .ok settings
  | ('-' :: '-' :: []) :: rest => rest.foldlM addPositional settings
  | ('-' :: '-' :: long) :: rest =>
    match ValueOption.ofName? (splitLong long).1, (splitLong long).2 with
    | some given, some value => do (← settings.addValue given value).addAll rest
    | some given, none =>
      match rest with
      | [] => .error .misuse
      | value :: others =>
        if value.head? = some '-' then .error .misuse
        else do (← settings.addValue given value).addAll others
    | none, some _ => .error .misuse
    | none, none =>
      match Flag.ofName? long with
      | some flag => do (← settings.addFlag flag).addAll rest
      | none => .error .misuse
  | ('-' :: letter :: letters) :: rest => do
    (← settings.addLetters (letter :: letters)).addAll rest
  | argument :: rest => do (← settings.addPositional argument).addAll rest

/-- Reads the arguments of the program. -/
def parse (arguments : List Text) : Except Stop Settings :=
  initial.addAll arguments

/--
The layout of the result, or `some none` if it is to be left as it was put together. There is
none when the layout asks for more spaces than a text can hold.
-/
def layout? (settings : Settings) : Option (Option Layout) :=
  if settings.raw then some none
  else
    (Layout.standard.withIndent? (settings.indent.getD 4)).map fun layout =>
      some { layout with hexCase := settings.hexCase.getD .lower }

/-- The job that the arguments ask for, if its layout can be made. -/
def job? (settings : Settings) : Option Job :=
  settings.layout?.map fun layout =>
    { color := settings.color
      input := settings.input
      output := settings.output
      criterion := settings.criterion.getD .exact
      layout := layout }

theorem job?_eq_none_iff {settings : Settings} :
    settings.job? = none ↔
      settings.raw = false ∧ Layout.maxBytes < settings.indent.getD 4 := by
  rw [job?, layout?, Option.map_eq_none_iff]
  cases settings.raw <;> simp [Layout.withIndent?_eq_none_iff]

theorem output_of_job? {settings : Settings} {job : Job} (made : settings.job? = some job) :
    job.output = settings.output := by
  rcases Option.map_eq_some_iff.mp made with ⟨layout, -, rfl⟩
  rfl

/-- Is a record of this level shown? -/
def shows (settings : Settings) (level : Level) : Bool :=
  match level with
  | .info => 1 ≤ settings.verbosity
  | .debug => 2 ≤ settings.verbosity

end Settings

end Swatch
