import Swatch.Settings
import Mathlib.Data.List.Induction
import Mathlib.Data.List.Forall2
import Mathlib.Data.List.TakeWhile
import Mathlib.Tactic.SplitIfs

/-!
# What arguments ask for

The arguments of the program are written in a small language: a list of requests, each of
them a positional argument, an option with its value, or a flag. `Asks` says how requests
are spelled, and nothing else; whether they may stand together is a matter of `Permitted`,
which counts them, and what they amount to is read off them by `settingsOf`, a setting at a
time. Reading the arguments gives settings exactly when these three agree, so the settings
do not depend on how requests are spelled or how requests of different kinds are mixed.
-/

namespace Swatch

/-- One thing that arguments ask for. -/
inductive Request where
  | positional (argument : Text)
  | value (given : ValueOption) (argument : Text)
  | flag (asked : Flag)
  deriving DecidableEq, Repr

/-- The arguments spell the requests. -/
inductive Asks : List Text → List Request → Prop
  | nil : Asks [] []
  | separated (rest : List Text) : Asks (['-', '-'] :: rest) (rest.map .positional)
  | joined {name : Text} {given : ValueOption} {rest : List Text} {requests : List Request}
      (named : ValueOption.ofName? name = some given) (argument : Text)
      (further : Asks rest requests) :
      Asks (('-' :: '-' :: (name ++ '=' :: argument)) :: rest) (.value given argument :: requests)
  | apart {name argument : Text} {given : ValueOption} {rest : List Text} {requests : List Request}
      (named : ValueOption.ofName? name = some given) (noDash : argument.head? ≠ some '-')
      (further : Asks rest requests) :
      Asks (('-' :: '-' :: name) :: argument :: rest) (.value given argument :: requests)
  | long {name : Text} {asked : Flag} {rest : List Text} {requests : List Request}
      (named : Flag.ofName? name = some asked) (further : Asks rest requests) :
      Asks (('-' :: '-' :: name) :: rest) (.flag asked :: requests)
  | letters {letters : Text} {flags : List Flag} {rest : List Text} {requests : List Request}
      (filled : letters ≠ [])
      (named : List.Forall₂ (fun letter asked => Flag.ofLetter? letter = some asked) letters flags)
      (further : Asks rest requests) : Asks (('-' :: letters) :: rest) (flags.map .flag ++ requests)
  | positional {argument : Text} {rest : List Text} {requests : List Request}
      (plain : argument.head? = some '-' → argument = ['-']) (further : Asks rest requests) :
      Asks (argument :: rest) (.positional argument :: requests)

namespace Request

/-- The settings with one more request, if it may follow those that they come from. -/
def add (settings : Settings) : Request → Except Stop Settings
  | positional argument => settings.addPositional argument
  | value given argument => settings.addValue given argument
  | flag asked => settings.addFlag asked

end Request

/-! ## Spelling -/

theorem ok_bind_eq {α β : Type} {found : Except Stop α} {next : α → Except Stop β} {result : β}
    (done : found >>= next = .ok result) : ∃ value, found = .ok value ∧ next value = .ok result := by
  cases found with
  | error stop => contradiction
  | ok value => exact ⟨value, rfl, done⟩

theorem ofName?_cases {name : Text} {given : ValueOption}
    (named : ValueOption.ofName? name = some given) : name ≠ [] ∧ '=' ∉ name := by
  unfold ValueOption.ofName? at named
  split_ifs at named <;> subst name <;> decide

theorem flagName_cases {name : Text} {asked : Flag} (named : Flag.ofName? name = some asked) :
    name ≠ [] ∧ '=' ∉ name ∧ ValueOption.ofName? name = none := by
  unfold Flag.ofName? at named
  split_ifs at named <;> subst name <;> decide

namespace Settings

theorem takeWhile_name {name : Text} (plain : '=' ∉ name) : name.takeWhile (· ≠ '=') = name := by
  apply List.takeWhile_eq_self_iff.mpr
  intro c met
  simpa using fun same : c = '=' => plain (same ▸ met)

theorem splitLong_plain {name : Text} (plain : '=' ∉ name) : splitLong name = (name, none) := by
  rw [splitLong, takeWhile_name plain]
  simp

theorem splitLong_joined {name : Text} (plain : '=' ∉ name) (argument : Text) :
    splitLong (name ++ '=' :: argument) = (name, some argument) := by
  have front : (name ++ '=' :: argument).takeWhile (· ≠ '=') = name := by
    rw [List.takeWhile_append, takeWhile_name plain]
    simp
  rw [splitLong, front]
  simp

/-- A long argument is its name, or its name and its value on the two sides of the first `=`. -/
theorem splitLong_cases (long : Text) :
    splitLong long = (long, none) ∨
      ∃ name argument, long = name ++ '=' :: argument ∧ splitLong long = (name, some argument) := by
  have parts := List.takeWhile_append_dropWhile (p := (· ≠ '=')) (l := long)
  by_cases plain : '=' ∈ long
  · right
    have stops := List.head?_dropWhile_not (· ≠ '=') long
    cases behind : long.dropWhile (· ≠ '=') with
    | nil =>
      rw [List.dropWhile_eq_nil_iff] at behind
      simpa using behind '=' plain
    | cons c argument =>
      rw [behind] at parts stops
      have mark : c = '=' := by simpa using stops
      subst mark
      have name : '=' ∉ long.takeWhile (· ≠ '=') := by
        intro met
        simpa using List.mem_takeWhile_imp met
      refine ⟨_, argument, parts.symm, ?_⟩
      conv => lhs; rw [← parts]
      exact splitLong_joined name argument
  · exact .inl (splitLong_plain plain)

theorem addLetters_eq {letters : Text} {flags : List Flag}
    (named : List.Forall₂ (fun letter asked => Flag.ofLetter? letter = some asked) letters flags)
    (settings : Settings) :
    settings.addLetters letters = (flags.map Request.flag).foldlM Request.add settings := by
  unfold addLetters
  induction named generalizing settings with
  | nil => rfl
  | @cons letter asked _ _ first rest ih =>
    rw [List.foldlM_cons, List.map_cons, List.foldlM_cons, first]
    change settings.addFlag asked >>= _ = settings.addFlag asked >>= _
    cases settings.addFlag asked with
    | error stop => rfl
    | ok next => exact ih next

/-- Arguments that spell requests are taken request by request. -/
theorem addAll_eq {arguments : List Text} {requests : List Request}
    (asks : Asks arguments requests) (settings : Settings) :
    settings.addAll arguments = requests.foldlM Request.add settings := by
  induction asks generalizing settings with
  | nil => rfl
  | separated rest =>
    rw [List.foldlM_map]
    rfl
  | @joined name given rest requests named argument further ih =>
    rw [addAll.eq_3 _ _ _ (by simp), splitLong_joined (ofName?_cases named).2, named]
    exact bind_congr ih
  | @apart name argument given rest requests named noDash further ih =>
    rcases ofName?_cases named with ⟨filled, plain⟩
    rw [addAll.eq_3 _ _ _ filled, splitLong_plain plain, named]
    simp only [noDash, ↓reduceIte]
    exact bind_congr ih
  | @long name asked rest requests named further ih =>
    rcases flagName_cases named with ⟨filled, plain, noValue⟩
    rw [addAll.eq_3 _ _ _ filled, splitLong_plain plain, noValue, named]
    exact bind_congr ih
  | @letters letters flags rest requests filled named further ih =>
    cases named with
    | nil => contradiction
    | @cons letter asked _ _ first others =>
      have noDash : letter ≠ '-' := by
        rintro rfl
        contradiction
      rw [addAll.eq_4 _ _ _ _ (fun dash _ => noDash dash) noDash,
        addLetters_eq (.cons first others), List.foldlM_append]
      exact bind_congr ih
  | @positional argument rest requests plain further ih =>
    have noLetters (letter : Char) (letters : Text) : argument ≠ '-' :: letter :: letters := by
      rintro rfl
      exact List.cons_ne_nil _ _ (List.cons.inj (plain rfl)).2
    rw [addAll.eq_5 _ _ _ (noLetters _ _) (noLetters _) noLetters]
    exact bind_congr ih

/-- Letters that are taken are those of flags. -/
theorem flags_of_addLetters {settings next : Settings} {letters : Text}
    (added : settings.addLetters letters = .ok next) :
    ∃ flags, List.Forall₂ (fun letter asked => Flag.ofLetter? letter = some asked) letters flags := by
  unfold addLetters at added
  induction letters generalizing settings with
  | nil => exact ⟨[], .nil⟩
  | cons letter letters ih =>
    rw [List.foldlM_cons] at added
    rcases ok_bind_eq added with ⟨middle, first, later⟩
    rcases ih later with ⟨flags, named⟩
    cases asked : Flag.ofLetter? letter with
    | none =>
      rw [asked] at first
      contradiction
    | some flag => exact ⟨flag :: flags, .cons asked named⟩

/-- Arguments that give settings spell requests. -/
theorem exists_asks {settings final : Settings} {arguments : List Text}
    (accepted : settings.addAll arguments = .ok final) : ∃ requests, Asks arguments requests := by
  fun_induction addAll settings arguments generalizing final with
  | case1 => exact ⟨[], .nil⟩
  | case2 settings rest => exact ⟨_, .separated rest⟩
  | case3 settings long rest filled given value found named ih =>
    rcases ok_bind_eq accepted with ⟨next, -, later⟩
    rcases ih next later with ⟨requests, asks⟩
    rcases splitLong_cases long with plain | ⟨name, argument, rfl, split⟩
    · rw [plain] at found
      contradiction
    · rw [split] at named
      exact ⟨_, .joined named argument asks⟩
  | case4 => contradiction
  | case5 => contradiction
  | case6 settings long filled given found named value others noDash ih =>
    rcases ok_bind_eq accepted with ⟨next, -, later⟩
    rcases ih next later with ⟨requests, asks⟩
    rcases splitLong_cases long with plain | ⟨name, argument, rfl, split⟩
    · rw [plain] at named
      exact ⟨_, .apart named noDash asks⟩
    · rw [split] at found
      contradiction
  | case7 => contradiction
  | case8 settings long rest filled found noValue asked named ih =>
    rcases ok_bind_eq accepted with ⟨next, -, later⟩
    rcases ih next later with ⟨requests, asks⟩
    exact ⟨_, .long named asks⟩
  | case9 => contradiction
  | case10 settings letter letters rest noSeparator noLong ih =>
    rcases ok_bind_eq accepted with ⟨next, first, later⟩
    rcases ih next later with ⟨requests, asks⟩
    rcases flags_of_addLetters first with ⟨flags, named⟩
    exact ⟨_, .letters (List.cons_ne_nil _ _) named asks⟩
  | case11 settings argument rest noSeparator noLong noLetters ih =>
    rcases ok_bind_eq accepted with ⟨next, -, later⟩
    rcases ih next later with ⟨requests, asks⟩
    refine ⟨_, .positional (fun dash => ?_) asks⟩
    rcases List.head?_eq_some_iff.mp dash with ⟨letters, rfl⟩
    cases letters with
    | nil => rfl
    | cons letter letters => exact (noLetters letter letters rfl).elim

end Settings

/-! ## Settings of requests -/

/-- Does the option take the argument as its value? -/
def ValueOption.takes (given : ValueOption) (argument : Text) : Bool :=
  match given with
  | .criterion => (Criterion.ofName? argument).isSome
  | .indent => (countOf? argument).isSome
  | .hexCase => (HexCase.ofName? argument).isSome

namespace Request

/-- The positional arguments, in order. -/
def positionals (requests : List Request) : List Text :=
  requests.filterMap fun
    | positional argument => some argument
    | _ => none

/-- The values that an option is given, in order. -/
def values (given : ValueOption) (requests : List Request) : List Text :=
  requests.filterMap fun
    | value other argument => if other = given then some argument else none
    | _ => none

/-- Requests that may stand together. -/
structure Permitted (requests : List Request) : Prop where
  places : (positionals requests).length ≤ 3
  /-- The input and the output are named. -/
  paths : ∀ path ∈ (positionals requests).tail, path ≠ []
  once : ∀ given, (values given requests).length ≤ 1
  known : ∀ given, ∀ argument ∈ values given requests, given.takes argument = true
  flags : ∀ asked, asked ≠ .verbose → requests.count (flag asked) ≤ 1
  noVersion : flag .version ∉ requests

/-- What the requests amount to, each setting by itself. -/
def settingsOf (requests : List Request) : Settings where
  color := (positionals requests)[0]?
  input := (positionals requests)[1]?
  output := (positionals requests)[2]?
  criterion := (values .criterion requests).getLast?.bind Criterion.ofName?
  raw := requests.contains (flag .raw)
  indent := (values .indent requests).getLast?.bind countOf?
  hexCase := (values .hexCase requests).getLast?.bind HexCase.ofName?
  quiet := requests.contains (flag .quiet)
  verbosity := requests.count (flag .verbose)

variable {requests : List Request}

theorem permitted_nil : Permitted [] where
  places := by simp [positionals]
  paths := by simp [positionals]
  once := by simp [values]
  known := by simp [values]
  flags := by simp
  noVersion := by simp

/-- Requests that may stand together may also stand without the last of them. -/
theorem Permitted.init {last : Request} (permitted : Permitted (requests ++ [last])) :
    Permitted requests where
  places := by
    have places := permitted.places
    simp only [positionals, List.filterMap_append, List.length_append] at places ⊢
    omega
  paths := by
    intro path met
    apply permitted.paths
    rw [positionals, List.filterMap_append, ← positionals]
    cases found : positionals requests with
    | nil =>
      rw [found] at met
      contradiction
    | cons first rest =>
      rw [found] at met
      exact List.mem_append_left _ met
  once given := by
    have once := permitted.once given
    simp only [values, List.filterMap_append, List.length_append] at once ⊢
    omega
  known given argument met := by
    apply permitted.known
    rw [values, List.filterMap_append]
    exact List.mem_append_left _ met
  flags asked other := by
    have flags := permitted.flags asked other
    rw [List.count_append] at flags
    omega
  noVersion met := permitted.noVersion (List.mem_append_left _ met)

/-- Other positional arguments may stand together with the same options, if there are places. -/
theorem Permitted.of_places {others : List Request} (permitted : Permitted requests)
    (sameValues : ∀ given, values given others = values given requests)
    (sameFlags : ∀ asked, others.count (flag asked) = requests.count (flag asked))
    (places : (positionals others).length ≤ 3)
    (paths : ∀ path ∈ (positionals others).tail, path ≠ []) : Permitted others where
  places := places
  paths := paths
  once given := by
    rw [sameValues]
    exact permitted.once given
  known given := by
    rw [sameValues]
    exact permitted.known given
  flags asked other := by
    rw [sameFlags]
    exact permitted.flags asked other
  noVersion := by
    rw [← List.count_eq_zero, sameFlags, List.count_eq_zero]
    exact permitted.noVersion

/-- The settings that a request leads to are those of all requests up to it. -/
def Follows (requests : List Request) (request : Request) : Prop :=
  ∀ settings, add (settingsOf requests) request = .ok settings ↔
    Permitted (requests ++ [request]) ∧ settingsOf (requests ++ [request]) = settings

section Positional

variable (argument : Text)

theorem positionals_positional :
    positionals (requests ++ [positional argument]) = positionals requests ++ [argument] := by
  simp [positionals]

theorem values_positional (given : ValueOption) :
    values given (requests ++ [positional argument]) = values given requests := by
  simp [values]

theorem count_positional (asked : Flag) :
    (requests ++ [positional argument]).count (flag asked) = requests.count (flag asked) := by
  simp [List.count_append]

theorem permitted_positional_iff (permitted : Permitted requests) :
    Permitted (requests ++ [positional argument]) ↔
      (positionals requests).length < 3 ∧ (positionals requests ≠ [] → argument ≠ []) := by
  constructor
  · intro later
    have places := later.places
    have paths := later.paths
    rw [positionals_positional] at places paths
    rw [List.length_append] at places
    refine ⟨places, fun filled => paths argument ?_⟩
    rw [List.tail_append_of_ne_nil filled]
    exact List.mem_append_right _ List.mem_cons_self
  · rintro ⟨places, named⟩
    apply permitted.of_places (values_positional argument) (count_positional argument)
    · rw [positionals_positional, List.length_append]
      exact places
    · rw [positionals_positional]
      cases found : positionals requests with
      | nil => simp
      | cons first rest =>
        have paths := permitted.paths
        rw [found] at paths named
        simpa [or_imp, forall_and] using ⟨paths, named (by simp)⟩

theorem follows_positional (permitted : Permitted requests) :
    Follows requests (positional argument) := by
  intro settings
  rw [permitted_positional_iff argument permitted, add, Settings.addPositional, settingsOf,
    settingsOf, positionals_positional]
  simp only [values_positional]
  generalize positionals requests = found
  match found with
  | [] => simp
  | [color] => by_cases named : argument = [] <;> simp [named]
  | [color, input] => by_cases named : argument = [] <;> simp [named]
  | color :: input :: output :: rest =>
    refine iff_of_false ?_ fun both => absurd both.1.1 (by simp)
    by_cases named : argument = [] <;> simp [named]

end Positional

section Value

variable (given : ValueOption) (argument : Text)

theorem positionals_value :
    positionals (requests ++ [value given argument]) = positionals requests := by
  simp [positionals]

theorem values_value (other : ValueOption) :
    values other (requests ++ [value given argument]) =
      if given = other then values other requests ++ [argument] else values other requests := by
  split <;> simp_all [values]

theorem permitted_value_iff (permitted : Permitted requests) :
    Permitted (requests ++ [value given argument]) ↔
      values given requests = [] ∧ given.takes argument = true := by
  constructor
  · intro later
    have once := later.once given
    have known := later.known given argument
    rw [values_value, if_pos rfl] at once known
    rw [List.length_append] at once
    exact ⟨List.eq_nil_of_length_eq_zero (Nat.le_zero.mp (Nat.le_of_succ_le_succ once)),
      known (List.mem_append_right _ List.mem_cons_self)⟩
  · rintro ⟨first, takes⟩
    refine ⟨?_, ?_, fun other => ?_, fun other => ?_, ?_, ?_⟩
    · rw [positionals_value]
      exact permitted.places
    · rw [positionals_value]
      exact permitted.paths
    · rw [values_value]
      split
      · rename_i same
        subst same
        simp [first]
      · exact permitted.once other
    · rw [values_value]
      split
      · rename_i same
        subst same
        simpa [first] using takes
      · exact permitted.known other
    · simpa using permitted.flags
    · simpa using permitted.noVersion

/-- A value that was read before stands in the way of another one. -/
theorem getLast?_bind_eq_none {α : Type} {read : Text → Option α} {found : List Text}
    (known : ∀ argument ∈ found, (read argument).isSome = true) :
    found.getLast?.bind read = none ↔ found = [] := by
  constructor
  · intro none
    cases last : found.getLast? with
    | none => exact List.getLast?_eq_none_iff.mp last
    | some argument =>
      have some := known argument (List.mem_of_getLast? last)
      rw [last, Option.bind_some] at none
      rw [none] at some
      contradiction
  · rintro rfl
    rfl

theorem follows_value (permitted : Permitted requests) :
    Follows requests (value given argument) := by
  intro settings
  rw [permitted_value_iff given argument permitted, add, settingsOf, settingsOf, positionals_value]
  simp only [values_value]
  -- Either the option was read before, or this is its only value; it is known or it is not.
  cases given with
  | criterion =>
    have unread := getLast?_bind_eq_none (permitted.known .criterion)
    cases held : (values .criterion requests).getLast?.bind Criterion.ofName? <;>
      cases read : Criterion.ofName? argument <;>
      simp_all [Settings.addValue, ValueOption.takes]
  | indent =>
    have unread := getLast?_bind_eq_none (permitted.known .indent)
    cases held : (values .indent requests).getLast?.bind countOf? <;>
      cases read : countOf? argument <;>
      simp_all [Settings.addValue, ValueOption.takes]
  | hexCase =>
    have unread := getLast?_bind_eq_none (permitted.known .hexCase)
    cases held : (values .hexCase requests).getLast?.bind HexCase.ofName? <;>
      cases read : HexCase.ofName? argument <;>
      simp_all [Settings.addValue, ValueOption.takes]

end Value

section Flag

variable (asked : Flag)

theorem positionals_flag : positionals (requests ++ [flag asked]) = positionals requests := by
  simp [positionals]

theorem values_flag (given : ValueOption) :
    values given (requests ++ [flag asked]) = values given requests := by
  simp [values]

theorem count_flag (other : Flag) :
    (requests ++ [flag asked]).count (flag other) =
      requests.count (flag other) + if asked = other then 1 else 0 := by
  simp [List.count_append, List.count_singleton]

theorem permitted_flag_iff (permitted : Permitted requests) :
    Permitted (requests ++ [flag asked]) ↔
      asked ≠ .version ∧ (asked ≠ .verbose → flag asked ∉ requests) := by
  constructor
  · intro later
    refine ⟨?_, fun once => ?_⟩
    · rintro rfl
      exact later.noVersion (List.mem_append_right _ List.mem_cons_self)
    · have flags := later.flags asked once
      rw [count_flag, if_pos rfl] at flags
      apply List.count_eq_zero.mp
      omega
  · rintro ⟨noVersion, first⟩
    refine ⟨?_, ?_, fun given => ?_, fun given => ?_, fun other once => ?_, ?_⟩
    · rw [positionals_flag]
      exact permitted.places
    · rw [positionals_flag]
      exact permitted.paths
    · rw [values_flag]
      exact permitted.once given
    · rw [values_flag]
      exact permitted.known given
    · rw [count_flag]
      split
      · rename_i same
        subst same
        rw [List.count_eq_zero.mpr (first once)]
      · exact permitted.flags other once
    · simpa [permitted.noVersion] using noVersion.symm

theorem follows_flag (permitted : Permitted requests) : Follows requests (flag asked) := by
  intro settings
  rw [permitted_flag_iff asked permitted, add, settingsOf, settingsOf, positionals_flag]
  simp only [values_flag, count_flag]
  cases asked with
  | verbose => simp [Settings.addFlag]
  | version => simp [Settings.addFlag]
  | raw => by_cases met : flag .raw ∈ requests <;> simp [Settings.addFlag, met]
  | quiet => by_cases met : flag .quiet ∈ requests <;> simp [Settings.addFlag, met]

end Flag

/-! ## Reading -/

theorem Permitted.follows (permitted : Permitted requests) (request : Request) :
    Follows requests request := by
  cases request with
  | positional argument => exact follows_positional argument permitted
  | value given argument => exact follows_value given argument permitted
  | flag asked => exact follows_flag asked permitted

/-- Requests can be taken one after the other exactly when they may stand together. -/
theorem foldlM_add_eq_ok_iff (settings : Settings) :
    requests.foldlM add Settings.initial = .ok settings ↔
      Permitted requests ∧ settingsOf requests = settings := by
  induction requests using List.reverseRecOn generalizing settings with
  | nil =>
    constructor
    · intro taken
      cases taken
      exact ⟨permitted_nil, rfl⟩
    · rintro ⟨-, rfl⟩
      rfl
  | append_singleton requests last ih =>
    rw [List.foldlM_append]
    constructor
    · intro taken
      rcases ok_bind_eq taken with ⟨middle, before, next⟩
      rcases (ih middle).mp before with ⟨permitted, rfl⟩
      apply (permitted.follows last settings).mp
      simpa using next
    · rintro ⟨permitted, rfl⟩
      have before := (ih _).mpr ⟨permitted.init, rfl⟩
      have next := (permitted.init.follows last _).mpr ⟨permitted, rfl⟩
      rw [before]
      change [last].foldlM add (settingsOf requests) = _
      simpa using next

end Request

/-- The arguments spell requests that may stand together. -/
structure Accepts (arguments : List Text) (requests : List Request) : Prop where
  asks : Asks arguments requests
  permitted : Request.Permitted requests

/-- However requests are spelled, only they have a say in what is read. -/
theorem Asks.parse_eq_ok_iff {arguments : List Text} {requests : List Request}
    (asks : Asks arguments requests) (settings : Settings) :
    Settings.parse arguments = .ok settings ↔
      Request.Permitted requests ∧ Request.settingsOf requests = settings := by
  rw [Settings.parse, Settings.addAll_eq asks, Request.foldlM_add_eq_ok_iff]

/-- Arguments give settings exactly when they spell requests that may stand together. -/
theorem parse_eq_ok_iff (arguments : List Text) (settings : Settings) :
    Settings.parse arguments = .ok settings ↔
      ∃ requests, Accepts arguments requests ∧ Request.settingsOf requests = settings := by
  constructor
  · intro accepted
    rcases Settings.exists_asks accepted with ⟨requests, asks⟩
    rcases (asks.parse_eq_ok_iff settings).mp accepted with ⟨permitted, amounts⟩
    exact ⟨requests, ⟨asks, permitted⟩, amounts⟩
  · rintro ⟨requests, ⟨asks, permitted⟩, amounts⟩
    exact (asks.parse_eq_ok_iff settings).mpr ⟨permitted, amounts⟩

end Swatch
