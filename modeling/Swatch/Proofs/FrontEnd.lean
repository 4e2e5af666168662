import Swatch.CommandLine
import Swatch.Proofs.Arguments
import Swatch.Proofs.Running

/-!
# The command line in front of jobs

A run of the program is a run of the job that its arguments ask for: it leaves the same disk,
and its exit code says whether the job succeeded. Only where no job can be made, because no text
can hold the indent of its layout, the run breaks off, with a code of its own and before it
touches the disk. What a request has no say in is seen by leaving it out. The job is the same
without the flags that only decide how much is told, and with `--raw` it is the same without the
choices about the layout. An output takes what would have been printed, and where nothing would
have been printed it takes nothing.
-/

namespace Swatch

/-! ## Leaving out requests -/

namespace Request

/-- Does the request only decide how much is told about the run? -/
def isTalk : Request → Bool
  | flag .quiet | flag .verbose => true
  | _ => false

/-- Does the request only choose how the result is laid out? -/
def isLayoutChoice : Request → Bool
  | value .indent _ | value .hexCase _ => true
  | _ => false

/-- Is the request an argument in a place of its own? -/
def isPositional : Request → Bool
  | positional _ => true
  | _ => false

/-- The requests that are not ignored. -/
def without (ignored : Request → Bool) (requests : List Request) : List Request :=
  requests.filter fun request => !ignored request

section Without

variable (ignored : Request → Bool)

theorem positionals_without (kept : ∀ argument, ignored (positional argument) = false)
    (requests : List Request) : positionals (without ignored requests) = positionals requests := by
  unfold positionals without
  rw [List.filterMap_filter]
  congr
  funext request
  cases request <;> simp [kept]

theorem values_without (given : ValueOption)
    (kept : ∀ argument, ignored (value given argument) = false) (requests : List Request) :
    values given (without ignored requests) = values given requests := by
  unfold values without
  rw [List.filterMap_filter]
  congr
  funext request
  cases request with
  | value other argument =>
    by_cases same : other = given
    · subst same
      simp [kept]
    · simp [same]
  | _ => simp

theorem count_without (asked : Flag) (kept : ignored (flag asked) = false)
    (requests : List Request) :
    (without ignored requests).count (flag asked) = requests.count (flag asked) := by
  apply List.count_filter
  simp [kept]

theorem flag_mem_without_iff (asked : Flag) (kept : ignored (flag asked) = false)
    (requests : List Request) : flag asked ∈ without ignored requests ↔ flag asked ∈ requests := by
  simp [without, kept]

end Without

variable {requests : List Request}

/-- The job does not depend on how much is told about it. -/
theorem job?_without_isTalk (requests : List Request) :
    (settingsOf (without isTalk requests)).job? = (settingsOf requests).job? := by
  have positionals := positionals_without isTalk (fun _ => rfl) requests
  have values (given : ValueOption) := values_without isTalk given (fun _ => rfl) requests
  have raw := flag_mem_without_iff isTalk .raw rfl requests
  simp [settingsOf, Settings.job?, Settings.layout?, positionals, values, raw]

/-- Without a layout, the job does not depend on the choices about it. -/
theorem job?_without_isLayoutChoice (asked : flag .raw ∈ requests) :
    (settingsOf (without isLayoutChoice requests)).job? = (settingsOf requests).job? := by
  have positionals := positionals_without isLayoutChoice (fun _ => rfl) requests
  have criterion := values_without isLayoutChoice .criterion (fun _ => rfl) requests
  have raw := flag_mem_without_iff isLayoutChoice .raw rfl requests
  simp [settingsOf, Settings.job?, Settings.layout?, positionals, criterion, raw, asked]

/-! ## Adding an output -/

/-- The longer requests name an output in addition to the color and the input. -/
structure AddsOutput (requests longer : List Request) (path : Text) : Prop where
  places : (positionals requests).length = 2
  output : positionals longer = positionals requests ++ [path]
  others : without isPositional longer = without isPositional requests

namespace AddsOutput

variable {longer : List Request} {path : Text} (adds : AddsOutput requests longer path)

include adds

theorem values_eq (given : ValueOption) : values given longer = values given requests := by
  have kept := values_without isPositional given fun _ => rfl
  rw [← kept longer, adds.others, kept]

theorem count_eq (asked : Flag) : longer.count (flag asked) = requests.count (flag asked) := by
  have kept := count_without isPositional asked rfl
  rw [← kept longer, adds.others, kept]

theorem flag_mem_iff (asked : Flag) : flag asked ∈ longer ↔ flag asked ∈ requests := by
  have kept := flag_mem_without_iff isPositional asked rfl
  rw [← kept longer, adds.others, kept]

/-- An output can be added to requests that may stand together, if it is named. -/
theorem permitted (named : path ≠ []) (permitted : Permitted requests) : Permitted longer := by
  rcases List.length_eq_two.mp adds.places with ⟨color, input, places⟩
  have paths := permitted.paths
  have output := adds.output
  rw [places] at paths output
  apply permitted.of_places adds.values_eq adds.count_eq
  · simp [output]
  · simpa [output, or_imp, forall_and] using ⟨paths input (by simp), named⟩

theorem output_eq_none {job : Job} (made : (settingsOf requests).job? = some job) :
    job.output = none := by
  have places := adds.places
  rw [Settings.output_of_job? made]
  simp [settingsOf, places]

theorem job?_eq {job : Job} (made : (settingsOf requests).job? = some job) :
    (settingsOf longer).job? = some (job.withOutput (some path)) := by
  rcases List.length_eq_two.mp adds.places with ⟨color, input, places⟩
  have output := adds.output
  rw [places] at output
  rcases Option.map_eq_some_iff.mp made with ⟨layout, chosen, rfl⟩
  have same : (settingsOf longer).layout? = some layout := by
    rw [← chosen]
    simp [settingsOf, Settings.layout?, adds.values_eq, adds.flag_mem_iff]
  rw [Settings.job?, same]
  simp [settingsOf, Job.withOutput, output, places, adds.values_eq]

end AddsOutput

end Request

/-! ## Jobs with an output -/

namespace Job

variable {job : Job} {disk : Disk} {path : Text}

theorem palette_withOutput (job : Job) (output : Option Text) (color : Color) (text : Text) :
    (job.withOutput output).palette color text = job.palette color text := rfl

theorem layout_withOutput (job : Job) (output : Option Text) :
    (job.withOutput output).layout = job.layout := rfl

/-- An output takes what would have been printed. -/
theorem ended_withOutput_of_generated {css : Text} (printing : job.output = none)
    (generated : (job.ended disk).1 = .ok (.generated css)) :
    ∃ rules, (job.withOutput (some path)).ended disk = delivered disk rules css (some path) := by
  rcases (generated_iff printing).mp generated with ⟨color, text, scans, rendered⟩
  refine ⟨(job.palette color text).size, ?_⟩
  rw [ended_of_scans (scans_withOutput_iff.mpr scans), palette_withOutput, layout_withOutput,
    rendered]
  rfl

/-- An output takes nothing where there is nothing to print. -/
theorem ended_withOutput_of_noMatches (nothing : (job.ended disk).1 = .ok .noMatches) :
    (job.withOutput (some path)).ended disk = (.ok .noMatches, disk) := by
  rcases noMatches_iff.mp nothing with ⟨color, text, scans, nothing⟩
  rw [ended_of_scans (scans_withOutput_iff.mpr scans), palette_withOutput, layout_withOutput,
    (render_palette_eq_none_iff job color text).mpr nothing]

/-- A job that wrote a file had an output, and the disk holds that file. -/
theorem wrote_of_written {rules : Nat} (written : (job.ended disk).1 = .ok (.written path rules)) :
    job.output = some path ∧ ∃ css, disk.Wrote (job.ended disk).2 path (Utf8.encode css) := by
  have ending := ends job disk
  rw [written] at ending
  generalize (job.ended disk).2 = after at ending
  cases ending with
  | written scans rendered output done => exact ⟨output, _, Disk.wrote_of_write done⟩

end Job

/-! ## Runs of the program -/

/-- A run of the program on a disk: how it ends, and the disk that it leaves. -/
def executed (arguments : List Text) (disk : Disk) : Execution × Disk :=
  (execute Disk.storage arguments).run disk

namespace Request

/-- Does the run write a file? -/
def Writes (requests : List Request) (disk : Disk) : Prop :=
  ∃ job path rules, (settingsOf requests).job? = some job ∧
    (job.ended disk).1 = .ok (.written path rules)

end Request

open Request

/-- The run tells the text, and then it confirms that it wrote a file, unless it is quiet. -/
structure Tells (arguments : List Text) (requests : List Request) (disk : Disk) (text : Text) :
    Prop where
  confirmed (writes : Writes requests disk) (aloud : flag .quiet ∉ requests) :
    (executed arguments disk).1.output = text ++ "All done!\n".toList
  plain (silent : Writes requests disk → flag .quiet ∈ requests) :
    (executed arguments disk).1.output = text

/-- On the disk, the program does what its arguments ask for, and they have no other influence. -/
structure Faithful (disk : Disk) : Prop where
  /-- Arguments are accepted exactly when they spell requests that may stand together. -/
  accepts (arguments : List Text) (settings : Settings) :
    Settings.parse arguments = .ok settings ↔
      ∃ requests, Accepts arguments requests ∧ settingsOf requests = settings
  code {arguments : List Text} {requests : List Request} {job : Job}
    (accepts : Accepts arguments requests) (made : (settingsOf requests).job? = some job) :
    (executed arguments disk).1.code = if (job.ended disk).1.isOk then 0 else 1
  files {arguments : List Text} {requests : List Request} {job : Job}
    (accepts : Accepts arguments requests) (made : (settingsOf requests).job? = some job) :
    (executed arguments disk).2 = (job.ended disk).2
  /-- There is a job unless a layout is asked for whose indent no text can hold. -/
  unmade (requests : List Request) :
    (settingsOf requests).job? = none ↔
      flag .raw ∉ requests ∧ Layout.maxBytes < (settingsOf requests).indent.getD 4
  /-- Without a job the run breaks off: it prints nothing and leaves the disk as it was. -/
  overflow {arguments : List Text} {requests : List Request}
    (accepts : Accepts arguments requests) (unmade : (settingsOf requests).job? = none) :
    executed arguments disk = (.overflow, disk)
  /-- A run that says that it wrote a file did write it. -/
  wrote {arguments : List Text} {requests : List Request} {job : Job} {path : Text} {rules : Nat}
    (accepts : Accepts arguments requests) (made : (settingsOf requests).job? = some job)
    (written : (job.ended disk).1 = .ok (.written path rules)) :
    (positionals requests)[2]? = some path ∧
      ∃ css, disk.Wrote (executed arguments disk).2 path (Utf8.encode css)
  /-- The flags about the telling decide about the confirmation, and about nothing else. -/
  talk {left right : List Text} {before after : List Request}
    (first : Accepts left before) (second : Accepts right after)
    (same : without isTalk before = without isTalk after) :
    (executed left disk).1.code = (executed right disk).1.code ∧
      (executed left disk).2 = (executed right disk).2 ∧
      ∃ text, Tells left before disk text ∧ Tells right after disk text
  /-- With `--raw`, the choices about the layout decide about nothing. -/
  layout {left right : List Text} {before after : List Request}
    (first : Accepts left before) (second : Accepts right after) (raw : flag .raw ∈ before)
    (same : without isLayoutChoice before = without isLayoutChoice after) :
    executed left disk = executed right disk
  /-- What was printed is written to an output that is added, without the last line end. -/
  delivers {arguments others : List Text} {requests longer : List Request} {path : Text}
    (accepts : Accepts arguments requests) (asks : Asks others longer)
    (adds : AddsOutput requests longer path) (can : disk.CanWrite path)
    (printed : (executed arguments disk).1.output ≠ []) :
    Accepts others longer ∧ (executed others disk).1.code = 0 ∧
      ∃ css, (executed arguments disk).1.output = css ++ "\n".toList ∧
        disk.Wrote (executed others disk).2 path (Utf8.encode css)
  /-- Where nothing was printed, an output that is added is not written. -/
  idle {arguments others : List Text} {requests longer : List Request} {path : Text}
    (accepts : Accepts arguments requests) (asks : Asks others longer)
    (adds : AddsOutput requests longer path) (succeeds : (executed arguments disk).1.code = 0)
    (nothing : (executed arguments disk).1.output = []) :
    (executed others disk).2 = disk ∧
      (path ≠ [] → Accepts others longer ∧ (executed others disk).1.code = 0)

namespace Settings

/-- What is printed whatever was said about the telling. -/
def shared : Except Failure Outcome → Text
  | .ok (.generated css) => css ++ "\n".toList
  | _ => []

theorem code_execution (settings : Settings) (completion : Completion) :
    (settings.execution completion).code = if completion.result.isOk then 0 else 1 := by
  unfold execution
  cases completion.result <;> rfl

theorem output_execution (settings : Settings) (completion : Completion) :
    (settings.execution completion).output = settings.printed completion.result := by
  unfold execution
  cases completion.result <;> rfl

/-- How a run ends does not depend on the settings that make its job. -/
theorem execution_congr {left right : Settings} (quiet : left.quiet = right.quiet)
    (verbosity : left.verbosity = right.verbosity) : left.execution = right.execution := by
  have shows : left.shows = right.shows := by
    funext level
    unfold Settings.shows
    rw [verbosity]
  have printed : left.printed = right.printed := by
    funext result
    unfold Settings.printed
    rw [quiet]
  funext completion
  unfold execution
  rw [shows, printed]

end Settings

section Executed

variable {arguments : List Text} {requests : List Request} {disk : Disk} {job : Job}

/-- Accepted arguments lead to a run of the job, if there is one. -/
theorem executed_eq (accepts : Accepts arguments requests) (disk : Disk) :
    executed arguments disk =
      match (settingsOf requests).job? with
      | none => (.overflow, disk)
      | some job =>
        let run := (job.run Disk.storage).run disk
        ((settingsOf requests).execution run.1, run.2) := by
  rw [executed, execute, (accepts.asks.parse_eq_ok_iff _).mpr ⟨accepts.permitted, rfl⟩]
  dsimp only
  cases (settingsOf requests).job? <;> rfl

theorem executed_of_unmade (accepts : Accepts arguments requests)
    (unmade : (settingsOf requests).job? = none) : executed arguments disk = (.overflow, disk) := by
  rw [executed_eq accepts, unmade]

example (disk : Disk) :
    executed ["fff".toList, "a.css".toList, "--indent".toList, "18446744073709551615".toList] disk =
      (.overflow, disk) := by
  rfl

theorem code_executed (accepts : Accepts arguments requests)
    (made : (settingsOf requests).job? = some job) :
    (executed arguments disk).1.code = if (job.ended disk).1.isOk then 0 else 1 := by
  rw [executed_eq accepts, made]
  exact Settings.code_execution _ _

theorem output_executed (accepts : Accepts arguments requests)
    (made : (settingsOf requests).job? = some job) :
    (executed arguments disk).1.output = (settingsOf requests).printed (job.ended disk).1 := by
  rw [executed_eq accepts, made]
  exact Settings.output_execution _ _

theorem files_executed (accepts : Accepts arguments requests)
    (made : (settingsOf requests).job? = some job) :
    (executed arguments disk).2 = (job.ended disk).2 := by
  rw [executed_eq accepts, made]
  rfl

/-- A run that breaks off tells nothing. -/
theorem tells_of_unmade (accepts : Accepts arguments requests)
    (unmade : (settingsOf requests).job? = none) : Tells arguments requests disk [] := by
  constructor
  · rintro ⟨job, path, rules, made, -⟩
    rw [unmade] at made
    contradiction
  · intro _
    rw [executed_of_unmade accepts unmade]
    rfl

theorem tells_shared (accepts : Accepts arguments requests)
    (made : (settingsOf requests).job? = some job) :
    Tells arguments requests disk (Settings.shared (job.ended disk).1) := by
  constructor
  · rintro ⟨same, path, rules, found, written⟩ aloud
    obtain rfl := Option.some.inj (made.symm.trans found)
    rw [output_executed accepts made, written]
    simp [Settings.printed, Settings.shared, settingsOf, aloud]
  · intro silent
    rw [output_executed accepts made]
    cases result : (job.ended disk).1 with
    | error failure => rfl
    | ok outcome =>
      cases outcome with
      | written path rules =>
        have quiet := silent ⟨job, path, rules, made, result⟩
        simp [Settings.printed, Settings.shared, settingsOf, quiet]
      | _ => rfl

/-- A run that prints something or succeeds did run a job. -/
theorem exists_job (accepts : Accepts arguments requests)
    (done : (executed arguments disk).1.output ≠ [] ∨ (executed arguments disk).1.code = 0) :
    ∃ job, (settingsOf requests).job? = some job := by
  cases made : (settingsOf requests).job? with
  | none =>
    rw [executed_of_unmade accepts made] at done
    rcases done with printed | succeeds <;> contradiction
  | some job => exact ⟨job, rfl⟩

/-- What a run without output prints tells how its job ended. -/
theorem generated_of_output (accepts : Accepts arguments requests)
    (made : (settingsOf requests).job? = some job) (printing : job.output = none)
    (printed : (executed arguments disk).1.output ≠ []) :
    ∃ css, (job.ended disk).1 = .ok (.generated css) ∧
      (executed arguments disk).1.output = css ++ "\n".toList := by
  rw [output_executed accepts made] at printed ⊢
  cases result : (job.ended disk).1 with
  | error failure =>
    rw [result] at printed
    contradiction
  | ok outcome =>
    rw [result] at printed
    cases outcome with
    | noMatches => contradiction
    | generated css => exact ⟨css, rfl, rfl⟩
    | written path rules =>
      have output := (Job.wrote_of_written result).1
      rw [printing] at output
      contradiction

theorem noMatches_of_output (accepts : Accepts arguments requests)
    (made : (settingsOf requests).job? = some job) (printing : job.output = none)
    (succeeds : (executed arguments disk).1.code = 0)
    (nothing : (executed arguments disk).1.output = []) :
    (job.ended disk).1 = .ok .noMatches := by
  rw [output_executed accepts made] at nothing
  rw [code_executed accepts made] at succeeds
  cases result : (job.ended disk).1 with
  | error failure =>
    rw [result] at succeeds
    contradiction
  | ok outcome =>
    rw [result] at nothing
    cases outcome with
    | noMatches => rfl
    | generated css => simp [Settings.printed] at nothing
    | written path rules =>
      have output := (Job.wrote_of_written result).1
      rw [printing] at output
      contradiction

end Executed

/-- The command line is a faithful front end of jobs. -/
theorem commandLine_faithful (disk : Disk) : Faithful disk where
  accepts := parse_eq_ok_iff
  code := code_executed
  files := files_executed
  unmade requests := by
    rw [Settings.job?_eq_none_iff]
    simp [settingsOf]
  overflow := executed_of_unmade
  wrote {arguments requests job path rules} accepts made written := by
    have output : job.output = (positionals requests)[2]? := Settings.output_of_job? made
    rw [files_executed accepts made, ← output]
    exact Job.wrote_of_written written
  talk {left right before after} first second same := by
    have job : (settingsOf before).job? = (settingsOf after).job? := by
      rw [← job?_without_isTalk, same, job?_without_isTalk]
    cases made : (settingsOf before).job? with
    | none =>
      have other := job.symm.trans made
      refine ⟨?_, ?_, [], tells_of_unmade first made, tells_of_unmade second other⟩ <;>
        rw [executed_of_unmade first made, executed_of_unmade second other]
    | some common =>
      have other := job.symm.trans made
      refine ⟨?_, ?_, Settings.shared (common.ended disk).1, tells_shared first made,
        tells_shared second other⟩
      · rw [code_executed first made, code_executed second other]
      · rw [files_executed first made, files_executed second other]
  layout {left right before after} first second raw same := by
    have flags (asked : Flag) : flag asked ∈ before ↔ flag asked ∈ after := by
      have kept := flag_mem_without_iff isLayoutChoice asked rfl
      rw [← kept, same, kept]
    have verbosity : before.count (flag .verbose) = after.count (flag .verbose) := by
      have kept := count_without isLayoutChoice .verbose rfl
      rw [← kept, same, kept]
    have job : (settingsOf before).job? = (settingsOf after).job? := by
      rw [← job?_without_isLayoutChoice raw, same, job?_without_isLayoutChoice ((flags .raw).mp raw)]
    have execution : (settingsOf before).execution = (settingsOf after).execution := by
      apply Settings.execution_congr
      · simp [settingsOf, flags]
      · simp [settingsOf, verbosity]
    rw [executed_eq first, executed_eq second, job, execution]
  delivers {arguments others requests longer path} accepts asks adds can printed := by
    have accepted : Accepts others longer := ⟨asks, adds.permitted can.ne_nil accepts.permitted⟩
    rcases exists_job accepts (.inl printed) with ⟨job, made⟩
    have printing := adds.output_eq_none made
    rcases generated_of_output accepts made printing printed with ⟨css, generated, output⟩
    rcases can.write (Utf8.encode css) with ⟨after, written⟩
    rcases Job.ended_withOutput_of_generated printing generated with ⟨rules, delivered⟩
    have ends : (job.withOutput (some path)).ended disk = (.ok (.written path rules), after) := by
      rw [delivered, Job.delivered, written]
    refine ⟨accepted, ?_, css, output, ?_⟩
    · rw [code_executed accepted (adds.job?_eq made), ends]
      rfl
    · rw [files_executed accepted (adds.job?_eq made), ends]
      exact Disk.wrote_of_write written
  idle {arguments others requests longer path} accepts asks adds succeeds nothing := by
    rcases exists_job accepts (.inr succeeds) with ⟨job, made⟩
    have nothing := noMatches_of_output accepts made (adds.output_eq_none made) succeeds nothing
    have ends : (job.withOutput (some path)).ended disk = (.ok .noMatches, disk) :=
      Job.ended_withOutput_of_noMatches nothing
    constructor
    · cases parsed : Settings.parse others with
      | error stop =>
        rw [executed, execute, parsed]
        rfl
      | ok settings =>
        rw [files_executed ⟨asks, ((asks.parse_eq_ok_iff settings).mp parsed).1⟩ (adds.job?_eq made),
          ends]
    · intro named
      have accepted : Accepts others longer := ⟨asks, adds.permitted named accepts.permitted⟩
      rw [code_executed accepted (adds.job?_eq made), ends]
      exact ⟨accepted, rfl⟩

/-- With a sheet that uses red, what is printed without an output is written with one. -/
theorem commandLine_faithful_red :
    let sheet := Node.file (Utf8.encode "a\x7bcolor:#F00\x7d".toList)
    let disk := Disk.scratch.put ["work".toList, "a.css".toList] sheet
    let arguments := ["f00".toList, "a.css".toList]
    (executed (arguments ++ ["-q".toList, "red.css".toList]) disk).1.code = 0 ∧
      ∃ css, (executed (arguments ++ ["-q".toList]) disk).1.output = css ++ "\n".toList ∧
        disk.Wrote (executed (arguments ++ ["-q".toList, "red.css".toList]) disk).2
          "red.css".toList (Utf8.encode css) := by
  intro sheet disk arguments
  have quiet : List.Forall₂ (fun letter asked => Flag.ofLetter? letter = some asked) ['q'] [.quiet] :=
    .cons rfl .nil
  have asks : Asks (arguments ++ ["-q".toList])
      [.positional "f00".toList, .positional "a.css".toList, .flag .quiet] :=
    .positional (by decide) (.positional (by decide) (.letters (by decide) quiet .nil))
  have further : Asks (arguments ++ ["-q".toList, "red.css".toList])
      [.positional "f00".toList, .positional "a.css".toList, .flag .quiet,
        .positional "red.css".toList] :=
    .positional (by decide) (.positional (by decide) (.letters (by decide) quiet
      (.positional (by decide) .nil)))
  have permitted : Permitted
      [.positional "f00".toList, .positional "a.css".toList, .flag .quiet] := by
    refine ⟨by decide, by decide, ?_, ?_, ?_, by decide⟩
    · rintro (_ | _ | _) <;> decide
    · rintro (_ | _ | _) <;> decide
    · rintro (_ | _ | _ | _) <;> decide
  exact ((commandLine_faithful disk).delivers ⟨asks, permitted⟩ further ⟨rfl, rfl, rfl⟩
    ⟨[], _, rfl⟩ (by decide +kernel)).2

end Swatch
