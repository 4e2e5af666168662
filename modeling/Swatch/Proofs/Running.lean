import Swatch.Job
import Swatch.Proofs.Files
import Swatch.Proofs.Grouping

/-!
# Runs are all or nothing

A run either stops at the first check that fails, or it comes to a text to look for the
color in. A run that stops leaves the disk alone, and so does one that finds nothing or
prints what it found. A run with an output writes the text that the same run without one
would have printed, and nothing else, also when the output is the input.
-/

namespace Swatch

/-- Does the failure come from the checks, before anything is written? -/
def Failure.isEarly : Failure → Bool
  | .unwritable _ _ => false
  | _ => true

namespace Job

/-- How the run of a job on a disk ends: its result and the disk that it leaves. -/
def ended (job : Job) (disk : Disk) : Except Failure Outcome × Disk :=
  let run := (job.run Disk.storage).run disk
  (run.1.result, run.2)

/-- The job gives a color to look for and a text to look in. -/
structure Scans (job : Job) (disk : Disk) (color : Color) (text : Text) : Prop where
  color : ∃ given, job.color = some given ∧ Color.parse? given = some color
  text : ∃ path bytes, job.input = some path ∧ path ≠ [] ∧ disk.read path = some bytes ∧
    text = Utf8.decode bytes

/-- The first check of a job that fails. -/
inductive Stops (job : Job) (disk : Disk) : Failure → Prop
  | missingColor (blank : ∀ given ∈ job.color, trim given = []) : Stops job disk .missingColor
  | invalidColor {given : Text} (color : job.color = some given) (filled : trim given ≠ [])
      (invalid : Color.parse? given = none) : Stops job disk (.invalidColor given)
  | missingInput {given : Text} {color : Color} (gives : job.color = some given)
      (valid : Color.parse? given = some color) (absent : ∀ path ∈ job.input, path = []) :
      Stops job disk .missingInput
  | unreadable {given path : Text} {color : Color} (gives : job.color = some given)
      (valid : Color.parse? given = some color) (input : job.input = some path) (named : path ≠ [])
      (unread : disk.read path = none) : Stops job disk (.unreadable path)

variable {job : Job} {disk : Disk} {color : Color} {text : Text}

/-! ## Checks -/

theorem trim_ne_nil_of_parse {given : Text} (valid : Color.parse? given = some color) :
    trim given ≠ [] := by
  intro blank
  simp [Color.parse?, blank, Color.withoutHash] at valid

theorem stops_or_scans (job : Job) (disk : Disk) :
    (∃ failure, job.Stops disk failure) ∨ ∃ color text, job.Scans disk color text := by
  cases gives : job.color with
  | none => exact .inl ⟨_, .missingColor (by simp [gives])⟩
  | some given =>
    by_cases blank : trim given = []
    · exact .inl ⟨_, .missingColor (by simp [gives, blank])⟩
    cases valid : Color.parse? given with
    | none => exact .inl ⟨_, .invalidColor gives blank valid⟩
    | some color =>
      cases input : job.input with
      | none => exact .inl ⟨_, .missingInput gives valid (by simp [input])⟩
      | some path =>
        by_cases named : path = []
        · exact .inl ⟨_, .missingInput gives valid (by simp [input, named])⟩
        cases bytes : disk.read path with
        | none => exact .inl ⟨_, .unreadable gives valid input named bytes⟩
        | some found => exact .inr ⟨color, _, ⟨given, gives, valid⟩, path, found, input, named, bytes, rfl⟩

/-- The color and the path that the checks let through. -/
theorem check_eq_ok {given path : Text} (gives : job.color = some given)
    (valid : Color.parse? given = some color) (input : job.input = some path) (named : path ≠ []) :
    job.check = .ok (color, path) := by
  have filled := trim_ne_nil_of_parse valid
  simp [check, gives, filled, Color.read, valid, input, named, Option.filter, bind, Except.bind]

theorem check_eq_error {failure : Failure} (stops : job.Stops disk failure) :
    job.check = .error failure ∨ ∃ color path, job.check = .ok (color, path) ∧
      disk.read path = none ∧ failure = .unreadable path := by
  cases stops with
  | missingColor blank =>
    left
    cases gives : job.color with
    | none => simp [check, gives, Option.filter, bind, Except.bind]
    | some given => simp [check, gives, blank given gives, Option.filter, bind, Except.bind]
  | invalidColor gives filled invalid =>
    left
    simp [check, gives, filled, Color.read, invalid, Option.filter, bind, Except.bind]
  | missingInput gives valid absent =>
    left
    have filled := trim_ne_nil_of_parse valid
    cases input : job.input with
    | none => simp [check, gives, filled, Color.read, valid, input, Option.filter, bind, Except.bind]
    | some path =>
      simp [check, gives, filled, Color.read, valid, input, absent path input, Option.filter, bind, Except.bind]
  | unreadable gives valid input named unread =>
    exact .inr ⟨_, _, check_eq_ok gives valid input named, unread, rfl⟩

/-- A run that stops touches nothing. -/
theorem ended_of_stops {failure : Failure} (stops : job.Stops disk failure) :
    job.ended disk = (.error failure, disk) := by
  rcases check_eq_error stops with checked | ⟨color, path, checked, unread, rfl⟩
  · rw [ended, run, checked]
    rfl
  · rw [ended, run, checked]
    dsimp only
    rw [Disk.run_storage_read_bind, unread]
    rfl

/-! ## Scans -/

/-- The palette of the job in a text. -/
def palette (job : Job) (color : Color) (text : Text) : Palette :=
  Palette.ofText text color job.criterion

/-- How a run ends that has a text to deliver. -/
def delivered (disk : Disk) (rules : Nat) (css : Text) :
    Option Text → Except Failure Outcome × Disk
  | none => (.ok (.generated css), disk)
  | some path =>
    match disk.write path (Utf8.encode css) with
    | .ok after => (.ok (.written path rules), after)
    | .error fault => (.error (.unwritable path fault), disk)

theorem ended_of_scans (scans : job.Scans disk color text) :
    job.ended disk =
      match (job.palette color text).render job.layout with
      | none => (.ok .noMatches, disk)
      | some css => delivered disk (job.palette color text).size css job.output := by
  rcases scans with ⟨⟨given, gives, valid⟩, path, bytes, input, named, found, rfl⟩
  rw [ended, run, check_eq_ok gives valid input named]
  dsimp only
  rw [Disk.run_storage_read_bind, found]
  dsimp only [deliver, palette]
  cases (Palette.ofText (Utf8.decode bytes) color job.criterion).render job.layout with
  | none => rfl
  | some css =>
    cases job.output with
    | none => rfl
    | some output =>
      dsimp only [delivered]
      rw [Disk.run_storage_write_bind]
      cases disk.write output (Utf8.encode css) <;> rfl

/-! ## Outputs -/

/-- The job with another output, or with none. -/
def withOutput (job : Job) (output : Option Text) : Job :=
  { job with output := output }

theorem stops_withOutput_iff {output : Option Text} {failure : Failure} :
    (job.withOutput output).Stops disk failure ↔ job.Stops disk failure := by
  constructor <;>
  · intro stops
    cases stops with
    | missingColor blank => exact .missingColor blank
    | invalidColor gives filled invalid => exact .invalidColor gives filled invalid
    | missingInput gives valid absent => exact .missingInput gives valid absent
    | unreadable gives valid input named unread => exact .unreadable gives valid input named unread

theorem scans_withOutput_iff {output : Option Text} :
    (job.withOutput output).Scans disk color text ↔ job.Scans disk color text :=
  ⟨fun scans => ⟨scans.color, scans.text⟩, fun scans => ⟨scans.color, scans.text⟩⟩

/-- Does no declaration of the text use the color of the job? -/
def FindsNothing (job : Job) (color : Color) (text : Text) : Prop :=
  ∀ found ∈ (Css.Stylesheet.parse text).declarations,
    Palette.isMatch color job.criterion found = false

theorem entries_palette_eq_nil_iff (job : Job) (color : Color) (text : Text) :
    (job.palette color text).entries = [] ↔ job.FindsNothing color text := by
  rw [palette, Palette.ofText, Palette.entries_extract, List.map_eq_nil_iff, FindsNothing]
  have keys (list : List Text) : list.eraseDups = [] ↔ list = [] := by
    simp only [List.eq_nil_iff_forall_not_mem, List.mem_eraseDups]
  rw [keys, List.map_eq_nil_iff, Palette.matching, List.filter_eq_nil_iff]
  simp only [Bool.not_eq_true]

theorem render_palette_eq_none_iff (job : Job) (color : Color) (text : Text) :
    (job.palette color text).render job.layout = none ↔ job.FindsNothing color text := by
  rw [← entries_palette_eq_nil_iff, Palette.render.eq_def, Palette.isEmpty]
  cases (job.palette color text).entries with
  | nil => simp
  | cons entry rest => cases job.layout <;> simp

theorem size_palette_pos {css : Text} (rendered : (job.palette color text).render job.layout = some css) :
    1 ≤ (job.palette color text).size := by
  rw [Palette.size, Nat.one_le_iff_ne_zero, ne_eq, List.length_eq_zero_iff,
    entries_palette_eq_nil_iff, ← render_palette_eq_none_iff, rendered]
  exact Option.some_ne_none css

/-! ## Endings -/

/-- The five ways for a run to end, each with the result and the disk that it leaves. -/
inductive Ends (job : Job) (disk : Disk) : Except Failure Outcome → Disk → Prop
  | stopped {failure : Failure} (stops : job.Stops disk failure) : Ends job disk (.error failure) disk
  | nothing {color : Color} {text : Text} (scans : job.Scans disk color text)
      (nothing : job.FindsNothing color text) : Ends job disk (.ok .noMatches) disk
  | printed {color : Color} {text css : Text} (scans : job.Scans disk color text)
      (rendered : (job.palette color text).render job.layout = some css)
      (output : job.output = none) : Ends job disk (.ok (.generated css)) disk
  | written {color : Color} {text css path : Text} {after : Disk} (scans : job.Scans disk color text)
      (rendered : (job.palette color text).render job.layout = some css)
      (output : job.output = some path) (done : disk.write path (Utf8.encode css) = .ok after) :
      Ends job disk (.ok (.written path (job.palette color text).size)) after
  | unwritten {color : Color} {text css path : Text} {fault : WriteFault}
      (scans : job.Scans disk color text)
      (rendered : (job.palette color text).render job.layout = some css)
      (output : job.output = some path) (fails : disk.write path (Utf8.encode css) = .error fault) :
      Ends job disk (.error (.unwritable path fault)) disk

theorem ends (job : Job) (disk : Disk) : job.Ends disk (job.ended disk).1 (job.ended disk).2 := by
  rcases stops_or_scans job disk with ⟨failure, stops⟩ | ⟨color, text, scans⟩
  · rw [ended_of_stops stops]
    exact .stopped stops
  · rw [ended_of_scans scans]
    cases rendered : (job.palette color text).render job.layout with
    | none => exact .nothing scans ((render_palette_eq_none_iff job color text).mp rendered)
    | some css =>
      cases output : job.output with
      | none => exact .printed scans rendered output
      | some path =>
        simp only [delivered]
        cases done : disk.write path (Utf8.encode css) with
        | ok after => exact .written scans rendered output done
        | error fault => exact .unwritten scans rendered output done

theorem error_iff_stops {failure : Failure} (early : failure.isEarly = true) :
    (job.ended disk).1 = .error failure ↔ job.Stops disk failure := by
  constructor
  · intro fails
    have ending := ends job disk
    rw [fails] at ending
    generalize (job.ended disk).2 = after at ending
    cases ending with
    | stopped stops => exact stops
    | unwritten _ _ _ _ => contradiction
  · intro stops
    rw [ended_of_stops stops]

theorem noMatches_iff :
    (job.ended disk).1 = .ok .noMatches ↔
      ∃ color text, job.Scans disk color text ∧ job.FindsNothing color text := by
  constructor
  · intro nothing
    have ending := ends job disk
    rw [nothing] at ending
    generalize (job.ended disk).2 = after at ending
    cases ending with
    | nothing scans nothing => exact ⟨_, _, scans, nothing⟩
  · rintro ⟨color, text, scans, nothing⟩
    rw [ended_of_scans scans, (render_palette_eq_none_iff job color text).mpr nothing]

theorem generated_iff {css : Text} (printing : job.output = none) :
    (job.ended disk).1 = .ok (.generated css) ↔
      ∃ color text, job.Scans disk color text ∧
        (job.palette color text).render job.layout = some css := by
  constructor
  · intro generated
    have ending := ends job disk
    rw [generated] at ending
    generalize (job.ended disk).2 = after at ending
    cases ending with
    | printed scans rendered _ => exact ⟨_, _, scans, rendered⟩
  · rintro ⟨color, text, scans, rendered⟩
    rw [ended_of_scans scans, rendered, printing]
    rfl

/-! ## All or nothing -/

/-- A run of the job does all that it is asked for, or leaves the disk as it is. -/
structure AllOrNothing (job : Job) (disk : Disk) : Prop where
  /-- Wherever the output goes, a run fails early exactly at the first check that fails. -/
  failed (output : Option Text) (failure : Failure) (early : failure.isEarly = true) :
    ((job.withOutput output).ended disk).1 = .error failure ↔ job.Stops disk failure
  /-- Wherever the output goes, a run ends without matches exactly when there are none. -/
  noMatches (output : Option Text) :
    ((job.withOutput output).ended disk).1 = .ok .noMatches ↔
      ∃ color text, job.Scans disk color text ∧ job.FindsNothing color text
  /-- A run without output prints the palette of the color, unless it is empty. -/
  generated (css : Text) :
    ((job.withOutput none).ended disk).1 = .ok (.generated css) ↔
      ∃ color text, job.Scans disk color text ∧
        (job.palette color text).render job.layout = some css
  unchanged (idle : job.output = none ∨ (∃ failure, (job.ended disk).1 = .error failure) ∨
      (job.ended disk).1 = .ok .noMatches) : (job.ended disk).2 = disk
  /-- What is written is what would have been printed. -/
  written {path : Text} {rules : Nat} (done : (job.ended disk).1 = .ok (.written path rules)) :
    job.output = some path ∧ 1 ≤ rules ∧ ∃ color text css, job.Scans disk color text ∧
      rules = (job.palette color text).size ∧
      ((job.withOutput none).ended disk).1 = .ok (.generated css) ∧
      disk.Wrote (job.ended disk).2 path (Utf8.encode css)
  /-- What would have been printed is written, unless writing fails. -/
  delivers {path css : Text} (output : job.output = some path)
    (prints : ((job.withOutput none).ended disk).1 = .ok (.generated css)) :
    match disk.write path (Utf8.encode css) with
    | .ok after => ∃ rules, job.ended disk = (.ok (.written path rules), after)
    | .error fault => job.ended disk = (.error (.unwritable path fault), disk)

/-- Every run is all or nothing. -/
theorem run_all_or_nothing (job : Job) (disk : Disk) : job.AllOrNothing disk := by
  have ending := ends job disk
  have printed (css : Text) : ((job.withOutput none).ended disk).1 = .ok (.generated css) ↔ _ :=
    generated_iff rfl
  refine ⟨fun output failure early => ?_, fun output => ?_, fun css => ?_, fun idle => ?_,
    fun done => ?_, fun output prints => ?_⟩
  · rw [error_iff_stops early, stops_withOutput_iff]
  · simp only [noMatches_iff, scans_withOutput_iff]
    rfl
  · simp only [printed, scans_withOutput_iff]
    rfl
  · generalize (job.ended disk).1 = result at ending idle
    generalize (job.ended disk).2 = after at ending
    cases ending with
    | written _ _ output _ => simp [output] at idle
    | _ => rfl
  · rw [done] at ending
    generalize (job.ended disk).2 = after at ending
    cases ending with
    | written scans rendered output done =>
      refine ⟨output, size_palette_pos rendered, _, _, _, scans, rfl, ?_, Disk.wrote_of_write done⟩
      exact (printed _).mpr ⟨_, _, scans_withOutput_iff.mpr scans, rendered⟩
  · rcases (printed _).mp prints with ⟨color, text, scans, rendered⟩
    rw [ended_of_scans (scans_withOutput_iff.mp scans)]
    change (job.palette color text).render job.layout = _ at rendered
    rw [rendered, output]
    simp only [delivered]
    cases disk.write _ _ with
    | ok after => exact ⟨_, rfl⟩
    | error fault => rfl

end Job

end Swatch
