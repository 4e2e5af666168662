import Swatch.Storage

/-!
# Files after writing

Writing a file changes what stands at one location, which was no directory before. Only
directories can be entered on the way to a file, so every path leads where it led before,
and the file at that one location is the only one that reads differently.
-/

namespace Swatch.Disk

/-- Where a path leads, unless a name on the way cannot be entered. -/
def place? (disk : Disk) (path : Text) : Option Location :=
  (disk.follow (Path.parse path)).toOption

/-- The disk differs only in the file that the path leads to, and that file holds the bytes. -/
structure Wrote (disk after : Disk) (path : Text) (bytes : List UInt8) : Prop where
  holds : after.read path = some bytes
  elsewhere : ∃ location, disk.place? path = some location ∧
    ∀ other, other ≠ location → after.node? other = disk.node? other
  otherPaths : ∀ other, disk.place? other ≠ disk.place? path → after.read other = disk.read other
  places : ∀ other, after.place? other = disk.place? other
  working : after.working = disk.working

/-! ## One location -/

theorem lookup_replace (nodes : List (Location × Node)) (location there : Location) (node : Node) :
    (nodes.map fun entry => if entry.1 = location then (location, node) else entry).lookup there =
      if there = location then (nodes.lookup location).map fun _ => node
      else nodes.lookup there := by
  induction nodes with
  | nil => simp
  | cons entry rest ih =>
    rcases entry with ⟨here, old⟩
    rw [List.map_cons, List.lookup_cons, List.lookup_cons, List.lookup_cons]
    by_cases same : here = location
    · subst same
      by_cases found : there = here
      · simp [found]
      · simp [beq_false_of_ne found, found, ih]
    · by_cases found : there = location
      · subst found
        simp [beq_false_of_ne (Ne.symm same), same, ih]
      · simp [same, found, ih]

variable {disk after : Disk} {location : Location} {bytes : List UInt8}

theorem node?_put (below : location ≠ []) (node : Node) (there : Location) :
    (disk.put location node).node? there =
      if there = location then some node else disk.node? there := by
  unfold node? put
  by_cases root : there = []
  · rw [if_pos root, if_pos root, if_neg fun same => below (same.symm.trans root)]
  · rw [if_neg root, if_neg root]
    cases known : disk.nodes.lookup location with
    | some old =>
      rw [Option.isSome_some, if_pos rfl, lookup_replace, known]
      rfl
    | none =>
      rw [Option.isSome_none, if_neg Bool.false_ne_true, List.lookup_append]
      by_cases same : there = location
      · simp [same, known]
      · simp [same, List.lookup_cons, beq_false_of_ne same]

/-! ## Paths -/

section Put

variable (noDirectory : disk.node? location ≠ some .directory)

include noDirectory

theorem ne_root : location ≠ [] := by
  rintro rfl
  exact noDirectory rfl

/-- A location that is no directory cannot be entered, before and after a file is put there. -/
theorem toOption_enter_put (bytes : List UInt8) (here : Location) (name : Text) :
    ((disk.put location (.file bytes)).enter here name).toOption =
      (disk.enter here name).toOption := by
  unfold enter
  rw [node?_put (ne_root noDirectory)]
  by_cases same : here = location
  · subst same
    rw [if_pos rfl]
    cases stands : disk.node? here with
    | none => rfl
    | some node =>
      cases node with
      | directory => exact absurd stands noDirectory
      | file old => rfl
  · rw [if_neg same]

theorem toOption_foldlM_enter_put (bytes : List UInt8) (names : List Text) (start : Location) :
    (names.foldlM (disk.put location (.file bytes)).enter start).toOption =
      (names.foldlM disk.enter start).toOption := by
  induction names generalizing start with
  | nil => rfl
  | cons name names ih =>
    have step := toOption_enter_put noDirectory bytes start name
    rw [List.foldlM_cons, List.foldlM_cons]
    cases entered : disk.enter start name with
    | error fault =>
      rw [entered] at step
      cases enteredAfter : (disk.put location (.file bytes)).enter start name with
      | error other => rfl
      | ok next =>
        rw [enteredAfter] at step
        contradiction
    | ok next =>
      rw [entered] at step
      cases enteredAfter : (disk.put location (.file bytes)).enter start name with
      | error other =>
        rw [enteredAfter] at step
        contradiction
      | ok nextAfter =>
        rw [enteredAfter] at step
        cases step
        exact ih next

theorem place?_put (bytes : List UInt8) (path : Text) :
    (disk.put location (.file bytes)).place? path = disk.place? path :=
  toOption_foldlM_enter_put noDirectory bytes _ _

end Put

/-- Reading a path needs to know only where it leads. -/
theorem read_eq (disk : Disk) (path : Text) :
    disk.read path =
      match (disk.place? path).bind disk.node? with
      | some (.file bytes) => if (Path.parse path).asDirectory then none else some bytes
      | _ => none := by
  unfold read place?
  cases leads : disk.follow (Path.parse path) with
  | error fault => simp only [leads, Except.toOption, Option.bind_none]
  | ok location =>
    cases found : disk.node? location with
    | none => simp [leads, found, Except.toOption]
    | some node => cases node <;> simp [leads, found, Except.toOption]

/-! ## Writing -/

/-- A write that succeeds puts the bytes at the location that the path leads to. -/
theorem put_of_write {path : Text} (written : disk.write path bytes = .ok after) :
    ∃ location, disk.place? path = some location ∧ disk.node? location ≠ some .directory ∧
      (Path.parse path).asDirectory = false ∧ after = disk.put location (.file bytes) := by
  simp only [write, bind, Except.bind, throw, throwThe, MonadExceptOf.throw, pure,
    Except.pure] at written
  split at written
  · contradiction
  · cases leads : disk.follow (Path.parse path) with
    | error fault =>
      rw [leads] at written
      contradiction
    | ok location =>
      simp only [leads] at written
      split at written
      · contradiction
      · rename_i plain
        split at written
        · contradiction
        · rename_i noDirectory
          rw [Bool.not_eq_true, Bool.or_eq_false_iff, Bool.or_eq_false_iff] at plain
          cases written
          exact ⟨location, by rw [place?, leads]; rfl, noDirectory, plain.1.1, rfl⟩

theorem wrote_of_write {path : Text} (written : disk.write path bytes = .ok after) :
    disk.Wrote after path bytes := by
  rcases put_of_write written with ⟨location, leads, noDirectory, noSlash, rfl⟩
  have stands (other : Location) : (disk.put location (.file bytes)).node? other =
      if other = location then some (.file bytes) else disk.node? other :=
    node?_put (ne_root noDirectory) (.file bytes) other
  have places := place?_put noDirectory bytes
  refine ⟨?_, ⟨location, leads, fun other apart => ?_⟩, fun other apart => ?_, places, rfl⟩
  · rw [read_eq, places, leads, Option.bind_some, stands, if_pos rfl]
    simp [noSlash]
  · rw [stands, if_neg apart]
  · rw [read_eq, places, read_eq]
    cases place : disk.place? other with
    | none => rfl
    | some there =>
      have away : there ≠ location := by
        rintro rfl
        exact apart (place.trans leads.symm)
      rw [Option.bind_some, Option.bind_some, stands, if_neg away]

/-- Is the path one that a file can be written to? -/
def CanWrite (disk : Disk) (path : Text) : Prop :=
  ∃ bytes after, disk.write path bytes = .ok after

/-- What is written has no say in whether it can be. -/
theorem CanWrite.write {path : Text} (can : disk.CanWrite path) (bytes : List UInt8) :
    ∃ after, disk.write path bytes = .ok after := by
  rcases can with ⟨others, after, written⟩
  simp only [Disk.write, bind, Except.bind, throw, throwThe, MonadExceptOf.throw, pure,
    Except.pure] at written ⊢
  split at written
  · contradiction
  · cases leads : disk.follow (Path.parse path) with
    | error fault =>
      rw [leads] at written
      contradiction
    | ok location =>
      simp only [leads] at written ⊢
      split at written
      · contradiction
      · split at written
        · contradiction
        · rename_i named plain noDirectory
          refine ⟨disk.put location (.file bytes), ?_⟩
          rw [if_neg named]
          simp only [if_neg plain, if_neg noDirectory]

theorem CanWrite.ne_nil {path : Text} (can : disk.CanWrite path) : path ≠ [] := by
  rintro rfl
  rcases can with ⟨bytes, after, written⟩
  contradiction

/-! ## Disks as storages -/

section Storage

variable {α : Type} (disk : Disk) (path : Text)

/-- What follows a read goes on with the bytes, on the same disk. -/
theorem run_storage_read_bind (next : Option (List UInt8) → StateM Disk α) :
    (storage.read path >>= next).run disk = (next (disk.read path)).run disk := rfl

/-- What follows a write goes on with the fault if there was one, and otherwise on another disk. -/
theorem run_storage_write_bind (bytes : List UInt8) (next : Option WriteFault → StateM Disk α) :
    (storage.write path bytes >>= next).run disk =
      match disk.write path bytes with
      | .ok after => (next none).run after
      | .error fault => (next (some fault)).run disk := by
  change ((match disk.write path bytes with
    | .ok after => (do set after; return none : StateM Disk (Option WriteFault))
    | .error fault => return some fault) >>= next).run disk = _
  cases disk.write path bytes <;> rfl

end Storage

end Swatch.Disk
