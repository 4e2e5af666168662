import Swatch.Text

/-!
# Files

A run reads one file and may write one. It reaches them through a `Storage`,
which is all that it knows of the world outside.

A `Disk` is a storage that is a value: the files and directories below a root,
each at a location, and the working directory that relative paths start from.
A path is followed name by name, and every name but the last has to lead into a
directory. Writing creates the file unless it exists, but never a directory.
Runs make no directories and list no files: that is for those who set a disk up
and look at it afterwards.
-/

namespace Swatch

/-- Why a file could not be written. -/
inductive WriteFault where
  | missing
  | notDirectory
  | isDirectory
  /-- Anything else, in the words of the system. -/
  | other (words : Text)
  deriving DecidableEq, Repr

/-- The words for a fault. -/
def WriteFault.message : WriteFault → Text
  | .missing => "No such file or directory (os error 2)".toList
  | .notDirectory => "Not a directory (os error 20)".toList
  | .isDirectory => "Is a directory (os error 21)".toList
  | .other words => words

/-- The two things that can be done with files, each by the path of the file. -/
structure Storage (m : Type → Type) where
  /-- The bytes of a file, unless it cannot be read. -/
  read : Text → m (Option (List UInt8))
  /-- Makes the bytes the contents of a file, unless that fails. -/
  write : Text → List UInt8 → m (Option WriteFault)

/-- A path as it is written: names between slashes. -/
structure Path where
  fromRoot : Bool
  names : List Text
  /-- Does a slash at the end ask for a directory? -/
  asDirectory : Bool
  deriving DecidableEq, Repr

/-- Reads a path; slashes that follow each other count as one. -/
def Path.parse (text : Text) : Path where
  fromRoot := text.head? == some '/'
  names := (text.splitOn '/').filter (· ≠ [])
  asDirectory := text.getLast? == some '/'

/-- A place below the root: the names on the way to it. -/
abbrev Location := List Text

/-- What stands at a location. -/
inductive Node where
  | directory
  | file (bytes : List UInt8)
  deriving DecidableEq, Repr

/-- Files and directories, each listed once with its location, and the working directory. -/
structure Disk where
  nodes : List (Location × Node)
  working : Location
  deriving DecidableEq, Repr

namespace Disk

/-- What stands at a location; the root is always a directory. -/
def node? (disk : Disk) (location : Location) : Option Node :=
  if location = [] then some .directory else disk.nodes.lookup location

/-- Puts a node at a location, in the place of what stood there. -/
def put (disk : Disk) (location : Location) (node : Node) : Disk where
  nodes :=
    if (disk.nodes.lookup location).isSome then
      disk.nodes.map fun entry => if entry.1 = location then (location, node) else entry
    else disk.nodes ++ [(location, node)]
  working := disk.working

/-- One step of following a path, which has to start in a directory. -/
def enter (disk : Disk) (location : Location) (name : Text) : Except WriteFault Location :=
  match disk.node? location with
  | none => .error .missing
  | some (.file _) => .error .notDirectory
  | some .directory =>
    if name = ".".toList then .ok location
    else if name = "..".toList then .ok location.dropLast
    else .ok (location ++ [name])

/-- Where a path leads; nothing has to stand there yet. -/
def follow (disk : Disk) (path : Path) : Except WriteFault Location :=
  path.names.foldlM disk.enter (if path.fromRoot then [] else disk.working)

/-- The bytes of the file that a path leads to. -/
def read (disk : Disk) (text : Text) : Option (List UInt8) :=
  let path := Path.parse text
  match disk.follow path with
  | .error _ => none
  | .ok location =>
    match disk.node? location with
    | some (.file bytes) => if path.asDirectory then none else some bytes
    | _ => none

/-- The disk after a file was written. -/
def write (disk : Disk) (text : Text) (bytes : List UInt8) : Except WriteFault Disk := do
  let path := Path.parse text
  if text = [] then throw .missing
  let location ← disk.follow path
  let names := path.names.getLast?
  if path.asDirectory || names = some ".".toList || names = some "..".toList then
    throw .isDirectory
  if disk.node? location = some .directory then throw .isDirectory
  return disk.put location (.file bytes)

/-- An empty disk whose working directory is a fresh directory below the root. -/
def scratch : Disk :=
  ⟨[(["work".toList], .directory)], ["work".toList]⟩

/-- A disk as a storage whose state it is. -/
def storage : Storage (StateM Disk) where
  read text := do return (← get).read text
  write text bytes := do
    match (← get).write text bytes with
    | .ok disk =>
      set disk
      return none
    | .error fault => return some fault

/-! ## Disks from outside: setting them up, and comparing them -/

/-- The disk after a directory was made, together with those on the way to it. -/
def makeDirectory (disk : Disk) (text : Text) : Disk :=
  let path := Path.parse text
  let start := if path.fromRoot then [] else disk.working
  let step := fun (made : Disk × Location) (name : Text) =>
    match made.1.enter made.2 name with
    | .error _ => made
    | .ok next =>
      if (made.1.node? next).isSome then (made.1, next) else (made.1.put next .directory, next)
  (path.names.foldl step (disk, start)).1

/-- The files below the working directory, by their paths from there. -/
def files (disk : Disk) : List (Text × List UInt8) :=
  disk.nodes.filterMap fun entry =>
    match entry.2 with
    | .directory => none
    | .file bytes =>
      if disk.working.isPrefixOf entry.1 then
        some (join "/".toList (entry.1.drop disk.working.length), bytes)
      else none

/-- The files that are new or hold other bytes than before, ordered by their paths. -/
def changedSince (disk before : Disk) : List (Text × List UInt8) :=
  let changed := disk.files.filter fun file => !before.files.contains file
  changed.mergeSort fun left right => !List.lex right.1 left.1 fun c d => decide (c.toNat < d.toNat)

end Disk

end Swatch
