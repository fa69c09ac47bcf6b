import Osis.CourseWork.Collisions
import Osis.CourseWork.Records

/-!
# The trash as a map

What the trash is for: a map from ids to what was deleted under them, the content of a file and
its path. A deletion adds an id, `restore` and `purge` take one out, and `purge --all` takes out
all. The programs keep the map in the names and the contents of two directories.

`Refines` says that what the programs read back out of the directories is the map.
-/

namespace Osis.CourseWork

open Concurrency Concurrency.System Posix Posix.FileSystem

/-- What was deleted. -/
structure Deleted where
  content : Bytes
  path : Bytes
  deriving DecidableEq

/-- The files, and the map that is to be read out of them. -/
structure Store where
  fs : FileSystem
  map : Bytes → Option Deleted

/-- The calls that change the trash. -/
inductive Command where
  | delete (call : Call)
  | restore (cwd : Location) (id : Bytes)
  | purge (cwd : Location) (removal : Removal) (id : Bytes)
  | purgeAll (cwd : Location) (removal : Bytes → Removal) (names : List Name)

namespace Call

variable (call : Call) (fs : FileSystem)

/-- The place and the inode of the regular file that the call is given. -/
def file : Option (Location × ℕ) :=
  match fs.entryOf (call.dirfd.getD call.cwd) call.pathname with
  | none => none
  | some (name, place) =>
      match fs.tree (name :: place) with
      | some (.file inode) =>
          if endsInSlash call.pathname then none else some (name :: place, inode)
      | _ => none

/-- The id that the call generates. -/
def newId : Option Bytes := (buildAbsPath fs call.cwd call.dirfd call.pathname).map call.idOf

/-- What the call adds to the map. -/
def deleted : Option (Bytes × Deleted) :=
  match call.newId fs, call.file fs with
  | some id, some (place, inode) => some (id, ⟨fs.data inode, pathString place⟩)
  | _, _ => none

end Call

/-- The names that a directory has, none if it does not exist. -/
def namesAt (fs : FileSystem) (cwd : Location) (path : Bytes) : List Name :=
  (fs.resolve cwd path).elim [] fs.names

/-- The two directories are there or can be made, and they are empty. -/
def EmptyTrash (fs : FileSystem) (base : Bytes) : Prop :=
  let made := ensureDirectories fs [] base
  ∃ files info, made.resolve [] (trashFiles base) = some files ∧
    made.resolve [] (trashInfo base) = some info ∧ made.tree files = some .directory ∧
    made.tree info = some .directory ∧ files ≠ info ∧ made.names files = [] ∧ made.names info = []

/-- Commands under one `TRASH_BASE`, one after another. On the files each does what its program
does, on the map what it is for. -/
def trash (base : Bytes) : System Store Command where
  initial state := EmptyTrash state.fs base ∧ ∀ id, state.map id = none
  next state command :=
    match command with
    | .delete call =>
        (call.deleted state.fs).map fun (id, deleted) =>
          ⟨call.after state.fs, Function.update state.map id (some deleted)⟩
    | .restore cwd id =>
        some ⟨(cmdRestore state.fs cwd base id).2, Function.update state.map id none⟩
    | .purge cwd removal id =>
        some ⟨(cmdPurge state.fs cwd removal base id).2, Function.update state.map id none⟩
    | .purgeAll cwd removal names =>
        (cmdPurgeAll state.fs cwd removal base names).map fun (_, after) => ⟨after, fun _ => none⟩

section Conditions

/-- Nothing is refused that a purge of a file does. -/
structure Removal.Granted (removal : Removal) : Prop where
  file : removal.file = false
  record : removal.record = false

/-- The names are what `readdir` gives for the directory of the records. -/
structure Listing (fs : FileSystem) (cwd : Location) (base : Bytes) (names : List Name) : Prop where
  opened : fs.stat cwd (trashInfo base) = some .directory
  distinct : names.Nodup
  mem : ∀ name, name ∈ names ↔ name = dot ∨ name = dotDot ∨ name ∈ namesAt fs cwd (trashInfo base)

/-- The file is outside the trash, its path can be read back out of a record, and the id is new
and not too long for the programs that read it. -/
structure Call.Ordinary (call : Call) (base : Bytes) (state : Store) : Prop where
  base_eq : call.base = base
  outside : ∀ place inode, call.file state.fs = some (place, inode) →
    ¬InTrash (call.ensured state.fs) call.cwd base place
  unbroken : ∀ place inode, call.file state.fs = some (place, inode) → newline ∉ pathString place
  short : ∀ place inode, call.file state.fs = some (place, inode) → (pathString place).length ≤ 241
  fresh : ∀ id ∈ call.newId state.fs, state.map id = none
  id_short : ∀ id ∈ call.newId state.fs, id.length ≤ 63

/-- What the programs are promised about a command. -/
def Promised (base : Bytes) (state : Store) : Command → Prop
  | .delete call => call.Ordinary base state
  | .restore cwd id => ∃ deleted, state.map id = some deleted ∧ state.fs.Free cwd deleted.path
  | .purge _ removal id => state.map id ≠ none ∧ removal.Granted
  | .purgeAll cwd removal names =>
      Listing state.fs cwd base names ∧ ∀ id, (removal id).Granted

/-- No path that a deletion makes is cut, and the one of its file does not start like the path
of the trash. -/
structure Call.Plain (call : Call) (fs : FileSystem) : Prop where
  uncut : call.pathname.head? ≠ some slash →
    (pathString (call.dirfd.getD call.cwd) ++ slash :: call.pathname).length < pathMax
  fits : ∀ id ∈ call.newId fs, Fits call.base id
  unlike : ∀ path ∈ buildAbsPath fs call.cwd call.dirfd call.pathname, ¬trashDir call.base <+: path

/-- A deletion is plain. -/
def Command.Plain (state : Store) : Command → Prop
  | .delete call => call.Plain state.fs
  | _ => True

end Conditions

/-- The directories hold the map, as the programs read them. -/
structure Refines (base : Bytes) (state : Store) : Prop where
  files : ∀ cwd id, id ∈ namesAt state.fs cwd (trashFiles base) ↔ state.map id ≠ none
  records : ∀ cwd name, name ∈ namesAt state.fs cwd (trashInfo base) ↔
    ∃ id ∈ namesAt state.fs cwd (trashFiles base), idOfRecord name = some id
  content : ∀ cwd id deleted, state.map id = some deleted →
    state.fs.readFile cwd (filePath base id) = some deleted.content
  path : ∀ cwd id deleted, state.map id = some deleted →
    ∃ record, state.fs.readFile cwd (infoPath base id) = some record ∧
      scanOriginal record = some deleted.path ∧ (scanEntry record).original = deleted.path
  restored : ∀ cwd id deleted, state.map id = some deleted → state.fs.Free cwd deleted.path →
    ∃ after, cmdRestore state.fs cwd base id = (0, after) ∧
      after.readFile cwd deleted.path = some deleted.content
  emptied : ∀ cwd removal names, Listing state.fs cwd base names →
    (∀ id, (removal id : Removal).Granted) →
    ∃ after, cmdPurgeAll state.fs cwd removal base names = some (0, after) ∧
      namesAt after cwd (trashFiles base) = [] ∧ namesAt after cwd (trashInfo base) = []

end Osis.CourseWork
