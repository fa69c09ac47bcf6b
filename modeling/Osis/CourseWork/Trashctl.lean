import Osis.Posix.Removal
import Osis.CourseWork.Interceptor

/-!
# `trashctl`

The commands that read the trash back: `list`, `restore` and `purge`. They find the
entries by their ids, which `list` and `purge --all` cut out of the names in
`<base>/.trash/info`, and the deleted paths by scanning the records line by line.

A command gives its exit status and the files it leaves. The directory listing is an
argument, since `readdir` may give the names in any order; so is what the kernel refuses
for reasons that are not in the file system.
-/

namespace Osis.CourseWork

open Posix

section Scanning

/-- The loop of `cmd_restore` over a record; `none` stands for an empty `original`. -/
def scanOriginal (record : Bytes) : Option Bytes :=
  (lines 256 record).findSome? (scanText (ascii "original_path="))

/-- `cmd_restore` reads the first line of the recorded path, cut to 241 bytes. -/
theorem scanOriginal_eq_take {origPath : Bytes} {time : LocalTime} {size : ℕ}
    (nonempty : firstLine origPath ≠ []) :
    scanOriginal (recordText origPath time size) = some ((firstLine origPath).take 241) := by
  have key_length : (ascii "original_path=").length = 14 := by decide
  unfold scanOriginal recordText
  rw [lines_of_ne_nil (by decide) (by simp [ascii]), List.findSome?_cons,
    scanText_takeLine (by decide) nonempty (by decide), key_length]

/-- What `cmd_list` prints of a record. -/
structure Entry where
  original : Bytes
  deleted : Bytes
  size : ℤ
  deriving DecidableEq

/-- One line of a record in `cmd_list`. -/
def scanLine (entry : Entry) (line : Bytes) : Entry :=
  match scanText (ascii "original_path=") line with
  | some original => { entry with original }
  | none =>
      match scanText (ascii "deleted_time=") line with
      | some deleted => { entry with deleted }
      | none =>
          match scanLong (ascii "size=") line with
          | some size => { entry with size }
          | none => entry

/-- The loop of `cmd_list` over a record. -/
def scanEntry (record : Bytes) : Entry := (lines 256 record).foldl scanLine ⟨[], [], 0⟩

/-- The id in the name of a record, `none` for a name that is passed over. -/
def idOfRecord (name : Name) : Option Bytes :=
  if name.length < 6 ∨ ¬ascii ".info" <:+ name then none else some (name.take (name.length - 5))

end Scanning

section Commands

/-- `cmd_restore`. -/
def cmdRestore (fs : FileSystem) (cwd : Location) (base id : Bytes) : ℕ × FileSystem :=
  match fs.readFile cwd (infoPath base id) with
  | none => (1, fs)
  | some record =>
      match scanOriginal record with
      | none => (1, fs)
      | some original =>
          if fs.access cwd (dirname original) = true then
            match fs.rename cwd (filePath base id) original with
            | none => (1, fs)
            | some restored =>
                -- a record that cannot be removed is reported only
                (0, (restored.unlink cwd (infoPath base id)).getD restored)
          else (1, fs)

/-- The calls of `cmd_restore` that are refused. -/
structure RestoreRefusals where
  opening : Bool
  access : Bool
  rename : Bool
  unlink : Bool

/-- `cmd_restore` where calls may be refused. -/
def cmdRestoreWith (refused : RestoreRefusals) (fs : FileSystem) (cwd : Location)
    (base id : Bytes) : ℕ × FileSystem :=
  match granted refused.opening (fs.readFile cwd (infoPath base id)) with
  | none => (1, fs)
  | some record =>
      match scanOriginal record with
      | none => (1, fs)
      | some original =>
          if refused.access = false ∧ fs.access cwd (dirname original) = true then
            match granted refused.rename (fs.rename cwd (filePath base id) original) with
            | none => (1, fs)
            | some restored =>
                (0, (granted refused.unlink (restored.unlink cwd (infoPath base id))).getD restored)
          else (1, fs)

/-- What decides over a purge besides the files. -/
structure Removal where
  /-- The calls of `remove_tree_cb` below a directory that are refused. -/
  entries : Location → Bool
  /-- Whether the call is refused that removes the file of the id itself. -/
  file : Bool
  /-- Whether it is refused to unlink the record. -/
  record : Bool
  /-- An order in which `nftw` comes to the entries of a tree. -/
  order : List Location

/-- The entries that `nftw` finds below a directory. -/
def Removal.below (removal : Removal) (fs : FileSystem) (top : Location) : List Location :=
  removal.order.filter fun place => top <:+ place ∧ place ≠ top ∧ fs.tree place ≠ none

/-- Whether a call succeeds, and what it leaves. -/
def attempt (fs : FileSystem) (result : Option FileSystem) : Bool × FileSystem :=
  (result.isSome, result.getD fs)

/-- `remove_tree`; `nftw` cuts the slashes at the end of a path and does not follow a link. The
callback is called for places; that a path has become too long or no longer leads to its place
counts as a refusal. -/
def removeTree (fs : FileSystem) (cwd : Location) (removal : Removal) (path : Bytes) :
    Bool × FileSystem :=
  match fs.lstat cwd (stripSlashes path) with
  | none => (false, fs)
  | some .directory =>
      match fs.resolve cwd (stripSlashes path) with
      | none => (false, fs)
      | some top =>
          let (emptied, left) := fs.removeEach removal.entries (removal.below fs top)
          match emptied, fs.entryOf cwd (stripSlashes path) with
          | true, some (name, place) =>
              attempt left (granted removal.file (left.removeAt (name :: place)))
          -- the root, `.` and `..` cannot be removed
          | _, _ => (false, left)
  | some _ => attempt fs (granted removal.file (fs.unlink cwd (stripSlashes path)))

/-- The first half of `cmd_purge`: remove the file of an id. -/
def purgeFile (fs : FileSystem) (cwd : Location) (removal : Removal) (base id : Bytes) :
    Bool × FileSystem :=
  match fs.stat cwd (filePath base id) with
  | none => (false, fs)
  | some .directory => removeTree fs cwd removal (filePath base id)
  | some _ => attempt fs (granted removal.file (fs.unlink cwd (filePath base id)))

/-- `cmd_purge`. -/
def cmdPurge (fs : FileSystem) (cwd : Location) (removal : Removal) (base id : Bytes) :
    ℕ × FileSystem :=
  let (removed, left) := purgeFile fs cwd removal base id
  let (forgotten, left) :=
    attempt left (granted removal.record (left.unlink cwd (infoPath base id)))
  (if removed && forgotten then 0 else 1, left)

/-- The loop of `cmd_purge_all` over the names it reads; an id of 64 bytes or more overruns
its buffer, which has no defined outcome. -/
def purgeNames (cwd : Location) (removal : Bytes → Removal) (base : Bytes) :
    List Name → ℕ × FileSystem → Option (ℕ × FileSystem)
  | [], state => some state
  | name :: rest, (status, fs) =>
      match idOfRecord name with
      | none => purgeNames cwd removal base rest (status, fs)
      | some id =>
          if id.length < 64 then
            let (purged, left) := cmdPurge fs cwd (removal id) base id
            purgeNames cwd removal base rest (if purged = 0 then status else 1, left)
          else none

/-- `cmd_purge_all`, given the names in the order `readdir` finds them. -/
def cmdPurgeAll (fs : FileSystem) (cwd : Location) (removal : Bytes → Removal) (base : Bytes)
    (names : List Name) : Option (ℕ × FileSystem) :=
  match fs.stat cwd (trashInfo base) with
  | some .directory => purgeNames cwd removal base names (0, fs)
  | _ => some (1, fs)

/-- `main` for `purge` with one more argument. -/
def mainPurge (fs : FileSystem) (cwd : Location) (removal : Bytes → Removal) (base : Bytes)
    (names : List Name) (argument : Bytes) : Option (ℕ × FileSystem) :=
  if argument = ascii "--all" then cmdPurgeAll fs cwd removal base names
  else some (cmdPurge fs cwd (removal argument) base argument)

/-- The loop of `cmd_list` over the names it reads, with the same buffer for ids. -/
def listNames (fs : FileSystem) (cwd : Location) (base : Bytes) :
    List Name → Option (List (Bytes × Entry))
  | [] => some []
  | name :: rest =>
      match idOfRecord name with
      | none => listNames fs cwd base rest
      | some id =>
          if id.length < 64 then
            let path := snprintf (2 * pathMax) (trashInfo base ++ slash :: name)
            match fs.readFile cwd path with
            | none => listNames fs cwd base rest
            | some record =>
                (listNames fs cwd base rest).map fun rows => (id, scanEntry record) :: rows
          else none

/-- `cmd_list`: its rows, the heading apart. -/
def cmdList (fs : FileSystem) (cwd : Location) (base : Bytes) (names : List Name) :
    Option (ℕ × List (Bytes × Entry)) :=
  match fs.stat cwd (trashInfo base) with
  | some .directory => (listNames fs cwd base names).map fun rows => (0, rows)
  | _ => some (1, [])

end Commands

end Osis.CourseWork
