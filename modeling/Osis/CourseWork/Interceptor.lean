import Osis.Posix.Removal

/-!
# The `unlink` interceptor of the trash

`trash_unlink.c` replaces `unlink` and `unlinkat`: instead of removing an entry it
renames it into `<base>/.trash/files` under a generated name and describes it in a
record in `<base>/.trash/info`. Where this fails the entry is really removed.

What the C library answers apart from the file system (the clock, `rand`, the
broken-down time) is an argument. Every path is formatted into a buffer of
`PATH_MAX` bytes and cut when it is longer, as `snprintf` does.
-/

namespace Osis.CourseWork

open Posix

section Paths

/-- `get_trash_base`, given `getenv("TRASH_BASE")`. -/
def getTrashBase (env : Option Bytes) : Bytes := env.getD (ascii ".")

/-- `TRASH_DIR_FMT`. -/
def trashDir (base : Bytes) : Bytes := snprintf pathMax (base ++ ascii "/.trash")

/-- `TRASH_FILES_FMT`. -/
def trashFiles (base : Bytes) : Bytes := snprintf pathMax (base ++ ascii "/.trash/files")

/-- `TRASH_INFO_FMT`. -/
def trashInfo (base : Bytes) : Bytes := snprintf pathMax (base ++ ascii "/.trash/info")

/-- `TRASH_FILES_FMT "/%s"`: where the file of an id is. -/
def filePath (base id : Bytes) : Bytes :=
  snprintf pathMax (base ++ ascii "/.trash/files" ++ slash :: id)

/-- `TRASH_INFO_FMT "/%s.info"`: where the record of an id is. -/
def infoPath (base id : Bytes) : Bytes :=
  snprintf pathMax (base ++ ascii "/.trash/info" ++ slash :: (id ++ ascii ".info"))

end Paths

section Names

/-- `get_file_extension`, from the last dot on, unless it is the first byte. -/
def getFileExtension (filename : Bytes) : Option Bytes :=
  let behind := filename.rtakeWhile (· ≠ 46)
  if behind.length + 1 < filename.length then
    some (filename.drop (filename.length - (behind.length + 1)))
  else none

/-- `generate_unique_name`, given what `time` and `rand` return. -/
def generateUniqueName (now : ℤ) (random : ℕ) (origName : Bytes) : Bytes :=
  snprintf 256 (signed now ++ ascii "_" ++ padded 5 (random % 100000) ++
    (getFileExtension origName).getD [])

end Names

section Records

/-- The broken-down time of `localtime`, the month counted from 1. -/
structure LocalTime where
  year : ℤ
  month : ℕ
  day : ℕ
  hour : ℕ
  minute : ℕ
  second : ℕ

/-- `strftime` with `"%Y-%m-%dT%H:%M:%S"`. -/
def timestr (time : LocalTime) : Bytes :=
  signed time.year ++ ascii "-" ++ padded 2 time.month ++ ascii "-" ++ padded 2 time.day ++
    ascii "T" ++ padded 2 time.hour ++ ascii ":" ++ padded 2 time.minute ++ ascii ":" ++
    padded 2 time.second

/-- The text of a record. -/
def recordText (origPath : Bytes) (time : LocalTime) (size : ℕ) : Bytes :=
  ascii "original_path=" ++ (origPath ++ newline :: (ascii "deleted_time=" ++ (timestr time ++
    newline :: (ascii "size=" ++ (decimal size ++ [newline])))))

/-- `write_info_file`, `none` where it returns -1. -/
def writeInfoFile (fs : FileSystem) (cwd : Location) (base newname origPath : Bytes) (size : ℕ)
    (time : LocalTime) : Option FileSystem :=
  match fs.openWrite cwd (infoPath base newname) with
  | none => none
  | some (opened, inode) => some (opened.write inode (recordText origPath time size))

end Records

section Deletion

/-- What the C library and the kernel answer to a deletion besides the state of the files. -/
structure Answers where
  /-- `time(NULL)` for the generated name. -/
  now : ℤ
  /-- `rand()`. -/
  random : ℕ
  /-- `localtime` of the time the record is written at. -/
  time : LocalTime
  /-- `st_size` of a directory. -/
  directorySize : ℕ

/-- `ensure_directories`; whether a directory could be made is not looked at. -/
def ensureDirectories (fs : FileSystem) (cwd : Location) (base : Bytes) : FileSystem :=
  let fs := (fs.mkdir cwd (trashDir base)).getD fs
  let fs := (fs.mkdir cwd (trashFiles base)).getD fs
  (fs.mkdir cwd (trashInfo base)).getD fs

/-- `orig_real`: the canonical path where `realpath` finds one, else the path itself. -/
def origReal (fs : FileSystem) (cwd : Location) (absPath : Bytes) : Bytes :=
  (fs.realpath cwd absPath).getD (absPath.take (pathMax - 1))

/-- `st_size`. -/
def statSize (fs : FileSystem) (directorySize : ℕ) : Node → ℕ
  | .directory => directorySize
  | .file inode => (fs.data inode).length
  | .link _ target => target.length

/-- How `move_to_trash` ends. -/
inductive Outcome where
  /-- It returns -1. -/
  | refused
  /-- It really removed a path that starts like the path of the trash. -/
  | unlinked
  /-- It moved the entry; the result of writing the record is not looked at. -/
  | moved (newname : Bytes) (recorded : Bool)
  deriving DecidableEq

/-- `move_to_trash`. -/
def moveToTrash (fs : FileSystem) (cwd : Location) (base : Bytes) (answers : Answers)
    (absPath : Bytes) : Outcome × FileSystem :=
  let fs := ensureDirectories fs cwd base
  match fs.stat cwd absPath with
  | none => (.refused, fs)
  | some node =>
      if trashDir base <+: absPath then
        match fs.unlink cwd absPath with
        | none => (.refused, fs)
        | some removed => (.unlinked, removed)
      else
        let newname := generateUniqueName answers.now answers.random (basename absPath)
        -- basename has cut the slashes at the end of abs_path
        match fs.rename cwd (stripSlashes absPath) (filePath base newname) with
        | none => (.refused, fs)
        | some moved =>
            match writeInfoFile moved cwd base newname (origReal fs cwd absPath)
                (statSize fs answers.directorySize node) answers.time with
            | none => (.moved newname false, moved)
            | some recorded => (.moved newname true, recorded)

/-- `build_abs_path`; `dirfd` is the directory of the descriptor, `none` for `AT_FDCWD`. -/
def buildAbsPath (fs : FileSystem) (cwd : Location) (dirfd : Option Location) (pathname : Bytes) :
    Option Bytes :=
  -- strncpy leaves a path of PATH_MAX bytes or more without its NUL: too long for any call
  if pathname.head? = some slash then some (pathname.take pathMax)
  else
    match dirfd with
    | none => (fs.getcwd cwd).map fun dir => snprintf pathMax (dir ++ slash :: pathname)
    | some dir =>
        some (snprintf pathMax ((pathString dir).take (pathMax - 1) ++ slash :: pathname))

/-- `real_unlink`: whether it succeeds and what it leaves. -/
def realUnlink (fs : FileSystem) (cwd : Location) (pathname : Bytes) : Bool × FileSystem :=
  match fs.unlink cwd pathname with
  | none => (false, fs)
  | some removed => (true, removed)

/-- `unlinkat` of the interceptor. -/
def unlinkat (fs : FileSystem) (cwd : Location) (base : Bytes) (answers : Answers)
    (dirfd : Option Location) (pathname : Bytes) (removeDir : Bool) : Bool × FileSystem :=
  if removeDir then
    match fs.rmdir (dirfd.getD cwd) pathname with
    | none => (false, fs)
    | some removed => (true, removed)
  else
    match buildAbsPath fs cwd dirfd pathname with
    | none => realUnlink fs (dirfd.getD cwd) pathname
    | some absPath =>
        match moveToTrash fs cwd base answers absPath with
        | (.refused, left) => realUnlink left (dirfd.getD cwd) pathname
        | (_, done) => (true, done)

/-- `unlink` of the interceptor. -/
def unlink (fs : FileSystem) (cwd : Location) (base : Bytes) (answers : Answers)
    (pathname : Bytes) : Bool × FileSystem :=
  unlinkat fs cwd base answers none pathname false

/-- The calls of `move_to_trash` that are refused for reasons that are not in the file system. -/
structure DeletionRefusals where
  rename : Bool
  /-- `fopen` of the record. -/
  opening : Bool

/-- `move_to_trash` where calls may be refused. -/
def moveToTrashWith (refused : DeletionRefusals) (fs : FileSystem) (cwd : Location) (base : Bytes)
    (answers : Answers) (absPath : Bytes) : Outcome × FileSystem :=
  let fs := ensureDirectories fs cwd base
  match fs.stat cwd absPath with
  | none => (.refused, fs)
  | some node =>
      if trashDir base <+: absPath then
        match fs.unlink cwd absPath with
        | none => (.refused, fs)
        | some removed => (.unlinked, removed)
      else
        let newname := generateUniqueName answers.now answers.random (basename absPath)
        match granted refused.rename
            (fs.rename cwd (stripSlashes absPath) (filePath base newname)) with
        | none => (.refused, fs)
        | some moved =>
            match granted refused.opening
                (writeInfoFile moved cwd base newname (origReal fs cwd absPath)
                  (statSize fs answers.directorySize node) answers.time) with
            | none => (.moved newname false, moved)
            | some recorded => (.moved newname true, recorded)

/-- `unlinkat` of the interceptor without `AT_REMOVEDIR`, where calls may be refused. -/
def unlinkatWith (refused : DeletionRefusals) (fs : FileSystem) (cwd : Location) (base : Bytes)
    (answers : Answers) (dirfd : Option Location) (pathname : Bytes) : Bool × FileSystem :=
  match buildAbsPath fs cwd dirfd pathname with
  | none => realUnlink fs (dirfd.getD cwd) pathname
  | some absPath =>
      match moveToTrashWith refused fs cwd base answers absPath with
      | (.refused, left) => realUnlink left (dirfd.getD cwd) pathname
      | (_, done) => (true, done)

end Deletion

end Osis.CourseWork
