import Osis.Posix.Stream
import Osis.CourseWork.Trashctl

/-!
# The trash view of the browser

`browser.c` has a parser of its own for the records: it shows an entry under the last
name of its original path, which it copies into an array of `NAME_MAX + 1` bytes with
`strncpy`. A name that fills the array leaves the byte behind it as `realloc` gave it.
-/

namespace Osis.CourseWork

open Posix

/-- `BrowserEntry`. -/
structure BrowserEntry where
  id : Bytes
  disp : Bytes
  isDir : Bool
  deriving DecidableEq

/-- `disp` of a line with the original path, given the last byte of the array; `none` where
neither a newline nor a NUL ends the text in the array. -/
def dispOf (behind : UInt8) (line : Bytes) : Option Bytes :=
  let source := (cString (line.drop 14)).rtakeWhile (· ≠ slash)
  let disp := source.take nameMax ++ [if source.length < nameMax then 0 else behind]
  if disp.all inLine then none else some (firstLine disp)

/-- The loop of `build_trash_entries` over a record. -/
def scanDisp (behind : UInt8) (record : Bytes) : Option Bytes :=
  match (lines pathMax record).find? fun line => ascii "original_path=" <+: line with
  | none => some []
  | some line => dispOf behind line

/-- The entry of `build_trash_entries` for a name in `files`. -/
def trashEntry (fs : FileSystem) (cwd : Location) (base : Bytes) (behind : UInt8) (name : Name) :
    Option BrowserEntry :=
  let infoPath := snprintf pathMax (trashInfo base ++ slash :: (name ++ ascii ".info"))
  let full := snprintf pathMax (trashFiles base ++ slash :: name)
  let disp := ((fs.readFile cwd infoPath).map (scanDisp behind)).getD (some [])
  disp.map fun disp => ⟨name.take nameMax, disp, fs.stat cwd full = some .directory⟩

end Osis.CourseWork
