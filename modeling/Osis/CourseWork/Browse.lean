import Osis.Concurrency.Transition
import Osis.CourseWork.TrashView

/-!
# The keys of the browser

`cmd_browse` shows a directory or the trash, one item of it selected, and answers keys one
after another: it moves the selection, changes the directory, or runs a command on the
selected item. Every list is read anew when it is needed; only the index of the selected
item, the first row drawn and the path of the directory are kept.

A key finds what `readdir`, `qsort` and the kernel answer to it in its `KeyAnswers`. What the
screen shows apart from the list is left out.
-/

namespace Osis.CourseWork

open Posix Concurrency

inductive BrowseMode where
  | fs
  | trash
  deriving DecidableEq, Repr

/-- The variables of `browser.c` that keys change, and the files. -/
structure Browse where
  files : FileSystem
  mode : BrowseMode
  highlight : ℤ
  scrollOffset : ℤ
  rows : ℤ
  cwd : Bytes

inductive Key where
  | toggle
  | up
  | down
  | enter
  | backspace
  | delete
  | restore
  | purge
  | purgeAll
  /-- The terminal has another number of rows. -/
  | resize (rows : ℤ)
  /-- A key that only has the screen drawn again. -/
  | other
  deriving DecidableEq, Repr

/-- What is answered to the calls a key makes. -/
structure KeyAnswers where
  /-- The names in `cwd` as `readdir` gives them. -/
  readdir : List Name
  /-- Those in the directory `files` of the trash. -/
  trashNames : List Name
  /-- Those in its directory `info`. -/
  infoNames : List Name
  /-- The bytes behind `disp` in memory that is not initialised. -/
  behind : Name → UInt8
  qsort : List BrowserEntry → List BrowserEntry
  /-- Whether `unlink` is refused. -/
  unlink : Bool
  restore : RestoreRefusals
  removal : Bytes → Removal

section Items

/-- The names `readdir` finds besides `.` and `..`, `none` where `opendir` fails. -/
def opendir (fs : FileSystem) (proc : Location) (path : Bytes) : Option (List Name) :=
  match fs.resolve proc path with
  | none => none
  | some place => if fs.tree place = some .directory then some (fs.names place) else none

variable (proc : Location) (base : Bytes)

/-- `build_items_count` of the directory. -/
def fsCount (fs : FileSystem) (cwd : Bytes) : ℤ :=
  match opendir fs proc cwd with
  | none => 0
  | some names => names.length + 2

/-- `build_items_count` of the trash. -/
def trashCount (fs : FileSystem) : ℤ :=
  match opendir fs proc (trashFiles base) with
  | none => 0
  | some names => names.length

/-- `build_items_count`. -/
def itemsCount (state : Browse) : ℤ :=
  match state.mode with
  | .fs => fsCount proc state.files state.cwd
  | .trash => trashCount proc base state.files

/-- `visible_items`. -/
def visibleItems (rows : ℤ) : ℤ := (rows - 1) - 2

/-- What `draw_list` changes. -/
def drawList (state : Browse) : Browse :=
  match state.mode with
  | .fs => state
  | .trash =>
      if trashCount proc base state.files = 0 then state
      else if state.highlight < state.scrollOffset then
        { state with scrollOffset := state.highlight }
      else if state.scrollOffset + visibleItems state.rows ≤ state.highlight then
        { state with scrollOffset := state.highlight - visibleItems state.rows + 1 }
      else state

/-- The entry of an array at an index that may be negative. -/
def item {α : Type} (array : List α) (index : ℤ) : Option α :=
  if 0 ≤ index then array[index.toNat]? else none

end Items

section Keys

variable (proc : Location) (base : Bytes) (answers : KeyAnswers) (state : Browse)

/-- The loop over `readdir` up to the selected item. -/
def selectedName : Option Name :=
  match opendir state.files proc state.cwd with
  | none => none
  | some _ => item answers.readdir state.highlight

/-- `full` of an item. -/
def itemPath (cwd : Bytes) (name : Name) : Bytes := snprintf pathMax (cwd ++ slash :: name)

/-- The path that Backspace leaves. -/
def parentPath (cwd : Bytes) : Bytes :=
  -- up to and with the last slash
  let front := cwd.rdropWhile (· ≠ slash)
  if front = [] ∨ front = [slash] then [slash] else front.dropLast

def pressEnter : Browse :=
  match state.mode, selectedName proc answers state with
  | .fs, some name =>
      if state.files.stat proc (itemPath state.cwd name) = some .directory then
        { state with cwd := itemPath state.cwd name, highlight := 0, scrollOffset := 0 }
      else state
  | _, _ => state

def pressBackspace : Browse :=
  match state.mode with
  | .fs => { state with cwd := parentPath state.cwd, highlight := 0, scrollOffset := 0 }
  | .trash => state

/-- What `unlink` of an item leaves. -/
def unlinked (name : Name) : FileSystem :=
  (granted answers.unlink (state.files.unlink proc (itemPath state.cwd name))).getD state.files

def pressDelete : Browse :=
  match state.mode, selectedName proc answers state with
  | .fs, some name => { state with files := unlinked proc answers state name }
  | _, _ => state

/-- The id of the selected entry of the trash, `none` where there is none. -/
def selectedId (entries : List BrowserEntry) : Option Bytes :=
  (item entries state.highlight).map BrowserEntry.id

/-- What `cmd_restore` of an id leaves. -/
def restored (id : Bytes) : FileSystem :=
  (cmdRestoreWith answers.restore state.files proc base id).2

/-- The status of `cmd_purge` of an id, and what it leaves. -/
def purged (id : Bytes) : ℕ × FileSystem :=
  cmdPurge state.files proc (answers.removal id) base id

/-- `build_trash_entries` as a key calls it. -/
def trashEntries : Option (List BrowserEntry) :=
  buildTrashEntries state.files proc base answers.trashNames answers.behind answers.qsort

def pressRestore : Option Browse :=
  match state.mode with
  | .fs => some state
  | .trash =>
      (trashEntries proc base answers state).map fun entries =>
        drawList proc base
          (match selectedId state entries with
          | none => state
          | some id => { state with files := restored proc base answers state id })

def pressPurge : Option Browse :=
  match state.mode with
  | .fs => some state
  | .trash =>
      (trashEntries proc base answers state).map fun entries =>
        drawList proc base
          (match selectedId state entries with
          | none => state
          | some id =>
              let (status, left) := purged proc base answers state id
              if status = 0 then
                { state with
                  files := left
                  highlight := if state.highlight - 1 < 0 then 0 else state.highlight - 1 }
              else { state with files := left })

def pressPurgeAll : Option Browse :=
  match state.mode with
  | .fs => some state
  | .trash =>
      (cmdPurgeAll state.files proc answers.removal base answers.infoNames).map fun (_, left) =>
        { state with files := left, highlight := 0, scrollOffset := 0 }

/-- The `switch` over the key; `none` where it comes to something that has no defined outcome. -/
def handle : Key → Option Browse
  | .toggle =>
      some { state with
        mode := if state.mode = .fs then .trash else .fs
        highlight := 0
        scrollOffset := 0 }
  | .up =>
      some (if 0 < state.highlight then { state with highlight := state.highlight - 1 }
        else state)
  | .down =>
      some (if state.highlight < itemsCount proc base state - 1 then
        { state with highlight := state.highlight + 1 } else state)
  | .enter => some (pressEnter proc answers state)
  | .backspace => some (pressBackspace state)
  | .delete => some (pressDelete proc answers state)
  | .restore => pressRestore proc base answers state
  | .purge => pressPurge proc base answers state
  | .purgeAll => pressPurgeAll proc base answers state
  | .resize rows => some { state with rows }
  | .other => some state

/-- A round of the loop of `cmd_browse`. -/
def press (key : Key) : Option Browse :=
  (handle proc base answers state key).map (drawList proc base)

end Keys

/-- `cmd_browse` in a process that works in `proc`, started on `startDir`. -/
def browsing (proc : Location) (base startDir : Bytes) : System Browse (Key × KeyAnswers) where
  initial state := state.mode = .fs ∧ state.highlight = 0 ∧ state.scrollOffset = 0 ∧
    state.cwd = startDir.take (pathMax - 1)
  next state step := press proc base step.2 state step.1

section Drawing

variable {proc : Location} {base : Bytes} {state : Browse}

/-- Drawing only moves the window of the trash view. -/
theorem drawList_eq (proc : Location) (base : Bytes) (state : Browse) :
    ∃ scrollOffset, drawList proc base state = { state with scrollOffset } ∧
      (state.mode = .fs → scrollOffset = state.scrollOffset) := by
  unfold drawList
  split
  · exact ⟨_, rfl, fun _ => rfl⟩
  · next inTrash =>
      have not_fs : ¬state.mode = .fs := by
        rw [inTrash]
        decide
      split
      · exact ⟨_, rfl, fun _ => rfl⟩
      · split
        · exact ⟨_, rfl, fun inFs => absurd inFs not_fs⟩
        · split
          · exact ⟨_, rfl, fun inFs => absurd inFs not_fs⟩
          · exact ⟨_, rfl, fun _ => rfl⟩

@[simp]
theorem drawList_files : (drawList proc base state).files = state.files := by
  rcases drawList_eq proc base state with ⟨_, drawn, -⟩
  rw [drawn]

@[simp]
theorem drawList_mode : (drawList proc base state).mode = state.mode := by
  rcases drawList_eq proc base state with ⟨_, drawn, -⟩
  rw [drawn]

@[simp]
theorem drawList_highlight : (drawList proc base state).highlight = state.highlight := by
  rcases drawList_eq proc base state with ⟨_, drawn, -⟩
  rw [drawn]

@[simp]
theorem drawList_rows : (drawList proc base state).rows = state.rows := by
  rcases drawList_eq proc base state with ⟨_, drawn, -⟩
  rw [drawn]

@[simp]
theorem drawList_cwd : (drawList proc base state).cwd = state.cwd := by
  rcases drawList_eq proc base state with ⟨_, drawn, -⟩
  rw [drawn]

@[simp]
theorem itemsCount_drawList : itemsCount proc base (drawList proc base state) =
    itemsCount proc base state := by
  unfold itemsCount
  rw [drawList_mode, drawList_files, drawList_cwd]

end Drawing

end Osis.CourseWork
