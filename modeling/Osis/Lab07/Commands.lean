import Osis.Concurrency.Transition
import Osis.Lab07.Record
import Osis.Posix.RecordLock

/-!
# The commands of lab 7 on the shared record file (`main.c`)

Any number of processes run `GET`, `PUT` and `INIT` on one file. Every byte that a
`read` or `write` moves is a step of its own; so are the requests for locks, the
comparisons and the answers of the user. Reads stop at the end of the file, and
no call fails otherwise. Record numbers are natural numbers: with a negative one
`lseek` and `fcntl` fail, and a command returns without having done anything.
`LST` reads without a lock and changes nothing; it is left out.

The state also records which record a `PUT` last showed to its user, every write
of a record with the bytes it overwrote, and what `GET` has printed.
-/

namespace Osis.Lab07

open Concurrency Posix

universe u

/-- A file; bytes at `length` and behind are not part of it. -/
structure File where
  bytes : ℕ → UInt8
  length : ℕ

/-- Write one byte; a gap between the end of the file and the byte is filled with zeros. -/
def File.writeByte (file : File) (position : ℕ) (byte : UInt8) : File where
  bytes address :=
    if address = position then byte
    else if file.length ≤ address ∧ address < position then 0
    else file.bytes address
  length := max file.length (position + 1)

/-- How a `read` of a record goes on. -/
inductive ReadStep where
  | byte (byte : UInt8)
  | complete
  | short

/-- The offset of a record. -/
def recordStart (recNo : ℕ) : ℕ := recNo * recordSize

/-- The next step of `read_record` with some bytes read. -/
def File.readStep (file : File) (recNo : ℕ) (got : List UInt8) : ReadStep :=
  if got.length = recordSize then .complete
  else if recordStart recNo + got.length < file.length then
    .byte (file.bytes (recordStart recNo + got.length))
  else .short

/-- A record written by `cmd_put`. -/
structure Commit (Process : Type u) where
  process : Process
  recNo : ℕ
  /-- What the process last showed to its user. -/
  shown : List UInt8
  /-- The bytes of the file that the write replaced. -/
  overwritten : List UInt8
  work : List UInt8

/-- Where a process is. -/
inductive Point where
  | idle
  | getLock (recNo : ℕ)
  | getRead (recNo : ℕ) (got : List UInt8)
  | getPrint (recNo : ℕ) (r : List UInt8)
  | getUnlock (recNo : ℕ)
  | putRead (recNo : ℕ) (got : List UInt8)
  | putEdit (recNo : ℕ) (orig : List UInt8)
  | putLock (recNo : ℕ) (orig work : List UInt8)
  | putReread (recNo : ℕ) (orig work got : List UInt8)
  | putCompare (recNo : ℕ) (orig work fresh : List UInt8)
  | putWrite (recNo : ℕ) (work overwritten : List UInt8)
  | putUnlock (recNo : ℕ)
  | putConflict (recNo : ℕ)
  | putAsk (recNo : ℕ)
  | initOpen
  | initWrite (index written : ℕ)

/-- The state all processes share. -/
structure Shared (Process : Type u) where
  file : File
  locks : List (RecordLock Process)
  shown : Process → List UInt8
  /-- The finished writes of `cmd_put`, oldest first. -/
  commits : List (Commit Process)
  /-- The records `cmd_get` has printed, with their numbers. -/
  printed : List (ℕ × List UInt8)

/-- The state of the whole system. -/
structure State (Process : Type u) where
  shared : Shared Process
  points : Process → Point

/-- What happens next. -/
inductive Action (Process : Type u) where
  | get (process : Process) (recNo : ℕ)
  | put (process : Process) (recNo : ℕ)
  | init (process : Process)
  | step (process : Process)
  /-- The user answers the three prompts; `buf` is the content of the local buffer before. -/
  | edit (process : Process) (buf stdin : List UInt8)
  /-- The user answers whether to go on after a conflict. -/
  | answer (process : Process) (c : UInt8)

/-- The bytes of a text with zeros up to the size of a field. -/
def fieldOf (text : String) : List UInt8 :=
  let bytes := text.toList.map fun char => UInt8.ofNat char.toNat
  bytes ++ List.replicate (fieldSize - bytes.length) 0

/-- The record that `init_file` writes; the index has one digit. -/
def initRecord (index : ℕ) : List UInt8 :=
  fieldOf ("Student0" ++ toString index) ++ fieldOf ("Address0" ++ toString index) ++
    [UInt8.ofNat (index % 8 + 1)]

/-- `RECORD_COUNT`. -/
def recordCount : ℕ := 10

section Definitions

variable {Process : Type u} [DecidableEq Process]

/-- The lock on a record. -/
def recordLock (process : Process) (recNo : ℕ) (exclusive : Bool) : RecordLock Process :=
  ⟨process, recordStart recNo, recordSize, exclusive⟩

/-- `lock_record`. -/
def Shared.lockRecord (shared : Shared Process) (process : Process) (recNo : ℕ) (exclusive : Bool)
    (point : Point) : Option (Shared Process × Point) :=
  (RecordLock.setLock shared.locks (recordLock process recNo exclusive)).map fun locks =>
    ({ shared with locks := locks }, point)

/-- `unlock_record`. -/
def Shared.unlockRecord (shared : Shared Process) (process : Process) (recNo : ℕ)
    (point : Point) : Option (Shared Process × Point) :=
  some ({ shared with
    locks := RecordLock.unlock shared.locks process (recordStart recNo) recordSize }, point)

/-- A step of `cmd_get`. -/
def cmdGet (shared : Shared Process) (process : Process) :
    Point → Option (Shared Process × Point)
  | .getLock recNo => shared.lockRecord process recNo false (.getRead recNo [])
  | .getRead recNo got =>
      match shared.file.readStep recNo got with
      | .byte byte => some (shared, .getRead recNo (got ++ [byte]))
      | .complete => some (shared, .getPrint recNo got)
      | .short => some (shared, .getUnlock recNo)
  | .getPrint recNo r =>
      some ({ shared with printed := shared.printed ++ [(recNo, r)] }, .getUnlock recNo)
  | .getUnlock recNo => shared.unlockRecord process recNo .idle
  | _ => none

/-- A step of `cmd_put` that does not wait for the user. -/
def cmdPut (shared : Shared Process) (process : Process) :
    Point → Option (Shared Process × Point)
  | .putRead recNo got =>
      match shared.file.readStep recNo got with
      | .byte byte => some (shared, .putRead recNo (got ++ [byte]))
      | .complete =>
          some ({ shared with shown := Function.update shared.shown process got },
            .putEdit recNo got)
      | .short => some (shared, .idle)
  | .putLock recNo orig work => shared.lockRecord process recNo true (.putReread recNo orig work [])
  | .putReread recNo orig work got =>
      match shared.file.readStep recNo got with
      | .byte byte => some (shared, .putReread recNo orig work (got ++ [byte]))
      | .complete => some (shared, .putCompare recNo orig work got)
      | .short => some (shared, .putUnlock recNo)
  | .putCompare recNo orig work fresh =>
      if orig = fresh then some (shared, .putWrite recNo work [])
      else some (shared, .putConflict recNo)
  | .putWrite recNo work overwritten =>
      match work[overwritten.length]? with
      | some byte =>
          let position := recordStart recNo + overwritten.length
          some ({ shared with file := shared.file.writeByte position byte },
            .putWrite recNo work (overwritten ++ [shared.file.bytes position]))
      | none =>
          some ({ shared with commits := shared.commits ++
            [⟨process, recNo, shared.shown process, overwritten, work⟩] }, .putUnlock recNo)
  | .putUnlock recNo => shared.unlockRecord process recNo .idle
  | .putConflict recNo => shared.unlockRecord process recNo (.putAsk recNo)
  | _ => none

/-- A step of `init_file`. -/
def initFile (shared : Shared Process) : Point → Option (Shared Process × Point)
  | .initOpen =>
      some ({ shared with file := { shared.file with length := 0 } }, .initWrite 0 0)
  | .initWrite index written =>
      if index < recordCount then
        match (initRecord index)[written]? with
        | some byte =>
            some ({ shared with
              file := shared.file.writeByte (recordStart index + written) byte },
              .initWrite index (written + 1))
        | none => some (shared, .initWrite (index + 1) 0)
      else some (shared, .idle)
  | _ => none

/-- The step of a process at a point, `none` while it is blocked or waits for its user. -/
def advance (shared : Shared Process) (process : Process) (point : Point) :
    Option (Shared Process × Point) :=
  match point with
  | .getLock _ | .getRead _ _ | .getPrint _ _ | .getUnlock _ => cmdGet shared process point
  | .initOpen | .initWrite _ _ => initFile shared point
  | _ => cmdPut shared process point

/-- Put one process at another point. -/
def State.move (state : State Process) (process : Process) (point : Point) : State Process :=
  { state with points := Function.update state.points process point }

/-- The successor of a state. -/
def next (state : State Process) : Action Process → Option (State Process)
  | .get process recNo =>
      match state.points process with
      | .idle => some (state.move process (.getLock recNo))
      | _ => none
  | .put process recNo =>
      match state.points process with
      | .idle => some (state.move process (.putRead recNo []))
      | _ => none
  | .init process =>
      match state.points process with
      | .idle => some (state.move process .initOpen)
      | _ => none
  | .step process =>
      (advance state.shared process (state.points process)).map fun (shared, point) =>
        ⟨shared, Function.update state.points process point⟩
  | .edit process buf stdin =>
      match state.points process with
      | .putEdit recNo orig =>
          let work := editRecord orig buf stdin
          some (state.move process (if orig = work then .idle else .putLock recNo orig work))
      | _ => none
  | .answer process c =>
      match state.points process with
      -- 45 is '-'
      | .putAsk recNo => some (state.move process (if c = 45 then .idle else .putRead recNo []))
      | _ => none

/-- No command runs yet. -/
def init (file : File) : State Process where
  shared := ⟨file, [], fun _ => [], [], []⟩
  points := fun _ => .idle

/-- All interleavings of the commands of the given processes on a file. -/
def system (Process : Type u) [DecidableEq Process] (file : File) :
    System (State Process) (Action Process) where
  initial state := state = init file
  next := next

end Definitions

end Osis.Lab07
