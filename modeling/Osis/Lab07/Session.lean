import Osis.Lab02.Environment
import Osis.Lab07.Commands
import Osis.Memory.Blocks

/-!
# The program of lab 7, run alone (`main.c`)

`main` reads commands from `stdin`, the prompts of `PUT` read their answers from it too, and
every command opens the data file anew. While no other process has the file, locks are granted
and a record that is read again has not changed.

What is printed on `stdout` and `stderr` is one list. A text without a NUL is printed to the first
NUL behind its record, so that a command takes what it finds on the stack as an argument. The
commands are given as a structure, so that the same loop also runs on a list of records.
-/

namespace Osis.Lab07

open Lab02.Child (utf8)
open Posix

universe u

/-- `strtol(text, NULL, 10)`: a number that is no `long` becomes the nearest one. -/
def strtol (text : Bytes) : ℤ :=
  if 9223372036854775807 < atoi text then 9223372036854775807
  else if atoi text < -9223372036854775808 then -9223372036854775808
  else atoi text

/-- What a command finds on the stack and has not written itself. -/
structure Stack where
  /-- What is behind `r` up to a NUL when the record with an index is printed. -/
  behindR : ℕ → Bytes
  /-- What is behind `work` of `cmd_put` up to a NUL. -/
  behindWork : Bytes
  /-- Behind `work` the search for a newline comes to a NUL first, and so changes nothing. -/
  uncut : newline ∉ behindWork
  /-- The local buffer of `cmd_put`. -/
  buf : Bytes
  buf_long : strtol buf = atoi buf

/-- What the commands do to the data, with the texts they print. -/
structure Commands (Data : Type u) where
  lst : Stack → Data → List Bytes
  get : Stack → Data → ℤ → List Bytes
  /-- `PUT`, from what is in `stdin`, with what is left in `stdin`. -/
  put : Stack → Data → ℤ → Bytes → List Bytes × Data × Bytes
  init : Data → List Bytes × Data

section Texts

/-- What `%s` prints of a record from an offset on, with what is behind the record. -/
def textAt (record behind : Bytes) (offset : ℕ) : Bytes :=
  cString (record.drop offset ++ behind)

/-- `%u` of the semester. -/
def semesterText (record : Bytes) : Bytes := decimal (record.getD semesterOffset 0).toNat

/-- `%s, %s, sem=%u`. -/
def recordTexts (record behind : Bytes) : Bytes :=
  textAt record behind 0 ++ ascii ", " ++ textAt record behind fieldSize ++ ascii ", sem=" ++
    semesterText record

/-- A line of `LST`. -/
def lstLine (idx : ℕ) (record behind : Bytes) : Bytes :=
  widened 2 (decimal idx) ++ ascii ": " ++ recordTexts record behind ++ [newline]

/-- What `GET` prints of a record. -/
def getLine (recNo : ℤ) (record behind : Bytes) : Bytes :=
  ascii "REC[" ++ signed recNo ++ ascii "]: " ++ recordTexts record behind ++ [newline]

/-- What `PUT` prints of a record before its prompts. -/
def putLines (record behind : Bytes) : Bytes :=
  utf8 "Текущие данные:\nName: " ++ textAt record behind 0 ++ ascii "\nAddress: " ++
    textAt record behind fieldSize ++ ascii "\nSemester: " ++ semesterText record ++ [newline]

def prompts : List Bytes :=
  [utf8 "Введите новое ФИО (или Enter для пропуска): ", utf8 "Введите новый адрес (или Enter): ",
    utf8 "Введите семестр (0–255, Enter для пропуска): "]

/-- `perror` where the file does not exist. -/
def openFails (text : String) : Bytes := ascii text ++ ascii ": No such file or directory\n"

def readFails (recNo : ℤ) : Bytes :=
  utf8 "Ошибка чтения записи " ++ signed recNo ++ [newline]

def lockFails : Bytes := ascii "lock_record: Invalid argument\n"

def notRead (recNo : ℤ) : Bytes :=
  utf8 "Не удалось прочитать запись " ++ signed recNo ++ [newline]

def unchanged : Bytes := utf8 "Изменений нет, выход.\n"

def updated (recNo : ℤ) : Bytes := utf8 "Запись " ++ signed recNo ++ utf8 " обновлена.\n"

def initialised : Bytes := utf8 "Инициализирован файл 'data.bin' с 10 записями\n"

end Texts

section File

/-- `init_file`: the file is truncated, and every `write` appends a record to it. -/
def initFileAlone (_file : Option Bytes) : List Bytes × Option Bytes :=
  ([initialised],
    some ((List.range recordCount).foldl (fun file index => file ++ initRecord index) []))

/-- `read_record`, `none` where it does not return `sizeof(*rec)`. -/
def readRecord (file : Bytes) (recNo : ℤ) : Option Bytes :=
  -- `lseek` fails with the offset of a negative record
  if recNo < 0 then none
  else
    let record := (file.drop (recNo.toNat * recordSize)).take recordSize
    if record.length = recordSize then some record else none

/-- `write_record` of a record that can be read. -/
def writeRecord (file : Bytes) (recNo : ℤ) (record : Bytes) : Bytes :=
  file.take (recNo.toNat * recordSize) ++ record ++ file.drop ((recNo.toNat + 1) * recordSize)

/-- The loop of `cmd_lst` from where the file is read next; `idx` is an `int`, for fewer than
`2 ^ 31` records. -/
def lstLoop (behind : ℕ → Bytes) (idx : ℕ) (file : Bytes) : List Bytes :=
  if whole : (file.take recordSize).length = recordSize then
    lstLine idx (file.take recordSize) (behind idx) ::
      lstLoop behind (idx + 1) (file.drop recordSize)
  else []
termination_by file.length
decreasing_by
  simp only [List.length_take, List.length_drop, recordSize] at whole ⊢
  omega

/-- `cmd_lst`. -/
def cmdLst (stack : Stack) : Option Bytes → List Bytes
  | none => [openFails "open"]
  | some file => lstLoop stack.behindR 0 file

/-- `cmd_get`. -/
def cmdGetAlone (stack : Stack) (file : Option Bytes) (recNo : ℤ) : List Bytes :=
  match file with
  | none => [openFails "open"]
  | some file =>
      -- `fcntl` fails with the start of a negative record
      if recNo < 0 then [lockFails]
      else match readRecord file recNo with
        | some record => [getLine recNo record (stack.behindR 0)]
        | none => [readFails recNo]

/-- What the three prompts leave in `stdin`. -/
def afterPrompts (stdin : Bytes) : Bytes :=
  (fgets [] 0 16 (fgets [] 0 fieldSize (fgets [] 0 fieldSize stdin).2).2).2

/-- `cmd_put`. -/
def cmdPutAlone (stack : Stack) (file : Option Bytes) (recNo : ℤ) (stdin : Bytes) :
    List Bytes × Option Bytes × Bytes :=
  match file with
  | none => ([openFails "open"], none, stdin)
  | some file =>
      match readRecord file recNo with
      | none => ([notRead recNo], some file, stdin)
      | some orig =>
          let work := editRecord orig stack.buf stdin
          let shown := putLines orig stack.behindWork :: prompts
          if orig = work then (shown ++ [unchanged], some file, afterPrompts stdin)
          else (shown ++ [updated recNo], some (writeRecord file recNo work), afterPrompts stdin)

/-- The commands on the data file. -/
def fileCommands : Commands (Option Bytes) where
  lst := cmdLst
  get := cmdGetAlone
  put := cmdPutAlone
  init := initFileAlone

end File

section Program

variable {Data : Type u} (commands : Commands Data)

/-- What a turn of the loop prints and leaves, and whether the loop goes on. -/
structure Turn (Data : Type u) where
  out : List Bytes
  data : Data
  stdin : Bytes
  goesOn : Bool

/-- `toupper` in the C locale. -/
def upper (byte : UInt8) : UInt8 := if 97 ≤ byte && byte ≤ 122 then byte - 32 else byte

/-- `strcasecmp(word, name) == 0` for a name in capital letters. -/
def named (word : Bytes) (name : String) : Bool := word.map upper = ascii name

/-- The tokens that `strtok` finds in a line without its newline. -/
def words (line : Bytes) : List Bytes :=
  ((cString (line.takeWhile (· ≠ newline))).splitOn 32).filter (· ≠ [])

/-- `atoi(arg)`, which is `(int)strtol(arg, NULL, 10)`. -/
def recNoOf (arg : Bytes) : ℤ := (strtol arg).bmod 4294967296

example : recNoOf (ascii "18446744073709551616") = -1 := by decide +kernel

def usage (name : String) : Bytes := ascii "Usage: " ++ ascii name ++ ascii " <Rec_No>\n"

def unknown (cmd : Bytes) : Bytes := utf8 "Неизвестная команда: " ++ cmd ++ [newline]

/-- The branches of the loop of `main`. -/
def execute (stack : Stack) (data : Data) (stdin : Bytes) : List Bytes → Turn Data
  | [] => ⟨[], data, stdin, true⟩
  | cmd :: args =>
      if named cmd "LST" then ⟨commands.lst stack data, data, stdin, true⟩
      else if named cmd "GET" then
        match args with
        | arg :: _ => ⟨commands.get stack data (recNoOf arg), data, stdin, true⟩
        | [] => ⟨[usage "GET"], data, stdin, true⟩
      else if named cmd "PUT" then
        match args with
        | arg :: _ =>
            let (out, data, stdin) := commands.put stack data (recNoOf arg) stdin
            ⟨out, data, stdin, true⟩
        | [] => ⟨[usage "PUT"], data, stdin, true⟩
      else if named cmd "INIT" then
        let (out, data) := commands.init data
        ⟨out, data, stdin, true⟩
      else if named cmd "QUIT" || named cmd "EXIT" then ⟨[], data, stdin, false⟩
      else ⟨[unknown cmd], data, stdin, true⟩

/-- A turn of the loop of `main`. -/
def turn (stack : Stack) (data : Data) (stdin : Bytes) : Turn Data :=
  -- `MAX_CMD_LEN` is 128
  let line := takeLine 127 stdin
  let turn :=
    if line = [] then ⟨[], data, stdin, false⟩
    else execute commands stack data (stdin.drop line.length) (words line)
  { turn with out := ascii "> " :: turn.out }

/-- The loop of `main` from a turn on, `none` if it takes more than `fuel` turns. -/
def interactive (stack : ℕ → Stack) : ℕ → ℕ → Data → Bytes → Option (List Bytes × Data)
  | 0, _, _, _ => none
  | fuel + 1, index, data, stdin =>
      let turn := turn commands (stack index) data stdin
      if turn.goesOn then
        (interactive stack fuel (index + 1) turn.data turn.stdin).map fun (out, data) =>
          (turn.out ++ out, data)
      else some (turn.out, turn.data)

def greeting : Bytes :=
  utf8 "Интерактивный режим. Доступные команды: LST, GET, PUT, INIT, QUIT\n"

/-- The interactive mode of `main`; every turn reads a line, so that there are no more turns than
bytes, and one at the end. -/
def mainLoop (stack : ℕ → Stack) (data : Data) (stdin : Bytes) : Option (List Bytes × Data) :=
  (interactive commands stack (stdin.length + 1) 0 data stdin).map fun (out, data) =>
    (greeting :: out, data)

end Program

section Roster

/-- A record of the right size. -/
abbrev Record := { bytes : Bytes // bytes.length = recordSize }

/-- A record after the three prompts. -/
def Record.edit (orig : Record) (buf stdin : Bytes) : Record :=
  ⟨editRecord orig.val buf stdin, length_editRecord orig.property⟩

theorem length_initRecord : ∀ index : Fin recordCount, (initRecord index).length = recordSize := by
  decide +kernel

/-- The records of a data file and what is behind the last whole one. -/
structure Roster where
  records : List Record
  rest : Bytes
  short : rest.length < recordSize

namespace Roster

/-- The data file. -/
def file (roster : Roster) : Bytes := (roster.records.map Subtype.val).flatten ++ roster.rest

/-- The record with the given number. -/
def at? (roster : Roster) (recNo : ℤ) : Option Record :=
  if recNo < 0 then none else roster.records[recNo.toNat]?

/-- Replace a record. -/
def set (roster : Roster) (recNo : ℤ) (record : Record) : Roster :=
  { roster with records := roster.records.set recNo.toNat record }

/-- The records of `INIT`. -/
def initial : Roster where
  records := (List.finRange recordCount).map fun index : Fin recordCount =>
    ⟨initRecord index, length_initRecord index⟩
  rest := []
  short := by decide

def lst (stack : Stack) : Option Roster → List Bytes
  | none => [openFails "open"]
  | some roster =>
      roster.records.mapIdx fun idx record => lstLine idx record.val (stack.behindR idx)

def get (stack : Stack) (roster : Option Roster) (recNo : ℤ) : List Bytes :=
  match roster with
  | none => [openFails "open"]
  | some roster =>
      if recNo < 0 then [lockFails]
      else match roster.at? recNo with
        | some record => [getLine recNo record.val (stack.behindR 0)]
        | none => [readFails recNo]

def put (stack : Stack) (roster : Option Roster) (recNo : ℤ) (stdin : Bytes) :
    List Bytes × Option Roster × Bytes :=
  match roster with
  | none => ([openFails "open"], none, stdin)
  | some roster =>
      match roster.at? recNo with
      | none => ([notRead recNo], some roster, stdin)
      | some orig =>
          let work := orig.edit stack.buf stdin
          let shown := putLines orig.val stack.behindWork :: prompts
          if orig = work then (shown ++ [unchanged], some roster, afterPrompts stdin)
          else (shown ++ [updated recNo], some (roster.set recNo work), afterPrompts stdin)

/-- The commands on a list of records. -/
def commands : Commands (Option Roster) where
  lst := lst
  get := get
  put := put
  init _ := ([initialised], some initial)

end Roster

end Roster

end Osis.Lab07
