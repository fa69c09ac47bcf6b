import Osis.Posix.Stream
import Osis.Posix.SystemCalls

/-!
# The server of lab 8 (`server.c`)

`handle_client` sends a greeting and then answers one command for each result of `recv`:
the first token that `strtok` finds in the buffer. Replies are composed of `send` calls
whose lengths are counted by hand, and the modelled bytes follow these counts.

The directory tree does not change while it is served. `chdir(root_dir)` has moved the
process into the root directory, and the paths built from `root_dir` are looked up from
there.
-/

namespace Osis.Lab08

open Posix

/-- `MAXLINE`. -/
def maxLine : ℕ := 1024

/-- A server that has loaded `info.txt` and entered its root directory. -/
structure Server where
  files : FileSystem
  cwd : Location
  rootDir : Bytes
  /-- `info_buf`, of `info_len` bytes. -/
  infoBuf : Option Bytes
  /-- The order in which `readdir` returns the entries of a directory. -/
  readdir : Location → List Name
  listed : ∀ place, (readdir place).Perm (dot :: dotDot :: files.names place)
  /-- The byte that follows the text of the missing info in memory. -/
  stray : UInt8

/-- The bytes at which `strtok(buffer, "\r\n")` breaks. -/
def isBreak (byte : UInt8) : Bool := byte = 13 || byte = newline

/-- The first token `strtok(buffer, "\r\n")` finds. -/
def strtok (buffer : Bytes) : Option Bytes :=
  let text := (cString buffer).dropWhile isBreak
  if text = [] then none else some (text.takeWhile fun byte => !isBreak byte)

/-- What a command does. -/
structure Reply where
  bytes : Bytes
  currDir : Bytes
  quits : Bool

namespace Server

/-- `info_buf && info_len > 0`. -/
def hasInfo (server : Server) : Bool := server.infoBuf.getD [] ≠ []

/-- The bytes sent before the first `recv`. -/
def greeting (server : Server) : Bytes :=
  -- 22 bytes are one more than the text has
  ascii "Welcome to myserver" ++ crlf ++ [0] ++
    if server.hasInfo then server.infoBuf.getD [] ++ crlf else []

/-- `curr_dir` after `CD`. -/
def cd (server : Server) (currDir arg : Bytes) : Bytes :=
  let tmp := snprintf pathMax (if arg.head? = some slash then server.rootDir ++ slash :: arg
    else server.rootDir ++ slash :: (currDir ++ slash :: arg))
  match server.files.realpath server.cwd tmp with
  | none => currDir
  | some real =>
      if server.rootDir <+: real then
        let rest := real.drop server.rootDir.length
        if rest.head? = some slash then rest.tail else rest
      else currDir

/-- The line of one entry, `none` where it is skipped. -/
def entryLine (server : Server) (dirpath name : Bytes) : Option Bytes :=
  match server.files.lstat server.cwd (snprintf pathMax (dirpath ++ slash :: name)) with
  | none => none
  | some .directory => some (cString (snprintf maxLine (name ++ ascii "/" ++ crlf)))
  | some (.link _ linked) =>
      let target := cString (linked.take (pathMax - 1))
      let arrow :=
        match server.files.stat server.cwd (snprintf pathMax (dirpath ++ slash :: target)) with
        | some (.file _) => ascii " --> "
        | _ => ascii " -->> "
      some (cString (snprintf maxLine (name ++ arrow ++ target ++ crlf)))
  | some (.file _) => some (cString (snprintf maxLine (name ++ crlf)))

/-- The lines of the entries of the current directory, `none` if it cannot be opened. -/
def listing (server : Server) (currDir : Bytes) : Option Bytes :=
  let dirpath := snprintf pathMax (server.rootDir ++ slash :: currDir)
  match server.files.resolve server.cwd dirpath with
  | none => none
  | some place =>
      if server.files.tree place = some .directory then
        some (((server.readdir place).filter (· ≠ dot)).flatMap fun name =>
          (server.entryLine dirpath name).getD [])
      else none

/-- The branches of `handle_client` on one command. -/
def exec (server : Server) (currDir cmd : Bytes) : Reply :=
  if ascii "ECHO " <+: cmd then ⟨cmd.drop 5 ++ crlf, currDir, false⟩
  else if cmd = ascii "QUIT" then ⟨ascii "BYE" ++ crlf ++ [0], currDir, true⟩
  else if cmd = ascii "INFO" then
    if server.hasInfo then ⟨server.infoBuf.getD [] ++ crlf, currDir, false⟩
    -- 23 bytes are two more than the text has
    else ⟨ascii "(no INFO available)" ++ crlf ++ [0, server.stray], currDir, false⟩
  else if ascii "CD " <+: cmd then ⟨crlf, server.cd currDir (cmd.drop 3), false⟩
  else if cmd = ascii "LIST" then
    match server.listing currDir with
    -- 18 bytes are one less than the text has
    | none => ⟨ascii "(cannot open dir)" ++ [13] ++ crlf, currDir, false⟩
    | some text => ⟨text ++ crlf, currDir, false⟩
  else ⟨ascii "Unknown command" ++ crlf, currDir, false⟩

/-- The commands that `handle_client` executes on the results of its `recv` calls. -/
def commands (server : Server) (currDir : Bytes) : List Bytes → List Bytes
  | [] => []
  | buffer :: rest =>
      match strtok buffer with
      | none => server.commands currDir rest
      | some cmd =>
          let reply := server.exec currDir cmd
          if reply.quits then [cmd] else cmd :: server.commands reply.currDir rest

/-- The bytes that `handle_client` sends after the greeting. -/
def replies (server : Server) (currDir : Bytes) : List Bytes → Bytes
  | [] => []
  | buffer :: rest =>
      match strtok buffer with
      | none => server.replies currDir rest
      | some cmd =>
          let reply := server.exec currDir cmd
          if reply.quits then reply.bytes
          else reply.bytes ++ server.replies reply.currDir rest

/-- The start of `main`, `none` where it fails. -/
def start (files : FileSystem) (cwd : Location) (rootDir : Bytes)
    (readdir : Location → List Name)
    (listed : ∀ place, (readdir place).Perm (dot :: dotDot :: files.names place))
    (stray : UInt8) : Option Server :=
  let infoBuf := files.readFile cwd (snprintf pathMax (rootDir ++ ascii "/info.txt"))
  match files.resolve cwd rootDir with
  | none => none
  | some place =>
      if files.tree place = some .directory then
        some ⟨files, place, rootDir, infoBuf, readdir, listed, stray⟩
      else none

end Server

end Osis.Lab08
