import Osis.Lab08.Server

/-!
# The client of lab 8 (`client.c`)

The client reads the greeting up to an empty line, then sends commands that are typed or
read from a file and reads the reply to each before it sends the next. How it reads a
reply depends on the command it has sent: up to an empty line after `INFO` and `LIST`,
and one line after every other command.
-/

namespace Osis.Lab08

open Posix

namespace Client

/-- The greeting loop of `main` on the bytes sent so far. -/
def greeting (stream : Bytes) : Option (Bytes × Bytes) := readUntil maxLine crlf stream

/-- `sendbuf[strcspn(sendbuf, "\r\n")] = '\0'`. -/
def cut (piece : Bytes) : Bytes := (cString piece).takeWhile fun byte => !isBreak byte

/-- The bytes sent for a command. -/
def request (sendbuf : Bytes) : Bytes := sendbuf ++ crlf

/-- What is printed of the reply to a command, with the bytes left. -/
def readReply (sendbuf stream : Bytes) : Option (Bytes × Bytes) :=
  if sendbuf = ascii "INFO" ∨ sendbuf = ascii "LIST" then readUntil maxLine crlf stream
  else (recvLine maxLine stream).map fun (piece, rest) => (cString piece, rest)

/-- Commands up to the first `QUIT`. -/
def untilQuit : List Bytes → List Bytes
  | [] => []
  | command :: rest => if command = ascii "QUIT" then [command] else command :: untilQuit rest

/-- The commands `process_file_commands` finds in a file. -/
def processFileCommands (content : Bytes) : List Bytes :=
  ((lines maxLine content).map cut).filter (· ≠ [])

/-- The commands `interactive_mode` sends for what is typed; `open` gives the content of files. -/
def interactiveMode (openFile : Bytes → Option Bytes) (stdin : Bytes) : List Bytes :=
  untilQuit ((lines maxLine stdin).flatMap fun piece =>
    match cut piece with
    -- 64 is '@'
    | 64 :: filename => processFileCommands ((openFile filename).getD [])
    | sendbuf => [sendbuf])

end Client

end Osis.Lab08
