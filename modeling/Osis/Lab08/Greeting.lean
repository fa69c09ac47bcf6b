import Osis.Lab08.Client

/-!
# The greeting

The greeting loop of the client ends at an empty line and prints what comes before. The
welcome is sent with the NUL behind its text, and `fgets` puts this byte in front of the
first line of `info.txt`, which `fputs` then does not show. Without a text to send, no
empty line is sent at all. So the greeting is never shown whole.
-/

namespace Osis.Lab08

open Posix

/-- The welcome line and the text of `info.txt`. -/
def Server.greetingText (server : Server) : Bytes :=
  ascii "Welcome to myserver" ++ newline :: server.infoBuf.getD []

/-- The loop ends with the bytes sent, and has printed the greeting text up to carriage returns
and a newline added at its end. -/
def GreetingShown (server : Server) : Prop :=
  ∃ printed, Client.greeting server.greeting = some (printed, []) ∧
    (printed.filter (· ≠ 13) = server.greetingText ∨
      printed.filter (· ≠ 13) = server.greetingText ++ [newline])

/-- The line behind a NUL is read and not shown. -/
theorem length_readUntil_nul {size : ℕ} {text printed rest : Bytes} (room : 2 < size)
    (stopped : readUntil size crlf (0 :: text) = some (printed, rest)) :
    printed.length + 2 + rest.length < text.length := by
  have room' : 1 < size := by omega
  cases received : recvLine size (0 :: text) with
  | none => simp [readUntil_wait room' received] at stopped
  | some result =>
      rcases result with ⟨piece, after⟩
      rcases recvLine_eq_some.mp received with ⟨-, whole, stream_eq⟩
      cases piece with
      | nil => exact absurd (length_pos_of_whole room' whole) (by simp)
      | cons first piece =>
          simp only [List.cons_append, List.cons.injEq] at stream_eq
          rcases stream_eq with ⟨rfl, rfl⟩
          have hidden : cString (0 :: piece) = [] := by simp [cString]
          have longer : 0 < piece.length := by
            rcases whole with ends | full
            · rcases List.mem_cons.mp ends with nul | in_piece
              · exact absurd nul (by decide)
              · exact List.length_pos_of_mem in_piece
            · simp only [List.length_cons] at full
              omega
          rw [readUntil_go_on room' received (by simp [hidden, crlf])] at stopped
          simp only [Option.map_eq_some_iff, Prod.exists, Prod.mk.injEq, hidden,
            List.nil_append] at stopped
          rcases stopped with ⟨printed', rest', stopped, rfl, rfl⟩
          have bounded := length_readUntil room' stopped
          have closing : crlf.length = 2 := rfl
          rw [List.length_append]
          omega

/-- Whatever `info.txt` holds, the greeting does not end or is not shown whole. -/
theorem not_greetingShown (server : Server) : ¬GreetingShown server := by
  rintro ⟨printed, stopped, shown⟩
  have welcome : recvLine maxLine server.greeting = some (ascii "Welcome to myserver" ++ crlf,
      0 :: if server.hasInfo then server.infoBuf.getD [] ++ crlf else []) := by
    have line := recvLine_line (0 :: if server.hasInfo then server.infoBuf.getD [] ++ crlf else [])
      (by decide : newline ∉ ascii "Welcome to myserver" ++ [13])
      (by decide : (ascii "Welcome to myserver" ++ [13]).length + 1 < maxLine)
    simpa [Server.greeting, crlf] using line
  have goes_on : cString (ascii "Welcome to myserver" ++ crlf) ≠ crlf := by decide
  have whole : cString (ascii "Welcome to myserver" ++ crlf) =
      ascii "Welcome to myserver" ++ crlf := by decide
  rw [Client.greeting, readUntil_go_on (by decide) welcome goes_on, whole] at stopped
  simp only [Option.map_eq_some_iff, Prod.exists, Prod.mk.injEq] at stopped
  rcases stopped with ⟨printed', rest, stopped, rfl, rfl⟩
  have shorter := length_readUntil_nul (by decide) stopped
  have shown_le : printed'.length < (server.infoBuf.getD []).length := by
    split at shorter
    · have closing : crlf.length = 2 := rfl
      rw [List.length_append] at shorter
      simp only [List.length_nil] at shorter
      omega
    · simp at shorter
  have counted : (server.infoBuf.getD []).length ≤ (printed'.filter (· ≠ 13)).length := by
    have front : (ascii "Welcome to myserver" ++ crlf).filter (· ≠ 13) =
        ascii "Welcome to myserver" ++ [newline] := by decide
    rw [List.filter_append, front] at shown
    rcases shown with whole | whole
    · have := congrArg List.length whole
      simp only [Server.greetingText, List.length_append, List.length_cons] at this
      simp only [List.length_nil] at this
      omega
    · have := congrArg List.length whole
      simp only [Server.greetingText, List.length_append, List.length_cons] at this
      simp only [List.length_nil] at this
      omega
  have := List.length_filter_le (fun byte : UInt8 => decide (byte ≠ 13)) printed'
  omega

/-- A root directory with a file `info.txt` of one line. -/
def helloFiles : FileSystem :=
  (FileSystem.bare.create (ascii "info.txt") [] rfl rfl (by decide)).write 0 (ascii "Hello\n")

/-- The only line of `info.txt` is not shown. -/
theorem not_greetingShown_hello :
    ∃ server, Server.start helloFiles [] (ascii "/")
        (fun place => dot :: dotDot :: helloFiles.names place) (fun _ => .refl _) 0 = some server ∧
      server.infoBuf = some (ascii "Hello\n") ∧
      Client.greeting server.greeting = some (ascii "Welcome to myserver" ++ crlf, []) ∧
      ¬GreetingShown server := by
  have started : (Server.start helloFiles [] (ascii "/")
      (fun place => dot :: dotDot :: helloFiles.names place)
      (fun _ => .refl _) 0).map (fun server =>
        (server.infoBuf, Client.greeting server.greeting)) =
      some (some (ascii "Hello\n"), some (ascii "Welcome to myserver" ++ crlf, [])) := by
    decide +kernel
  rcases Option.map_eq_some_iff.mp started with ⟨server, started, found⟩
  simp only [Prod.mk.injEq] at found
  refine ⟨server, started, found.1, found.2, ?_⟩
  rintro ⟨printed, stopped, shown⟩
  rw [found.2] at stopped
  simp only [Option.some.injEq, Prod.mk.injEq, and_true] at stopped
  rw [Server.greetingText, found.1, ← stopped] at shown
  exact absurd shown (by decide)

end Osis.Lab08
