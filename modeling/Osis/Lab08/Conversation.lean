import Osis.Lab08.Lockstep

/-!
# What the user of the client sees

The two loops of the client, on what is typed and on the lines of a command file, with the server
at the other end of the connection. While every command fits, none of their reads waits for ever:
a session shows the reply to each command, in order, whether it is typed or read from a file, and
ends with the first `QUIT` or with the input.

A request arrives at the server alone and whole.
-/

namespace Osis.Posix

variable {size : ℕ} {text : Bytes}

/-- A framed block is printed piece by piece. -/
theorem readUntil_framed (room : 2 < size) (framed : Framed size crlf text) :
    readUntil size crlf (text ++ crlf) = some ((lines size text).flatMap cString, []) := by
  have room' : 1 < size := by omega
  induction length_eq : text.length using Nat.strong_induction_on generalizing text with
  | _ length ih =>
      by_cases some_text : text = []
      · subst some_text
        have received : recvLine size crlf = some (crlf, []) :=
          recvLine_line [] (by decide : newline ∉ [13]) (by simpa)
        rw [List.nil_append, readUntil_stop room' received (by decide), lines_nil]
        rfl
      · have lines_eq := lines_of_ne_nil room' some_text
        rw [Framed, lines_eq, List.forall_mem_cons] at framed
        rcases framed with ⟨⟨goes_on, whole⟩, later⟩
        have split := List.prefix_iff_eq_append.mp (takeLine_prefix_text (size - 1) text)
        have progress := length_pos_of_whole room' whole
        have received : recvLine size (text ++ crlf) = some (takeLine (size - 1) text,
            text.drop (takeLine (size - 1) text).length ++ crlf) := by
          rw [recvLine_eq_some]
          refine ⟨(takeLine_append_of_whole whole crlf).symm, whole, ?_⟩
          rw [← List.append_assoc, split]
        have shorter := ih (text.drop (takeLine (size - 1) text).length).length
          (by
            have := congrArg List.length split
            rw [List.length_append] at this
            omega) later rfl
        rw [readUntil_go_on room' received goes_on, shorter, lines_eq, List.flatMap_cons]
        rfl

end Osis.Posix

namespace Osis.Lab08

open Posix

namespace Client

/-- The connection: the directory that the server keeps, the bytes on their way to the client, and
whether the server has closed it. -/
structure Connection where
  currDir : Bytes
  unread : Bytes
  closed : Bool

/-- `fprintf` and `fflush` of a request. -/
def Connection.send (server : Server) (connection : Connection) (sendbuf : Bytes) : Connection :=
  if connection.closed then connection
  else
    let reply := server.answer connection.currDir sendbuf
    ⟨reply.currDir, connection.unread ++ reply.bytes, reply.quits⟩

/-- `fgets` on the connection, `none` where it waits for ever; it returns `NULL` at the end. -/
def Connection.receive (connection : Connection) : Option (Option Bytes × Connection) :=
  match recvLine maxLine connection.unread with
  | some (recvbuf, rest) => some (some recvbuf, { connection with unread := rest })
  | none =>
      if connection.closed then
        if connection.unread = [] then some (none, connection)
        else some (some connection.unread, { connection with unread := [] })
      else none

/-- At most `fuel` rounds of the loop that prints lines up to an empty one. -/
def readLines : ℕ → Connection → Option (Bytes × Connection)
  | 0, _ => none
  | fuel + 1, connection =>
      match connection.receive with
      | none => none
      | some (none, connection) => some ([], connection)
      | some (some recvbuf, connection) =>
          if cString recvbuf = crlf then some ([], connection)
          else (readLines fuel connection).map fun (printed, connection) =>
            (cString recvbuf ++ printed, connection)

/-- Whether `strstr` finds a text. -/
def strstr (text part : Bytes) : Bool := text.tails.any fun rest => part <+: rest

/-- What both loops do after a request: what they print, and `should_exit`. -/
def receiveReply (sendbuf : Bytes) (connection : Connection) :
    Option (Bytes × Bool × Connection) :=
  if sendbuf = ascii "QUIT" then
    connection.receive.map fun (recvbuf, connection) =>
      let printed := recvbuf.elim [] cString
      (printed, strstr printed (ascii "BYE"), connection)
  else if sendbuf = ascii "INFO" ∨ sendbuf = ascii "LIST" then
    (readLines (connection.unread.length + 2) connection).map fun (printed, connection) =>
      (printed, false, connection)
  else
    connection.receive.map fun (recvbuf, connection) =>
      (recvbuf.elim [] cString, false, connection)

/-- The loop of `process_file_commands` over the lines of a file. -/
def fileLoop (server : Server) : List Bytes → Connection → Option (Bytes × Bool × Connection)
  | [], connection => some ([], false, connection)
  | line :: rest, connection =>
      let sendbuf := cut line
      if sendbuf = [] then fileLoop server rest connection
      else
        match receiveReply sendbuf (connection.send server sendbuf) with
        | none => none
        | some (printed, true, connection) => some (printed, true, connection)
        | some (printed, false, connection) =>
            (fileLoop server rest connection).map fun (later, result) => (printed ++ later, result)

def prompt : Bytes := ascii "> "

/-- The loop of `interactive_mode` over the lines that are typed: all that is printed until the
client exits. -/
def interactiveLoop (server : Server) (openFile : Bytes → Option Bytes) :
    List Bytes → Connection → Option Bytes
  | [], _ => some prompt
  | line :: rest, connection =>
      match cut line with
      -- 64 is '@'
      | 64 :: filename =>
          match openFile filename with
          -- the message goes to `stderr`
          | none => (interactiveLoop server openFile rest connection).map (prompt ++ ·)
          | some content =>
              match fileLoop server (lines maxLine content) connection with
              | none => none
              | some (printed, true, _) => some (prompt ++ printed)
              | some (printed, false, connection) =>
                  (interactiveLoop server openFile rest connection).map (prompt ++ printed ++ ·)
      | sendbuf =>
          match receiveReply sendbuf (connection.send server sendbuf) with
          | none => none
          | some (printed, true, _) => some (prompt ++ printed)
          | some (printed, false, connection) =>
              (interactiveLoop server openFile rest connection).map (prompt ++ printed ++ ·)

end Client

section Purpose

/-- The reply to a command as it is to be shown. -/
def Server.shown (server : Server) (currDir sendbuf : Bytes) : Bytes :=
  if sendbuf = ascii "INFO" then (lines maxLine (server.infoBuf.getD [])).flatMap cString
  else if sendbuf = ascii "LIST" then
    (lines maxLine ((server.listing currDir).getD [])).flatMap cString
  else cString (server.exec currDir sendbuf).bytes

/-- What commands show, and the directory of the server after them, `none` after a `QUIT`. -/
def Server.tell (server : Server) (currDir : Bytes) : List Bytes → Bytes × Option Bytes
  | [] => ([], some currDir)
  | sendbuf :: rest =>
      if sendbuf = ascii "QUIT" then (server.shown currDir sendbuf, none)
      else
        let later := server.tell (server.exec currDir sendbuf).currDir rest
        (server.shown currDir sendbuf ++ later.1, later.2)

/-- The commands that a typed line stands for. -/
def Client.commandsOf (openFile : Bytes → Option Bytes) (line : Bytes) : List Bytes :=
  match Client.cut line with
  | 64 :: filename => Client.processFileCommands ((openFile filename).getD [])
  | sendbuf => [sendbuf]

/-- A session: a prompt for each typed line and what its commands show, up to the first `QUIT`. -/
def Server.transcript (server : Server) (currDir : Bytes) : List (List Bytes) → Bytes
  | [] => Client.prompt
  | commands :: rest =>
      let told := server.tell currDir commands
      Client.prompt ++ told.1 ++ told.2.elim [] fun currDir => server.transcript currDir rest

end Purpose

section Exchange

variable {server : Server} {currDir sendbuf unread printed rest : Bytes} {closed : Bool}

/-- What a block gives on an open connection it gives on any. -/
theorem readLines_of_readWithin {fuel : ℕ}
    (read : readWithin maxLine crlf fuel unread = some (printed, rest)) :
    Client.readLines fuel ⟨currDir, unread, closed⟩ = some (printed, ⟨currDir, rest, closed⟩) := by
  induction fuel generalizing unread printed with
  | zero => cases read
  | succ fuel ih =>
      unfold readWithin at read
      unfold Client.readLines Client.Connection.receive
      cases received : recvLine maxLine unread with
      | none =>
          rw [received] at read
          cases read
      | some result =>
          rcases result with ⟨piece, behind⟩
          simp only [received] at read ⊢
          split at read
          · next stops =>
              cases read
              rw [if_pos stops]
          · next goes_on =>
              rcases Option.map_eq_some_iff.mp read with ⟨⟨later, left⟩, read', same⟩
              cases same
              rw [if_neg goes_on, ih read']
              rfl

/-- A framed block is shown whole and nothing is left of it. -/
theorem readLines_framed {text : Bytes} (framed : Framed maxLine crlf text) :
    Client.readLines ((text ++ crlf).length + 2) ⟨currDir, text ++ crlf, closed⟩ =
      some ((lines maxLine text).flatMap cString, ⟨currDir, [], closed⟩) := by
  apply readLines_of_readWithin
  rw [readWithin_congr (by decide) (by omega) (Nat.lt_succ_self _)]
  exact readUntil_framed (by decide) framed

/-- A command that is sent as it is read and whose reply fits. -/
structure Exchangeable (server : Server) (currDir sendbuf : Bytes) : Prop where
  plain : Plain sendbuf
  short : sendbuf.length < 1000
  fits : CommandFits server currDir sendbuf

/-- The connection after a request. -/
theorem send_eq (exchangeable : Exchangeable server currDir sendbuf) :
    Client.Connection.send server ⟨currDir, [], false⟩ sendbuf =
      ⟨(server.exec currDir sendbuf).currDir, (server.exec currDir sendbuf).bytes,
        (server.exec currDir sendbuf).quits⟩ := by
  simp only [Client.Connection.send, Bool.false_eq_true, if_false, List.nil_append,
    answer_eq exchangeable.plain exchangeable.fits.some_text]

theorem receiveReply_quit (server : Server) (currDir : Bytes) : ∃ left,
    Client.receiveReply (ascii "QUIT") ⟨(server.exec currDir (ascii "QUIT")).currDir,
      (server.exec currDir (ascii "QUIT")).bytes, (server.exec currDir (ascii "QUIT")).quits⟩ =
      some (server.shown currDir (ascii "QUIT"), true, left) := by
  have executed : server.exec currDir (ascii "QUIT") =
      ⟨ascii "BYE" ++ crlf ++ [0], currDir, true⟩ := by
    rw [Server.exec, if_neg (by decide), if_pos rfl]
  have received := recvLine_reply (by decide : newline ∉ ascii "BYE") (by decide) [0]
  have bye : Client.strstr (cString (ascii "BYE" ++ crlf)) (ascii "BYE") = true := by decide
  have shown : server.shown currDir (ascii "QUIT") = cString (ascii "BYE" ++ crlf) := by
    have cut : cString (ascii "BYE" ++ crlf ++ [0]) = cString (ascii "BYE" ++ crlf) := by decide
    rw [Server.shown, if_neg (by decide), if_neg (by decide), executed, cut]
  refine ⟨⟨currDir, [0], true⟩, ?_⟩
  rw [executed, shown]
  simp only [Client.receiveReply, if_true, Client.Connection.receive, received, Option.map_some,
    Option.elim_some, bye]

theorem receiveReply_info (fits : CommandFits server currDir (ascii "INFO")) :
    Client.receiveReply (ascii "INFO") ⟨(server.exec currDir (ascii "INFO")).currDir,
      (server.exec currDir (ascii "INFO")).bytes, (server.exec currDir (ascii "INFO")).quits⟩ =
      some (server.shown currDir (ascii "INFO"), false,
        ⟨(server.exec currDir (ascii "INFO")).currDir, [], false⟩) := by
  rcases fits.info rfl with ⟨given, framed⟩
  have executed : server.exec currDir (ascii "INFO") =
      ⟨server.infoBuf.getD [] ++ crlf, currDir, false⟩ := by
    rw [Server.exec, if_neg (by decide), if_neg (by decide), if_pos rfl, if_pos given]
  rw [executed, Client.receiveReply, if_neg (by decide), if_pos (.inl rfl), readLines_framed framed,
    Server.shown, if_pos rfl]
  rfl

theorem receiveReply_list (fits : CommandFits server currDir (ascii "LIST")) :
    Client.receiveReply (ascii "LIST") ⟨(server.exec currDir (ascii "LIST")).currDir,
      (server.exec currDir (ascii "LIST")).bytes, (server.exec currDir (ascii "LIST")).quits⟩ =
      some (server.shown currDir (ascii "LIST"), false,
        ⟨(server.exec currDir (ascii "LIST")).currDir, [], false⟩) := by
  rcases fits.list rfl with ⟨text, listed, framed⟩
  have executed : server.exec currDir (ascii "LIST") = ⟨text ++ crlf, currDir, false⟩ := by
    rw [Server.exec, if_neg (by decide), if_neg (by decide), if_neg (by decide),
      if_neg (by decide), if_pos rfl, Option.mem_def.mp listed]
  rw [executed, Client.receiveReply, if_neg (by decide), if_pos (.inr rfl), readLines_framed framed,
    Server.shown, if_neg (by decide), if_pos rfl, Option.mem_def.mp listed]
  rfl

/-- The other replies are one line. -/
theorem receiveReply_line (exchangeable : Exchangeable server currDir sendbuf)
    (no_quit : sendbuf ≠ ascii "QUIT") (no_info : sendbuf ≠ ascii "INFO")
    (no_list : sendbuf ≠ ascii "LIST") :
    Client.receiveReply sendbuf ⟨(server.exec currDir sendbuf).currDir,
      (server.exec currDir sendbuf).bytes, (server.exec currDir sendbuf).quits⟩ =
      some (server.shown currDir sendbuf, false,
        ⟨(server.exec currDir sendbuf).currDir, [], false⟩) := by
  have no_block : ¬(sendbuf = ascii "INFO" ∨ sendbuf = ascii "LIST") :=
    not_or.mpr ⟨no_info, no_list⟩
  have stays : (server.exec currDir sendbuf).quits = false :=
    Bool.eq_false_iff.mpr fun quits => no_quit (quits_iff.mp quits)
  have read := readReply_other server currDir exchangeable.plain exchangeable.short no_info no_list
  rw [stays, if_neg Bool.false_ne_true, Client.readReply, if_neg no_block, Option.map_map,
    Option.map_eq_some_iff] at read
  rcases read with ⟨⟨piece, rest⟩, received, nothing_left⟩
  have rest_eq : rest = [] := nothing_left
  subst rest_eq
  have whole : (server.exec currDir sendbuf).bytes = piece := by
    rw [(recvLine_eq_some.mp received).2.2, List.append_nil]
  rw [whole] at received
  rw [Client.receiveReply, if_neg no_quit, if_neg no_block, Server.shown, if_neg no_info,
    if_neg no_list, stays, whole]
  simp only [Client.Connection.receive, received, Option.map_some, Option.elim_some]

/-- The client shows the reply to a command and is ready for the next one, or exits. -/
theorem receiveReply_eq (exchangeable : Exchangeable server currDir sendbuf) :
    ∃ left,
      Client.receiveReply sendbuf (Client.Connection.send server ⟨currDir, [], false⟩ sendbuf) =
        some (server.shown currDir sendbuf, decide (sendbuf = ascii "QUIT"), left) ∧
      (sendbuf ≠ ascii "QUIT" → left = ⟨(server.exec currDir sendbuf).currDir, [], false⟩) := by
  rw [send_eq exchangeable]
  by_cases quit : sendbuf = ascii "QUIT"
  · subst quit
    rcases receiveReply_quit server currDir with ⟨left, received⟩
    exact ⟨left, received, fun stays => absurd rfl stays⟩
  have stays : decide (sendbuf = ascii "QUIT") = false := decide_eq_false quit
  rw [stays]
  refine ⟨_, ?_, fun _ => rfl⟩
  by_cases info : sendbuf = ascii "INFO"
  · subst info
    exact receiveReply_info exchangeable.fits
  by_cases list : sendbuf = ascii "LIST"
  · subst list
    exact receiveReply_list exchangeable.fits
  · exact receiveReply_line exchangeable quit info list

/-- The commands up to the first `QUIT` are exchanged, each in the directory it is executed in. -/
def Conducts (server : Server) (currDir : Bytes) : List Bytes → Prop
  | [] => True
  | sendbuf :: rest =>
      Exchangeable server currDir sendbuf ∧
        (sendbuf ≠ ascii "QUIT" → Conducts server (server.exec currDir sendbuf).currDir rest)

theorem conducts_of_allFit {commands : List Bytes} (plain : ∀ sendbuf ∈ commands, Plain sendbuf)
    (short : ∀ sendbuf ∈ Client.untilQuit commands, sendbuf.length < 1000)
    (fit : AllFit server currDir (Client.untilQuit commands)) :
    Conducts server currDir commands := by
  induction commands generalizing currDir with
  | nil => trivial
  | cons sendbuf rest ih =>
      rw [List.forall_mem_cons] at plain
      unfold Client.untilQuit at short fit
      by_cases quit : sendbuf = ascii "QUIT"
      · rw [if_pos quit] at short fit
        exact ⟨⟨plain.1, short _ List.mem_cons_self, fit.1⟩, fun stays => absurd quit stays⟩
      · rw [if_neg quit] at short fit
        rw [List.forall_mem_cons] at short
        refine ⟨⟨plain.1, short.1, fit.1⟩, fun _ => ih plain.2 short.2 ?_⟩
        have answered := @answer_eq server currDir _ plain.1 fit.1.some_text
        have stays : (server.exec currDir sendbuf).quits = false :=
          Bool.eq_false_iff.mpr fun quits => quit (quits_iff.mp quits)
        rw [← answered] at stays ⊢
        exact fit.2 stays

/-- Commands are conducted one part after the other. -/
theorem Conducts.parts {commands later : List Bytes}
    (conducts : Conducts server currDir (commands ++ later)) :
    Conducts server currDir commands ∧
      ∀ final, (server.tell currDir commands).2 = some final → Conducts server final later := by
  induction commands generalizing currDir with
  | nil =>
      refine ⟨trivial, fun final told => ?_⟩
      cases told
      exact conducts
  | cons sendbuf rest ih =>
      rcases conducts with ⟨exchangeable, onward⟩
      by_cases quit : sendbuf = ascii "QUIT"
      · refine ⟨⟨exchangeable, fun stays => absurd quit stays⟩, fun final told => ?_⟩
        rw [Server.tell, if_pos quit] at told
        cases told
      · have parts := ih (onward quit)
        refine ⟨⟨exchangeable, fun _ => parts.1⟩, fun final told => parts.2 final ?_⟩
        rw [Server.tell, if_neg quit] at told
        exact told

/-- The loop over the lines of a file skips the empty ones and shows the replies to the others. -/
theorem fileLoop_eq {content : List Bytes}
    (conducts : Conducts server currDir ((content.map Client.cut).filter (· ≠ []))) :
    ∃ left, Client.fileLoop server content ⟨currDir, [], false⟩ =
        some ((server.tell currDir ((content.map Client.cut).filter (· ≠ []))).1,
          (server.tell currDir ((content.map Client.cut).filter (· ≠ []))).2.isNone, left) ∧
      ∀ final, (server.tell currDir ((content.map Client.cut).filter (· ≠ []))).2 = some final →
        left = ⟨final, [], false⟩ := by
  induction content generalizing currDir with
  | nil =>
      refine ⟨_, rfl, fun final told => ?_⟩
      cases told
      rfl
  | cons line rest ih =>
      by_cases empty : Client.cut line = []
      · have skipped : ((line :: rest).map Client.cut).filter (· ≠ []) =
            (rest.map Client.cut).filter (· ≠ []) := by simp [empty]
        rw [skipped] at conducts ⊢
        rw [Client.fileLoop]
        simp only [empty, if_true]
        exact ih conducts
      · have kept : ((line :: rest).map Client.cut).filter (· ≠ []) =
            Client.cut line :: (rest.map Client.cut).filter (· ≠ []) := by simp [empty]
        rw [kept] at conducts ⊢
        rcases conducts with ⟨exchangeable, onward⟩
        rcases receiveReply_eq exchangeable with ⟨left, received, ready⟩
        rw [Client.fileLoop]
        simp only [empty, if_false, received]
        by_cases quit : Client.cut line = ascii "QUIT"
        · rw [Server.tell, if_pos quit, decide_eq_true quit]
          refine ⟨left, rfl, fun final told => ?_⟩
          cases told
        · rw [Server.tell, if_neg quit, decide_eq_false quit, ready quit]
          rcases ih (onward quit) with ⟨left', shown, ready'⟩
          simp only [shown, Option.map_some]
          exact ⟨left', rfl, ready'⟩

theorem commandsOf_file (openFile : Bytes → Option Bytes) {line filename : Bytes}
    (cut_eq : Client.cut line = 64 :: filename) : Client.commandsOf openFile line =
      ((lines maxLine ((openFile filename).getD [])).map Client.cut).filter (· ≠ []) := by
  simp only [Client.commandsOf, cut_eq, Client.processFileCommands]

theorem commandsOf_typed (openFile : Bytes → Option Bytes) {line : Bytes}
    (no_file : ∀ filename, Client.cut line ≠ 64 :: filename) :
    Client.commandsOf openFile line = [Client.cut line] := by
  unfold Client.commandsOf
  split
  · next filename cut_eq => exact absurd cut_eq (no_file filename)
  · rfl

theorem plain_commandsOf {openFile : Bytes → Option Bytes} {line : Bytes} :
    ∀ sendbuf ∈ Client.commandsOf openFile line, Plain sendbuf := by
  intro sendbuf sent
  unfold Client.commandsOf at sent
  split at sent
  · simp only [Client.processFileCommands, List.mem_filter, List.mem_map] at sent
    rcases sent with ⟨⟨piece, -, rfl⟩, -⟩
    exact plain_cut piece
  · rw [List.mem_singleton.mp sent]
    exact plain_cut line

/-- The interactive loop shows the transcript. -/
theorem interactiveLoop_of_conducts {openFile : Bytes → Option Bytes} {typed : List Bytes}
    (conducts : Conducts server currDir (typed.flatMap (Client.commandsOf openFile))) :
    Client.interactiveLoop server openFile typed ⟨currDir, [], false⟩ =
      some (server.transcript currDir (typed.map (Client.commandsOf openFile))) := by
  induction typed generalizing currDir with
  | nil => rfl
  | cons line rest ih =>
      rw [List.flatMap_cons] at conducts
      rcases conducts.parts with ⟨now, onward⟩
      rw [List.map_cons, Server.transcript, Client.interactiveLoop]
      split
      · next filename cut_eq =>
          have commands_eq := commandsOf_file openFile cut_eq
          cases opened : openFile filename with
          | none =>
              rw [opened, Option.getD_none, lines_nil] at commands_eq
              rw [commands_eq] at onward ⊢
              simp only [ih (onward currDir rfl)]
              simp [Server.tell]
          | some content =>
              rw [opened, Option.getD_some] at commands_eq
              rw [commands_eq] at now onward ⊢
              rcases fileLoop_eq now with ⟨left, shown, ready⟩
              simp only [shown]
              cases told : (server.tell currDir
                  (((lines maxLine content).map Client.cut).filter (· ≠ []))).2 with
              | none => simp
              | some final =>
                  simp [ready final told, ih (onward final told)]
      · next no_file =>
          have commands_eq := commandsOf_typed openFile no_file
          rw [commands_eq] at now onward ⊢
          rcases receiveReply_eq now.1 with ⟨left, received, ready⟩
          simp only [received]
          by_cases quit : Client.cut line = ascii "QUIT"
          · rw [decide_eq_true quit]
            simp [Server.tell, quit]
          · rw [decide_eq_false quit, ready quit]
            have told : (server.tell currDir [Client.cut line]).2 =
                some (server.exec currDir (Client.cut line)).currDir := by
              simp [Server.tell, quit]
            simp [Server.tell, quit, ih (onward _ told)]

/-- While every command fits, whatever is typed, the client shows the reply to each in order, and
leaves with the first `QUIT` or with the input. -/
theorem interactiveLoop_eq (server : Server) (openFile : Bytes → Option Bytes) (stdin : Bytes)
    (fit : AllFit server [] (Client.interactiveMode openFile stdin))
    (short : ∀ sendbuf ∈ Client.interactiveMode openFile stdin, sendbuf.length < 1000) :
    Client.interactiveLoop server openFile (lines maxLine stdin) ⟨[], [], false⟩ =
      some (server.transcript [] ((lines maxLine stdin).map (Client.commandsOf openFile))) := by
  have plain : ∀ sendbuf ∈ (lines maxLine stdin).flatMap (Client.commandsOf openFile),
      Plain sendbuf := by
    intro sendbuf sent
    rcases List.mem_flatMap.mp sent with ⟨line, -, from_line⟩
    exact plain_commandsOf sendbuf from_line
  exact interactiveLoop_of_conducts (conducts_of_allFit plain short fit)

end Exchange

/-- A file of commands beside the client. -/
def openCommands (filename : Bytes) : Option Bytes :=
  if filename = ascii "cmds" then some (ascii "INFO\n\nECHO hi\nCD ..\n") else none

/-- The commands of a file are carried out between typed ones, and nothing follows a `QUIT`. -/
theorem interactiveLoop_hello :
    ∃ server, Server.start helloFiles [] (ascii "/")
        (fun place => dot :: dotDot :: helloFiles.names place) (fun _ => .refl _) 0 = some server ∧
      Client.interactiveLoop server openCommands
          (lines maxLine (ascii "LIST\n@cmds\nQUIT\nLIST\n")) ⟨[], [], false⟩ =
        some (ascii "> ../\r\ninfo.txt\r\n> Hello\nhi\r\n\r\n> BYE\r\n") := by
  have started : (Server.start helloFiles [] (ascii "/")
      (fun place => dot :: dotDot :: helloFiles.names place)
      (fun _ => .refl _) 0).map (fun server =>
        (decide (AllFit server []
            (Client.interactiveMode openCommands (ascii "LIST\n@cmds\nQUIT\nLIST\n"))),
          server.transcript [] ((lines maxLine (ascii "LIST\n@cmds\nQUIT\nLIST\n")).map
            (Client.commandsOf openCommands)))) =
      some (true, ascii "> ../\r\ninfo.txt\r\n> Hello\nhi\r\n\r\n> BYE\r\n") := by
    decide +kernel
  rcases Option.map_eq_some_iff.mp started with ⟨server, started, found⟩
  simp only [Prod.mk.injEq] at found
  refine ⟨server, started, ?_⟩
  rw [← found.2]
  exact interactiveLoop_eq server openCommands _ (of_decide_eq_true found.1) (by decide)

end Osis.Lab08
