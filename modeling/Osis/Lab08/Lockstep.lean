import Osis.Lab08.Greeting

/-!
# Client and server in lockstep

A command and its reply fit if the client, once it has read what it reads after this
command, has taken the bytes of the reply and no others. The replies of one line do; the
blocks that answer `INFO` and `LIST` do if their text is framed. The other texts, and an
empty line, which is sent and never answered, leave the client waiting.
-/

namespace Osis.Lab08

open Posix

/-- A command without the bytes at which `strtok` or a string function would stop. -/
def Plain (sendbuf : Bytes) : Prop := ∀ byte ∈ sendbuf, byte ≠ 0 ∧ isBreak byte = false

theorem plain_of_all {sendbuf : Bytes}
    (all : sendbuf.all (fun byte => byte != 0 && !isBreak byte) = true) : Plain sendbuf := by
  intro byte byte_mem
  have := List.all_eq_true.mp all byte byte_mem
  simpa using this

/-- The reply to a command that arrives in one `recv`. -/
def Server.answer (server : Server) (currDir sendbuf : Bytes) : Reply :=
  match strtok (Client.request sendbuf) with
  | none => ⟨[], currDir, false⟩
  | some cmd => server.exec currDir cmd

/-- After each command the client takes exactly the reply, and nothing has to be left of `QUIT`. -/
def InStep (server : Server) (currDir : Bytes) : List Bytes → Prop
  | [] => True
  | sendbuf :: rest =>
      let reply := server.answer currDir sendbuf
      if reply.quits then (Client.readReply sendbuf reply.bytes).isSome = true
      else
        (Client.readReply sendbuf reply.bytes).map Prod.snd = some [] ∧
          InStep server reply.currDir rest

/-- A command whose reply fits what the client reads. -/
structure CommandFits (server : Server) (currDir sendbuf : Bytes) : Prop where
  some_text : sendbuf ≠ []
  info : sendbuf = ascii "INFO" →
    server.hasInfo = true ∧ Framed maxLine crlf (server.infoBuf.getD [])
  list : sendbuf = ascii "LIST" →
    ∃ text ∈ server.listing currDir, Framed maxLine crlf text

instance (server : Server) (currDir sendbuf : Bytes) :
    Decidable (CommandFits server currDir sendbuf) :=
  decidable_of_iff
    (sendbuf ≠ [] ∧
      (sendbuf = ascii "INFO" →
        server.hasInfo = true ∧ Framed maxLine crlf (server.infoBuf.getD [])) ∧
      (sendbuf = ascii "LIST" → ∃ text ∈ server.listing currDir, Framed maxLine crlf text))
    ⟨fun ⟨some_text, info, list⟩ => ⟨some_text, info, list⟩,
      fun fits => ⟨fits.some_text, fits.info, fits.list⟩⟩

/-- Every command fits in the directory it is executed in. -/
def AllFit (server : Server) (currDir : Bytes) : List Bytes → Prop
  | [] => True
  | sendbuf :: rest =>
      CommandFits server currDir sendbuf ∧
        ((server.answer currDir sendbuf).quits = false →
          AllFit server (server.answer currDir sendbuf).currDir rest)

instance allFitDecidable (server : Server) :
    ∀ currDir commands, Decidable (AllFit server currDir commands)
  | _, [] => isTrue trivial
  | currDir, sendbuf :: rest =>
      have := allFitDecidable server (server.answer currDir sendbuf).currDir rest
      inferInstanceAs (Decidable (CommandFits server currDir sendbuf ∧ (_ → _)))

section Commands

variable {server : Server} {currDir sendbuf : Bytes}

theorem plain_cut (piece : Bytes) : Plain (Client.cut piece) := by
  intro byte byte_mem
  have unbroken := List.mem_takeWhile_imp byte_mem
  have in_text := (List.takeWhile_prefix _).subset byte_mem
  have not_nul := List.mem_takeWhile_imp in_text
  exact ⟨by simpa using not_nul, by simpa using unbroken⟩

theorem mem_untilQuit {commands : List Bytes} (sent : sendbuf ∈ Client.untilQuit commands) :
    sendbuf ∈ commands := by
  induction commands with
  | nil => exact sent
  | cons command rest ih =>
      unfold Client.untilQuit at sent
      split at sent
      · rw [List.mem_singleton.mp sent]
        exact List.mem_cons_self
      · rcases List.mem_cons.mp sent with rfl | later
        · exact List.mem_cons_self
        · exact List.mem_cons_of_mem _ (ih later)

/-- What the client sends is cut at the bytes that would end a token. -/
theorem plain_interactiveMode {openFile : Bytes → Option Bytes} {stdin : Bytes} :
    ∀ sendbuf ∈ Client.interactiveMode openFile stdin, Plain sendbuf := by
  intro sendbuf sent
  rcases List.mem_flatMap.mp (mem_untilQuit sent) with ⟨piece, -, from_piece⟩
  split at from_piece
  · simp only [Client.processFileCommands, List.mem_filter, List.mem_map] at from_piece
    rcases from_piece with ⟨⟨line, -, rfl⟩, -⟩
    exact plain_cut line
  · rw [List.mem_singleton.mp from_piece]
    exact plain_cut piece

theorem plain_append_crlf (plain : Plain sendbuf) : 0 ∉ sendbuf ++ crlf := by
  intro nul
  rcases List.mem_append.mp nul with in_text | in_crlf
  · exact (plain 0 in_text).1 rfl
  · exact absurd in_crlf (by decide)

theorem strtok_request (plain : Plain sendbuf) (some_text : sendbuf ≠ []) :
    strtok (Client.request sendbuf) = some sendbuf := by
  have unbroken : sendbuf.takeWhile (fun byte => !isBreak byte) = sendbuf := by
    apply List.takeWhile_eq_self_iff.mpr
    intro byte byte_mem
    simp [(plain byte byte_mem).2]
  rw [Client.request, strtok, cString_eq_self (plain_append_crlf plain)]
  cases sendbuf with
  | nil => exact absurd rfl some_text
  | cons first rest =>
      have first_kept := (plain first List.mem_cons_self).2
      rw [List.cons_append, List.dropWhile_cons_of_neg (by simp [first_kept])]
      simp only [List.cons_ne_nil, if_false, Option.some.injEq]
      rw [← List.cons_append, List.takeWhile_append, unbroken]
      simp [crlf, isBreak]

theorem answer_eq (plain : Plain sendbuf) (some_text : sendbuf ≠ []) :
    server.answer currDir sendbuf = server.exec currDir sendbuf := by
  simp only [Server.answer, strtok_request plain some_text]

theorem answer_nil : server.answer currDir [] = ⟨[], currDir, false⟩ := by
  have nothing : strtok (Client.request []) = none := by decide
  simp only [Server.answer, nothing]

/-- A reply of one short line is read whole. -/
theorem recvLine_reply {line : Bytes} (unbroken : newline ∉ line)
    (short : line.length + 2 < maxLine) (rest : Bytes) :
    recvLine maxLine (line ++ crlf ++ rest) = some (line ++ crlf, rest) := by
  have unbroken' : newline ∉ line ++ [13] := by
    simp only [List.mem_append, List.mem_singleton, not_or]
    exact ⟨unbroken, by decide⟩
  have received := recvLine_line rest unbroken'
    (by simpa using short : (line ++ [13]).length + 1 < maxLine)
  simpa [crlf] using received

theorem newline_not_mem (plain : Plain sendbuf) : newline ∉ sendbuf := by
  intro newline_mem
  exact absurd (plain _ newline_mem).2 (by decide)

/-- The reply to `INFO` without a text is never read to an end. -/
theorem readUntil_noInfo (stray : UInt8) :
    readUntil maxLine crlf (ascii "(no INFO available)" ++ crlf ++ [0, stray]) = none := by
  have received := recvLine_reply (by decide : newline ∉ ascii "(no INFO available)")
    (by decide) [0, stray]
  have goes_on : cString (ascii "(no INFO available)" ++ crlf) ≠ crlf := by decide
  rw [readUntil_go_on (by decide) received goes_on]
  cases stopped : readUntil maxLine crlf [0, stray] with
  | none => rfl
  | some result =>
      have := length_readUntil_nul (by decide) stopped
      simp at this

/-- After a command of its own line the client reads one line. -/
theorem readReply_line {line : Bytes}
    (no_block : ¬(sendbuf = ascii "INFO" ∨ sendbuf = ascii "LIST"))
    (unbroken : newline ∉ line) (short : line.length + 2 < maxLine) (rest : Bytes) :
    Client.readReply sendbuf (line ++ crlf ++ rest) = some (cString (line ++ crlf), rest) := by
  rw [Client.readReply, if_neg no_block, recvLine_reply unbroken short rest]
  rfl

theorem readReply_info (currDir : Bytes) :
    (Client.readReply (ascii "INFO") (server.exec currDir (ascii "INFO")).bytes).map Prod.snd =
      some [] ↔
      server.hasInfo = true ∧ Framed maxLine crlf (server.infoBuf.getD []) := by
  have executed : (server.exec currDir (ascii "INFO")).bytes =
      if server.hasInfo then server.infoBuf.getD [] ++ crlf
      else ascii "(no INFO available)" ++ crlf ++ [0, server.stray] := by
    rw [Server.exec, if_neg (by decide), if_neg (by decide), if_pos rfl]
    split <;> rfl
  rw [executed, Client.readReply, if_pos (Or.inl rfl)]
  cases given : server.hasInfo with
  | true => simpa using readUntil_crlf_iff (by decide)
  | false =>
      rw [if_neg Bool.false_ne_true, readUntil_noInfo]
      simp

theorem readReply_list (currDir : Bytes) :
    (Client.readReply (ascii "LIST") (server.exec currDir (ascii "LIST")).bytes).map Prod.snd =
      some [] ↔
      ∃ text ∈ server.listing currDir, Framed maxLine crlf text := by
  have executed : (server.exec currDir (ascii "LIST")).bytes =
      match server.listing currDir with
      | none => ascii "(cannot open dir)" ++ [13] ++ crlf
      | some text => text ++ crlf := by
    rw [Server.exec, if_neg (by decide), if_neg (by decide), if_neg (by decide),
      if_neg (by decide), if_pos rfl]
    cases server.listing currDir <;> rfl
  rw [executed, Client.readReply, if_pos (Or.inr rfl)]
  cases opened : server.listing currDir with
  | none =>
      have waits : readUntil maxLine crlf (ascii "(cannot open dir)" ++ [13] ++ crlf) = none :=
        readUntil_unfinished (by decide) (by decide) (by decide)
      simp only [waits]
      simp
  | some text => simpa using readUntil_crlf_iff (by decide)

/-- The other commands are answered by one line, and `QUIT` by a line and a NUL. -/
theorem readReply_other (server : Server) (currDir : Bytes) (plain : Plain sendbuf)
    (short : sendbuf.length < 1000) (no_info : sendbuf ≠ ascii "INFO")
    (no_list : sendbuf ≠ ascii "LIST") :
    (Client.readReply sendbuf (server.exec currDir sendbuf).bytes).map Prod.snd =
      some (if (server.exec currDir sendbuf).quits then [0] else []) := by
  have no_block : ¬(sendbuf = ascii "INFO" ∨ sendbuf = ascii "LIST") :=
    not_or.mpr ⟨no_info, no_list⟩
  have one_line {line : Bytes} (unbroken : newline ∉ line) (fits : line.length + 2 < maxLine) :=
    readReply_line no_block unbroken fits
  unfold Server.exec
  by_cases echo : ascii "ECHO " <+: sendbuf
  · rw [if_pos echo]
    have echoed : newline ∉ sendbuf.drop 5 := fun newline_mem =>
      newline_not_mem plain (List.mem_of_mem_drop newline_mem)
    have fits : (sendbuf.drop 5).length + 2 < maxLine := by
      simp only [List.length_drop, maxLine]
      omega
    rw [← List.append_nil (_ ++ crlf), one_line echoed fits]
    rfl
  rw [if_neg echo]
  by_cases quits : sendbuf = ascii "QUIT"
  · rw [if_pos quits]
    rw [one_line (by decide : newline ∉ ascii "BYE") (by decide)]
    rfl
  rw [if_neg quits, if_neg no_info]
  by_cases cd : ascii "CD " <+: sendbuf
  · rw [if_pos cd]
    rw [← List.nil_append crlf, ← List.append_nil (_ ++ crlf),
      one_line List.not_mem_nil (by decide)]
    rfl
  rw [if_neg cd, if_neg no_list]
  rw [← List.append_nil (_ ++ crlf),
    one_line (by decide : newline ∉ ascii "Unknown command") (by decide)]
  rfl

/-- The client takes exactly the reply to a command if and only if the command fits. -/
theorem readReply_iff (plain : Plain sendbuf) (short : sendbuf.length < 1000)
    (stays : (server.answer currDir sendbuf).quits = false) :
    (Client.readReply sendbuf (server.answer currDir sendbuf).bytes).map Prod.snd = some [] ↔
      CommandFits server currDir sendbuf := by
  by_cases some_text : sendbuf = []
  · subst some_text
    refine iff_of_false ?_ fun fits => fits.some_text rfl
    have no_reply : ¬(Client.readReply [] []).map Prod.snd = some [] := by decide
    simpa only [answer_nil] using no_reply
  rw [answer_eq plain some_text] at stays ⊢
  by_cases info : sendbuf = ascii "INFO"
  · subst info
    rw [readReply_info]
    exact ⟨fun framed => ⟨by decide, fun _ => framed, fun other => absurd other (by decide)⟩,
      fun fits => fits.info rfl⟩
  by_cases list : sendbuf = ascii "LIST"
  · subst list
    rw [readReply_list]
    exact ⟨fun framed => ⟨by decide, fun other => absurd other (by decide), fun _ => framed⟩,
      fun fits => fits.list rfl⟩
  refine iff_of_true ?_ ⟨some_text, fun h => absurd h info, fun h => absurd h list⟩
  have read := readReply_other server currDir plain short info list
  simpa only [stays, Bool.false_eq_true, if_false] using read

theorem quits_iff : (server.exec currDir sendbuf).quits = true ↔ sendbuf = ascii "QUIT" := by
  constructor
  · intro quits
    by_contra stays
    unfold Server.exec at quits
    rw [if_neg stays] at quits
    split at quits
    · exact absurd quits Bool.false_ne_true
    split at quits
    · split at quits <;> exact absurd quits Bool.false_ne_true
    split at quits
    · exact absurd quits Bool.false_ne_true
    split at quits
    · split at quits <;> exact absurd quits Bool.false_ne_true
    · exact absurd quits Bool.false_ne_true
  · rintro rfl
    rw [Server.exec, if_neg (by decide), if_pos rfl]

/-- The reply to `QUIT` is read, with a NUL left behind it. -/
theorem readReply_quit (plain : Plain sendbuf) (short : sendbuf.length < 1000)
    (quits : (server.answer currDir sendbuf).quits = true) :
    CommandFits server currDir sendbuf ∧
      (Client.readReply sendbuf (server.answer currDir sendbuf).bytes).isSome = true := by
  have some_text : sendbuf ≠ [] := by
    rintro rfl
    rw [answer_nil] at quits
    exact absurd quits Bool.false_ne_true
  rw [answer_eq plain some_text] at quits ⊢
  have is_quit := quits_iff.mp quits
  have no_info : sendbuf ≠ ascii "INFO" := by
    rw [is_quit]
    decide
  have no_list : sendbuf ≠ ascii "LIST" := by
    rw [is_quit]
    decide
  refine ⟨⟨some_text, fun info => absurd info no_info, fun list => absurd list no_list⟩, ?_⟩
  have read := readReply_other server currDir plain short no_info no_list
  rw [← Option.isSome_map, read]
  rfl

end Commands

/-- Step by step, in the directory each command is executed in. -/
theorem inStep_of_plain {server : Server} {currDir : Bytes} {commands : List Bytes}
    (plain : ∀ sendbuf ∈ commands, Plain sendbuf)
    (short : ∀ sendbuf ∈ commands, sendbuf.length < 1000) :
    InStep server currDir commands ↔ AllFit server currDir commands := by
  induction commands generalizing currDir with
  | nil => exact Iff.rfl
  | cons sendbuf rest ih =>
      rw [List.forall_mem_cons] at plain short
      have later : InStep server (server.answer currDir sendbuf).currDir rest ↔
          AllFit server (server.answer currDir sendbuf).currDir rest := ih plain.2 short.2
      unfold InStep AllFit
      cases quits : (server.answer currDir sendbuf).quits with
      | true =>
          have read := readReply_quit plain.1 short.1 quits
          simp [quits, read.1, read.2]
      | false =>
          have read := readReply_iff plain.1 short.1 quits
          simp only [quits, Bool.false_eq_true, if_false, read, later, forall_const]

/-- Whatever is typed, client and server stay in step if and only if every command fits. -/
theorem inStep_iff (server : Server) (openFile : Bytes → Option Bytes) (stdin : Bytes)
    (short : ∀ sendbuf ∈ Client.interactiveMode openFile stdin, sendbuf.length < 1000) :
    InStep server [] (Client.interactiveMode openFile stdin) ↔
      AllFit server [] (Client.interactiveMode openFile stdin) :=
  inStep_of_plain plain_interactiveMode short

/-- A session whose texts are framed. -/
theorem inStep_hello :
    ∃ server, Server.start helloFiles [] (ascii "/")
        (fun place => dot :: dotDot :: helloFiles.names place) (fun _ => .refl _) 0 = some server ∧
      InStep server []
        (Client.interactiveMode (fun _ => none) (ascii "LIST\nINFO\nECHO hi\nCD ..\nQUIT\n")) := by
  have started : (Server.start helloFiles [] (ascii "/")
      (fun place => dot :: dotDot :: helloFiles.names place)
      (fun _ => .refl _) 0).map (fun server =>
        decide (AllFit server [] (Client.interactiveMode (fun _ => none)
          (ascii "LIST\nINFO\nECHO hi\nCD ..\nQUIT\n")))) = some true := by
    decide +kernel
  rcases Option.map_eq_some_iff.mp started with ⟨server, started, fit⟩
  exact ⟨server, started, (inStep_iff server _ _ (by decide)).mpr (of_decide_eq_true fit)⟩

/-- Without `info.txt` the reply to `INFO` has no empty line, and an empty line has no reply. -/
theorem not_inStep_bare :
    ∃ server, Server.start FileSystem.bare [] (ascii "/")
        (fun place => dot :: dotDot :: FileSystem.bare.names place) (fun _ => .refl _) 0 =
          some server ∧
      ¬InStep server [] (Client.interactiveMode (fun _ => none) (ascii "INFO\n")) ∧
      ¬InStep server [] (Client.interactiveMode (fun _ => none) (ascii "\n")) := by
  have started : (Server.start FileSystem.bare [] (ascii "/")
      (fun place => dot :: dotDot :: FileSystem.bare.names place) (fun _ => .refl _) 0).map
        (fun server => [ascii "INFO\n", ascii "\n"].map fun stdin =>
          decide (AllFit server [] (Client.interactiveMode (fun _ => none) stdin))) =
      some [false, false] := by
    decide +kernel
  rcases Option.map_eq_some_iff.mp started with ⟨server, started, found⟩
  simp only [List.map_cons, List.map_nil, List.cons.injEq, decide_eq_false_iff_not] at found
  refine ⟨server, started, fun inStep => found.1 ?_, fun inStep => found.2.1 ?_⟩
  · exact (inStep_of_plain plain_interactiveMode (by decide)).mp inStep
  · exact (inStep_of_plain plain_interactiveMode (by decide)).mp inStep

end Osis.Lab08
