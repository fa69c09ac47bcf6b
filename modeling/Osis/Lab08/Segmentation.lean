import Osis.Lab08.Lockstep

/-!
# Where the stream of commands is cut

The server takes the first token of each result of `recv` for a command. It executes one
command for each line if every line arrives in a single result and no result brings two of
them, and no other way of cutting does, as long as no line follows `QUIT`: the tokens then
take up all the text that the stream has.
-/

namespace Osis.Lab08

open Posix

/-- Bytes that separate tokens. -/
def Breaks (bytes : Bytes) : Prop := ∀ byte ∈ bytes, isBreak byte = true

/-- Each line arrives in one chunk, alone, up to the first `QUIT`. -/
inductive Aligned : List Bytes → List Bytes → Prop
  | done : Aligned [] []
  | quiet {lines chunks : List Bytes} {chunk : Bytes} (breaks : Breaks chunk)
      (later : Aligned lines chunks) : Aligned lines (chunk :: chunks)
  | line {lines chunks : List Bytes} {line before after : Bytes} (plain : Plain line)
      (leading : Breaks before) (trailing : Breaks after) (later : Aligned lines chunks) :
      Aligned (line :: lines) ((before ++ line ++ after) :: chunks)
  | quit {lines chunks : List Bytes} {before after : Bytes} (leading : Breaks before)
      (ends : after.head?.all isBreak = true) :
      Aligned (ascii "QUIT" :: lines) ((before ++ ascii "QUIT" ++ after) :: chunks)

/-- Two ways of cutting the stream of `lines` lead to the same commands, one for each line, and
to the same replies. -/
structure SameBehaviour (server : Server) (currDir : Bytes) (lines first second : List Bytes) :
    Prop where
  commands : server.commands currDir first = server.commands currDir second
  replies : server.replies currDir first = server.replies currDir second
  one_each : server.commands currDir first = Client.untilQuit lines

section Tokens

variable {server : Server} {currDir before token after buffer : Bytes}
  {lines chunks : List Bytes}

theorem dropWhile_breaks (leading : Breaks before) (rest : Bytes) :
    (before ++ rest).dropWhile isBreak = rest.dropWhile isBreak := by
  rw [List.dropWhile_append, List.dropWhile_eq_nil_iff.mpr leading]
  rfl

theorem dropWhile_plain (plain : Plain token) (some_text : token ≠ []) (rest : Bytes) :
    (token ++ rest).dropWhile isBreak = token ++ rest := by
  cases token with
  | nil => exact absurd rfl some_text
  | cons first token =>
      have first_kept := (plain first List.mem_cons_self).2
      rw [List.cons_append, List.dropWhile_cons_of_neg (by simp [first_kept])]

theorem nul_not_mem_breaks (breaks : Breaks before) : 0 ∉ before := by
  intro nul
  exact absurd (breaks 0 nul) (by decide)

/-- `strtok` returns a token between breaks, whatever follows. -/
theorem strtok_token (leading : Breaks before) (plain : Plain token) (some_text : token ≠ [])
    (ends : after.head?.all isBreak = true) : strtok (before ++ token ++ after) = some token := by
  have unbroken : ∀ byte ∈ before ++ token, decide (byte ≠ 0) = true := by
    intro byte byte_mem
    rcases List.mem_append.mp byte_mem with in_before | in_token
    · exact decide_eq_true fun nul => nul_not_mem_breaks leading (nul ▸ in_before)
    · exact decide_eq_true (plain byte in_token).1
  have shown : cString (before ++ token ++ after) = before ++ token ++ cString after :=
    List.takeWhile_append_of_pos unbroken
  have kept : token.takeWhile (fun byte => !isBreak byte) = token := by
    apply List.takeWhile_eq_self_iff.mpr
    intro byte byte_mem
    simp [(plain byte byte_mem).2]
  have stops : (cString after).takeWhile (fun byte => !isBreak byte) = [] := by
    cases after with
    | nil => rfl
    | cons first after =>
        simp only [List.head?_cons, Option.all_some] at ends
        rw [cString, List.takeWhile_cons]
        split
        · simp [ends]
        · rfl
  rw [strtok, shown, List.append_assoc, dropWhile_breaks leading, dropWhile_plain plain some_text]
  simp [some_text, List.takeWhile_append, kept, stops]

theorem strtok_breaks (breaks : Breaks buffer) : strtok buffer = none := by
  rw [strtok, cString_eq_self (nul_not_mem_breaks breaks), List.dropWhile_eq_nil_iff.mpr breaks]
  rfl

/-- A token has no byte at which a string or a token ends. -/
theorem plain_strtok (found : strtok buffer = some token) : Plain token := by
  simp only [strtok, Option.ite_none_left_eq_some, Option.some.injEq] at found
  rcases found with ⟨-, rfl⟩
  intro byte byte_mem
  have in_string : byte ∈ cString buffer :=
    (List.dropWhile_suffix _).subset ((List.takeWhile_prefix _).subset byte_mem)
  exact ⟨by simpa using List.mem_takeWhile_imp in_string,
    by simpa using List.mem_takeWhile_imp byte_mem⟩

/-- A token is a piece of its chunk, with breaks in front of it. -/
theorem strtok_eq_some (no_nul : 0 ∉ buffer) (found : strtok buffer = some token) :
    ∃ before after, buffer = before ++ token ++ after ∧ Breaks before := by
  rw [strtok, cString_eq_self no_nul] at found
  simp only [Option.ite_none_left_eq_some, Option.some.injEq] at found
  rcases found with ⟨-, rfl⟩
  refine ⟨buffer.takeWhile isBreak,
    (buffer.dropWhile isBreak).dropWhile fun byte => !isBreak byte, ?_, ?_⟩
  · rw [List.append_assoc, List.takeWhile_append_dropWhile, List.takeWhile_append_dropWhile]
  · exact fun byte byte_mem => List.mem_takeWhile_imp byte_mem

theorem breaks_of_strtok (no_nul : 0 ∉ buffer) (nothing : strtok buffer = none) :
    Breaks buffer := by
  rw [strtok, cString_eq_self no_nul] at nothing
  simp only [ite_eq_left_iff, reduceCtorEq, imp_false, not_not] at nothing
  exact List.dropWhile_eq_nil_iff.mp nothing

/-- The bytes of a stream that belong to lines. -/
def textLength (bytes : Bytes) : ℕ := bytes.countP fun byte => !isBreak byte

theorem textLength_append (front rest : Bytes) :
    textLength (front ++ rest) = textLength front + textLength rest :=
  List.countP_append

theorem textLength_plain (plain : Plain token) : textLength token = token.length := by
  apply List.countP_eq_length.mpr
  intro byte byte_mem
  simp [(plain byte byte_mem).2]

theorem breaks_of_textLength (no_text : textLength buffer = 0) : Breaks buffer := by
  intro byte byte_mem
  simpa using List.countP_eq_zero.mp no_text byte byte_mem

theorem textLength_stream (plain : ∀ line ∈ lines, Plain line) :
    textLength (lines.flatMap Client.request) = lines.flatten.length := by
  induction lines with
  | nil => rfl
  | cons line lines ih =>
      rw [List.forall_mem_cons] at plain
      have no_text : textLength crlf = 0 := by decide
      rw [List.flatMap_cons, Client.request, textLength_append, textLength_append, no_text,
        textLength_plain plain.1, ih plain.2, List.flatten_cons, List.length_append,
        Nat.add_zero]

theorem length_token_le (found : strtok buffer = some token) :
    token.length ≤ textLength buffer := by
  simp only [strtok, Option.ite_none_left_eq_some, Option.some.injEq] at found
  rcases found with ⟨-, rfl⟩
  set text := (cString buffer).dropWhile isBreak
  have kept : textLength (text.takeWhile fun byte => !isBreak byte) =
      (text.takeWhile fun byte => !isBreak byte).length := by
    apply List.countP_eq_length.mpr
    intro byte byte_mem
    simpa using List.mem_takeWhile_imp byte_mem
  have piece : (text.takeWhile fun byte => !isBreak byte).Sublist buffer :=
    (List.takeWhile_prefix _).sublist.trans
      ((List.dropWhile_suffix _).sublist.trans (cString_prefix_buffer buffer).sublist)
  rw [← kept]
  exact piece.countP_le

/-- The commands executed do not have more text than the stream. -/
theorem length_commands_le (server : Server) (currDir : Bytes) (chunks : List Bytes) :
    (server.commands currDir chunks).flatten.length ≤ textLength chunks.flatten := by
  induction chunks generalizing currDir with
  | nil => exact Nat.zero_le _
  | cons chunk chunks ih =>
      rw [List.flatten_cons, textLength_append]
      unfold Server.commands
      cases found : strtok chunk with
      | none => exact (ih currDir).trans (Nat.le_add_left _ _)
      | some token =>
          have token_le : token.length ≤ textLength chunk := length_token_le found
          simp only
          split
          · simpa using token_le.trans (Nat.le_add_right _ _)
          · rw [List.flatten_cons, List.length_append]
            exact Nat.add_le_add token_le (ih _)

theorem nul_not_mem_stream (plain : ∀ line ∈ lines, Plain line) :
    0 ∉ lines.flatMap Client.request := by
  intro nul
  rcases List.mem_flatMap.mp nul with ⟨line, line_mem, in_request⟩
  exact plain_append_crlf (plain line line_mem) in_request

/-- Breaks in front of a stream do not reach into its first line. -/
theorem strip_breaks {front rest breaks : Bytes} (fronts : Breaks front) (gaps : Breaks breaks)
    (plain : ∀ line ∈ lines, Plain line) (some_text : ∀ line ∈ lines, line ≠ [])
    (stream_eq : front ++ rest = breaks ++ lines.flatMap Client.request) :
    ∃ left, Breaks left ∧ rest = left ++ lines.flatMap Client.request := by
  rcases List.append_eq_append_iff.mp stream_eq with ⟨left, breaks_eq, rest_eq⟩ |
    ⟨excess, front_eq, rest_eq⟩
  · exact ⟨left, fun byte byte_mem => gaps byte (breaks_eq ▸ List.mem_append_right _ byte_mem),
      rest_eq⟩
  · cases excess with
    | nil =>
        exact ⟨[], fun _ byte_mem => absurd byte_mem List.not_mem_nil, by simpa using rest_eq.symm⟩
    | cons first excess =>
        have first_break : isBreak first = true :=
          fronts first (front_eq ▸ List.mem_append_right _ List.mem_cons_self)
        cases lines with
        | nil => simp at rest_eq
        | cons line lines =>
            rw [List.forall_mem_cons] at plain some_text
            cases line with
            | nil => exact absurd rfl some_text.1
            | cons byte line =>
                simp only [List.flatMap_cons, Client.request, List.cons_append, List.cons.injEq]
                  at rest_eq
                have first_kept := (plain.1 byte List.mem_cons_self).2
                rw [rest_eq.1, first_break] at first_kept
                exact absurd first_kept.symm Bool.false_ne_true

end Tokens

section Alignment

variable {server : Server} {currDir : Bytes} {lines chunks : List Bytes}

/-- A chunk with one line executes this line. -/
theorem commands_line {buffer line : Bytes} (found : strtok buffer = some line) :
    server.commands currDir (buffer :: chunks) =
      if line = ascii "QUIT" then [line]
      else line :: server.commands (server.exec currDir line).currDir chunks := by
  rw [Server.commands, found]
  simp only [quits_iff]

theorem replies_line {buffer line : Bytes} (found : strtok buffer = some line) :
    server.replies currDir (buffer :: chunks) =
      if line = ascii "QUIT" then (server.exec currDir line).bytes
      else (server.exec currDir line).bytes ++
        server.replies (server.exec currDir line).currDir chunks := by
  rw [Server.replies, found]
  simp only [quits_iff]

/-- If the chunks are aligned, each line is executed, and answered, once. -/
theorem executed_of_aligned (server : Server) (currDir : Bytes) (aligned : Aligned lines chunks)
    (some_text : ∀ line ∈ lines, line ≠ []) :
    server.commands currDir chunks = Client.untilQuit lines ∧
      server.replies currDir chunks = server.replies currDir (lines.map Client.request) := by
  induction aligned generalizing currDir with
  | done => exact ⟨rfl, rfl⟩
  | quiet breaks later ih =>
      rw [Server.commands, Server.replies, strtok_breaks breaks]
      exact ih currDir some_text
  | @line lines chunks line before after plain leading trailing later ih =>
      rw [List.forall_mem_cons] at some_text
      have ends : after.head?.all isBreak = true := by
        cases after with
        | nil => rfl
        | cons first after => exact trailing first List.mem_cons_self
      have found := strtok_token leading plain some_text.1 ends
      have sent := strtok_request plain some_text.1
      have executed := ih (server.exec currDir line).currDir some_text.2
      rw [commands_line found, replies_line found, List.map_cons, replies_line sent,
        Client.untilQuit, executed.1, executed.2]
      exact ⟨rfl, rfl⟩
  | @quit lines chunks before after leading ends =>
      have plain : Plain (ascii "QUIT") := plain_of_all (by decide)
      have found := strtok_token leading plain (by decide) ends
      have sent := strtok_request plain (by decide)
      rw [commands_line found, replies_line found, List.map_cons, replies_line sent,
        Client.untilQuit]
      exact ⟨by rw [if_pos rfl, if_pos rfl], by rw [if_pos rfl, if_pos rfl]⟩

/-- Whatever is executed is plain. -/
theorem plain_of_mem_commands :
    ∀ command ∈ server.commands currDir chunks, Plain command := by
  induction chunks generalizing currDir with
  | nil =>
      intro command executed
      exact absurd executed List.not_mem_nil
  | cons chunk chunks ih =>
      intro command executed
      unfold Server.commands at executed
      cases found : strtok chunk with
      | none =>
          rw [found] at executed
          exact ih command executed
      | some token =>
          have plain := plain_strtok found
          simp only [found] at executed
          split at executed
          · rw [List.mem_singleton.mp executed]
            exact plain
          · rcases List.mem_cons.mp executed with rfl | later
            · exact plain
            · exact ih command later

/-- If each line is executed once, no chunk brings more or less than a line: there is no text
left for the rest of a line, or for a second one. -/
theorem aligned_of_executed {breaks : Bytes} (gaps : Breaks breaks)
    (plain : ∀ line ∈ lines, Plain line) (some_text : ∀ line ∈ lines, line ≠ [])
    (cut : chunks.flatten = breaks ++ lines.flatMap Client.request)
    (executed : server.commands currDir chunks = lines) : Aligned lines chunks := by
  induction chunks generalizing lines breaks currDir with
  | nil =>
      rw [← executed]
      exact .done
  | cons chunk chunks ih =>
      rw [List.flatten_cons] at cut
      have no_nul : 0 ∉ chunk := by
        intro nul
        have in_stream := cut ▸ List.mem_append_left chunks.flatten nul
        rcases List.mem_append.mp in_stream with in_breaks | in_lines
        · exact nul_not_mem_breaks gaps in_breaks
        · exact nul_not_mem_stream plain in_lines
      cases found : strtok chunk with
      | none =>
          have quiet := breaks_of_strtok no_nul found
          rcases strip_breaks quiet gaps plain some_text cut with ⟨left, gaps', cut'⟩
          rw [Server.commands, found] at executed
          exact .quiet quiet (ih gaps' plain some_text cut' executed)
      | some token =>
          rcases strtok_eq_some no_nul found with ⟨before, after, rfl, leading⟩
          rw [commands_line found] at executed
          cases lines with
          | nil => split at executed <;> simp at executed
          | cons line lines =>
              have line_eq : token = line := by
                split at executed
                · exact (List.cons.inj executed).1
                · exact (List.cons.inj executed).1
              subst line_eq
              rw [List.forall_mem_cons] at plain some_text
              -- the chunk starts where the line starts
              have after_cut : after ++ chunks.flatten = crlf ++ lines.flatMap Client.request := by
                have same := congrArg (List.dropWhile isBreak) cut
                rw [List.append_assoc, List.append_assoc, dropWhile_breaks leading,
                  dropWhile_breaks gaps, List.flatMap_cons, Client.request, List.append_assoc,
                  dropWhile_plain plain.1 some_text.1, dropWhile_plain plain.1 some_text.1]
                  at same
                exact List.append_cancel_left same
              split at executed
              · next quits =>
                  subst quits
                  refine .quit leading ?_
                  cases after with
                  | nil => rfl
                  | cons first after =>
                      simp only [crlf, List.cons_append, List.cons.injEq] at after_cut
                      simp [after_cut.1, isBreak]
              · rw [List.cons.injEq] at executed
                have enough := length_commands_le server
                  (server.exec currDir token).currDir chunks
                rw [executed.2, ← textLength_stream plain.2] at enough
                have total := congrArg textLength after_cut
                have no_text : textLength crlf = 0 := by decide
                rw [textLength_append, textLength_append, no_text] at total
                have trailing : Breaks after := breaks_of_textLength (by omega)
                have gaps_crlf : Breaks crlf := List.all_eq_true.mp (by decide)
                rcases strip_breaks trailing gaps_crlf plain.2 some_text.2 after_cut with
                  ⟨left, gaps', cut'⟩
                exact .line plain.1 leading trailing
                  (ih gaps' plain.2 some_text.2 cut' executed.2)

end Alignment

/-- Two ways of cutting a stream lead to the same if every line arrives alone in one chunk, and
if no line follows `QUIT`, only then. -/
theorem sameBehaviour_iff (server : Server) (currDir : Bytes) (lines first second : List Bytes)
    (some_text : ∀ line ∈ lines, line ≠ [])
    (cut_first : first.flatten = lines.flatMap Client.request)
    (cut_second : second.flatten = lines.flatMap Client.request) :
    (Aligned lines first ∧ Aligned lines second →
      SameBehaviour server currDir lines first second) ∧
    (Client.untilQuit lines = lines → SameBehaviour server currDir lines first second →
      Aligned lines first ∧ Aligned lines second) := by
  constructor
  · rintro ⟨aligned_first, aligned_second⟩
    have once_first := executed_of_aligned server currDir
      aligned_first some_text
    have once_second := executed_of_aligned server currDir
      aligned_second some_text
    exact ⟨once_first.1.trans once_second.1.symm, once_first.2.trans once_second.2.symm,
      once_first.1⟩
  · intro all_count same
    have once_first := same.one_each.trans all_count
    have once_second := same.commands.symm.trans once_first
    have plain : ∀ line ∈ lines, Plain line := by
      rw [← once_first]
      exact plain_of_mem_commands
    have no_breaks : Breaks [] := fun _ byte_mem => absurd byte_mem List.not_mem_nil
    exact ⟨aligned_of_executed no_breaks plain some_text cut_first once_first,
      aligned_of_executed no_breaks plain some_text cut_second once_second⟩

/-- The carriage return and the newline of the first line arrive apart. -/
theorem sameBehaviour_echo :
    ∃ server, Server.start FileSystem.bare [] (ascii "/")
        (fun place => dot :: dotDot :: FileSystem.bare.names place) (fun _ => .refl _) 0 =
          some server ∧
      SameBehaviour server [] [ascii "ECHO a", ascii "QUIT"]
        [ascii "ECHO a\r\n", ascii "QUIT\r\n"] [ascii "ECHO a\r", ascii "\nQUIT\r\n"] := by
  have started : (Server.start FileSystem.bare [] (ascii "/")
      (fun place => dot :: dotDot :: FileSystem.bare.names place) (fun _ => .refl _) 0).isSome =
        true := by
    decide +kernel
  rcases Option.isSome_iff_exists.mp started with ⟨server, started⟩
  have plain_echo : Plain (ascii "ECHO a") := plain_of_all (by decide)
  have breaks : Breaks [] ∧ Breaks [13] ∧ Breaks crlf ∧ Breaks [newline] :=
    ⟨List.all_eq_true.mp (by decide), List.all_eq_true.mp (by decide),
      List.all_eq_true.mp (by decide), List.all_eq_true.mp (by decide)⟩
  refine ⟨server, started, (sameBehaviour_iff server [] _ _ _ (by decide) (by decide)
    (by decide)).1 ⟨?_, ?_⟩⟩
  · have quits : Aligned [ascii "QUIT"] [[] ++ ascii "QUIT" ++ crlf] := .quit breaks.1 rfl
    exact .line plain_echo breaks.1 breaks.2.2.1 quits
  · have quits : Aligned [ascii "QUIT"] [[newline] ++ ascii "QUIT" ++ crlf] :=
      .quit breaks.2.2.2 rfl
    exact .line plain_echo breaks.1 breaks.2.1 quits

/-- Of two lines in one chunk the second is lost, and a line in two chunks is two commands. -/
theorem not_sameBehaviour_echo :
    ∃ server, Server.start FileSystem.bare [] (ascii "/")
        (fun place => dot :: dotDot :: FileSystem.bare.names place) (fun _ => .refl _) 0 =
          some server ∧
      ¬SameBehaviour server [] [ascii "ECHO a", ascii "ECHO b"]
        [ascii "ECHO a\r\n", ascii "ECHO b\r\n"] [ascii "ECHO a\r\nECHO b\r\n"] ∧
      ¬SameBehaviour server [] [ascii "ECHO a"] [ascii "ECHO a\r\n"]
        [ascii "ECHO", ascii " a\r\n"] := by
  have started : (Server.start FileSystem.bare [] (ascii "/")
      (fun place => dot :: dotDot :: FileSystem.bare.names place) (fun _ => .refl _) 0).map
        (fun server =>
          (server.commands [] [ascii "ECHO a\r\nECHO b\r\n"],
            server.commands [] [ascii "ECHO", ascii " a\r\n"])) =
      some ([ascii "ECHO a"], [ascii "ECHO", ascii " a"]) := by
    decide +kernel
  rcases Option.map_eq_some_iff.mp started with ⟨server, started, executed⟩
  rw [Prod.mk.injEq] at executed
  refine ⟨server, started, fun same => ?_, fun same => ?_⟩
  · have once := same.commands.symm.trans same.one_each
    rw [executed.1] at once
    exact absurd once (by decide)
  · have once := same.commands.symm.trans same.one_each
    rw [executed.2] at once
    exact absurd once (by decide)

end Osis.Lab08
