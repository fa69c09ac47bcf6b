import Osis.Posix.Text

/-!
# Reading lines from a connection

On a connection that stays open `fgets` returns once it has a newline or has filled
its buffer, and waits for more bytes until then. A reader that expects a block of
lines closed by a certain line stops after the block exactly if the text of the block,
cut into the pieces that `fgets` returns, has no piece that looks like the closing line
and none left unfinished (`Framed`).
-/

namespace Osis.Posix

/-- An empty line. -/
def crlf : Bytes := [13, newline]

/-- A buffer as the string functions see it: up to its first NUL. -/
def cString (buffer : Bytes) : Bytes := buffer.takeWhile (· ≠ 0)

/-- A piece for which `fgets` does not wait for more. -/
def Whole (size : ℕ) (piece : Bytes) : Prop := newline ∈ piece ∨ piece.length = size - 1

instance (size : ℕ) (piece : Bytes) : Decidable (Whole size piece) :=
  inferInstanceAs (Decidable (_ ∨ _))

/-- `fgets` on an open connection, with the bytes left; `none` while it waits for more. -/
def recvLine (size : ℕ) (stream : Bytes) : Option (Bytes × Bytes) :=
  if Whole size (takeLine (size - 1) stream) then
    some (takeLine (size - 1) stream, stream.drop (takeLine (size - 1) stream).length)
  else none

/-- At most `fuel` rounds of a loop that prints lines up to the line `stop`. -/
def readWithin (size : ℕ) (stop : Bytes) : ℕ → Bytes → Option (Bytes × Bytes)
  | 0, _ => none
  | fuel + 1, stream =>
      match recvLine size stream with
      | none => none
      | some (piece, rest) =>
          if cString piece = stop then some ([], rest)
          else (readWithin size stop fuel rest).map fun (printed, rest) =>
            (cString piece ++ printed, rest)

/-- A loop of `fgets` and `fputs` up to the line `stop`: what it prints and the bytes it leaves. -/
def readUntil (size : ℕ) (stop stream : Bytes) : Option (Bytes × Bytes) :=
  readWithin size stop (stream.length + 1) stream

/-- A block of lines that a reader gets whole before the line `stop`. -/
def Framed (size : ℕ) (stop text : Bytes) : Prop :=
  ∀ piece ∈ lines size text, cString piece ≠ stop ∧ Whole size piece

instance (size : ℕ) (stop text : Bytes) : Decidable (Framed size stop text) :=
  inferInstanceAs (Decidable (∀ piece ∈ lines size text, cString piece ≠ stop ∧ Whole size piece))

section Pieces

variable {size limit : ℕ} {stop stream text rest piece : Bytes}

theorem length_cString_le (buffer : Bytes) : (cString buffer).length ≤ buffer.length :=
  (List.takeWhile_prefix _).length_le

theorem cString_eq_self {buffer : Bytes} (unbroken : 0 ∉ buffer) : cString buffer = buffer := by
  apply List.takeWhile_eq_self_iff.mpr
  intro byte byte_mem
  simp only [decide_eq_true_eq]
  rintro rfl
  exact unbroken byte_mem

/-- Either the newline or the limit ends a piece of a longer text. -/
theorem takeLine_append_of_whole (whole : newline ∈ takeLine limit text ∨
    (takeLine limit text).length = limit) (more : Bytes) :
    takeLine limit (text ++ more) = takeLine limit text := by
  induction limit generalizing text with
  | zero => simp [takeLine]
  | succ limit ih =>
      cases text with
      | nil => simp [takeLine] at whole
      | cons byte text =>
          by_cases ends : byte = newline
          · simp [takeLine, ends]
          · simp only [List.cons_append, takeLine, if_neg ends, List.cons.injEq, true_and]
            apply ih
            simpa [takeLine, ends, Ne.symm ends] using whole

/-- A piece that neither ends holds the whole text. -/
theorem takeLine_eq_self (unbroken : newline ∉ takeLine limit text)
    (short : (takeLine limit text).length ≠ limit) :
    takeLine limit text = text ∧ newline ∉ text ∧ text.length < limit := by
  induction limit generalizing text with
  | zero => simp [takeLine] at short
  | succ limit ih =>
      cases text with
      | nil => simp [takeLine]
      | cons byte text =>
          by_cases ends : byte = newline
          · simp [takeLine, ends] at unbroken
          · simp only [takeLine, if_neg ends, List.mem_cons, not_or, List.length_cons,
              List.cons.injEq, true_and] at unbroken short ⊢
            rcases ih unbroken.2 (by omega) with ⟨same, unbroken_text, text_lt⟩
            exact ⟨same, ⟨unbroken.1, unbroken_text⟩, by omega⟩

/-- What `fgets` returns is the front of the stream. -/
theorem recvLine_eq_some :
    recvLine size stream = some (piece, rest) ↔
      piece = takeLine (size - 1) stream ∧ Whole size piece ∧ stream = piece ++ rest := by
  have split := List.prefix_iff_eq_append.mp (takeLine_prefix_text (size - 1) stream)
  simp only [recvLine, Option.ite_none_right_eq_some, Option.some.injEq, Prod.mk.injEq]
  constructor
  · rintro ⟨whole, rfl, rfl⟩
    exact ⟨rfl, whole, split.symm⟩
  · rintro ⟨rfl, whole, stream_eq⟩
    exact ⟨whole, rfl, List.append_cancel_left (split.trans stream_eq)⟩

theorem length_pos_of_whole (room : 1 < size) (whole : Whole size piece) : 0 < piece.length := by
  rcases whole with ends | full
  · exact List.length_pos_of_mem ends
  · omega

/-- Every piece that is received shortens the stream. -/
theorem length_rest_lt (room : 1 < size) (received : recvLine size stream = some (piece, rest)) :
    rest.length < stream.length := by
  rcases recvLine_eq_some.mp received with ⟨-, whole, stream_eq⟩
  have progress := length_pos_of_whole room whole
  have length_eq := congrArg List.length stream_eq
  rw [List.length_append] at length_eq
  omega

/-- A line that fits with its newline is received in one piece. -/
theorem recvLine_line {line : Bytes} (rest : Bytes) (unbroken : newline ∉ line)
    (short : line.length + 1 < size) :
    recvLine size (line ++ newline :: rest) = some (line ++ [newline], rest) := by
  rw [recvLine_eq_some]
  refine ⟨?_, Or.inl (by simp), by simp⟩
  rw [takeLine_append _ unbroken (by omega)]
  rcases Nat.exists_eq_add_of_lt (show 0 < size - 1 - line.length by omega) with ⟨left, left_eq⟩
  rw [left_eq]
  simp [takeLine]

/-- More than enough fuel makes no difference. -/
theorem readWithin_congr (room : 1 < size) {fuel fuel' : ℕ} (enough : stream.length < fuel)
    (enough' : stream.length < fuel') :
    readWithin size stop fuel stream = readWithin size stop fuel' stream := by
  induction fuel generalizing fuel' stream with
  | zero => omega
  | succ fuel ih =>
      cases fuel' with
      | zero => omega
      | succ fuel' =>
          unfold readWithin
          cases received : recvLine size stream with
          | none => rfl
          | some result =>
              rcases result with ⟨piece, rest⟩
              have progress := length_rest_lt room received
              have shorter : readWithin size stop fuel rest = readWithin size stop fuel' rest :=
                ih (by omega) (by omega)
              simp only [shorter]

/-- One round of the loop. -/
theorem readUntil_eq (room : 1 < size) (stop stream : Bytes) :
    readUntil size stop stream =
      match recvLine size stream with
      | none => none
      | some (piece, rest) =>
          if cString piece = stop then some ([], rest)
          else (readUntil size stop rest).map fun (printed, rest) =>
            (cString piece ++ printed, rest) := by
  unfold readUntil
  conv_lhs => unfold readWithin
  cases received : recvLine size stream with
  | none => rfl
  | some result =>
      rcases result with ⟨piece, rest⟩
      have progress := length_rest_lt room received
      have enough : readWithin size stop stream.length rest =
          readWithin size stop (rest.length + 1) rest :=
        readWithin_congr room (by omega) (Nat.lt_succ_self _)
      simp only [enough]

theorem readUntil_stop (room : 1 < size) (received : recvLine size stream = some (piece, rest))
    (stops : cString piece = stop) : readUntil size stop stream = some ([], rest) := by
  rw [readUntil_eq room, received]
  simp [stops]

theorem readUntil_go_on (room : 1 < size) (received : recvLine size stream = some (piece, rest))
    (goes_on : cString piece ≠ stop) :
    readUntil size stop stream = (readUntil size stop rest).map fun (printed, rest) =>
      (cString piece ++ printed, rest) := by
  rw [readUntil_eq room, received]
  simp [goes_on]

theorem readUntil_wait (room : 1 < size) (waits : recvLine size stream = none) :
    readUntil size stop stream = none := by
  rw [readUntil_eq room, waits]

/-- What is printed, the closing line and what is left come from the stream. -/
theorem length_readUntil (room : 1 < size) {printed : Bytes}
    (stopped : readUntil size stop stream = some (printed, rest)) :
    printed.length + stop.length + rest.length ≤ stream.length := by
  induction length_eq : stream.length using Nat.strong_induction_on generalizing stream printed with
  | _ length ih =>
      rw [readUntil_eq room] at stopped
      cases received : recvLine size stream with
      | none => simp [received] at stopped
      | some result =>
          rcases result with ⟨piece, after⟩
          rcases recvLine_eq_some.mp received with ⟨-, whole, stream_eq⟩
          have progress := length_pos_of_whole room whole
          have shown_le := length_cString_le piece
          have total := congrArg List.length stream_eq
          rw [List.length_append] at total
          simp only [received] at stopped
          split at stopped
          · next stops =>
              simp only [Option.some.injEq, Prod.mk.injEq] at stopped
              rcases stopped with ⟨rfl, rfl⟩
              have := congrArg List.length stops
              simp only [List.length_nil]
              omega
          · simp only [Option.map_eq_some_iff, Prod.exists, Prod.mk.injEq] at stopped
            rcases stopped with ⟨printed', rest', stopped', rfl, rfl⟩
            have := ih after.length (by omega) stopped' rfl
            rw [List.length_append]
            omega

theorem cString_prefix_buffer (buffer : Bytes) : cString buffer <+: buffer :=
  List.takeWhile_prefix _

/-- A text without a newline in front of the closing line hides it. -/
theorem readUntil_unfinished (unbroken : newline ∉ text) (some_text : text ≠ [])
    (short : text.length < size - 1) : readUntil size crlf (text ++ crlf) = none := by
  have room : 1 < size := by omega
  have at_end : readUntil size crlf [] = none := by
    apply readUntil_wait room
    rw [recvLine, if_neg]
    simp only [Whole, takeLine_nil, List.not_mem_nil, List.length_nil, false_or]
    omega
  by_cases fits : text.length + 1 = size - 1
  · -- the buffer is full before the newline
    have received : recvLine size (text ++ crlf) = some (text ++ [13], [newline]) := by
      rw [recvLine_eq_some]
      refine ⟨?_, Or.inr (by simp; omega), by simp [crlf]⟩
      rw [takeLine_append _ unbroken (by omega), show size - 1 - text.length = 1 by omega]
      rfl
    have goes_on : cString (text ++ [13]) ≠ crlf := by
      intro stops
      have newline_mem : newline ∈ text ++ [13] :=
        (cString_prefix_buffer _).subset (stops ▸ List.mem_cons_of_mem _ List.mem_cons_self)
      rcases List.mem_append.mp newline_mem with in_text | last
      · exact unbroken in_text
      · exact absurd last (by decide)
    have unbroken_nil : newline ∉ ([] : Bytes) := List.not_mem_nil
    have last : recvLine size [newline] = some ([newline], []) :=
      recvLine_line [] unbroken_nil (by simpa)
    rw [readUntil_go_on room received goes_on, 
      readUntil_go_on room last (by decide : cString [newline] ≠ crlf), at_end]
    rfl
  · have received : recvLine size (text ++ crlf) = some (text ++ [13] ++ [newline], []) := by
      have unbroken' : newline ∉ text ++ [13] := by
        simp only [List.mem_append, List.mem_singleton, not_or]
        exact ⟨unbroken, by decide⟩
      have line := recvLine_line [] unbroken' (by simp; omega : (text ++ [13]).length + 1 < size)
      simpa [crlf] using line
    have goes_on : cString (text ++ [13] ++ [newline]) ≠ crlf := by
      intro stops
      have front := cString_prefix_buffer (text ++ [13] ++ [newline])
      rw [stops] at front
      cases text with
      | nil => exact some_text rfl
      | cons first text =>
          cases text with
          | nil => simp [crlf, newline] at front
          | cons second text =>
              simp only [crlf, List.cons_append, List.cons_prefix_cons] at front
              simp [front.2.1] at unbroken
    rw [readUntil_go_on room received goes_on, at_end]
    rfl

/-- A reader takes a block and its closing line, and no more, exactly if the block is framed. -/
theorem readUntil_crlf_iff (room : 2 < size) :
    (∃ printed, readUntil size crlf (text ++ crlf) = some (printed, [])) ↔
      Framed size crlf text := by
  have room' : 1 < size := by omega
  induction length_eq : text.length using Nat.strong_induction_on generalizing text with
  | _ length ih =>
      by_cases some_text : text = []
      · subst some_text
        have received : recvLine size crlf = some (crlf, []) :=
          recvLine_line [] (by decide : newline ∉ [13]) (by simpa)
        have stopped := readUntil_stop room' received (by decide : cString crlf = crlf)
        exact iff_of_true ⟨[], by simpa using stopped⟩ (by simp [Framed, lines_nil])
      have lines_eq := lines_of_ne_nil room' some_text
      by_cases whole : Whole size (takeLine (size - 1) text)
      · have split := List.prefix_iff_eq_append.mp (takeLine_prefix_text (size - 1) text)
        have progress := length_pos_of_whole room' whole
        have received : recvLine size (text ++ crlf) = some (takeLine (size - 1) text,
            text.drop (takeLine (size - 1) text).length ++ crlf) := by
          rw [recvLine_eq_some]
          refine ⟨(takeLine_append_of_whole whole crlf).symm, whole, ?_⟩
          rw [← List.append_assoc, split]
        by_cases stops : cString (takeLine (size - 1) text) = crlf
        · rw [readUntil_stop room' received stops]
          refine iff_of_false ?_ fun framed => ?_
          · simp [crlf]
          · exact (framed _ (lines_eq ▸ List.mem_cons_self)).1 stops
        · have shorter := ih (text.drop (takeLine (size - 1) text).length).length
            (by
              have := congrArg List.length split
              rw [List.length_append] at this
              omega) rfl
          have framed_iff : Framed size crlf text ↔
              Framed size crlf (text.drop (takeLine (size - 1) text).length) := by
            rw [Framed, lines_eq, List.forall_mem_cons]
            exact and_iff_right ⟨stops, whole⟩
          rw [readUntil_go_on room' received stops]
          refine Iff.trans ?_ (shorter.trans framed_iff.symm)
          simp [Option.map_eq_some_iff]
      · simp only [Whole, not_or] at whole
        rcases takeLine_eq_self whole.1 whole.2 with ⟨same, unbroken, short⟩
        rw [readUntil_unfinished unbroken some_text short]
        refine iff_of_false (by simp) fun framed => ?_
        have piece := (framed _ (lines_eq ▸ List.mem_cons_self)).2
        exact piece.elim whole.1 whole.2

end Pieces

end Osis.Posix
