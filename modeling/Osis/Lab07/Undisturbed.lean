import Osis.Lab07.Commands
import Osis.Memory.Slice

/-!
# A process that nobody disturbs

While only one process takes steps, a `read` of a record moves the bytes that are in the
file, and a `write` stores all of its bytes. So the parts of a `PUT` between two answers of
its user have one outcome each, and a `PUT` whose record nobody else has locked ends with the
new record in the file (`run_put`).
-/

namespace Osis.Lab07

open Concurrency Memory Posix

universe u

section Undisturbed

variable {Process : Type u} [DecidableEq Process] {original : File} {state : State Process}
  {process : Process} {recNo : ℕ} {orig work : List UInt8}

@[simp]
theorem points_move (state : State Process) (process : Process) (point : Point) :
    (state.move process point).points process = point := Function.update_self ..

@[simp]
theorem shared_move (state : State Process) (process : Process) (point : Point) :
    (state.move process point).shared = state.shared := rfl

@[simp]
theorem move_move (state : State Process) (process : Process) (point point' : Point) :
    (state.move process point).move process point' = state.move process point' := by
  simp [State.move]

theorem move_self {point : Point} (here : state.points process = point) :
    state.move process point = state := by
  subst here
  simp [State.move]

/-- A step that leaves the shared state alone. -/
theorem next_step_of_advance {point point' : Point} (here : state.points process = point)
    (advances : advance state.shared process point = some (state.shared, point')) :
    next state (.step process) = some (state.move process point') := by
  simp only [next, here, advances, Option.map_some]
  rfl

/-- The record is read byte by byte. -/
theorem run_read {point : List UInt8 → Point} (here : state.points process = point [])
    (inside : recordStart recNo + recordSize ≤ state.shared.file.length)
    (reads : ∀ got byte, state.shared.file.readStep recNo got = .byte byte →
      advance state.shared process (point got) = some (state.shared, point (got ++ [byte]))) :
    (system Process original).run state (List.replicate recordSize (.step process)) =
      some (state.move process
        (point (slice state.shared.file.bytes (recordStart recNo) recordSize))) := by
  let got := slice state.shared.file.bytes (recordStart recNo)
  have start : state.move process (point (got 0)) = state := move_self here
  have goes : ∀ index < recordSize,
      (system Process original).next (state.move process (point (got index))) (.step process) =
        some (state.move process (point (got (index + 1)))) := by
    intro index below
    have length_eq : (got index).length = index := length_slice _ _ _
    have byte : state.shared.file.readStep recNo (got index) =
        .byte (state.shared.file.bytes (recordStart recNo + index)) := by
      rw [File.readStep, length_eq, if_neg (Nat.ne_of_lt below), if_pos (by omega)]
    have advances := reads _ _ byte
    rw [← slice_concat] at advances
    exact (next_step_of_advance (points_move _ _ _) advances).trans (by rw [move_move])
  have ran := System.run_replicate goes
  rwa [start] at ran

/-- Within the file a write changes one byte. -/
theorem writeByte_eq {file : File} {position : ℕ} (byte : UInt8)
    (inside : position < file.length) :
    file.writeByte position byte = ⟨Function.update file.bytes position byte, file.length⟩ := by
  have length_eq : max file.length (position + 1) = file.length := Nat.max_eq_left inside
  rw [File.writeByte, length_eq]
  congr 1
  funext address
  rw [Function.update_apply]
  split
  · rfl
  · rw [if_neg (by omega)]

theorem write_take_succ {memory : ℕ → UInt8} {start index : ℕ} {cells : List UInt8}
    (more : index < cells.length) :
    write memory start (cells.take (index + 1)) =
      Function.update (write memory start (cells.take index)) (start + index) cells[index] := by
  funext address
  by_cases here : address = start + index
  · subst here
    have inside : index < (cells.take (index + 1)).length := by
      rw [List.length_take]
      omega
    rw [Function.update_self, write_inside inside, List.getElem_take]
  · rw [Function.update_of_ne here]
    unfold write
    split
    · have same : address - start < index + 1 ↔ address - start < index := by omega
      simp only [List.getElem?_take, same]
    · rfl

/-- The state when a write has stored some bytes. -/
def written (state : State Process) (process : Process) (recNo : ℕ) (work : List UInt8)
    (index : ℕ) : State Process :=
  State.move ⟨{ state.shared with
    file := ⟨write state.shared.file.bytes (recordStart recNo) (work.take index),
      state.shared.file.length⟩ }, state.points⟩ process
    (.putWrite recNo work (slice state.shared.file.bytes (recordStart recNo) index))

/-- The record is stored byte by byte. -/
theorem run_write (here : state.points process = .putWrite recNo work [])
    (inside : recordStart recNo + recordSize ≤ state.shared.file.length)
    (length_eq : work.length = recordSize) :
    (system Process original).run state (List.replicate recordSize (.step process)) =
      some (written state process recNo work recordSize) := by
  have start : written state process recNo work 0 = state := by
    have nothing : write state.shared.file.bytes (recordStart recNo) (work.take 0) =
        state.shared.file.bytes := by
      funext address
      exact write_outside (by simp; omega)
    rw [written, nothing]
    exact move_self here
  have goes : ∀ index < recordSize,
      (system Process original).next (written state process recNo work index) (.step process) =
        some (written state process recNo work (index + 1)) := by
    intro index below
    have more : index < work.length := by omega
    have got_length : (slice state.shared.file.bytes (recordStart recNo) index).length = index :=
      length_slice _ _ _
    have next_byte : work[index]? = some work[index] := List.getElem?_eq_getElem more
    have before : write state.shared.file.bytes (recordStart recNo) (work.take index)
        (recordStart recNo + index) = state.shared.file.bytes (recordStart recNo + index) :=
      write_outside (by rw [List.length_take]; omega)
    have stored : File.writeByte ⟨write state.shared.file.bytes (recordStart recNo)
        (work.take index), state.shared.file.length⟩ (recordStart recNo + index) work[index] =
        ⟨write state.shared.file.bytes (recordStart recNo) (work.take (index + 1)),
          state.shared.file.length⟩ := by
      rw [writeByte_eq _ (by simp only; omega), write_take_succ more]
    simp only [system, next, written, points_move, shared_move, advance, cmdPut, got_length,
      next_byte, Option.map_some, before, stored, slice_concat]
    simp [State.move]
  have ran := System.run_replicate goes
  rwa [start] at ran

/-- The steps of a `PUT` up to its prompts. -/
def showing (process : Process) (recNo : ℕ) : List (Action Process) :=
  .put process recNo :: List.replicate recordSize (.step process) ++ [.step process]

/-- The steps from the request for the lock to the comparison. -/
def comparing (process : Process) : List (Action Process) :=
  .step process :: List.replicate recordSize (.step process) ++ [.step process]

/-- The steps from the comparison with an unchanged record to the end. -/
def saving (process : Process) : List (Action Process) :=
  .step process :: List.replicate recordSize (.step process) ++ [.step process, .step process]

/-- The steps from the comparison with a changed record to the end; 45 is `-`. -/
def givingUp (process : Process) : List (Action Process) :=
  [.step process, .step process, .answer process 45]

/-- From the command to its prompts. -/
theorem run_shows (idle : state.points process = .idle)
    (inside : recordStart recNo + recordSize ≤ state.shared.file.length)
    (record_eq : slice state.shared.file.bytes (recordStart recNo) recordSize = orig) :
    (system Process original).run state (showing process recNo) =
      some (State.move ⟨{ state.shared with
        shown := Function.update state.shared.shown process orig }, state.points⟩
        process (.putEdit recNo orig)) := by
  have started : (system Process original).next state (.put process recNo) =
      some (state.move process (.putRead recNo [])) := by
    simp only [system, next, idle]
  have reads := @run_read _ _ original (state.move process (.putRead recNo [])) process recNo
    (.putRead recNo) (points_move _ _ _) inside fun got byte read => by
      simp only [advance, cmdPut, read]
  rw [showing, List.cons_append, System.run_cons, started, Option.bind_some, System.run_append,
    reads, Option.bind_some, move_move, shared_move, record_eq]
  have length_eq : orig.length = recordSize := by
    rw [← record_eq]
    exact length_slice _ _ _
  simp [system, next, advance, cmdPut, File.readStep, length_eq, State.move]

/-- From the request for the lock to the comparison. -/
theorem run_compares {locks : List (RecordLock Process)} {fresh : List UInt8}
    (waits : state.points process = .putLock recNo orig work)
    (granted : RecordLock.setLock state.shared.locks (recordLock process recNo true) = some locks)
    (inside : recordStart recNo + recordSize ≤ state.shared.file.length)
    (fresh_eq : slice state.shared.file.bytes (recordStart recNo) recordSize = fresh) :
    (system Process original).run state (comparing process) =
      some (State.move ⟨{ state.shared with locks := locks }, state.points⟩
        process (.putCompare recNo orig work fresh)) := by
  have locked : (system Process original).next state (.step process) =
      some (State.move ⟨{ state.shared with locks := locks }, state.points⟩
        process (.putReread recNo orig work [])) := by
    simp only [system, next, waits, advance, cmdPut, Shared.lockRecord, granted, Option.map_some]
    rfl
  have reads := @run_read _ _ original (State.move ⟨{ state.shared with locks := locks },
    state.points⟩ process (.putReread recNo orig work [])) process recNo
    (.putReread recNo orig work) (points_move _ _ _) inside fun got byte read => by
      simp only [advance, cmdPut, read]
  rw [comparing, List.cons_append, System.run_cons, locked, Option.bind_some, System.run_append,
    reads, Option.bind_some, move_move, shared_move, fresh_eq]
  have length_eq : fresh.length = recordSize := by
    rw [← fresh_eq]
    exact length_slice _ _ _
  simp [system, next, advance, cmdPut, File.readStep, length_eq, State.move]

/-- From the comparison with an unchanged record to the end. -/
theorem run_saves (compares : state.points process = .putCompare recNo orig work orig)
    (inside : recordStart recNo + recordSize ≤ state.shared.file.length)
    (length_eq : work.length = recordSize)
    (record_eq : slice state.shared.file.bytes (recordStart recNo) recordSize = orig) :
    (system Process original).run state (saving process) =
      some (State.move ⟨{ state.shared with
        file := ⟨write state.shared.file.bytes (recordStart recNo) work, state.shared.file.length⟩
        locks := RecordLock.unlock state.shared.locks process (recordStart recNo) recordSize
        commits := state.shared.commits ++
          [⟨process, recNo, state.shared.shown process, orig, work⟩] }, state.points⟩
        process .idle) := by
  have compared : (system Process original).next state (.step process) =
      some (state.move process (.putWrite recNo work [])) :=
    next_step_of_advance compares (by simp only [advance, cmdPut, if_true])
  have writes := @run_write _ _ original (state.move process (.putWrite recNo work [])) process
    recNo work (points_move _ _ _) inside length_eq
  have whole : work.take recordSize = work := List.take_of_length_le (Nat.le_of_eq length_eq)
  have orig_length : orig.length = recordSize := by
    rw [← record_eq]
    exact length_slice _ _ _
  have past : work[recordSize]? = none := List.getElem?_eq_none (Nat.le_of_eq length_eq)
  rw [saving, List.cons_append, System.run_cons, compared, Option.bind_some, System.run_append,
    writes, Option.bind_some, written, shared_move, whole, record_eq]
  simp [system, next, advance, cmdPut, Shared.unlockRecord, orig_length, past, State.move]

/-- The user answers the prompts with something new. -/
theorem run_edits {buf stdin : List UInt8} (shown : state.points process = .putEdit recNo orig)
    (work_eq : editRecord orig buf stdin = work) (different : orig ≠ work) :
    (system Process original).run state [.edit process buf stdin] =
      some (state.move process (.putLock recNo orig work)) := by
  subst work_eq
  simp [system, next, shown, different]

/-- From the comparison with a changed record to the end. -/
theorem run_givesUp {fresh : List UInt8}
    (compares : state.points process = .putCompare recNo orig work fresh)
    (changed : orig ≠ fresh) :
    (system Process original).run state (givingUp process) =
      some (State.move ⟨{ state.shared with
        locks := RecordLock.unlock state.shared.locks process (recordStart recNo) recordSize },
        state.points⟩ process .idle) := by
  simp [givingUp, system, next, compares, advance, cmdPut, changed, Shared.unlockRecord, State.move]

/-- A `PUT` whose record nobody else has locked replaces what it has shown. -/
theorem run_put {locks : List (RecordLock Process)} {buf stdin : List UInt8}
    (idle : state.points process = .idle)
    (inside : recordStart recNo + recordSize ≤ state.shared.file.length)
    (record_eq : slice state.shared.file.bytes (recordStart recNo) recordSize = orig)
    (work_eq : editRecord orig buf stdin = work) (different : orig ≠ work)
    (granted : RecordLock.setLock state.shared.locks (recordLock process recNo true) =
      some locks) :
    (system Process original).run state (showing process recNo ++
        ([.edit process buf stdin] ++ (comparing process ++ saving process))) =
      some (State.move ⟨{ state.shared with
        file := ⟨write state.shared.file.bytes (recordStart recNo) work, state.shared.file.length⟩
        locks := RecordLock.unlock locks process (recordStart recNo) recordSize
        shown := Function.update state.shared.shown process orig
        commits := state.shared.commits ++ [⟨process, recNo, orig, orig, work⟩] }, state.points⟩
        process .idle) := by
  have length_eq : work.length = recordSize := by
    rw [← work_eq, ← record_eq]
    exact length_editRecord (length_slice _ _ _)
  apply System.run_trans (run_shows idle inside record_eq)
  apply System.run_trans (run_edits (points_move _ _ _) work_eq different)
  apply System.run_trans
  · exact run_compares (points_move _ _ _) granted inside record_eq
  · apply Eq.trans
    · exact run_saves (points_move _ _ _) inside length_eq record_eq
    · simp [State.move]

end Undisturbed

end Osis.Lab07
