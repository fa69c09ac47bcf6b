import Osis.Lab07.Undisturbed

/-!
# No lost update

A `PUT` reads its record first without a lock, edits it, and reads it again under
a write lock before it writes. While a process holds a lock on a record, nobody
else writes there, so what it reads under the lock is what the finished writes
have left; and a write that goes ahead replaces exactly the bytes that were shown
to the user.

The invariant compares the file with the finished writes applied to the original
file one after another. They differ at most in the bytes that a write in progress
has already stored.
-/

namespace Osis.Lab07

open Concurrency Memory Posix

universe u

variable {Process : Type u}

/-- The finished writes applied to the original file. -/
def committed (original : File) (commits : List (Commit Process)) : ℕ → UInt8 :=
  commits.foldl (fun bytes commit => write bytes (recordStart commit.recNo) commit.work)
    original.bytes

/-- The record a process holds a lock on, and whether it may write there. -/
def Point.held : Point → Option (ℕ × Bool)
  | .getRead recNo _ | .getPrint recNo _ | .getUnlock recNo => some (recNo, false)
  | .putReread recNo _ _ _ | .putCompare recNo _ _ _ | .putWrite recNo _ _ | .putUnlock recNo
  | .putConflict recNo => some (recNo, true)
  | _ => none

/-- The lock a process holds. -/
def Point.lock (process : Process) (point : Point) : Option (RecordLock Process) :=
  point.held.map fun (recNo, exclusive) => recordLock process recNo exclusive

/-- An address within a record. -/
def InRecord (recNo address : ℕ) : Prop :=
  recordStart recNo ≤ address ∧ address < recordStart recNo + recordSize

/-- An address within the record that a process has locked. -/
def Point.Guards (point : Point) (address : ℕ) : Prop :=
  ∃ recNo exclusive, point.held = some (recNo, exclusive) ∧ InRecord recNo address

/-- An address that the write in progress of a process has already stored to. -/
def Point.Stored : Point → ℕ → Prop
  | .putWrite recNo _ overwritten, address =>
      recordStart recNo ≤ address ∧ address < recordStart recNo + overwritten.length
  | _, _ => False

/-- What a process knows of the finished writes, of the file and of what it has shown. -/
def Facts (original : File) (final bytes : ℕ → UInt8) (shown : List UInt8) : Point → Prop
  | .getRead recNo got =>
      got.length ≤ recordSize ∧ got = slice final (recordStart recNo) got.length
  | .getPrint recNo r => r = slice final (recordStart recNo) recordSize
  | .putRead recNo got => got = [] ∨ recordStart recNo + got.length ≤ original.length
  | .putEdit recNo orig =>
      recordStart recNo + recordSize ≤ original.length ∧ orig.length = recordSize ∧ shown = orig
  | .putLock recNo orig work =>
      recordStart recNo + recordSize ≤ original.length ∧ shown = orig ∧ work.length = recordSize
  | .putReread recNo orig work got =>
      recordStart recNo + recordSize ≤ original.length ∧ shown = orig ∧
        work.length = recordSize ∧ got.length ≤ recordSize ∧
        got = slice final (recordStart recNo) got.length
  | .putCompare recNo orig work fresh =>
      recordStart recNo + recordSize ≤ original.length ∧ shown = orig ∧
        work.length = recordSize ∧ fresh = slice final (recordStart recNo) recordSize
  | .putWrite recNo work overwritten =>
      recordStart recNo + recordSize ≤ original.length ∧ work.length = recordSize ∧
        shown = slice final (recordStart recNo) recordSize ∧ overwritten.length ≤ recordSize ∧
        overwritten = slice final (recordStart recNo) overwritten.length ∧
        slice bytes (recordStart recNo) overwritten.length = work.take overwritten.length
  | .initOpen | .initWrite _ _ => False
  | _ => True

/-- Records of different numbers do not overlap. -/
theorem recNo_eq_of_inRecord {recNo other address : ℕ} (first : InRecord recNo address)
    (second : InRecord other address) : recNo = other := by
  simp only [InRecord, recordStart, recordSize] at first second
  omega

theorem slice_eq_of_inRecord {bytes other : ℕ → UInt8} {recNo length : ℕ}
    (same : ∀ address, InRecord recNo address → other address = bytes address)
    (inside : length ≤ recordSize) :
    slice other (recordStart recNo) length = slice bytes (recordStart recNo) length :=
  slice_congr fun offset offset_lt => same _ ⟨by omega, by omega⟩

/-- What a process knows depends on the record it has locked only. -/
theorem Facts.frame {original : File} {final final' bytes bytes' : ℕ → UInt8}
    {shown : List UInt8} {point : Point} (facts : Facts original final bytes shown point)
    (sameFinal : ∀ address, point.Guards address → final' address = final address)
    (sameBytes : ∀ address, point.Guards address → bytes' address = bytes address) :
    Facts original final' bytes' shown point := by
  cases point with
  | idle | getLock | getUnlock | putRead | putEdit | putLock | putUnlock | putConflict | putAsk
  | initOpen | initWrite => exact facts
  | getRead recNo got =>
      rcases facts with ⟨length_le, got_eq⟩
      refine ⟨length_le, ?_⟩
      rw [slice_eq_of_inRecord (fun address inside => sameFinal address ⟨_, _, rfl, inside⟩)
        length_le]
      exact got_eq
  | getPrint recNo r =>
      simp only [Facts] at facts ⊢
      rw [slice_eq_of_inRecord (fun address inside => sameFinal address ⟨_, _, rfl, inside⟩)
        (Nat.le_refl _)]
      exact facts
  | putReread recNo orig work got =>
      rcases facts with ⟨inside, shown_eq, work_length, length_le, got_eq⟩
      refine ⟨inside, shown_eq, work_length, length_le, ?_⟩
      rw [slice_eq_of_inRecord (fun address inside => sameFinal address ⟨_, _, rfl, inside⟩)
        length_le]
      exact got_eq
  | putCompare recNo orig work fresh =>
      rcases facts with ⟨inside, shown_eq, work_length, fresh_eq⟩
      refine ⟨inside, shown_eq, work_length, ?_⟩
      rw [slice_eq_of_inRecord (fun address inside => sameFinal address ⟨_, _, rfl, inside⟩)
        (Nat.le_refl _)]
      exact fresh_eq
  | putWrite recNo work overwritten =>
      rcases facts with ⟨inside, work_length, shown_eq, length_le, overwritten_eq, stored⟩
      refine ⟨inside, work_length, ?_, length_le, ?_, ?_⟩
      · rw [slice_eq_of_inRecord (fun address inside => sameFinal address ⟨_, _, rfl, inside⟩)
          (Nat.le_refl _)]
        exact shown_eq
      · rw [slice_eq_of_inRecord (fun address inside => sameFinal address ⟨_, _, rfl, inside⟩)
          length_le]
        exact overwritten_eq
      · rw [slice_eq_of_inRecord (fun address inside => sameBytes address ⟨_, _, rfl, inside⟩)
          length_le]
        exact stored

/-- The invariant of all runs without `INIT`. -/
structure Consistent (original : File) (state : State Process) : Prop where
  table : LockTable state.shared.locks fun process => (state.points process).lock process
  length_eq : state.shared.file.length = original.length
  facts : ∀ process, Facts original (committed original state.shared.commits)
    state.shared.file.bytes (state.shared.shown process) (state.points process)
  current : ∀ address, (∀ process, ¬(state.points process).Stored address) →
    state.shared.file.bytes address = committed original state.shared.commits address
  overwritten : ∀ commit ∈ state.shared.commits, commit.overwritten = commit.shown ∧
    commit.work.length = recordSize
  printed : ∀ entry ∈ state.shared.printed, ∃ earlier, earlier <+: state.shared.commits ∧
    entry.2 = slice (committed original earlier) (recordStart entry.1) recordSize

section Read

variable {file : File} {recNo : ℕ} {got : List UInt8}

/-- A byte is read inside the record and inside the file. -/
theorem readStep_byte {byte : UInt8} (more : file.readStep recNo got = .byte byte) :
    got.length ≠ recordSize ∧ recordStart recNo + got.length < file.length ∧
      file.bytes (recordStart recNo + got.length) = byte := by
  unfold File.readStep at more
  split at more
  · cases more
  · next incomplete =>
      split at more
      · next inside => exact ⟨incomplete, inside, ReadStep.byte.inj more⟩
      · cases more

theorem length_of_complete (complete : file.readStep recNo got = .complete) :
    got.length = recordSize := by
  unfold File.readStep at complete
  split at complete
  · next length_eq => exact length_eq
  · split at complete <;> cases complete

end Read

section Step

variable {original : File} {state : State Process} {process other : Process}
  {shared : Shared Process} {point : Point} {recNo address : ℕ}

theorem lock_of_held {exclusive : Bool} (held : point.held = some (recNo, exclusive)) :
    point.lock process = some (recordLock process recNo exclusive) := by
  simp [Point.lock, held]

/-- A process that may write a record is the only one to guard it. -/
theorem Consistent.eq_of_guards (consistent : Consistent original state)
    (held : (state.points process).held = some (recNo, true)) (inside : InRecord recNo address)
    (guards : (state.points other).Guards address) : other = process := by
  rcases guards with ⟨recNo', exclusive, held', inside'⟩
  rcases recNo_eq_of_inRecord inside inside'
  have own : (state.points process).lock process = some (recordLock process recNo true) :=
    lock_of_held held
  have others : (state.points other).lock other = some (recordLock other recNo exclusive) :=
    lock_of_held held'
  have overlap : recordStart recNo < recordStart recNo + recordSize := by simp [recordSize]
  have same := consistent.table.exclusive (recordLock process recNo true)
    (recordLock other recNo exclusive) own others rfl overlap overlap
  exact same.symm

/-- Bytes are stored under a write lock on their record. -/
theorem Consistent.held_of_stored (consistent : Consistent original state)
    (stored : (state.points process).Stored address) :
    ∃ recNo, (state.points process).held = some (recNo, true) ∧ InRecord recNo address := by
  have facts := consistent.facts process
  cases at_point : state.points process with
  | putWrite recNo work overwritten =>
      rw [at_point] at facts stored
      rcases facts with ⟨-, -, -, length_le, -, -⟩
      exact ⟨recNo, rfl, stored.1, by have := stored.2; omega⟩
  | _ => simp [at_point, Point.Stored] at stored

/-- Under a lock the file holds what the finished writes have left. -/
theorem Consistent.bytes_eq (consistent : Consistent original state)
    (guards : (state.points process).Guards address)
    (untouched : ¬(state.points process).Stored address) :
    state.shared.file.bytes address = committed original state.shared.commits address := by
  apply consistent.current
  intro other stored
  rcases consistent.held_of_stored stored with ⟨recNo, held, inside⟩
  have same : process = other := consistent.eq_of_guards held inside guards
  exact untouched (same ▸ stored)

variable [DecidableEq Process]

theorem lock_update (points : Process → Point) (process : Process) (point : Point) :
    (fun other => (Function.update points process point other).lock other) =
      Function.update (fun other => (points other).lock other) process (point.lock process) := by
  funext other
  by_cases same : other = process
  · subst same
    simp
  · simp [same]

/-- A step that neither writes nor finishes a write. -/
theorem Consistent.quiet (consistent : Consistent original state)
    (file_eq : shared.file = state.shared.file) (commits_eq : shared.commits = state.shared.commits)
    (table : LockTable shared.locks (Function.update
      (fun other => (state.points other).lock other) process (point.lock process)))
    (shown_eq : ∀ other, other ≠ process → shared.shown other = state.shared.shown other)
    (facts : Facts original (committed original state.shared.commits) state.shared.file.bytes
      (shared.shown process) point)
    (nothing : ∀ address, ¬(state.points process).Stored address)
    (printed : ∀ entry ∈ shared.printed, ∃ earlier, earlier <+: state.shared.commits ∧
      entry.2 = slice (committed original earlier) (recordStart entry.1) recordSize) :
    Consistent original ⟨shared, Function.update state.points process point⟩ := by
  constructor
  · rw [lock_update]
    exact table
  · rw [file_eq]
    exact consistent.length_eq
  · intro other
    rw [commits_eq, file_eq]
    by_cases same : other = process
    · subst same
      simpa using facts
    · simpa [shown_eq other same, same] using consistent.facts other
  · intro address untouched
    rw [commits_eq, file_eq]
    apply consistent.current
    intro other
    by_cases same : other = process
    · subst same
      exact nothing address
    · simpa [same] using untouched other
  · rw [commits_eq]
    exact consistent.overwritten
  · rw [commits_eq]
    exact printed

/-- A step that changes nothing but the point of a process. -/
theorem Consistent.stay (consistent : Consistent original state)
    (held_eq : point.held = (state.points process).held)
    (facts : Facts original (committed original state.shared.commits) state.shared.file.bytes
      (state.shared.shown process) point)
    (nothing : ∀ address, ¬(state.points process).Stored address) :
    Consistent original (state.move process point) := by
  have lock_eq : point.lock process = (state.points process).lock process := by
    simp only [Point.lock, held_eq]
  refine consistent.quiet rfl rfl ?_ (fun _ _ => rfl) facts nothing consistent.printed
  rw [lock_eq, Function.update_eq_self]
  exact consistent.table

/-- A lock is granted to a process that holds none. -/
theorem Consistent.lockRecord {exclusive : Bool} {target : Point}
    (consistent : Consistent original state)
    (taken : state.shared.lockRecord process recNo exclusive target = some (shared, point))
    (idle : (state.points process).held = none) (held : target.held = some (recNo, exclusive))
    (facts : Facts original (committed original state.shared.commits) state.shared.file.bytes
      (state.shared.shown process) target)
    (nothing : ∀ address, ¬(state.points process).Stored address) :
    Consistent original ⟨shared, Function.update state.points process point⟩ := by
  simp only [Shared.lockRecord, Option.map_eq_some_iff, Prod.mk.injEq] at taken
  rcases taken with ⟨locks, granted, rfl, rfl⟩
  have unlocked : (state.points process).lock process = none := by simp [Point.lock, idle]
  have table := consistent.table.setLock unlocked granted
  rw [← lock_of_held held] at table
  exact consistent.quiet rfl rfl table (fun _ _ => rfl) facts nothing consistent.printed

/-- A process gives up the lock it holds. -/
theorem Consistent.unlockRecord {exclusive : Bool} {target : Point}
    (consistent : Consistent original state)
    (taken : state.shared.unlockRecord process recNo target = some (shared, point))
    (held : (state.points process).held = some (recNo, exclusive)) (idle : target.held = none)
    (facts : Facts original (committed original state.shared.commits) state.shared.file.bytes
      (state.shared.shown process) target)
    (nothing : ∀ address, ¬(state.points process).Stored address) :
    Consistent original ⟨shared, Function.update state.points process point⟩ := by
  simp only [Shared.unlockRecord, Option.some.injEq, Prod.mk.injEq] at taken
  rcases taken with ⟨rfl, rfl⟩
  have own : (state.points process).lock process = some (recordLock process recNo exclusive) :=
    lock_of_held held
  have unlocked : target.lock process = none := by simp [Point.lock, idle]
  have table := consistent.table.unlock own
  rw [← unlocked] at table
  exact consistent.quiet rfl rfl table (fun _ _ => rfl) facts nothing consistent.printed

omit [DecidableEq Process] in
/-- The next byte read under a lock is the one the finished writes have left. -/
theorem Consistent.read {got : List UInt8} {byte : UInt8} {exclusive : Bool}
    (consistent : Consistent original state)
    (held : (state.points process).held = some (recNo, exclusive))
    (nothing : ∀ address, ¬(state.points process).Stored address)
    (length_le : got.length ≤ recordSize)
    (got_eq : got = slice (committed original state.shared.commits) (recordStart recNo) got.length)
    (more : state.shared.file.readStep recNo got = .byte byte) :
    (got ++ [byte]).length ≤ recordSize ∧ got ++ [byte] =
      slice (committed original state.shared.commits) (recordStart recNo)
        (got ++ [byte]).length := by
  rcases readStep_byte more with ⟨incomplete, -, byte_read⟩
  have inside : InRecord recNo (recordStart recNo + got.length) := ⟨by omega, by omega⟩
  have byte_eq := consistent.bytes_eq ⟨recNo, exclusive, held, inside⟩ (nothing _)
  simp only [List.length_append, List.length_singleton]
  refine ⟨by omega, ?_⟩
  rw [slice_add, ← got_eq, ← byte_read, byte_eq]
  simp [slice]

/-- Within the file a write changes one byte. -/
theorem bytes_writeByte {file : File} {position : ℕ} (byte : UInt8)
    (inside : position < file.length) :
    (file.writeByte position byte).bytes = Function.update file.bytes position byte ∧
      (file.writeByte position byte).length = file.length := by
  rw [writeByte_eq byte inside]
  exact ⟨rfl, rfl⟩

/-- A byte of a write in progress replaces a byte that the finished writes have left. -/
theorem Consistent.writeByte {work overwritten : List UInt8} {byte : UInt8}
    (consistent : Consistent original state)
    (at_point : state.points process = .putWrite recNo work overwritten)
    (more : work[overwritten.length]? = some byte) :
    Consistent original
      ⟨{ state.shared with
        file := state.shared.file.writeByte (recordStart recNo + overwritten.length) byte },
        Function.update state.points process (.putWrite recNo work (overwritten ++
          [state.shared.file.bytes (recordStart recNo + overwritten.length)]))⟩ := by
  have held : (state.points process).held = some (recNo, true) := by rw [at_point]; rfl
  have facts := consistent.facts process
  rw [at_point] at facts
  rcases facts with ⟨inside, work_length, shown_eq, length_le, overwritten_eq, stored⟩
  have below : overwritten.length < recordSize := by
    rw [← work_length]
    exact (List.getElem?_eq_some_iff.mp more).1
  have inRecord : InRecord recNo (recordStart recNo + overwritten.length) :=
    ⟨by omega, by omega⟩
  have old_eq := consistent.bytes_eq ⟨recNo, true, held, inRecord⟩ (by
    rw [at_point]
    intro own
    have := own.2
    omega)
  have inFile : recordStart recNo + overwritten.length < state.shared.file.length := by
    have := consistent.length_eq
    omega
  have file_eq := bytes_writeByte byte inFile
  constructor
  · rw [lock_update]
    have lock_eq : (Point.putWrite recNo work (overwritten ++
        [state.shared.file.bytes (recordStart recNo + overwritten.length)])).lock process =
          (state.points process).lock process := by
      rw [at_point]
      rfl
    rw [lock_eq, Function.update_eq_self]
    exact consistent.table
  · rw [← consistent.length_eq]
    exact file_eq.2
  · intro other
    simp only [file_eq.1]
    by_cases same : other = process
    · subst same
      simp only [Function.update_self]
      refine ⟨inside, work_length, shown_eq, ?_, ?_, ?_⟩
      · simp only [List.length_append, List.length_singleton]
        omega
      · simp only [List.length_append, List.length_singleton]
        rw [slice_add, ← overwritten_eq, old_eq]
        simp [slice]
      · simp only [List.length_append, List.length_singleton]
        rw [slice_add, List.take_add_one, more]
        have before : slice (Function.update state.shared.file.bytes
            (recordStart recNo + overwritten.length) byte) (recordStart recNo)
              overwritten.length =
            slice state.shared.file.bytes (recordStart recNo) overwritten.length :=
          slice_congr fun offset offset_lt => Function.update_of_ne (by omega) _ _
        rw [before, stored]
        simp [slice]
    · simp only [Function.update_of_ne same]
      refine (consistent.facts other).frame (fun _ _ => rfl) fun address guards => ?_
      apply Function.update_of_ne
      rintro rfl
      exact same (consistent.eq_of_guards held inRecord guards)
  · intro address untouched
    have elsewhere : address ≠ recordStart recNo + overwritten.length := by
      rintro rfl
      have own := untouched process
      simp only [Function.update_self, Point.Stored, List.length_append,
        List.length_singleton] at own
      omega
    simp only [file_eq.1, Function.update_of_ne elsewhere]
    apply consistent.current
    intro other
    by_cases same : other = process
    · subst same
      have own := untouched other
      simp only [Function.update_self, Point.Stored, List.length_append,
        List.length_singleton] at own
      rw [at_point]
      simp only [Point.Stored]
      omega
    · simpa [same] using untouched other
  · exact consistent.overwritten
  · exact consistent.printed

/-- A finished write has replaced the bytes that were shown, and its record is the new one. -/
theorem Consistent.commit {work overwritten : List UInt8} (consistent : Consistent original state)
    (at_point : state.points process = .putWrite recNo work overwritten)
    (done : work[overwritten.length]? = none) :
    Consistent original
      ⟨{ state.shared with
        commits := state.shared.commits ++
          [⟨process, recNo, state.shared.shown process, overwritten, work⟩] },
        Function.update state.points process (.putUnlock recNo)⟩ := by
  have held : (state.points process).held = some (recNo, true) := by rw [at_point]; rfl
  have facts := consistent.facts process
  rw [at_point] at facts
  rcases facts with ⟨inside, work_length, shown_eq, length_le, overwritten_eq, stored⟩
  have length_eq : overwritten.length = recordSize := by
    have := List.getElem?_eq_none_iff.mp done
    omega
  have committed_eq : committed original (state.shared.commits ++
      [⟨process, recNo, state.shared.shown process, overwritten, work⟩]) =
        write (committed original state.shared.commits) (recordStart recNo) work := by
    simp [committed, List.foldl_append]
  have outside : ∀ address, ¬InRecord recNo address →
      write (committed original state.shared.commits) (recordStart recNo) work address =
        committed original state.shared.commits address := by
    intro address outside
    apply write_outside
    simp only [InRecord] at outside
    omega
  constructor
  · rw [lock_update]
    have lock_eq : (Point.putUnlock recNo).lock process = (state.points process).lock process := by
      rw [at_point]
      rfl
    rw [lock_eq, Function.update_eq_self]
    exact consistent.table
  · exact consistent.length_eq
  · intro other
    simp only [committed_eq]
    by_cases same : other = process
    · subst same
      simp [Facts]
    · simp only [Function.update_of_ne same]
      refine (consistent.facts other).frame (fun address guards => ?_) fun _ _ => rfl
      apply outside
      intro inRecord
      exact same (consistent.eq_of_guards held inRecord guards)
  · intro address untouched
    simp only [committed_eq]
    by_cases inRecord : InRecord recNo address
    · -- the write has stored the whole record
      rw [length_eq, List.take_of_length_le work_length.le] at stored
      have offset : address = recordStart recNo + (address - recordStart recNo) := by
        have := inRecord.1
        omega
      have offset_lt : address - recordStart recNo < work.length := by
        have := inRecord.2
        omega
      rw [offset, write_inside offset_lt]
      have byte_eq := congrArg (fun bytes => bytes[address - recordStart recNo]?) stored
      simp only [getElem?_slice (show address - recordStart recNo < recordSize by omega),
        List.getElem?_eq_getElem offset_lt, Option.some.injEq] at byte_eq
      exact byte_eq
    · rw [outside address inRecord]
      apply consistent.current
      intro other
      by_cases same : other = process
      · subst same
        rw [at_point]
        simp only [Point.Stored, InRecord] at inRecord ⊢
        omega
      · simpa [same] using untouched other
  · intro commit commit_mem
    rcases List.mem_append.mp commit_mem with old | new
    · exact consistent.overwritten commit old
    · rw [List.mem_singleton.mp new]
      refine ⟨?_, work_length⟩
      rw [shown_eq, overwritten_eq, length_eq]
  · intro entry entry_mem
    rcases consistent.printed entry entry_mem with ⟨earlier, earlier_prefix, entry_eq⟩
    exact ⟨earlier, earlier_prefix.trans (List.prefix_append _ _), entry_eq⟩

theorem Consistent.cmdGet (consistent : Consistent original state)
    (taken : cmdGet state.shared process (state.points process) = some (shared, point)) :
    Consistent original ⟨shared, Function.update state.points process point⟩ := by
  have facts := consistent.facts process
  cases at_point : state.points process with
  | getLock recNo =>
      rw [at_point] at taken
      have nothing : ∀ address, ¬(state.points process).Stored address := by
        simp [at_point, Point.Stored]
      have free : (state.points process).held = none := by rw [at_point]; rfl
      exact consistent.lockRecord taken free rfl ⟨Nat.zero_le _, rfl⟩ nothing
  | getRead recNo got =>
      rw [at_point] at taken facts
      rcases facts with ⟨length_le, got_eq⟩
      have held : (state.points process).held = some (recNo, false) := by rw [at_point]; rfl
      have nothing : ∀ address, ¬(state.points process).Stored address := by
        simp [at_point, Point.Stored]
      simp only [Lab07.cmdGet] at taken
      split at taken
      · next byte more =>
          simp only [Option.some.injEq, Prod.mk.injEq] at taken
          rcases taken with ⟨rfl, rfl⟩
          exact consistent.stay held.symm
            (consistent.read held nothing length_le got_eq more) nothing
      · next complete =>
          simp only [Option.some.injEq, Prod.mk.injEq] at taken
          rcases taken with ⟨rfl, rfl⟩
          rw [length_of_complete complete] at got_eq
          exact consistent.stay held.symm got_eq nothing
      · simp only [Option.some.injEq, Prod.mk.injEq] at taken
        rcases taken with ⟨rfl, rfl⟩
        exact consistent.stay held.symm trivial nothing
  | getPrint recNo r =>
      rw [at_point] at taken facts
      have held : (state.points process).held = some (recNo, false) := by rw [at_point]; rfl
      simp only [Lab07.cmdGet, Option.some.injEq, Prod.mk.injEq] at taken
      rcases taken with ⟨rfl, rfl⟩
      refine consistent.quiet rfl rfl ?_ (fun _ _ => rfl) trivial
        (by simp [at_point, Point.Stored]) fun entry entry_mem => ?_
      · have lock_eq : (Point.getUnlock recNo).lock process =
            (state.points process).lock process := by rw [at_point]; rfl
        rw [lock_eq, Function.update_eq_self]
        exact consistent.table
      · rcases List.mem_append.mp entry_mem with old | new
        · exact consistent.printed entry old
        · rw [List.mem_singleton.mp new]
          exact ⟨_, List.prefix_refl _, facts⟩
  | getUnlock recNo =>
      rw [at_point] at taken
      have held : (state.points process).held = some (recNo, false) := by rw [at_point]; rfl
      exact consistent.unlockRecord taken held rfl trivial (by simp [at_point, Point.Stored])
  | _ => simp [at_point, Lab07.cmdGet] at taken

theorem Consistent.cmdPut (consistent : Consistent original state)
    (taken : cmdPut state.shared process (state.points process) = some (shared, point)) :
    Consistent original ⟨shared, Function.update state.points process point⟩ := by
  have facts := consistent.facts process
  cases at_point : state.points process with
  | putRead recNo got =>
      rw [at_point] at taken facts
      have nothing : ∀ address, ¬(state.points process).Stored address := by
        simp [at_point, Point.Stored]
      have held : (state.points process).held = none := by rw [at_point]; rfl
      simp only [Lab07.cmdPut] at taken
      split at taken
      · next byte more =>
          simp only [Option.some.injEq, Prod.mk.injEq] at taken
          rcases taken with ⟨rfl, rfl⟩
          refine consistent.stay held.symm (Or.inr ?_) nothing
          have length_eq := consistent.length_eq
          have inside := (readStep_byte more).2.1
          simp only [List.length_append, List.length_singleton]
          omega
      · next complete =>
          simp only [Option.some.injEq, Prod.mk.injEq] at taken
          rcases taken with ⟨rfl, rfl⟩
          have length_eq := length_of_complete complete
          refine consistent.quiet rfl rfl ?_ (fun other different => ?_) ⟨?_, length_eq, ?_⟩
            nothing consistent.printed
          · have lock_eq : (Point.putEdit recNo got).lock process =
                (state.points process).lock process := by rw [at_point]; rfl
            rw [lock_eq, Function.update_eq_self]
            exact consistent.table
          · exact Function.update_of_ne different _ _
          · rcases facts with rfl | inside
            · simp [recordSize] at length_eq
            · rwa [← length_eq]
          · exact Function.update_self _ _ _
      · simp only [Option.some.injEq, Prod.mk.injEq] at taken
        rcases taken with ⟨rfl, rfl⟩
        exact consistent.stay held.symm trivial nothing
  | putLock recNo orig work =>
      rw [at_point] at taken facts
      rcases facts with ⟨inside, shown_eq, work_length⟩
      have free : (state.points process).held = none := by rw [at_point]; rfl
      exact consistent.lockRecord taken free rfl
        ⟨inside, shown_eq, work_length, Nat.zero_le _, rfl⟩ (by simp [at_point, Point.Stored])
  | putReread recNo orig work got =>
      rw [at_point] at taken facts
      rcases facts with ⟨inside, shown_eq, work_length, length_le, got_eq⟩
      have held : (state.points process).held = some (recNo, true) := by rw [at_point]; rfl
      have nothing : ∀ address, ¬(state.points process).Stored address := by
        simp [at_point, Point.Stored]
      simp only [Lab07.cmdPut] at taken
      split at taken
      · next byte more =>
          simp only [Option.some.injEq, Prod.mk.injEq] at taken
          rcases taken with ⟨rfl, rfl⟩
          exact consistent.stay held.symm ⟨inside, shown_eq, work_length,
            consistent.read held nothing length_le got_eq more⟩ nothing
      · next complete =>
          simp only [Option.some.injEq, Prod.mk.injEq] at taken
          rcases taken with ⟨rfl, rfl⟩
          rw [length_of_complete complete] at got_eq
          exact consistent.stay held.symm ⟨inside, shown_eq, work_length, got_eq⟩ nothing
      · simp only [Option.some.injEq, Prod.mk.injEq] at taken
        rcases taken with ⟨rfl, rfl⟩
        exact consistent.stay held.symm trivial nothing
  | putCompare recNo orig work fresh =>
      rw [at_point] at taken facts
      rcases facts with ⟨inside, shown_eq, work_length, fresh_eq⟩
      have held : (state.points process).held = some (recNo, true) := by rw [at_point]; rfl
      have nothing : ∀ address, ¬(state.points process).Stored address := by
        simp [at_point, Point.Stored]
      simp only [Lab07.cmdPut] at taken
      split at taken
      · next unchanged =>
          simp only [Option.some.injEq, Prod.mk.injEq] at taken
          rcases taken with ⟨rfl, rfl⟩
          exact consistent.stay held.symm ⟨inside, work_length,
            shown_eq.trans (unchanged.trans fresh_eq), Nat.zero_le _, rfl, rfl⟩ nothing
      · simp only [Option.some.injEq, Prod.mk.injEq] at taken
        rcases taken with ⟨rfl, rfl⟩
        exact consistent.stay held.symm trivial nothing
  | putWrite recNo work overwritten =>
      rw [at_point] at taken
      simp only [Lab07.cmdPut] at taken
      split at taken
      · next byte more =>
          simp only [Option.some.injEq, Prod.mk.injEq] at taken
          rcases taken with ⟨rfl, rfl⟩
          exact consistent.writeByte at_point more
      · next done =>
          simp only [Option.some.injEq, Prod.mk.injEq] at taken
          rcases taken with ⟨rfl, rfl⟩
          exact consistent.commit at_point done
  | putUnlock recNo =>
      rw [at_point] at taken
      have held : (state.points process).held = some (recNo, true) := by rw [at_point]; rfl
      exact consistent.unlockRecord taken held rfl trivial (by simp [at_point, Point.Stored])
  | putConflict recNo =>
      rw [at_point] at taken
      have held : (state.points process).held = some (recNo, true) := by rw [at_point]; rfl
      exact consistent.unlockRecord taken held rfl trivial (by simp [at_point, Point.Stored])
  | _ => simp [at_point, Lab07.cmdPut] at taken

/-- Only `INIT` breaks the invariant. -/
theorem Consistent.next {successor : State Process} {action : Action Process}
    (consistent : Consistent original state) (permitted : ∀ process, action ≠ .init process)
    (taken : next state action = some successor) : Consistent original successor := by
  cases action with
  | get process recNo =>
      simp only [Lab07.next] at taken
      split at taken
      · next idle =>
          simp only [Option.some.injEq] at taken
          subst taken
          exact consistent.stay (by rw [idle]; rfl) trivial (by simp [idle, Point.Stored])
      · simp at taken
  | put process recNo =>
      simp only [Lab07.next] at taken
      split at taken
      · next idle =>
          simp only [Option.some.injEq] at taken
          subst taken
          exact consistent.stay (by rw [idle]; rfl) (Or.inl rfl) (by simp [idle, Point.Stored])
      · simp at taken
  | init process => exact absurd rfl (permitted process)
  | step process =>
      simp only [Lab07.next, Option.map_eq_some_iff, Prod.exists] at taken
      rcases taken with ⟨shared, point, advanced, rfl⟩
      have facts := consistent.facts process
      unfold advance at advanced
      split at advanced
      · exact consistent.cmdGet advanced
      · exact consistent.cmdGet advanced
      · exact consistent.cmdGet advanced
      · exact consistent.cmdGet advanced
      · next at_point => simp [at_point, Facts] at facts
      · next at_point => simp [at_point, Facts] at facts
      · exact consistent.cmdPut advanced
  | edit process buf stdin =>
      simp only [Lab07.next] at taken
      split at taken
      · next recNo orig editing =>
          have facts := consistent.facts process
          rw [editing] at facts
          rcases facts with ⟨inside, orig_length, shown_eq⟩
          simp only [Option.some.injEq] at taken
          subst taken
          have nothing : ∀ address, ¬(state.points process).Stored address := by
            simp [editing, Point.Stored]
          split
          · exact consistent.stay (by rw [editing]; rfl) trivial nothing
          · exact consistent.stay (by rw [editing]; rfl)
              ⟨inside, shown_eq, length_editRecord orig_length⟩ nothing
      · simp at taken
  | answer process c =>
      simp only [Lab07.next] at taken
      split at taken
      · next recNo asking =>
          simp only [Option.some.injEq] at taken
          subst taken
          have nothing : ∀ address, ¬(state.points process).Stored address := by
            simp [asking, Point.Stored]
          split
          · exact consistent.stay (by rw [asking]; rfl) trivial nothing
          · exact consistent.stay (by rw [asking]; rfl) (Or.inl rfl) nothing
      · simp at taken

end Step

section Runs

variable [DecidableEq Process] {original : File} {state : State Process}

omit [DecidableEq Process] in
theorem consistent_init (original : File) :
    Consistent original (init original : State Process) where
  table := ⟨fun lock => by simp [init, Point.lock, Point.held], by simp [init]⟩
  length_eq := rfl
  facts := fun _ => trivial
  current := fun _ _ => rfl
  overwritten := by simp [init]
  printed := by simp [init]

theorem consistent_of_reachable
    (reached : (system Process original).ReachableUnder
      (fun _ action => ∀ process, action ≠ .init process) state) :
    Consistent original state := by
  apply reached.invariant
  · rintro _ rfl
    exact consistent_init original
  · intro state action successor consistent permitted taken
    exact consistent.next permitted taken

/-- No update of the record file is lost. -/
structure NoLostUpdate (original : File) (state : State Process) : Prop where
  /-- A finished write has replaced what its process last showed to its user. -/
  overwritten_eq : ∀ commit ∈ state.shared.commits, commit.overwritten = commit.shown
  /-- So does a write in progress as far as it has come. -/
  overwriting : ∀ process recNo work overwritten,
    state.points process = .putWrite recNo work overwritten →
      overwritten <+: state.shared.shown process
  /-- Between writes the file is the result of the finished ones, one after another. -/
  final : (∀ process address, ¬(state.points process).Stored address) →
    state.shared.file.bytes = committed original state.shared.commits
  /-- Bytes outside the written records are unchanged. -/
  untouched : ∀ address, (∀ process, ¬(state.points process).Stored address) →
    (∀ commit ∈ state.shared.commits, ¬InRecord commit.recNo address) →
      state.shared.file.bytes address = original.bytes address
  length_eq : state.shared.file.length = original.length
  /-- `GET` prints what some of the finished writes, taken from the first on, have left. -/
  printed : ∀ entry ∈ state.shared.printed, ∃ earlier, earlier <+: state.shared.commits ∧
    entry.2 = slice (committed original earlier) (recordStart entry.1) recordSize
  unlocked : ∀ process, state.points process = .idle →
    ∀ lock ∈ state.shared.locks, lock.owner ≠ process

omit [DecidableEq Process] in
/-- Finished writes change their own records only. -/
theorem committed_outside {address : ℕ} {commits : List (Commit Process)}
    (lengths : ∀ commit ∈ commits, commit.work.length = recordSize)
    (outside : ∀ commit ∈ commits, ¬InRecord commit.recNo address) :
    committed original commits address = original.bytes address := by
  induction commits using List.reverseRecOn with
  | nil => rfl
  | append_singleton commits commit ih =>
      have last_mem : commit ∈ commits ++ [commit] := by simp
      have last_outside := outside commit last_mem
      have last_length := lengths commit last_mem
      simp only [committed, List.foldl_append, List.foldl_cons, List.foldl_nil] at ih ⊢
      simp only [InRecord] at last_outside
      rw [write_outside (by omega)]
      exact ih (fun other other_mem => lengths other (List.mem_append_left _ other_mem))
        fun other other_mem => outside other (List.mem_append_left _ other_mem)

/-- Whatever the commands and their interleaving, no update is lost. -/
theorem noLostUpdate_of_reachable
    (reached : (system Process original).ReachableUnder
      (fun _ action => ∀ process, action ≠ .init process) state) :
    NoLostUpdate original state := by
  have consistent := consistent_of_reachable reached
  constructor
  · exact fun commit commit_mem => (consistent.overwritten commit commit_mem).1
  · intro process recNo work overwritten writing
    have facts := consistent.facts process
    rw [writing] at facts
    rcases facts with ⟨-, -, shown_eq, length_le, overwritten_eq, -⟩
    rw [shown_eq, overwritten_eq, show recordSize = overwritten.length +
      (recordSize - overwritten.length) by omega, slice_add, ← overwritten_eq]
    exact List.prefix_append _ _
  · intro nothing
    funext address
    exact consistent.current address fun process => nothing process address
  · intro address nothing outside
    rw [consistent.current address nothing]
    exact committed_outside (fun commit commit_mem => (consistent.overwritten commit commit_mem).2)
      outside
  · exact consistent.length_eq
  · exact consistent.printed
  · intro process idle
    apply consistent.table.not_mem_of_none
    simp [idle, Point.lock, Point.held]

end Runs

/-- A file of one record. -/
def oneRecord : File := ⟨fun _ => 1, recordSize⟩

/-- The record before. -/
def blank : List UInt8 := slice oneRecord.bytes (recordStart 0) recordSize

/-- The record with the name `B`. -/
def withB : List UInt8 := editRecord blank [] [66, newline]

/-- The record with the name `A` in place of `B`. -/
def withA : List UInt8 := editRecord withB [] [65, newline]

/-- The first process has shown the record when the second puts the name `B` there. It finds the
conflict, gives up, and puts the name `A` there in a second attempt. -/
def putBoth : List (Action Bool) :=
  showing false 0 ++ ((showing true 0 ++ ([.edit true [] [66, newline]] ++ (comparing true ++
    saving true))) ++ ([.edit false [] [65, newline]] ++ (comparing false ++ (givingUp false ++
      (showing false 0 ++ ([.edit false [] [65, newline]] ++ (comparing false ++
        saving false)))))))

theorem run_putBoth :
    ∃ state, (system Bool oneRecord).run (init oneRecord) putBoth = some state ∧
      state.shared.commits.map (fun commit => (commit.process, commit.overwritten, commit.work)) =
        [(true, blank, withB), (false, withB, withA)] := by
  have withB_length : withB.length = recordSize := length_editRecord (length_slice _ _ _)
  have inside : recordStart 0 + recordSize ≤ recordSize := Nat.le_of_eq (by decide)
  have toB : blank ≠ withB := by decide +kernel
  have toA : withB ≠ withA := by decide +kernel
  have other : blank ≠ editRecord blank [] [65, newline] := by decide +kernel
  have stored : slice (write oneRecord.bytes (recordStart 0) withB) (recordStart 0) recordSize =
      withB := slice_write withB_length
  apply Exists.intro
  constructor
  · apply System.run_trans (run_shows rfl inside rfl)
    apply System.run_trans (@run_put _ _ _ _ _ _ blank withB _ _ _ rfl inside rfl rfl toB rfl)
    apply System.run_trans (run_edits rfl rfl other)
    apply System.run_trans (run_compares rfl rfl inside stored)
    apply System.run_trans (run_givesUp rfl toB)
    exact run_put rfl inside stored rfl toA rfl
  · rfl

/-- Of two `PUT`s that overlap the one that comes too late is repeated. -/
theorem noLostUpdate_putBoth :
    ∃ state, (system Bool oneRecord).run (init oneRecord) putBoth = some state ∧
      state.shared.commits.map (fun commit => (commit.process, commit.overwritten, commit.work)) =
        [(true, blank, withB), (false, withB, withA)] ∧
      NoLostUpdate oneRecord state := by
  have permitted : ∀ action ∈ putBoth, ∀ (_ : State Bool) process, action ≠ .init process := by
    intro action action_mem _ process is_init
    subst is_init
    simp only [putBoth, showing, comparing, saving, givingUp, List.mem_append, List.mem_cons,
      List.mem_replicate, List.not_mem_nil, reduceCtorEq, and_false, or_self] at action_mem
  rcases run_putBoth with ⟨state, ran, commits_eq⟩
  exact ⟨state, ran, commits_eq, noLostUpdate_of_reachable
    (System.ReachableUnder.of_run (.start rfl) permitted ran)⟩

end Osis.Lab07
