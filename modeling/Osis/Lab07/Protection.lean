import Osis.Lab07.LostUpdate

/-!
# What record locks protect

`GET` and `PUT` change a record only under a write lock on it, and read what they rely
on under a lock. `init_file` truncates the file and writes all its records without
asking for any lock. So a lock keeps other processes away from its record as long as
`INIT` happens to spare it (`InitSpares`), and this is exactly when a step leaves the
records locked by others as they are (`recordsKept_next_iff`).
-/

namespace Osis.Lab07

open Concurrency Posix

universe u

variable {Process : Type u}

/-- The byte of a file at an address, `none` behind its end. -/
def File.content (file : File) (address : ℕ) : Option UInt8 :=
  if address < file.length then some (file.bytes address) else none

theorem content_writeByte (file : File) (position : ℕ) (byte : UInt8) (address : ℕ) :
    (file.writeByte position byte).content address =
      if address = position then some byte
      else if file.length ≤ address ∧ address < position then some 0
      else file.content address := by
  by_cases written : address = position
  · subst written
    have inside : address < max file.length (address + 1) := by omega
    simp [File.content, File.writeByte, inside]
  · by_cases gap : file.length ≤ address ∧ address < position
    · have inside : address < max file.length (position + 1) := by omega
      simp [File.content, File.writeByte, written, gap, inside]
    · have same : address < max file.length (position + 1) ↔ address < file.length := by omega
      simp only [File.content, File.writeByte, written, gap, same, if_false]

/-- The file holds these bytes from an address on. -/
def Known (file : File) (start : ℕ) (bytes : List UInt8) : Prop :=
  ∀ offset, offset < bytes.length → file.content (start + offset) = bytes[offset]?

/-- What a `PUT` has read or shown, and what it has found under its lock. -/
def Knows (file : File) (shown : List UInt8) : Point → Prop
  | .putEdit _ orig => shown = orig ∧ orig.length = recordSize
  | .putLock _ orig work => shown = orig ∧ work.length = recordSize
  | .putReread recNo orig work got =>
      shown = orig ∧ work.length = recordSize ∧ got.length ≤ recordSize ∧
        Known file (recordStart recNo) got
  | .putCompare recNo orig work fresh =>
      shown = orig ∧ work.length = recordSize ∧ fresh.length = recordSize ∧
        Known file (recordStart recNo) fresh
  | .putWrite recNo work overwritten =>
      work.length = recordSize ∧ shown.length = recordSize ∧ overwritten.length ≤ recordSize ∧
        overwritten = shown.take overwritten.length ∧
        Known file (recordStart recNo + overwritten.length) (shown.drop overwritten.length)
  | _ => True

theorem Known.frame {file file' : File} {recNo start : ℕ} {bytes : List UInt8}
    (known : Known file start bytes) (lower : recordStart recNo ≤ start)
    (upper : start + bytes.length ≤ recordStart recNo + recordSize)
    (same : ∀ address, InRecord recNo address → file'.content address = file.content address) :
    Known file' start bytes := by
  intro offset offset_lt
  rw [same (start + offset) ⟨by omega, by omega⟩]
  exact known offset offset_lt

/-- What a process knows depends on the record it has locked only. -/
theorem Knows.frame {file file' : File} {shown : List UInt8} {point : Point}
    (knows : Knows file shown point)
    (same : ∀ recNo exclusive, point.held = some (recNo, exclusive) → ∀ address,
      InRecord recNo address → file'.content address = file.content address) :
    Knows file' shown point := by
  cases point with
  | putReread recNo orig work got =>
      rcases knows with ⟨shown_eq, work_length, length_le, known⟩
      exact ⟨shown_eq, work_length, length_le,
        known.frame (Nat.le_refl _) (by omega) (same recNo true rfl)⟩
  | putCompare recNo orig work fresh =>
      rcases knows with ⟨shown_eq, work_length, length_eq, known⟩
      exact ⟨shown_eq, work_length, length_eq,
        known.frame (Nat.le_refl _) (by omega) (same recNo true rfl)⟩
  | putWrite recNo work overwritten =>
      rcases knows with ⟨work_length, shown_length, length_le, overwritten_eq, known⟩
      refine ⟨work_length, shown_length, length_le, overwritten_eq, ?_⟩
      apply known.frame (Nat.le_add_right _ _) _ (same recNo true rfl)
      rw [List.length_drop]
      omega
  | _ => exact knows

/-- The byte that `init_file` is about to store, with its address. -/
def Point.initByte : Point → Option (ℕ × UInt8)
  | .initWrite index written =>
      if index < recordCount then
        (initRecord index)[written]?.map fun byte => (recordStart index + written, byte)
      else none
  | _ => none

/-- A point from which `init_file` does not change the file. -/
def Point.Harmless (point : Point) : Prop :=
  point ≠ .initOpen ∧ point.initByte = none

/-- The byte a `PUT` is about to replace is the one it has shown. -/
theorem content_of_writing {file : File} {shown work overwritten : List UInt8} {recNo : ℕ}
    {byte : UInt8} (knows : Knows file shown (.putWrite recNo work overwritten))
    (more : work[overwritten.length]? = some byte) :
    file.content (recordStart recNo + overwritten.length) = shown[overwritten.length]? ∧
      overwritten.length < recordSize := by
  rcases knows with ⟨work_length, shown_length, length_le, overwritten_eq, known⟩
  have below := (List.getElem?_eq_some_iff.mp more).1
  refine ⟨?_, by omega⟩
  have first := known 0 (by rw [List.length_drop]; omega)
  simpa using first

section Steps

variable [DecidableEq Process]

/-- Everything a step of a process can do to the shared state. -/
inductive Outcome (shared : Shared Process) (process : Process) (point : Point) :
    Shared Process → Point → Prop where
  | quiet {point' : Point} {printed : List (ℕ × List UInt8)} (harmless : point.Harmless)
      (held_eq : point'.held = point.held)
      (knows : Knows shared.file (shared.shown process) point') :
      Outcome shared process point { shared with printed := printed } point'
  | shown {recNo : ℕ} {orig : List UInt8} (reading : point = .putRead recNo orig)
      (length_eq : orig.length = recordSize) :
      Outcome shared process point
        { shared with shown := Function.update shared.shown process orig } (.putEdit recNo orig)
  | lock {point' : Point} {recNo : ℕ} {exclusive : Bool} {locks : List (RecordLock Process)}
      (harmless : point.Harmless) (idle : point.held = none)
      (granted : RecordLock.setLock shared.locks (recordLock process recNo exclusive) = some locks)
      (held : point'.held = some (recNo, exclusive))
      (knows : Knows shared.file (shared.shown process) point') :
      Outcome shared process point { shared with locks := locks } point'
  | unlock {point' : Point} {recNo : ℕ} {exclusive : Bool}
      (held : point.held = some (recNo, exclusive)) (idle : point'.held = none)
      (knows : Knows shared.file (shared.shown process) point') :
      Outcome shared process point
        { shared with
          locks := RecordLock.unlock shared.locks process (recordStart recNo) recordSize } point'
  | write {recNo : ℕ} {work overwritten : List UInt8} {byte : UInt8}
      (writing : point = .putWrite recNo work overwritten)
      (more : work[overwritten.length]? = some byte) :
      Outcome shared process point
        { shared with
          file := shared.file.writeByte (recordStart recNo + overwritten.length) byte }
        (.putWrite recNo work (overwritten ++
          [shared.file.bytes (recordStart recNo + overwritten.length)]))
  | commit {recNo : ℕ} {work overwritten : List UInt8}
      (writing : point = .putWrite recNo work overwritten)
      (replaced : overwritten = shared.shown process) :
      Outcome shared process point
        { shared with
          commits := shared.commits ++
            [⟨process, recNo, shared.shown process, overwritten, work⟩] } (.putUnlock recNo)
  | truncate (opening : point = .initOpen) :
      Outcome shared process point { shared with file := { shared.file with length := 0 } }
        (.initWrite 0 0)
  | initByte {index written : ℕ} {byte : UInt8} (writing : point = .initWrite index written)
      (index_lt : index < recordCount) (more : (initRecord index)[written]? = some byte) :
      Outcome shared process point
        { shared with file := shared.file.writeByte (recordStart index + written) byte }
        (.initWrite index (written + 1))

variable {shared shared' : Shared Process} {process : Process} {point point' : Point}

omit [DecidableEq Process] in
/-- A read under a lock goes on with what the file holds. -/
theorem known_append {file : File} {recNo : ℕ} {got : List UInt8} {byte : UInt8}
    (known : Known file (recordStart recNo) got) (length_le : got.length ≤ recordSize)
    (more : file.readStep recNo got = .byte byte) :
    (got ++ [byte]).length ≤ recordSize ∧ Known file (recordStart recNo) (got ++ [byte]) := by
  rcases readStep_byte more with ⟨incomplete, inside, byte_read⟩
  refine ⟨by simp; omega, fun offset offset_lt => ?_⟩
  simp only [List.length_append, List.length_singleton] at offset_lt
  rcases Nat.lt_succ_iff_lt_or_eq.mp offset_lt with earlier | rfl
  · rw [List.getElem?_append_left earlier]
    exact known offset earlier
  · simp [File.content, inside, byte_read]

theorem outcome_stay (harmless : point.Harmless) (held_eq : point'.held = point.held)
    (knows : Knows shared.file (shared.shown process) point') :
    Outcome shared process point shared point' :=
  .quiet harmless held_eq knows

theorem outcome_lockRecord {recNo : ℕ} {exclusive : Bool} {target : Point}
    (taken : shared.lockRecord process recNo exclusive target = some (shared', point'))
    (harmless : point.Harmless) (idle : point.held = none)
    (held : target.held = some (recNo, exclusive))
    (knows : Knows shared.file (shared.shown process) target) :
    Outcome shared process point shared' point' := by
  simp only [Shared.lockRecord, Option.map_eq_some_iff, Prod.mk.injEq] at taken
  rcases taken with ⟨locks, granted, rfl, rfl⟩
  exact .lock harmless idle granted held knows

theorem outcome_unlockRecord {recNo : ℕ} {exclusive : Bool} {target : Point}
    (taken : shared.unlockRecord process recNo target = some (shared', point'))
    (held : point.held = some (recNo, exclusive)) (idle : target.held = none)
    (knows : Knows shared.file (shared.shown process) target) :
    Outcome shared process point shared' point' := by
  simp only [Shared.unlockRecord, Option.some.injEq, Prod.mk.injEq] at taken
  rcases taken with ⟨rfl, rfl⟩
  exact .unlock held idle knows

theorem outcome_cmdGet (taken : cmdGet shared process point = some (shared', point')) :
    Outcome shared process point shared' point' := by
  cases point with
  | getLock recNo => exact outcome_lockRecord taken ⟨by simp, rfl⟩ rfl rfl trivial
  | getRead recNo got =>
      simp only [cmdGet] at taken
      split at taken
      all_goals
        simp only [Option.some.injEq, Prod.mk.injEq] at taken
        rcases taken with ⟨rfl, rfl⟩
        exact outcome_stay ⟨by simp, rfl⟩ rfl trivial
  | getPrint recNo r =>
      simp only [cmdGet, Option.some.injEq, Prod.mk.injEq] at taken
      rcases taken with ⟨rfl, rfl⟩
      exact .quiet ⟨by simp, rfl⟩ rfl trivial
  | getUnlock recNo => exact outcome_unlockRecord taken rfl rfl trivial
  | _ => simp [cmdGet] at taken

theorem outcome_initFile (taken : initFile shared point = some (shared', point')) :
    Outcome shared process point shared' point' := by
  cases point with
  | initOpen =>
      simp only [initFile, Option.some.injEq, Prod.mk.injEq] at taken
      rcases taken with ⟨rfl, rfl⟩
      exact .truncate rfl
  | initWrite index written =>
      simp only [initFile] at taken
      split at taken
      · next index_lt =>
          split at taken
          all_goals
            simp only [Option.some.injEq, Prod.mk.injEq] at taken
            rcases taken with ⟨rfl, rfl⟩
          · next byte more => exact .initByte rfl index_lt more
          · next done => exact outcome_stay ⟨by simp, by simp [Point.initByte, done]⟩ rfl trivial
      · next finished =>
          simp only [Option.some.injEq, Prod.mk.injEq] at taken
          rcases taken with ⟨rfl, rfl⟩
          exact outcome_stay ⟨by simp, by simp [Point.initByte, finished]⟩ rfl trivial
  | _ => simp [initFile] at taken

theorem outcome_cmdPut (knows : Knows shared.file (shared.shown process) point)
    (taken : cmdPut shared process point = some (shared', point')) :
    Outcome shared process point shared' point' := by
  cases point with
  | putRead recNo got =>
      simp only [cmdPut] at taken
      split at taken
      all_goals
        simp only [Option.some.injEq, Prod.mk.injEq] at taken
        rcases taken with ⟨rfl, rfl⟩
      · exact outcome_stay ⟨by simp, rfl⟩ rfl trivial
      · next complete => exact .shown rfl (length_of_complete complete)
      · exact outcome_stay ⟨by simp, rfl⟩ rfl trivial
  | putLock recNo orig work =>
      rcases knows with ⟨shown_eq, work_length⟩
      refine outcome_lockRecord taken ⟨by simp, rfl⟩ rfl rfl
        ⟨shown_eq, work_length, Nat.zero_le _, ?_⟩
      intro offset offset_lt
      simp at offset_lt
  | putReread recNo orig work got =>
      rcases knows with ⟨shown_eq, work_length, length_le, known⟩
      simp only [cmdPut] at taken
      split at taken
      all_goals
        simp only [Option.some.injEq, Prod.mk.injEq] at taken
        rcases taken with ⟨rfl, rfl⟩
      · next byte more =>
          exact outcome_stay ⟨by simp, rfl⟩ rfl
            ⟨shown_eq, work_length, known_append known length_le more⟩
      · next complete =>
          exact outcome_stay ⟨by simp, rfl⟩ rfl
            ⟨shown_eq, work_length, length_of_complete complete, known⟩
      · exact outcome_stay ⟨by simp, rfl⟩ rfl trivial
  | putCompare recNo orig work fresh =>
      rcases knows with ⟨shown_eq, work_length, length_eq, known⟩
      simp only [cmdPut] at taken
      split at taken
      all_goals
        simp only [Option.some.injEq, Prod.mk.injEq] at taken
        rcases taken with ⟨rfl, rfl⟩
      · next unchanged =>
          have shown_fresh := shown_eq.trans unchanged
          refine outcome_stay ⟨by simp, rfl⟩ rfl ⟨work_length, ?_, Nat.zero_le _, by simp, ?_⟩
          · rw [shown_fresh, length_eq]
          · simpa [shown_fresh] using known
      · exact outcome_stay ⟨by simp, rfl⟩ rfl trivial
  | putWrite recNo work overwritten =>
      rcases knows with ⟨work_length, shown_length, length_le, overwritten_eq, known⟩
      simp only [cmdPut] at taken
      split at taken
      all_goals
        simp only [Option.some.injEq, Prod.mk.injEq] at taken
        rcases taken with ⟨rfl, rfl⟩
      · next byte more => exact .write rfl more
      · next done =>
          have length_eq : overwritten.length = (shared.shown process).length := by
            have := List.getElem?_eq_none_iff.mp done
            omega
          refine .commit rfl ?_
          rwa [length_eq, List.take_length] at overwritten_eq
  | putUnlock recNo => exact outcome_unlockRecord taken rfl rfl trivial
  | putConflict recNo => exact outcome_unlockRecord taken rfl rfl trivial
  | _ => simp [cmdPut] at taken

theorem outcome_advance (knows : Knows shared.file (shared.shown process) point)
    (taken : advance shared process point = some (shared', point')) :
    Outcome shared process point shared' point' := by
  unfold advance at taken
  split at taken
  · exact outcome_cmdGet taken
  · exact outcome_cmdGet taken
  · exact outcome_cmdGet taken
  · exact outcome_cmdGet taken
  · exact outcome_initFile taken
  · exact outcome_initFile taken
  · exact outcome_cmdPut knows taken

namespace Outcome

/-- The table of locks follows the points. -/
theorem table {held : Process → Option (RecordLock Process)}
    (outcome : Outcome shared process point shared' point') (table : LockTable shared.locks held)
    (own : held process = point.lock process) :
    LockTable shared'.locks (Function.update held process (point'.lock process)) := by
  have kept : ∀ {point' : Point}, point'.held = point.held →
      LockTable shared.locks (Function.update held process (point'.lock process)) := by
    intro point' held_eq
    have lock_eq : point'.lock process = held process := by
      rw [own]
      simp only [Point.lock, held_eq]
    rw [lock_eq, Function.update_eq_self]
    exact table
  cases outcome with
  | quiet _ held_eq => exact kept held_eq
  | shown reading => exact kept (by rw [reading]; rfl)
  | lock _ idle granted now_held =>
      have unlocked : held process = none := by simp [own, Point.lock, idle]
      have table' := table.setLock unlocked granted
      rwa [← lock_of_held now_held] at table'
  | unlock now_held idle =>
      have table' := table.unlock (own.trans (lock_of_held now_held))
      have unlocked : point'.lock process = none := by simp [Point.lock, idle]
      rwa [← unlocked] at table'
  | write writing => exact kept (by rw [writing]; rfl)
  | commit writing => exact kept (by rw [writing]; rfl)
  | truncate opening => exact kept (by rw [opening]; rfl)
  | initByte writing => exact kept (by rw [writing]; rfl)

/-- A process knows what its own step has done. -/
theorem knows (outcome : Outcome shared process point shared' point')
    (knows : Knows shared.file (shared.shown process) point) :
    Knows shared'.file (shared'.shown process) point' := by
  cases outcome with
  | quiet _ _ knows' => exact knows'
  | shown reading length_eq =>
      refine ⟨Function.update_self .., length_eq⟩
  | lock _ _ _ _ knows' => exact knows'
  | unlock _ _ knows' => exact knows'
  | @write recNo work overwritten byte writing more =>
      rw [writing] at knows
      rcases content_of_writing knows more with ⟨found, below⟩
      rcases knows with ⟨work_length, shown_length, length_le, overwritten_eq, known⟩
      have inside : overwritten.length < (shared.shown process).length := by omega
      rw [List.getElem?_eq_getElem inside] at found
      unfold File.content at found
      split at found
      · simp only [Option.some.injEq] at found
        refine ⟨work_length, shown_length, ?_, ?_, ?_⟩
        · simp only [List.length_append, List.length_singleton]
          omega
        · rw [found, List.length_append, List.length_singleton, List.take_add_one,
            ← overwritten_eq, List.getElem?_eq_getElem inside]
          rfl
        · intro offset offset_lt
          simp only [List.length_append, List.length_singleton, List.length_drop] at offset_lt ⊢
          rw [content_writeByte, if_neg (by omega), if_neg (by omega)]
          have next := known (offset + 1) (by rw [List.length_drop]; omega)
          rw [List.getElem?_drop] at next ⊢
          rw [show recordStart recNo + (overwritten.length + 1) + offset =
            recordStart recNo + overwritten.length + (offset + 1) by omega, next]
          congr 1
          omega
      · simp at found
  | commit | truncate | initByte => trivial

theorem shown_eq {other : Process} (outcome : Outcome shared process point shared' point')
    (different : other ≠ process) : shared'.shown other = shared.shown other := by
  cases outcome with
  | shown => exact Function.update_of_ne different _ _
  | quiet | lock | unlock | write | commit | truncate | initByte => rfl

/-- A finished write has replaced the bytes shown. -/
theorem overwritten_eq (outcome : Outcome shared process point shared' point')
    (before : ∀ commit ∈ shared.commits, commit.overwritten = commit.shown) :
    ∀ commit ∈ shared'.commits, commit.overwritten = commit.shown := by
  cases outcome with
  | commit _ replaced =>
      intro commit commit_mem
      rcases List.mem_append.mp commit_mem with old | new
      · exact before commit old
      · rw [List.mem_singleton.mp new]
        exact replaced
  | quiet | shown | lock | unlock | write | truncate | initByte => exact before

end Outcome

end Steps

section Runs

/-- The process that takes an action. -/
def Action.process : Action Process → Process
  | .get process _ | .put process _ | .init process | .step process | .edit process _ _
  | .answer process _ => process

/-- What `init_file` is about to do leaves a record as it is. -/
structure Spares (file : File) (point : Point) (recNo : ℕ) : Prop where
  truncate : point = .initOpen → file.length ≤ recordStart recNo
  store : ∀ position byte, point.initByte = some (position, byte) → InRecord recNo position →
    file.content position = some byte
  /-- A byte stored behind the end of the file fills what is before it with zeros. -/
  gap : ∀ position byte, point.initByte = some (position, byte) → ∀ address,
    InRecord recNo address → ¬(file.length ≤ address ∧ address < position)

/-- `INIT` spares the records that other processes have locked. -/
def InitSpares (state : State Process) (action : Action Process) : Prop :=
  ∀ process, action = .step process → ∀ other recNo exclusive, other ≠ process →
    recordLock other recNo exclusive ∈ state.shared.locks →
      Spares state.shared.file (state.points process) recNo

/-- A step leaves the records that other processes have locked as they are. -/
def RecordsKept (state : State Process) (action : Action Process) (successor : State Process) :
    Prop :=
  ∀ other recNo exclusive, other ≠ action.process →
    recordLock other recNo exclusive ∈ state.shared.locks → ∀ address, InRecord recNo address →
      successor.shared.file.content address = state.shared.file.content address

/-- The locks follow the points, and what is known under them is so. -/
structure Protected (state : State Process) : Prop where
  table : LockTable state.shared.locks fun process => (state.points process).lock process
  knows : ∀ process, Knows state.shared.file (state.shared.shown process) (state.points process)
  overwritten_eq : ∀ commit ∈ state.shared.commits, commit.overwritten = commit.shown

variable {state successor : State Process} {process other : Process} {shared : Shared Process}
  {point : Point} {recNo : ℕ} {exclusive : Bool}

theorem spares_of_harmless {file : File} (harmless : point.Harmless) :
    Spares file point recNo where
  truncate opening := absurd opening harmless.1
  store position byte storing := by simp [harmless.2] at storing
  gap position byte storing := by simp [harmless.2] at storing

theorem harmless_of_held (held : point.held = some (recNo, exclusive)) : point.Harmless := by
  cases point with
  | initOpen | initWrite => cases held
  | _ => exact ⟨by simp, rfl⟩

theorem Protected.held_of_mem (guarded : Protected state)
    (locked : recordLock other recNo exclusive ∈ state.shared.locks) :
    (state.points other).held = some (recNo, exclusive) := by
  have own : (state.points other).lock other = some (recordLock other recNo exclusive) :=
    (guarded.table.mem_iff _).mp locked
  simp only [Point.lock, Option.map_eq_some_iff] at own
  rcases own with ⟨⟨recNo', exclusive'⟩, held, lock_eq⟩
  simp only [recordLock, RecordLock.mk.injEq, recordStart, recordSize, true_and] at lock_eq
  rcases lock_eq with ⟨start_eq, rfl⟩
  rw [held, show recNo' = recNo by omega]

theorem Protected.mem_of_held (guarded : Protected state)
    (held : (state.points other).held = some (recNo, exclusive)) :
    recordLock other recNo exclusive ∈ state.shared.locks :=
  (guarded.table.mem_iff (recordLock other recNo exclusive)).mpr (lock_of_held held)

/-- Nobody else has a lock on a record that a process may write. -/
theorem Protected.other_record {recNo' : ℕ} {address : ℕ} (guarded : Protected state)
    (held : (state.points process).held = some (recNo, true)) (inside : InRecord recNo address)
    (different : other ≠ process)
    (locked : recordLock other recNo' exclusive ∈ state.shared.locks) :
    ¬InRecord recNo' address := by
  intro inside'
  rcases recNo_eq_of_inRecord inside inside'
  have overlap : recordStart recNo < recordStart recNo + recordSize := by simp [recordSize]
  have own : (state.points process).lock process = some (recordLock process recNo true) :=
    lock_of_held held
  have others : (state.points other).lock other = some (recordLock other recNo exclusive) :=
    lock_of_held (guarded.held_of_mem locked)
  have same := guarded.table.exclusive (recordLock process recNo true)
    (recordLock other recNo exclusive) own others rfl overlap overlap
  exact different same.symm

variable [DecidableEq Process]

theorem recordsKept_step_iff (guarded : Protected state)
    (taken : advance state.shared process (state.points process) = some (shared, point)) :
    RecordsKept state (.step process) ⟨shared, Function.update state.points process point⟩ ↔
      InitSpares state (.step process) := by
  have harmless_iff : (state.points process).Harmless →
      RecordsKept state (.step process) ⟨shared, Function.update state.points process point⟩ →
      (RecordsKept state (.step process) ⟨shared, Function.update state.points process point⟩ ↔
        InitSpares state (.step process)) := by
    intro harmless kept
    refine iff_of_true kept fun stepping own other recNo exclusive _ _ => ?_
    cases own
    exact spares_of_harmless harmless
  have outcome := outcome_advance (guarded.knows process) taken
  generalize before : state.points process = start at outcome harmless_iff
  cases outcome with
  | quiet harmless => exact harmless_iff harmless fun _ _ _ _ _ _ _ => rfl
  | lock harmless => exact harmless_iff harmless fun _ _ _ _ _ _ _ => rfl
  | shown reading =>
      exact harmless_iff (by rw [reading]; exact ⟨by simp, rfl⟩) fun _ _ _ _ _ _ _ => rfl
  | unlock held =>
      exact harmless_iff (harmless_of_held held) fun _ _ _ _ _ _ _ => rfl
  | commit writing =>
      exact harmless_iff (by rw [writing]; exact ⟨by simp, rfl⟩) fun _ _ _ _ _ _ _ => rfl
  | @write recNo work overwritten byte writing more =>
      have knows := guarded.knows process
      have held : (state.points process).held = some (recNo, true) := by
        rw [before, writing]
        rfl
      rw [before, writing] at knows
      rcases content_of_writing knows more with ⟨found, below⟩
      have shown_length := knows.2.1
      refine harmless_iff (by rw [writing]; exact ⟨by simp, rfl⟩)
        fun other recNo' exclusive different locked address inside => ?_
      have elsewhere : address ≠ recordStart recNo + overwritten.length := by
        rintro rfl
        exact guarded.other_record held ⟨by omega, by omega⟩ different locked inside
      have inFile : recordStart recNo + overwritten.length < state.shared.file.length := by
        unfold File.content at found
        split at found
        · assumption
        · rw [List.getElem?_eq_getElem (by omega)] at found
          simp at found
      simp only [content_writeByte]
      rw [if_neg elsewhere, if_neg (by omega)]
  | truncate opening =>
      subst opening
      constructor
      · intro kept stepping own other recNo exclusive different locked
        cases own
        rw [before]
        refine ⟨fun _ => ?_, fun position byte storing => ?_, fun position byte storing => ?_⟩
        · by_contra inside
          have lost := kept other recNo exclusive different locked (recordStart recNo)
            ⟨Nat.le_refl _, by simp [recordSize]⟩
          rw [File.content, File.content, if_neg (Nat.not_lt_zero _), if_pos (by omega)] at lost
          simp at lost
        · simp [Point.initByte] at storing
        · simp [Point.initByte] at storing
      · intro spares other recNo exclusive different locked address inside
        have behind := (spares process rfl other recNo exclusive different locked).truncate before
        have := inside.1
        rw [File.content, File.content, if_neg (Nat.not_lt_zero _), if_neg (by omega)]
  | @initByte index written byte writing index_lt more =>
      subst writing
      have storing : (Point.initWrite index written).initByte =
          some (recordStart index + written, byte) := by
        simp [Point.initByte, index_lt, more]
      constructor
      · intro kept stepping own other recNo exclusive different locked
        cases own
        rw [before]
        have same := kept other recNo exclusive different locked
        simp only [content_writeByte] at same
        refine ⟨by simp, fun position stored storing' inside => ?_,
          fun position stored storing' address inside gap => ?_⟩
        · rw [storing] at storing'
          simp only [Option.some.injEq, Prod.mk.injEq] at storing'
          rcases storing' with ⟨rfl, rfl⟩
          have := same _ inside
          rw [if_pos rfl] at this
          exact this.symm
        · rw [storing] at storing'
          simp only [Option.some.injEq, Prod.mk.injEq] at storing'
          rcases storing' with ⟨rfl, rfl⟩
          have := same _ inside
          rw [if_neg (by omega), if_pos gap, File.content, if_neg (by omega)] at this
          simp at this
      · intro spares other recNo exclusive different locked address inside
        have spared := spares process rfl other recNo exclusive different locked
        rw [before] at spared
        simp only [content_writeByte]
        split
        · next stored =>
            subst stored
            exact (spared.store _ _ storing inside).symm
        · rw [if_neg (spared.gap _ _ storing _ inside)]

/-- `INIT` stays clear of all locks of others, which is enough to spare their records. -/
def staysClear (state : State Process) : Action Process → Bool
  | .step process =>
      state.shared.locks.all fun lock =>
        decide (lock.owner = process) ||
          match state.points process with
          | .initOpen => decide (state.shared.file.length ≤ lock.start)
          | .initWrite index written =>
              decide (recordStart index + written < lock.start ∨
                lock.start + lock.length ≤
                  min state.shared.file.length (recordStart index + written))
          | _ => true
  | _ => true

theorem initSpares_of_staysClear {action : Action Process}
    (clear : staysClear state action = true) : InitSpares state action := by
  rintro process rfl other recNo exclusive different locked
  simp only [staysClear, List.all_eq_true, Bool.or_eq_true, decide_eq_true_eq] at clear
  have apart := (clear _ locked).resolve_left different
  split at apart
  · next opening =>
      rw [opening]
      rw [decide_eq_true_eq] at apart
      exact ⟨fun _ => apart, by simp [Point.initByte], by simp [Point.initByte]⟩
  · next index written writing =>
      rw [writing]
      have position_eq : ∀ position byte,
          (Point.initWrite index written).initByte = some (position, byte) →
            position = recordStart index + written := by
        intro position byte storing
        simp only [Point.initByte, Option.ite_none_right_eq_some, Option.map_eq_some_iff,
          Prod.mk.injEq] at storing
        rcases storing with ⟨-, stored, -, rfl, -⟩
        rfl
      have apart := of_decide_eq_true apart
      simp only [recordLock] at apart
      refine ⟨by simp, fun position byte storing inside => ?_,
        fun position byte storing address inside gap => ?_⟩
      · have := position_eq position byte storing
        simp only [InRecord] at inside
        omega
      · have := position_eq position byte storing
        simp only [InRecord] at inside
        omega
  · next other_opening other_writing =>
      apply spares_of_harmless
      cases at_point : state.points process with
      | initOpen => exact absurd at_point other_opening
      | initWrite index written => exact absurd at_point (other_writing index written)
      | _ => exact ⟨by simp, rfl⟩

/-- A step leaves the records locked by others as they are exactly if `INIT` spares them. -/
theorem recordsKept_next_iff {action : Action Process} (guarded : Protected state)
    (taken : next state action = some successor) :
    RecordsKept state action successor ↔ InitSpares state action := by
  have moves : ∀ {process point}, (∀ process, action ≠ .step process) →
      successor = state.move process point →
        (RecordsKept state action successor ↔ InitSpares state action) := by
    rintro process point other_action rfl
    refine iff_of_true (fun _ _ _ _ _ _ _ => rfl) fun process own => ?_
    exact absurd own (other_action process)
  cases action with
  | step process =>
      simp only [next, Option.map_eq_some_iff, Prod.exists] at taken
      rcases taken with ⟨shared, point, advanced, rfl⟩
      exact recordsKept_step_iff guarded advanced
  | get | put | init | edit | answer =>
      simp only [next] at taken
      split at taken
      · exact moves (by simp) (Option.some.inj taken).symm
      · simp at taken

theorem Protected.step (guarded : Protected state)
    (taken : advance state.shared process (state.points process) = some (shared, point))
    (kept : RecordsKept state (.step process)
      ⟨shared, Function.update state.points process point⟩) :
    Protected ⟨shared, Function.update state.points process point⟩ := by
  have outcome := outcome_advance (guarded.knows process) taken
  refine ⟨?_, fun other => ?_, outcome.overwritten_eq guarded.overwritten_eq⟩
  · rw [lock_update]
    exact outcome.table guarded.table rfl
  · by_cases same : other = process
    · subst same
      simpa using outcome.knows (guarded.knows other)
    · simp only [outcome.shown_eq same, Function.update_of_ne same]
      exact (guarded.knows other).frame fun recNo exclusive held =>
        kept other recNo exclusive same (guarded.mem_of_held held)

/-- A process without a lock goes on without one. -/
theorem Protected.move (guarded : Protected state) (idle : (state.points process).held = none)
    (idle' : point.held = none)
    (knows : Knows state.shared.file (state.shared.shown process) point) :
    Protected (state.move process point) := by
  refine ⟨?_, fun other => ?_, guarded.overwritten_eq⟩
  · have lock_eq : point.lock process = (state.points process).lock process := by
      simp only [Point.lock, idle, idle']
    simp only [State.move]
    rw [lock_update, lock_eq, Function.update_eq_self]
    exact guarded.table
  · by_cases same : other = process
    · subst same
      simpa [State.move] using knows
    · simpa [State.move, same] using guarded.knows other

theorem Protected.next {action : Action Process} (guarded : Protected state)
    (spares : InitSpares state action) (taken : next state action = some successor) :
    Protected successor := by
  cases action with
  | step process =>
      have kept := (recordsKept_next_iff guarded taken).mpr spares
      simp only [Lab07.next, Option.map_eq_some_iff, Prod.exists] at taken
      rcases taken with ⟨shared, point, advanced, rfl⟩
      exact guarded.step advanced kept
  | get process recNo | put process recNo | init process =>
      simp only [Lab07.next] at taken
      split at taken
      · next idle =>
          simp only [Option.some.injEq] at taken
          subst taken
          exact guarded.move (by rw [idle]; rfl) rfl trivial
      · simp at taken
  | edit process buf stdin =>
      simp only [Lab07.next] at taken
      split at taken
      · next recNo orig editing =>
          have knows := guarded.knows process
          rw [editing] at knows
          simp only [Option.some.injEq] at taken
          subst taken
          split
          · exact guarded.move (by rw [editing]; rfl) rfl trivial
          · exact guarded.move (by rw [editing]; rfl) rfl ⟨knows.1, length_editRecord knows.2⟩
      · simp at taken
  | answer process c =>
      simp only [Lab07.next] at taken
      split at taken
      · next recNo asking =>
          simp only [Option.some.injEq] at taken
          subst taken
          split
          · exact guarded.move (by rw [asking]; rfl) rfl trivial
          · exact guarded.move (by rw [asking]; rfl) rfl trivial
      · simp at taken

/-- Locks keep other processes away, and a `PUT` replaces what it has compared. -/
structure RecordsProtected (state : State Process) : Prop where
  kept_iff : ∀ action successor, Lab07.next state action = some successor →
    (RecordsKept state action successor ↔ InitSpares state action)
  /-- What a finished write has replaced is what was shown and found again under the lock. -/
  overwritten_eq : ∀ commit ∈ state.shared.commits, commit.overwritten = commit.shown
  /-- So it is with a write in progress as far as it has come. -/
  overwriting : ∀ process recNo work overwritten,
    state.points process = .putWrite recNo work overwritten →
      overwritten <+: state.shared.shown process

/-- In runs in which `INIT` spares the records locked by others, locks protect their records. -/
theorem recordsProtected_of_reachable {original : File}
    (reached : (system Process original).ReachableUnder InitSpares state) :
    RecordsProtected state := by
  have guarded : Protected state := by
    apply reached.invariant
    · rintro _ rfl
      exact ⟨⟨fun lock => by simp [init, Point.lock, Point.held], by simp [init]⟩,
        fun _ => trivial, by simp [init]⟩
    · intro state action successor guarded spares taken
      exact guarded.next spares taken
  refine ⟨fun action successor taken => recordsKept_next_iff guarded taken,
    guarded.overwritten_eq, fun process recNo work overwritten writing => ?_⟩
  have knows := guarded.knows process
  rw [writing] at knows
  rcases knows with ⟨-, -, -, overwritten_eq, -⟩
  rw [overwritten_eq]
  exact List.take_prefix _ _

end Runs

/-- `INIT` has truncated the file and writes record 0 while a `GET` has locked record 3. -/
def initElsewhere : List (Action Bool) :=
  [.init true, .step true, .get false 3, .step false, .step true]

theorem recordsProtected_initElsewhere :
    ∃ state, ((system Bool oneRecord).restrict staysClear).run (init oneRecord) initElsewhere =
        some state ∧
      state.shared.file.content 0 = some 83 ∧ RecordsProtected state := by
  have ran : (((system Bool oneRecord).restrict staysClear).run (init oneRecord)
      initElsewhere).map (fun state => state.shared.file.content 0) = some (some 83) := by
    decide +kernel
  rcases Option.map_eq_some_iff.mp ran with ⟨state, ran, stored⟩
  have reached : (system Bool oneRecord).ReachableUnder
      (fun state action => staysClear state action = true) state :=
    System.Reachable.of_restrict (System.Reachable.of_run (.start rfl) ran)
  exact ⟨state, ran, stored, recordsProtected_of_reachable
    (reached.mono fun state action _ clear => initSpares_of_staysClear clear)⟩

/-- `INIT` truncates the file while a `GET` has locked its only record. -/
def initBeside : List (Action Bool) :=
  [.get false 0, .step false, .init true]

theorem not_recordsKept_initBeside :
    ¬ ∀ state : State Bool, (system Bool oneRecord).Reachable state → ∀ action successor,
      next state action = some successor → RecordsKept state action successor := by
  intro claimed
  have kept := claimed _ (System.Reachable.of_run (.start rfl)
    (rfl : (system Bool oneRecord).run (init oneRecord) initBeside = some _)) (.step true) _ rfl
  have same : (none : Option UInt8) = some 1 :=
    kept false 0 false (by decide) List.mem_cons_self 0 ⟨by decide, by decide⟩
  cases same

end Osis.Lab07
