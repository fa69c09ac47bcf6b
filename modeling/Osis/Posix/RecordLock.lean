import Mathlib.Data.List.Basic
import Mathlib.Logic.Function.Basic

/-!
# Record locks

Advisory locks on byte ranges of one file, as `F_OFD_SETLKW` and `F_OFD_SETLK`
handle them. Locks of different owners on overlapping ranges exclude each other
unless both are read locks. A request that would conflict blocks.

`LockTable` ties the table of locks to what every owner believes to hold, for
owners that hold one lock at a time.
-/

namespace Osis.Posix

universe u

/-- A lock on `length` bytes from `start` on; write locks are exclusive. -/
structure RecordLock (Owner : Type u) where
  owner : Owner
  start : ℕ
  length : ℕ
  exclusive : Bool

namespace RecordLock

variable {Owner : Type u}

/-- Two locks that cannot be held at the same time. -/
def Conflicts (lock other : RecordLock Owner) : Prop :=
  lock.owner ≠ other.owner ∧ lock.start < other.start + other.length ∧
    other.start < lock.start + lock.length ∧ (lock.exclusive = true ∨ other.exclusive = true)

theorem Conflicts.symm {lock other : RecordLock Owner} (conflict : lock.Conflicts other) :
    other.Conflicts lock := by
  rcases conflict with ⟨different, before, after, exclusive⟩
  exact ⟨different.symm, after, before, exclusive.symm⟩

variable [DecidableEq Owner]

instance (lock other : RecordLock Owner) : Decidable (lock.Conflicts other) :=
  inferInstanceAs (Decidable (_ ∧ _ ∧ _ ∧ _))

/-- `F_OFD_SETLKW`, `none` while the request blocks. -/
def setLock (locks : List (RecordLock Owner)) (lock : RecordLock Owner) :
    Option (List (RecordLock Owner)) :=
  if ∀ other ∈ locks, ¬other.Conflicts lock then some (lock :: locks) else none

/-- `F_OFD_SETLK` with `F_UNLCK` on the range of a lock. -/
def unlock (locks : List (RecordLock Owner)) (owner : Owner) (start length : ℕ) :
    List (RecordLock Owner) :=
  locks.filter fun lock => ¬(lock.owner = owner ∧ lock.start = start ∧ lock.length = length)

end RecordLock

/-- The table holds exactly the locks that the owners believe to hold, and none conflict. -/
structure LockTable {Owner : Type u} (locks : List (RecordLock Owner))
    (held : Owner → Option (RecordLock Owner)) : Prop where
  mem_iff : ∀ lock, lock ∈ locks ↔ held lock.owner = some lock
  compatible : ∀ lock ∈ locks, ∀ other ∈ locks, ¬lock.Conflicts other

namespace LockTable

variable {Owner : Type u} {locks locks' : List (RecordLock Owner)}
  {held : Owner → Option (RecordLock Owner)} {lock other : RecordLock Owner}

/-- The holder of a write lock is alone on its range. -/
theorem exclusive (table : LockTable locks held) (lock other : RecordLock Owner)
    (own : held lock.owner = some lock) (others : held other.owner = some other)
    (writes : lock.exclusive = true) (below : lock.start < other.start + other.length)
    (above : other.start < lock.start + lock.length) : lock.owner = other.owner := by
  by_contra different
  exact table.compatible lock ((table.mem_iff lock).mpr own) other
    ((table.mem_iff other).mpr others) ⟨different, below, above, Or.inl writes⟩

theorem not_mem_of_none (table : LockTable locks held) {owner : Owner} (idle : held owner = none) :
    ∀ lock ∈ locks, lock.owner ≠ owner := by
  intro lock lock_mem same
  have believed := (table.mem_iff lock).mp lock_mem
  rw [same, idle] at believed
  simp at believed

variable [DecidableEq Owner]

/-- A request of an owner without a lock is granted. -/
theorem setLock (table : LockTable locks held) (idle : held lock.owner = none)
    (granted : RecordLock.setLock locks lock = some locks') :
    LockTable locks' (Function.update held lock.owner (some lock)) := by
  simp only [RecordLock.setLock, Option.ite_none_right_eq_some, Option.some.injEq] at granted
  rcases granted with ⟨free, rfl⟩
  constructor
  · intro other
    by_cases same : other.owner = lock.owner
    · have absent : other ∉ locks := by
        intro other_mem
        have := (table.mem_iff other).mp other_mem
        rw [same, idle] at this
        simp at this
      simp only [List.mem_cons, absent, or_false, same, Function.update_self, Option.some.injEq]
      exact eq_comm
    · have different : other ≠ lock := fun eq => same (eq ▸ rfl)
      simp only [List.mem_cons, different, false_or, Function.update_of_ne same]
      exact table.mem_iff other
  · intro first first_mem second second_mem
    rcases List.mem_cons.mp first_mem with rfl | first_old
    · rcases List.mem_cons.mp second_mem with rfl | second_old
      · exact fun conflict => conflict.1 rfl
      · exact fun conflict => free second second_old conflict.symm
    · rcases List.mem_cons.mp second_mem with rfl | second_old
      · exact free first first_old
      · exact table.compatible first first_old second second_old

/-- An owner gives up its lock. -/
theorem unlock (table : LockTable locks held) {owner : Owner} (own : held owner = some lock) :
    LockTable (RecordLock.unlock locks owner lock.start lock.length)
      (Function.update held owner none) := by
  constructor
  · intro other
    simp only [RecordLock.unlock, List.mem_filter, decide_eq_true_eq]
    by_cases same : other.owner = owner
    · simp only [same, Function.update_self, true_and, reduceCtorEq, iff_false, not_and]
      intro other_mem outside
      have believed := (table.mem_iff other).mp other_mem
      rw [same, own, Option.some.injEq] at believed
      rw [believed] at outside
      exact outside rfl rfl
    · simp only [same, false_and, not_false_eq_true, and_true, Function.update_of_ne same]
      exact table.mem_iff other
  · intro first first_mem second second_mem
    exact table.compatible first (List.mem_of_mem_filter first_mem) second
      (List.mem_of_mem_filter second_mem)

end LockTable

end Osis.Posix
