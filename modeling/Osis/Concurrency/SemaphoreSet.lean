import Mathlib.Data.Int.Notation
import Mathlib.Data.Nat.Notation
import Mathlib.Logic.Function.Basic

/-!
# Sets of counting semaphores

`semop` applies an array of operations to a set of semaphores as one step: every
operation goes through, or the caller is blocked and nothing has changed. The
two arrays that a semaphore-protected section begins and ends with take one from
each of two semaphores and give one to each of two.
-/

namespace Osis.Concurrency

universe u

/-- One `struct sembuf`: the semaphore's number and the amount added to it. -/
structure SemBuf (Number : Type u) where
  num : Number
  op : ℤ

section Semop

variable {Number : Type u} [DecidableEq Number]

/-- `semop`, `none` where the caller blocks. -/
def semop (values : Number → ℕ) : List (SemBuf Number) → Option (Number → ℕ)
  | [] => some values
  | buf :: rest =>
      if 0 ≤ values buf.num + buf.op then
        semop (Function.update values buf.num (values buf.num + buf.op).toNat) rest
      else none

/-- Taking one from each of two semaphores goes on exactly if both are positive. -/
theorem semop_take_eq_some {values values' : Number → ℕ} {first second : Number}
    (different : second ≠ first) :
    semop values [⟨first, -1⟩, ⟨second, -1⟩] = some values' ↔
      0 < values first ∧ 0 < values second ∧
        values' = Function.update (Function.update values first (values first - 1)) second
          (values second - 1) := by
  have firstValue : ((values first : ℤ) + -1).toNat = values first - 1 := by omega
  have secondValue : ((values second : ℤ) + -1).toNat = values second - 1 := by omega
  simp only [semop, Function.update_of_ne different, firstValue, secondValue]
  constructor
  · intro taken
    split at taken
    · split at taken
      · exact ⟨by omega, by omega, (Option.some.inj taken).symm⟩
      · simp at taken
    · simp at taken
  · rintro ⟨firstPositive, secondPositive, rfl⟩
    rw [if_pos (by omega), if_pos (by omega)]

/-- Giving one to each of two semaphores never blocks. -/
theorem semop_give {values : Number → ℕ} {first second : Number} (different : second ≠ first) :
    semop values [⟨first, 1⟩, ⟨second, 1⟩] =
      some (Function.update (Function.update values first (values first + 1)) second
        (values second + 1)) := by
  have firstValue : ((values first : ℤ) + 1).toNat = values first + 1 := by omega
  have secondValue : ((values second : ℤ) + 1).toNat = values second + 1 := by omega
  simp only [semop, Function.update_of_ne different, firstValue, secondValue]
  rw [if_pos (by omega), if_pos (by omega)]

end Semop

end Osis.Concurrency
