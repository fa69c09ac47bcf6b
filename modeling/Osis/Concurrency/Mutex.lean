import Mathlib.Tactic.Common

/-!
# Mutexes

A mutex is the thread that holds it, if any. `Holds` says of one thread that the
program point it stands at and the mutex agree on whether it is inside a section.
One step of a thread keeps this for all threads as long as it locks a free mutex
when entering a section and unlocks it when leaving one.
-/

namespace Osis.Concurrency

universe u

variable {Thread : Type u}

/-- A thread is inside a section exactly if it holds the mutex. -/
def Holds (mutex : Option Thread) (thread : Thread) (inside : Bool) : Prop :=
  inside = true ↔ mutex = some thread

theorem Holds.of_none (thread : Thread) : Holds none thread false := by
  simp [Holds]

/-- Two threads are not both inside their sections. -/
theorem Holds.exclusive {mutex : Option Thread} {thread other : Thread} {inside : Bool}
    (own : Holds mutex thread inside) (others : Holds mutex other true)
    (different : other ≠ thread) : inside = false := by
  by_contra entered
  have holder := own.mp (by simpa using entered)
  exact different (Option.some.inj ((others.mp rfl).symm.trans holder))

/-- How a step of a thread may change the mutex, given whether it was and is inside. -/
inductive MutexStep (thread : Thread) (mutex : Option Thread) (inside : Bool) :
    Option Thread → Bool → Prop where
  | keep : MutexStep thread mutex inside mutex inside
  | lock (free : mutex = none) : MutexStep thread mutex inside (some thread) true
  | unlock (entered : inside = true) : MutexStep thread mutex inside none false

namespace MutexStep

variable {thread other : Thread} {mutex mutex' : Option Thread} {inside inside' : Bool}

theorem own (step : MutexStep thread mutex inside mutex' inside')
    (before : Holds mutex thread inside) : Holds mutex' thread inside' := by
  cases step with
  | keep => exact before
  | lock => simp [Holds]
  | unlock => exact .of_none thread

/-- The steps of a thread leave what others hold as it is. -/
theorem elsewhere (step : MutexStep thread mutex inside mutex' inside')
    (own : Holds mutex thread inside) (different : other ≠ thread) {otherInside : Bool}
    (before : Holds mutex other otherInside) : Holds mutex' other otherInside := by
  cases step with
  | keep => exact before
  | lock free =>
      subst free
      simpa [Holds, different.symm] using before
  | unlock entered =>
      have holder : mutex = some thread := own.mp entered
      simpa [Holds, holder, different.symm] using before

end MutexStep

end Osis.Concurrency
