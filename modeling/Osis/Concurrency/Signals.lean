import Mathlib.Logic.Function.Basic

/-!
# Standard signals

A process has at most one instance of each standard signal pending. The instance keeps the
value that it was queued with, and further instances are dropped until it is delivered.
-/

namespace Osis.Concurrency

universe u v

/-- The pending signals of a process, each with its value. -/
abbrev Pending (Signal : Type u) (Value : Type v) := Signal → Option Value

namespace Pending

variable {Signal : Type u} {Value : Type v} [DecidableEq Signal]

/-- No signal is pending. -/
def empty : Pending Signal Value := fun _ => none

/-- Queue a signal, unless it is pending already. -/
def queue (pending : Pending Signal Value) (signal : Signal) (value : Value) :
    Pending Signal Value :=
  Function.update pending signal (some ((pending signal).getD value))

/-- Take a signal off the pending ones. -/
def deliver (pending : Pending Signal Value) (signal : Signal) : Pending Signal Value :=
  Function.update pending signal none

variable {pending : Pending Signal Value} {signal other : Signal} {value found : Value}

theorem queue_of_ne (different : other ≠ signal) :
    pending.queue signal value other = pending other :=
  Function.update_of_ne different _ _

/-- A signal is queued once. -/
theorem queue_queue : (pending.queue signal value).queue signal value =
    pending.queue signal value := by
  simp [queue]

/-- What is pending after a signal is queued was pending before, or is this signal. -/
theorem queue_eq_some (pends : pending.queue signal value other = some found) :
    pending other = some found ∨ other = signal ∧ found = value := by
  by_cases same : other = signal
  · subst same
    rw [queue, Function.update_self, Option.some.injEq] at pends
    cases already : pending other with
    | none => exact .inr ⟨rfl, by rw [← pends, already, Option.getD_none]⟩
    | some first => exact .inl (by rw [← pends, already, Option.getD_some])
  · rw [queue_of_ne same] at pends
    exact .inl pends

@[simp]
theorem deliver_self : pending.deliver signal signal = none := Function.update_self ..

theorem deliver_of_ne (different : other ≠ signal) :
    pending.deliver signal other = pending other :=
  Function.update_of_ne different _ _

/-- What is pending after a delivery was pending before. -/
theorem deliver_eq_some (pends : pending.deliver signal other = some found) :
    pending other = some found := by
  by_cases same : other = signal
  · subst same
    rw [deliver_self] at pends
    cases pends
  · rwa [deliver_of_ne same] at pends

theorem deliver_eq_none (absent : pending other = none) :
    pending.deliver signal other = none := by
  cases pends : pending.deliver signal other with
  | none => rfl
  | some value => exact absent ▸ (deliver_eq_some pends).symm

end Pending

end Osis.Concurrency
