import Mathlib.Algebra.Order.BigOperators.Group.Finset
import Mathlib.Data.Fintype.BigOperators

/-!
# Threads: totals and logs

Semaphore invariants weigh every thread by where it stands. When one thread
moves, the sum of the weights changes by the difference of its two weights.

A log shared by all threads carries with every entry the thread that made it.
-/

namespace Osis.Concurrency

universe u v w

variable {Thread : Type u} {Point : Type v} {Entry : Type w}

section Total

variable [Fintype Thread]

/-- The total weight of all threads at their points. -/
def total (weight : Point → ℕ) (points : Thread → Point) : ℕ :=
  ∑ thread, weight (points thread)

theorem total_eq_zero {weight : Point → ℕ} {points : Thread → Point}
    (weightless : ∀ thread, weight (points thread) = 0) : total weight points = 0 := by
  simp [total, weightless]

/-- A thread weighs no more than all threads together. -/
theorem le_total (weight : Point → ℕ) (points : Thread → Point) (thread : Thread) :
    weight (points thread) ≤ total weight points :=
  Finset.single_le_sum (f := fun other => weight (points other)) (fun _ _ => Nat.zero_le _)
    (Finset.mem_univ thread)

variable [DecidableEq Thread]

/-- Moving one thread exchanges its old weight for its new one. -/
theorem total_update (weight : Point → ℕ) (points : Thread → Point) (thread : Thread)
    (point : Point) :
    total weight (Function.update points thread point) + weight (points thread) =
      total weight points + weight point := by
  have others : ∑ other ∈ Finset.univ.erase thread,
        weight (Function.update points thread point other) =
      ∑ other ∈ Finset.univ.erase thread, weight (points other) := by
    apply Finset.sum_congr rfl
    intro other other_mem
    rw [Function.update_of_ne (Finset.ne_of_mem_erase other_mem)]
  unfold total
  rw [← Finset.sum_erase_add _ _ (Finset.mem_univ thread),
    ← Finset.sum_erase_add _ _ (Finset.mem_univ thread), others, Function.update_self]
  omega

end Total

section Log

variable [DecidableEq Thread]

/-- The entries of one thread in a log. -/
def entriesOf (thread : Thread) (log : List (Thread × Entry)) : List Entry :=
  (log.filter fun entry => entry.1 = thread).map Prod.snd

@[simp]
theorem entriesOf_nil (thread : Thread) :
    entriesOf thread ([] : List (Thread × Entry)) = [] := rfl

@[simp]
theorem entriesOf_append_self (thread : Thread) (log : List (Thread × Entry)) (entry : Entry) :
    entriesOf thread (log ++ [(thread, entry)]) = entriesOf thread log ++ [entry] := by
  simp [entriesOf]

theorem entriesOf_append_of_ne {thread other : Thread} (different : other ≠ thread)
    (log : List (Thread × Entry)) (entry : Entry) :
    entriesOf other (log ++ [(thread, entry)]) = entriesOf other log := by
  simp [entriesOf, different.symm]

@[simp]
theorem mem_entriesOf {thread : Thread} {log : List (Thread × Entry)} {entry : Entry} :
    entry ∈ entriesOf thread log ↔ (thread, entry) ∈ log := by
  simp [entriesOf]

/-- The entries of a log without repetitions do not repeat for one thread. -/
theorem nodup_entriesOf {log : List (Thread × Entry)} (distinct : (log.map Prod.snd).Nodup)
    (thread : Thread) : (entriesOf thread log).Nodup :=
  distinct.sublist (List.filter_sublist.map Prod.snd)

omit [DecidableEq Thread] in
/-- An entry of a log without repetitions was made by one thread. -/
theorem thread_unique {log : List (Thread × Entry)} (distinct : (log.map Prod.snd).Nodup)
    {thread other : Thread} {entry : Entry} (own : (thread, entry) ∈ log)
    (others : (other, entry) ∈ log) : thread = other :=
  congrArg Prod.fst (List.inj_on_of_nodup_map distinct own others rfl)

end Log

end Osis.Concurrency
