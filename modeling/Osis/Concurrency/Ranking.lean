import Mathlib.Algebra.BigOperators.Group.Finset.Basic
import Mathlib.Data.Fintype.BigOperators
import Osis.Concurrency.Transition

/-!
# Rankings

A natural number that every step lowers bounds the length of all runs. Where it is a sum over
the threads, a step lowers it if it lowers the part of the threads that it moves.
-/

namespace Osis.Concurrency

universe u v w

/-- A run takes no more counted steps than a rank that each of them lowers and no other step
raises, and keeps the invariant. -/
theorem System.run_countP_le {State : Type u} {Label : Type v} {system : System State Label}
    {rank : State → ℕ} {invariant : State → Prop} {allowed : Label → Prop}
    {counted : Label → Bool}
    (lowers : ∀ state label successor, invariant state → allowed label →
      system.next state label = some successor →
      invariant successor ∧ rank successor + (counted label).toNat ≤ rank state)
    {labels : List Label} {state final : State} (holds : invariant state)
    (all_allowed : ∀ label ∈ labels, allowed label)
    (ran : system.run state labels = some final) :
    invariant final ∧ labels.countP counted + rank final ≤ rank state := by
  induction labels generalizing state with
  | nil =>
      cases ran
      exact ⟨holds, Nat.le_of_eq (Nat.zero_add _)⟩
  | cons label rest ih =>
      simp only [run_cons, Option.bind_eq_some_iff] at ran
      rcases ran with ⟨successor, taken, ran⟩
      rcases lowers state label successor holds (all_allowed label List.mem_cons_self) taken with
        ⟨holds', lower⟩
      rcases ih holds' (fun other other_mem => all_allowed other (List.mem_cons_of_mem _ other_mem))
        ran with ⟨holds_finally, bound⟩
      refine ⟨holds_finally, ?_⟩
      have first : (label :: rest).countP counted =
          rest.countP counted + (counted label).toNat := by
        rw [List.countP_cons]
        cases counted label <;> rfl
      omega

/-- A run takes no more steps than a rank that each of them lowers, and keeps the invariant. -/
theorem System.run_length_le {State : Type u} {Label : Type v} {system : System State Label}
    {rank : State → ℕ} {invariant : State → Prop} {counted : Label → Prop}
    (lowers : ∀ state label successor, invariant state → counted label →
      system.next state label = some successor → invariant successor ∧ rank successor < rank state)
    {labels : List Label} {state final : State} (holds : invariant state)
    (all_counted : ∀ label ∈ labels, counted label)
    (ran : system.run state labels = some final) :
    invariant final ∧ labels.length + rank final ≤ rank state := by
  have bound := @System.run_countP_le _ _ system rank invariant counted (fun _ => true) lowers
    labels state final holds all_counted ran
  rwa [List.countP_true] at bound

/-- What moves a few threads to a lower total lowers the total of all. -/
theorem sum_lt_of_moved {Thread : Type w} [Fintype Thread] [DecidableEq Thread]
    {weight weight' : Thread → ℕ} (moved : Finset Thread)
    (others : ∀ thread, thread ∉ moved → weight' thread = weight thread)
    (lower : ∑ thread ∈ moved, weight' thread < ∑ thread ∈ moved, weight thread) :
    ∑ thread, weight' thread < ∑ thread, weight thread := by
  have same : ∑ thread ∈ movedᶜ, weight' thread = ∑ thread ∈ movedᶜ, weight thread :=
    Finset.sum_congr rfl fun thread unmoved => others thread (Finset.mem_compl.mp unmoved)
  rw [← Finset.sum_add_sum_compl moved weight', ← Finset.sum_add_sum_compl moved weight, same]
  exact Nat.add_lt_add_right lower _

end Osis.Concurrency
