import Osis.Lab06.Exclusive

/-!
# The result of the workers does not depend on the schedule

Records that compare equal are equal, so the sorted rearrangement of a chunk is
unique, and every schedule that lets all workers return ends with it.
-/

namespace Osis.Lab06

open Concurrency Memory

universe u

variable {Time : Type u} [LinearOrder Time] {config : Config}

theorem eq_of_inOrder {a b : IndexS Time} (first : inOrder a b = true)
    (second : inOrder b a = true) : a = b := by
  rw [inOrder_iff] at first second
  rcases first with first | ⟨sameTime, first⟩
  · rcases second with second | ⟨second, -⟩
    · exact absurd (first.trans second) (lt_irrefl _)
    · exact absurd first (second ▸ lt_irrefl _)
  · rcases second with second | ⟨-, second⟩
    · exact absurd second (sameTime ▸ lt_irrefl _)
    · obtain ⟨time, recno⟩ := a
      obtain ⟨time', recno'⟩ := b
      exact congrArg₂ IndexS.mk sameTime (UInt64.le_antisymm first second)

/-- A sorted rearrangement is what `qsort` leaves. -/
theorem eq_qsort_of_perm {records rearranged : List (IndexS Time)}
    (permuted : rearranged.Perm records) (sorted : Sorted rearranged) :
    rearranged = qsort records :=
  List.Perm.eq_of_pairwise (fun _ _ _ _ => eq_of_inOrder) sorted (sorted_qsort records)
    (permuted.trans (List.mergeSort_perm records inOrder).symm)

/-- Every schedule in which all workers return sorts the records of the chunk. -/
theorem qsort_of_returned {original : ℕ → IndexS Time} {state : State config Time}
    (reached : (system config original).Reachable state)
    (returned : ∀ thread, state.points thread = .returned) :
    (slice state.shared.base 0 (config.blocks * config.per)).Perm
        (slice original 0 (config.blocks * config.per)) ∧
      Sorted (slice state.shared.base 0 (config.blocks * config.per)) ∧
      slice state.shared.base 0 (config.blocks * config.per) =
        qsort (slice original 0 (config.blocks * config.per)) := by
  have chunk := sortedChunk_of_returned reached returned
  exact ⟨chunk.perm, chunk.sorted, eq_qsort_of_perm chunk.perm chunk.sorted⟩

theorem solo_blocks_eq : 4 = 2 ^ 2 := by decide

theorem solo_room : 4 * 1 ≤ 4 := by decide

/-- One worker and four blocks. -/
def soloConfig (per : ℕ) : Config := ⟨1, 4, per, 2, Nat.one_pos, solo_blocks_eq, solo_room⟩

/-- The one worker of `soloConfig`. -/
def soloThread (per : ℕ) : Fin (soloConfig per).threads := ⟨0, Nat.one_pos⟩

theorem eq_soloThread {per : ℕ} (thread : Fin (soloConfig per).threads) :
    thread = soloThread per :=
  Fin.ext (Nat.lt_one_iff.mp thread.isLt)

theorem exists_eq_duoThread (thread : Fin duoConfig.threads) :
    ∃ second, thread = duoThread second := by
  rcases Nat.lt_or_ge thread.val 1 with first | second
  · exact ⟨false, Fin.ext (Nat.lt_one_iff.mp first)⟩
  · exact ⟨true, Fin.ext (Nat.le_antisymm (Nat.le_of_lt_succ thread.isLt) second)⟩

/-- The two workers take turns; at the end the second does not wait for the first. -/
def duoTurns : List (Fin duoConfig.threads) :=
  (List.replicate 37 [duoThread false, duoThread true]).flatten ++
    [duoThread true, duoThread true, duoThread false, duoThread true]

/-- Two workers sort eight falling records. -/
theorem qsort_duo :
    ∃ state, (system duoConfig fun k => (⟨7 - k, 0⟩ : IndexS ℕ)).run
        (init duoConfig fun k => ⟨7 - k, 0⟩) duoTurns = some state ∧
      Sorted (slice state.shared.base 0 8) ∧
      slice state.shared.base 0 8 = qsort (slice (fun k => ⟨7 - k, 0⟩) 0 8) := by
  have ran : ((system duoConfig fun k => (⟨7 - k, 0⟩ : IndexS ℕ)).run
      (init duoConfig fun k => ⟨7 - k, 0⟩) duoTurns).map
        (fun state => (state.points (duoThread false), state.points (duoThread true))) =
      some (.returned, .returned) := by
    rfl
  obtain ⟨state, ran, returned⟩ := Option.map_eq_some_iff.mp ran
  simp only [Prod.mk.injEq] at returned
  have all_returned : ∀ thread, state.points thread = .returned := by
    intro thread
    rcases exists_eq_duoThread thread with ⟨second, rfl⟩
    cases second with
    | false => exact returned.1
    | true => exact returned.2
  exact ⟨state, ran,
    (qsort_of_returned (System.Reachable.of_run (.start rfl) ran) all_returned).2⟩

end Osis.Lab06
