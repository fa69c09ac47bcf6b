import Osis.Concurrency.Ranking
import Osis.Lab04.Children

/-!
# The end of the program of lab 4

`main` never waits for the semaphores, and `SIGKILL` ends a child wherever it waits. Once `main`
has left its loop, it comes to destroy the queue after a bounded number of steps of its own, even
where a killed child has taken the mutex along and all others stand still.
-/

namespace Osis.Lab04

open Concurrency

universe u

/-- Whether `main` removes a child after its loop. -/
def Caller.final : Caller → Bool
  | .command => false
  | .removeAll final => final

theorem Caller.eq_of_final {caller : Caller} (leaving : caller.final = true) :
    caller = .removeAll true := by
  cases caller with
  | command => cases leaving
  | removeAll final => exact congrArg Caller.removeAll leaving

namespace MainPoint

variable {Process : Type u}

/-- Whether `main` has left its loop. -/
def leaving : MainPoint Process → Bool
  | .removeLast _ caller | .waitpid _ caller => caller.final
  | .removeAll final => final
  | .wait | .destroy => true
  | _ => false

/-- What a point adds to the steps that are left. -/
def weight : MainPoint Process → ℕ
  | .waitpid _ _ => 4
  | .removeAll _ => 3
  | .removeLast _ _ | .wait => 2
  | _ => 0

end MainPoint

/-- The steps that `main` takes. -/
def Label.ofMain {Process : Type u} : Label Process → Bool
  | .main | .cutShort | .reap _ => true
  | _ => false

namespace Program

section Ending

variable {Process : Type u} {state successor final : Program Process}

/-- A bound on the steps of `main` after its loop. -/
def remaining (state : Program Process) : ℕ :=
  3 * (state.producers.length + state.consumers.length) + state.children.length +
    state.main.weight

/-- What `main` has found out before it removes a child. -/
structure Removing (state : Program Process) : Prop where
  some_left : ∀ role final, state.main = .removeLast role (.removeAll final) →
    state.table role ≠ []
  killed : ∀ pid caller, state.main = .waitpid pid caller →
    state.processes.points pid = .absent

theorem Removing.elsewhere
    (removes : ∀ role final, state.main ≠ .removeLast role (.removeAll final))
    (waits : ∀ pid caller, state.main ≠ .waitpid pid caller) : Removing state where
  some_left role final removing := absurd removing (removes role final)
  killed pid caller waiting := absurd waiting (waits pid caller)

/-- A killed child leaves its array. -/
theorem length_dropLast {role : Role} (some_left : state.table role ≠ []) :
    (state.setTable (state.table role).dropLast role).producers.length +
        (state.setTable (state.table role).dropLast role).consumers.length + 1 =
      state.producers.length + state.consumers.length := by
  have positive := List.length_pos_of_ne_nil some_left
  cases role with
  | producer | consumer =>
      simp only [setTable, table, List.length_dropLast] at positive ⊢
      omega

theorem remaining_le (main : MainPoint Process) {count : ℕ}
    (lighter : main.weight + count ≤ state.main.weight) :
    ({ state with main := main } : Program Process).remaining + count ≤ state.remaining := by
  simp only [remaining]
  omega

theorem removing_target {caller : Caller} (at_target : state.main = caller.target) :
    Removing state := by
  apply Removing.elsewhere
  · intro role final
    rw [at_target]
    cases caller <;> simp [Caller.target]
  · intro pid other
    rw [at_target]
    cases caller <;> simp [Caller.target]

variable [DecidableEq Process]

theorem removing_main (taken : state.mainNext = some successor) : Removing successor := by
  unfold mainNext at taken
  split at taken
  · split at taken <;> cases taken <;> exact .elsewhere (by simp) (by simp)
  · cases taken
  · cases taken
  · cases taken
  · cases taken
    exact .elsewhere (by simp) (by simp)
  · next role caller removing =>
      cases taken
      unfold removeLast
      split
      · exact removing_target rfl
      · next pid last =>
          refine ⟨by simp, fun other caller' waiting => ?_⟩
          cases waiting
          simp [State.move]
  · unfold waitpid at taken
    split at taken
    · rcases Option.map_eq_some_iff.mp taken with ⟨reaped, -, rfl⟩
      exact removing_target rfl
    · cases taken
      exact removing_target rfl
  · split at taken
    · next producers =>
        cases taken
        refine ⟨fun role final removing => ?_, by simp⟩
        cases removing
        exact producers
    · split at taken
      · next consumers =>
          cases taken
          refine ⟨fun role final removing => ?_, by simp⟩
          cases removing
          exact consumers
      · split at taken <;> cases taken <;> exact .elsewhere (by simp) (by simp)
  · simp only [Option.ite_none_right_eq_some, Option.some.injEq] at taken
    rcases taken with ⟨-, rfl⟩
    exact .elsewhere (by simp) (by simp)

theorem removing_next {label : Label Process} (removing : Removing state)
    (taken : state.next label = some successor) : Removing successor := by
  cases label with
  | command command =>
      simp only [next] at taken
      split at taken
      · cases taken
        cases command with
        | createProducer | createConsumer =>
            simp only [execute, create]
            split <;> exact .elsewhere (by simp) (by simp)
        | _ => exact .elsewhere (by simp [execute]) (by simp [execute])
      · cases taken
  | endOfInput =>
      simp only [next] at taken
      split at taken <;> cases taken
      exact .elsewhere (by simp) (by simp)
  | fork result =>
      simp only [next] at taken
      split at taken
      · cases result with
        | none =>
            cases taken
            exact .elsewhere (by simp) (by simp)
        | some pid =>
            rcases fork_eq_some.mp taken with ⟨-, -, rfl⟩
            exact .elsewhere (by simp) (by simp)
      · cases taken
  | main => exact removing_main taken
  | cutShort =>
      simp only [next] at taken
      split at taken
      · cases taken
        exact removing_target rfl
      · cases taken
        exact .elsewhere (by simp) (by simp)
      · cases taken
  | reap pid =>
      rcases reap_eq_some.mp taken with ⟨-, -, rfl⟩
      exact ⟨removing.some_left, removing.killed⟩
  | child action =>
      rcases childNext_cases taken with ⟨processes, -, rfl, moved⟩
      refine ⟨removing.some_left, fun pid caller waiting => ?_⟩
      have dead := removing.killed pid caller waiting
      rcases moved with same | ⟨gone, -, -, rfl⟩
      · apply Point.role_eq_none.mp
        rw [same, dead]
        rfl
      · by_cases same : pid = gone
        · simp [State.move, same]
        · simpa [State.move, same] using dead
  | interrupt pid =>
      cases pid with
      | none | some _ =>
          cases taken
          exact ⟨removing.some_left, removing.killed⟩

theorem removing_of_reachable (reached : (system Process).Reachable state) : Removing state := by
  apply reached.invariant
  · rintro _ ⟨processes, -, rfl⟩
    exact .elsewhere (by simp [start]) (by simp [start])
  · intro state label successor removing _ taken
    exact removing_next removing taken

theorem remaining_reap {pid : Process} (taken : state.reap pid = some successor) :
    successor.main = state.main ∧ successor.remaining + 1 ≤ state.remaining := by
  rcases reap_eq_some.mp taken with ⟨there, -, rfl⟩
  have fewer := List.length_erase_of_mem there
  have positive := List.length_pos_of_mem there
  refine ⟨rfl, ?_⟩
  simp only [remaining]
  omega

/-- A step of `main` on its way out. -/
theorem remaining_main (removing : Removing state) (leaving : state.main.leaving = true)
    (taken : state.mainNext = some successor) :
    successor.main.leaving = true ∧ successor.remaining + 1 ≤ state.remaining := by
  unfold mainNext at taken
  split at taken
  · next testing =>
      rw [testing] at leaving
      cases leaving
  · cases taken
  · cases taken
  · cases taken
  · next recording =>
      rw [recording] at leaving
      cases leaving
  · next role caller at_main =>
      rw [at_main] at leaving
      have target := Caller.eq_of_final leaving
      subst target
      have some_left := removing.some_left role true at_main
      cases taken
      unfold removeLast
      split
      · next nobody => exact absurd (List.getLast?_eq_none_iff.mp nobody) some_left
      · next pid last =>
          have fewer := length_dropLast some_left
          refine ⟨rfl, ?_⟩
          simp only [remaining, at_main, MainPoint.weight, children_setTable]
          omega
  · next pid caller at_main =>
      rw [at_main] at leaving
      have target := Caller.eq_of_final leaving
      subst target
      unfold waitpid at taken
      split at taken
      · rcases Option.map_eq_some_iff.mp taken with ⟨reaped, done, rfl⟩
        rcases remaining_reap done with ⟨same, fewer⟩
        refine ⟨rfl, ?_⟩
        have lighter := @remaining_le _ reaped (.removeAll true) 1
          (by simp [same, at_main, MainPoint.weight])
        exact lighter.trans (by omega)
      · cases taken
        exact ⟨rfl, remaining_le _ (by simp [at_main, MainPoint.weight, Caller.target])⟩
  · next last at_main =>
      rw [at_main] at leaving
      have target : last = true := leaving
      subst target
      split at taken
      · cases taken
        exact ⟨rfl, remaining_le _ (by simp [at_main, MainPoint.weight])⟩
      · split at taken
        · cases taken
          exact ⟨rfl, remaining_le _ (by simp [at_main, MainPoint.weight])⟩
        · cases taken
          exact ⟨rfl, remaining_le _ (by simp [at_main, MainPoint.weight])⟩
  · next at_main =>
      simp only [Option.ite_none_right_eq_some, Option.some.injEq] at taken
      rcases taken with ⟨-, rfl⟩
      exact ⟨rfl, remaining_le _ (by simp [at_main, MainPoint.weight])⟩

theorem remaining_next {label : Label Process} (removing : Removing state)
    (leaving : state.main.leaving = true) (taken : state.next label = some successor) :
    successor.main.leaving = true ∧
      successor.remaining + label.ofMain.toNat ≤ state.remaining := by
  cases label with
  | command command =>
      simp only [next] at taken
      split at taken
      · next scanning =>
          rw [scanning] at leaving
          cases leaving
      · cases taken
  | endOfInput =>
      simp only [next] at taken
      split at taken
      · next scanning =>
          rw [scanning] at leaving
          cases leaving
      · cases taken
  | fork result =>
      simp only [next] at taken
      split at taken
      · next forking =>
          rw [forking] at leaving
          cases leaving
      · cases taken
  | main => exact remaining_main removing leaving taken
  | cutShort =>
      simp only [next] at taken
      split at taken
      · next pid caller at_main =>
          rw [at_main] at leaving
          have target := Caller.eq_of_final leaving
          subst target
          cases taken
          exact ⟨rfl, remaining_le _
            (by simp [at_main, MainPoint.weight, Caller.target, Label.ofMain])⟩
      · next at_main =>
          cases taken
          exact ⟨rfl, remaining_le _ (by simp [at_main, MainPoint.weight, Label.ofMain])⟩
      · cases taken
  | reap pid =>
      rcases remaining_reap taken with ⟨same, fewer⟩
      exact ⟨same ▸ leaving, fewer⟩
  | child action =>
      rcases childNext_cases taken with ⟨processes, -, rfl, -⟩
      exact ⟨leaving, Nat.le_refl _⟩
  | interrupt pid =>
      cases pid with
      | none | some _ =>
          cases taken
          exact ⟨leaving, Nat.le_refl _⟩

/-- On its way out `main` can always go on. -/
theorem goes_on (tracked : Tracked state) (removing : Removing state)
    (leaving : state.main.leaving = true) (not_yet : state.main ≠ .destroy) :
    ∃ label successor, label.ofMain = true ∧
      (system Process).next state label = some successor := by
  cases at_main : state.main with
  | test | scan | fork role | record role pid =>
      rw [at_main] at leaving
      cases leaving
  | destroy => exact absurd at_main not_yet
  | removeLast role caller =>
      exact ⟨.main, state.removeLast role caller, rfl,
        by simp only [system, next, mainNext, at_main]⟩
  | waitpid pid caller =>
      have waits : ∃ successor, state.waitpid pid caller = some successor := by
        by_cases there : pid ∈ state.children
        · have reaped := reap_eq_some.mpr ⟨there, removing.killed pid caller at_main, rfl⟩
          exact ⟨_, by rw [waitpid, if_pos there, reaped, Option.map_some]⟩
        · exact ⟨_, if_neg there⟩
      rcases waits with ⟨successor, waits⟩
      exact ⟨.main, successor, rfl, by simpa only [system, next, mainNext, at_main] using waits⟩
  | removeAll final =>
      have removes : ∃ successor, state.mainNext = some successor := by
        simp only [mainNext, at_main]
        split
        · exact ⟨_, rfl⟩
        · split
          · exact ⟨_, rfl⟩
          · split <;> exact ⟨_, rfl⟩
      rcases removes with ⟨successor, removes⟩
      exact ⟨.main, successor, rfl, removes⟩
  | wait =>
      cases children_eq : state.children with
      | nil =>
          exact ⟨.main, { state with main := .destroy }, rfl,
            by simp only [system, next, mainNext, at_main, children_eq, if_true]⟩
      | cons pid rest =>
          have there : pid ∈ state.children := children_eq ▸ List.mem_cons_self
          have dead := tracked.alone (by rw [at_main]; rfl) pid
          exact ⟨.reap pid, _, rfl, reap_eq_some.mpr ⟨there, dead, rfl⟩⟩

/-- Once it has left its loop, `main` destroys the queue after a bounded number of its own steps,
and until then it can always take one, whatever the children do. -/
theorem destroys_of_leaving {labels : List (Label Process)}
    (reached : (system Process).Reachable state) (leaving : state.main.leaving = true)
    (ran : (system Process).run state labels = some final) :
    labels.countP Label.ofMain + final.remaining ≤ state.remaining ∧
      (final.main = .destroy ∨
        ∃ label successor, label.ofMain = true ∧
          (system Process).next final label = some successor) := by
  have reached_final := reached.of_run ran
  have bound : (final.Removing ∧ final.main.leaving = true) ∧
      labels.countP Label.ofMain + final.remaining ≤ state.remaining := by
    apply System.run_countP_le ?_ ⟨removing_of_reachable reached, leaving⟩
      (fun _ _ => trivial) ran
    intro state label successor holds _ taken
    have went := remaining_next holds.1 holds.2 taken
    exact ⟨⟨removing_next holds.1 taken, went.1⟩, went.2⟩
  refine ⟨bound.2, or_iff_not_imp_left.mpr fun not_yet => ?_⟩
  exact goes_on (tracked_of_reachable reached_final) bound.1.1 bound.1.2 not_yet

end Ending

/-- A producer is removed between its two calls, a consumer comes to wait for the mutex that it has
taken along, and the user quits. -/
def quitJammed : List (Label (Fin 2)) :=
  [.main, .command .createProducer, .fork (some (.last 1)), .main, .main,
    .child (.produce (.last 1) fun n => n), .child (.step (.last 1)), .child (.step (.last 1)),
    .command .removeLastProducer, .main, .main, .main,
    .command .createConsumer, .fork (some (.last 1)), .main, .main, .child (.step (.last 1)),
    .command .quit, .main]

theorem destroys_quitJammed :
    ∃ state final, (system (Fin 2)).run (start freshState) quitJammed = some state ∧
      (∀ process, Lab04.next state.processes (.step process) = none) ∧
      (system (Fin 2)).run state (List.replicate 5 .main) = some final ∧
      5 + final.remaining ≤ state.remaining ∧ final.main = .destroy := by
  have ran : ∃ state final, (system (Fin 2)).run (start freshState) quitJammed = some state ∧
      (Lab04.next state.processes (.step 0) = none ∧
        Lab04.next state.processes (.step 1) = none) ∧
      state.main.leaving = true ∧
      (system (Fin 2)).run state (List.replicate 5 .main) = some final ∧
      final.main = .destroy := ⟨_, _, rfl, ⟨rfl, rfl⟩, rfl, rfl, rfl⟩
  rcases ran with ⟨state, final, ran, blocked, leaving, ran', destroys⟩
  have started : (system (Fin 2)).initial (start freshState) :=
    ⟨freshState, started_freshState, rfl⟩
  have reached := System.Reachable.of_run (.start started) ran
  exact ⟨state, final, ran, Fin.forall_fin_two.mpr blocked, ran',
    (destroys_of_leaving reached leaving ran').1, destroys⟩

end Program

end Osis.Lab04
