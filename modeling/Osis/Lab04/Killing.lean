import Osis.Lab04.Delivery

/-!
# Killing workers of lab 4

`remove_last_producer` and `remove_last_consumer` send `SIGKILL`, which a child cannot
put off until it has given back what it took: the operations of `queue_push` and
`queue_pop` do not set `SEM_UNDO`. A child killed between its two `semop` calls takes
the mutex with it (`not_usable_of_killed_inside`). Kills at every other point leave the
semaphores and `free_slots` in agreement whenever no section is open.
-/

namespace Osis.Lab04

open Concurrency

universe u

variable {Process : Type u}

/-- `queue_init` has returned with the semaphores as it sets up a new set, and no child exists. -/
structure Started (state : State Process) : Prop where
  queueInit : ∃ (ipc ipc' : Ipc) (fails : SystemCall → Bool) (newId : ℤ) (set : SemaphoreSet),
    ipc.queueInit fails newId = (ipc', true) ∧ ipc'.segment = some state.shared.queue ∧
      ipc'.semaphores = some set ∧ set.values = state.shared.semaphores
  semaphores : state.shared.semaphores = ![maxQueueSize, 0, 1]
  occupied : state.shared.occupied = fun _ => false
  pushed : state.shared.pushed = []
  popped : state.shared.popped = []
  mismatches : state.shared.mismatches = []
  points : state.points = fun _ => .absent

/-- All interleavings of the given processes on a queue whose semaphores agree with it. -/
def startedSystem (Process : Type u) [DecidableEq Process] :
    System (State Process) (Action Process) where
  initial := Started
  next := next

/-- The semaphores and `free_slots` agree with the counters. -/
structure Usable (shared : Shared Process) : Prop where
  mutex : shared.semaphores 2 = 1
  empty : (shared.semaphores 0 : ℤ) = shared.queue.freeSlots.toInt
  full : (shared.semaphores 1 : ℤ) = maxQueueSize - shared.queue.freeSlots.toInt
  freeSlots_eq : shared.queue.freeSlots = Int32.ofNat maxQueueSize -
    (shared.queue.addedCount - shared.queue.removedCount)

/-- Whenever no live process is between its two `semop` calls, the queue is usable. -/
def UsableOutside (state : State Process) : Prop :=
  (∀ process, (state.points process).inside = false) → Usable state.shared

section Init

/-- `queue_init` resets the queue whether it creates the set of semaphores or finds one. -/
theorem reset_attach {ipc ipc' : Ipc} {fails : SystemCall → Bool} {newId : ℤ} {queue : Queue}
    (returned : ipc.attach fails newId = (ipc', true)) (segment : ipc'.segment = some queue) :
    queue.reset = queue := by
  unfold Ipc.attach at returned
  split at returned
  · simp at returned
  · split at returned
    · simp at returned
    · simp only [Prod.mk.injEq, and_true] at returned
      subst returned
      cases Option.some.inj segment
      rfl
    · split at returned
      · simp at returned
      · split at returned
        · simp at returned
        · simp only [Prod.mk.injEq, and_true] at returned
          subst returned
          cases Option.some.inj segment
          rfl

theorem reset_queueInit {ipc ipc' : Ipc} {fails : SystemCall → Bool} {newId : ℤ} {queue : Queue}
    (returned : ipc.queueInit fails newId = (ipc', true)) (segment : ipc'.segment = some queue) :
    queue.reset = queue := by
  unfold Ipc.queueInit at returned
  split at returned
  · split at returned
    · simp at returned
    · exact reset_attach returned segment
  · split at returned
    · simp at returned
    · split at returned
      · simp at returned
      · exact reset_attach returned segment

theorem Started.freshlyInitialised {state : State Process} (started : Started state) :
    FreshlyInitialised state.shared.queue state.shared.semaphores := by
  rcases started.queueInit with ⟨ipc, ipc', fails, newId, set, returned, segment, -, -⟩
  have reset := reset_queueInit returned segment
  constructor
  · rw [← reset]
    rfl
  · rw [← reset]
    rfl
  · rw [← reset]
    rfl
  · rw [← reset]
    rfl
  · rw [← reset]
    rfl
  · exact started.semaphores

theorem Started.consistent {state : State Process} (started : Started state) :
    Consistent state none := by
  have init := started.freshlyInitialised
  refine ⟨fun process => ?_, ?_, fun process => ?_⟩
  · rw [started.points]
    exact .of_none process
  · exact follows_of_fresh init started.occupied started.pushed started.popped started.mismatches
  · rw [started.points]
    trivial

end Init

/-- With nothing outstanding the queue is usable. -/
theorem Follows.usable {shared : Shared Process} (follows : Follows {} shared) :
    Usable shared := by
  have empty := follows.empty
  have full := follows.full
  have free := follows.free
  have added := follows.added
  have removed := follows.removed
  simp only [maxQueueSize] at empty full free added removed
  have bounded : shared.semaphores 0 ≤ 10 := by omega
  have freeSlots_eq : shared.queue.freeSlots = Int32.ofNat (shared.semaphores 0) := by
    have counted : Int32.ofNat (shared.semaphores 0) + Int32.ofNat shared.pushed.length =
        Int32.ofNat 10 + Int32.ofNat shared.popped.length := by
      rw [← Int32.ofNat_add, ← Int32.ofNat_add]
      congr 1
    grind
  have toInt_eq : shared.queue.freeSlots.toInt = shared.semaphores 0 := by
    rw [freeSlots_eq]
    exact Int32.toInt_ofNat_of_lt (by omega)
  refine ⟨?_, ?_, ?_, ?_⟩
  · exact follows.mutex
  · exact toInt_eq.symm
  · rw [toInt_eq]
    simp only [maxQueueSize]
    omega
  · simp only [maxQueueSize]
    grind

theorem Consistent.usableOutside {state : State Process} {holder : Option Process}
    (consistent : Consistent state holder) : UsableOutside state := by
  intro outside
  have settled : state.lagOf holder = {} := by
    cases holder with
    | none => rfl
    | some process => exact lag_of_outside (outside process)
  exact (settled ▸ consistent.follows).usable

/-- The test of `KillsOutside`. -/
def killsOutside (state : State Process) : Action Process → Bool
  | .kill process => !(state.points process).inside
  | _ => true

theorem killsOutside_iff {state : State Process} {action : Action Process} :
    killsOutside state action = true ↔ KillsOutside state action := by
  cases action with
  | kill process => simp [killsOutside, KillsOutside]
  | fork | produce | step | leave => simp [killsOutside, KillsOutside]

section Runs

variable [DecidableEq Process] {state successor : State Process} {holder : Option Process}

/-- A process killed between its two `semop` calls leaves nobody inside and the mutex taken. -/
theorem not_usable_of_killed_inside {process : Process} (consistent : Consistent state holder)
    (inside : (state.points process).inside = true)
    (taken : next state (.kill process) = some successor) : ¬ UsableOutside successor := by
  intro usable
  simp only [next, Option.some.injEq] at taken
  subst taken
  have holder_eq : holder = some process := (inside ▸ consistent.holds process).mp rfl
  have outside : ∀ other, ((state.move process .absent).points other).inside = false := by
    intro other
    by_cases same : other = process
    · subst same
      simp [State.move, Point.inside]
    · have elsewhere := (consistent.holds other).exclusive (inside ▸ consistent.holds process)
        (Ne.symm same)
      simpa [State.move, same] using elsewhere
  have free := (usable outside).mutex
  have mutex := consistent.follows.mutex
  rw [holder_eq] at mutex
  simp only [State.lagOf, Option.elim_some, locked_of_inside inside] at mutex
  simp only [State.move] at free
  omega

/-- With every kill outside the sections, the queue is usable whenever no section is open. -/
theorem usableOutside_of_reachable
    (reached : (startedSystem Process).ReachableUnder KillsOutside state) :
    UsableOutside state := by
  have consistent : ∃ holder, Consistent state holder := by
    apply reached.invariant
    · intro state started
      exact ⟨none, started.consistent⟩
    · rintro state action successor ⟨holder, consistent⟩ permitted taken
      exact consistent.next permitted taken
  rcases consistent with ⟨holder, consistent⟩
  exact consistent.usableOutside

end Runs

theorem started_freshState : Started freshState where
  queueInit := ⟨⟨none, none⟩, _, fun _ => false, 0, _, rfl, rfl, rfl, rfl⟩
  semaphores := rfl
  occupied := rfl
  pushed := rfl
  popped := rfl
  mismatches := rfl
  points := rfl

/-- A producer has pushed a message and is killed in its `sleep`. -/
def killedAsleep : List (Action (Fin 2)) :=
  [.fork (.last 1) .producer, .produce (.last 1) fun n => n, .step (.last 1), .step (.last 1),
    .step (.last 1), .step (.last 1), .step (.last 1), .step (.last 1), .kill (.last 1)]

theorem usableOutside_killedAsleep :
    ∃ state, ((startedSystem (Fin 2)).restrict killsOutside).run freshState killedAsleep =
        some state ∧
      state.shared.queue.addedCount = 1 ∧ UsableOutside state := by
  have ran : (((startedSystem (Fin 2)).restrict killsOutside).run freshState killedAsleep).map
      (fun state => state.shared.queue.addedCount) = some 1 := by
    decide +kernel
  rcases Option.map_eq_some_iff.mp ran with ⟨state, ran, added⟩
  refine ⟨state, ran, added, usableOutside_of_reachable ?_⟩
  have reached : (startedSystem (Fin 2)).ReachableUnder
      (fun state action => killsOutside state action = true) state :=
    System.Reachable.of_restrict (System.Reachable.of_run (.start started_freshState) ran)
  exact reached.mono fun state action _ permitted => killsOutside_iff.mp permitted

/-- A producer is killed once it has copied its message. -/
def killedInside : List (Action (Fin 2)) :=
  [.fork (.last 1) .producer, .produce (.last 1) fun n => n, .step (.last 1), .step (.last 1),
    .kill (.last 1)]

theorem not_usableOutside_killedInside :
    ¬ ∀ state : State (Fin 2), (startedSystem (Fin 2)).Reachable state → UsableOutside state := by
  intro claimed
  have ran : ((startedSystem (Fin 2)).run freshState killedInside).map (fun state =>
      ((state.points 0).inside, (state.points 1).inside, state.shared.semaphores 2)) =
        some (false, false, 0) := by
    decide +kernel
  rcases Option.map_eq_some_iff.mp ran with ⟨state, ran, found⟩
  simp only [Prod.mk.injEq] at found
  have usable := claimed state (System.Reachable.of_run (.start started_freshState) ran)
  have mutex := (usable (Fin.forall_fin_two.mpr ⟨found.1, found.2.1⟩)).mutex
  omega

end Osis.Lab04
