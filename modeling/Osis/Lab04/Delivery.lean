import Osis.Concurrency.Mutex
import Osis.Lab04.Processes

/-!
# Delivery through the shared-memory queue

The process that holds semaphore 2 is the only one whose updates of the indices,
counters and semaphores lag behind the messages it has copied. The invariant
counts these lags (`Lag`): with them, the ring indices are the numbers of messages
pushed and popped modulo `MAX_QUEUE_SIZE`, and message `k` lies in slot
`k % MAX_QUEUE_SIZE` from its copy in to its copy out.
-/

namespace Osis.Lab04

open Concurrency

universe u

variable {Process : Type u}

/-- The points between the two `semop` calls of a push or a pop. -/
def Point.inside : Point → Bool
  | .queuePush _ .lock => false
  | .queuePush _ _ => true
  | .queuePop .lock => false
  | .queuePop _ => true
  | _ => false

/-- What the updates of a process still lack. -/
structure Lag where
  locked : ℕ := 0
  tail : ℕ := 0
  added : ℕ := 0
  taken : ℕ := 0
  head : ℕ := 0
  removed : ℕ := 0
  freed : ℕ := 0
  empty : ℕ := 0
  full : ℕ := 0

/-- The updates still to come from a point. -/
def Point.lag : Point → Lag
  | .queuePush _ .copy => { locked := 1, empty := 1 }
  | .queuePush _ .tail => { locked := 1, full := 1, tail := 1, added := 1, taken := 1 }
  | .queuePush _ .added => { locked := 1, full := 1, added := 1, taken := 1 }
  | .queuePush _ .free => { locked := 1, full := 1, taken := 1 }
  | .queuePush _ .finish => { locked := 1, full := 1 }
  | .queuePop .copy => { locked := 1, full := 1 }
  | .queuePop (.head _) => { locked := 1, empty := 1, head := 1, removed := 1, freed := 1 }
  | .queuePop (.removed _) => { locked := 1, empty := 1, removed := 1, freed := 1 }
  | .queuePop (.free _) => { locked := 1, empty := 1, freed := 1 }
  | .queuePop (.finish _) => { locked := 1, empty := 1 }
  | _ => {}

/-- A message that carries its own hash. -/
def Message.Intact (msg : Message) : Prop :=
  msg.calculateHash = msg.hash

/-- The message a process is about to push or has popped carries its hash. -/
def Point.Intact : Point → Prop
  | .queuePush msg _ => msg.Intact
  | .queuePop (.head msg) | .queuePop (.removed msg) | .queuePop (.free msg)
  | .queuePop (.finish msg) | .checkHash msg => msg.Intact
  | _ => True

/-- The shared state up to the lag of the process inside. -/
structure Follows (lag : Lag) (shared : Shared Process) : Prop where
  tail_lt : shared.queue.tail < maxQueueSize
  tail : (shared.queue.tail + lag.tail) % maxQueueSize = shared.pushed.length % maxQueueSize
  head_lt : shared.queue.head < maxQueueSize
  head : (shared.queue.head + lag.head) % maxQueueSize = shared.popped.length % maxQueueSize
  added : shared.queue.addedCount + Int32.ofNat lag.added = Int32.ofNat shared.pushed.length
  removed : shared.queue.removedCount + Int32.ofNat lag.removed =
    Int32.ofNat shared.popped.length
  free : shared.queue.freeSlots + Int32.ofNat shared.pushed.length + Int32.ofNat lag.freed =
    Int32.ofNat maxQueueSize + Int32.ofNat shared.popped.length + Int32.ofNat lag.taken
  empty : shared.semaphores 0 + lag.empty + shared.pushed.length =
    maxQueueSize + shared.popped.length
  full : shared.semaphores 1 + lag.full + shared.popped.length = shared.pushed.length
  mutex : shared.semaphores 2 + lag.locked = 1
  stored : ∀ k, shared.popped.length ≤ k → k < shared.pushed.length →
    shared.pushed[k]? = some (shared.queue.buffer (k % maxQueueSize))
  occupied : ∀ slot, shared.occupied slot = true ↔
    ∃ k, shared.popped.length ≤ k ∧ k < shared.pushed.length ∧ k % maxQueueSize = slot
  inOrder : shared.popped <+: shared.pushed
  intact : ∀ msg ∈ shared.pushed, msg.Intact
  matched : shared.mismatches = []

theorem follows_of_fresh {shared : Shared Process}
    (init : FreshlyInitialised shared.queue shared.semaphores)
    (occupied : shared.occupied = fun _ => false) (pushed : shared.pushed = [])
    (popped : shared.popped = []) (mismatches : shared.mismatches = []) : Follows {} shared := by
  constructor <;>
    simp [init.head_eq, init.tail_eq, init.addedCount_eq, init.removedCount_eq,
      init.freeSlots_eq, init.semaphores_eq, pushed, popped, occupied, mismatches, maxQueueSize]

theorem follows_of_initial {state : State Process} (initial : Initial state) :
    Follows {} state.shared := by
  rcases initial.queueInit with
    ⟨ipc, ipc', fails, newId, set, fresh, returned, segment, semaphores, values⟩
  have init := freshlyInitialised_queueInit fresh returned segment semaphores
  rw [values] at init
  exact follows_of_fresh init initial.occupied initial.pushed initial.popped initial.mismatches

section Steps

variable {shared shared' : Shared Process} {process : Process} {point point' : Point}

/-- What a `semop` of the queue does to the three values. -/
theorem semop_cases {ops : List (SemBuf (Fin 3))}
    (taken : shared.semop ops point = some (shared', point')) :
    ∃ values, Concurrency.semop shared.semaphores ops = some values ∧
      shared' = { shared with semaphores := values } ∧ point' = point := by
  simp only [Shared.semop, Option.map_eq_some_iff, Prod.mk.injEq] at taken
  obtain ⟨values, done, rfl, rfl⟩ := taken
  exact ⟨values, done, rfl, rfl⟩

theorem follows_semop_opsPush {target : Point} (follows : Follows {} shared)
    (taken : shared.semop opsPush target = some (shared', point')) :
    Follows { locked := 1, empty := 1 } shared' := by
  obtain ⟨values, done, rfl, -⟩ := semop_cases taken
  obtain ⟨positive, free, rfl⟩ := (semop_take_eq_some (by decide)).mp done
  have empty := follows.empty
  have mutex := follows.mutex
  simp only at empty mutex
  exact { follows with
    empty := by
      simp
      omega
    full := follows.full
    mutex := by
      simp
      omega }

theorem follows_semop_opsPop {target : Point} (follows : Follows {} shared)
    (taken : shared.semop opsPop target = some (shared', point')) :
    Follows { locked := 1, full := 1 } shared' := by
  obtain ⟨values, done, rfl, -⟩ := semop_cases taken
  obtain ⟨positive, free, rfl⟩ := (semop_take_eq_some (by decide)).mp done
  have full := follows.full
  have mutex := follows.mutex
  simp only at full mutex
  exact { follows with
    empty := follows.empty
    full := by
      simp
      omega
    mutex := by
      simp
      omega }

theorem follows_semop_opsPushFinish {target : Point}
    (follows : Follows { locked := 1, full := 1 } shared)
    (taken : shared.semop opsPushFinish target = some (shared', point')) :
    Follows {} shared' := by
  obtain ⟨values, done, rfl, -⟩ := semop_cases taken
  obtain rfl := Option.some.inj (done.symm.trans (semop_give (by decide)))
  have full := follows.full
  have mutex := follows.mutex
  simp only at full mutex
  exact { follows with
    empty := follows.empty
    full := by
      simp
      omega
    mutex := by
      simp
      omega }

theorem follows_semop_opsPopFinish {target : Point}
    (follows : Follows { locked := 1, empty := 1 } shared)
    (taken : shared.semop opsPopFinish target = some (shared', point')) :
    Follows {} shared' := by
  obtain ⟨values, done, rfl, -⟩ := semop_cases taken
  obtain rfl := Option.some.inj (done.symm.trans (semop_give (by decide)))
  have empty := follows.empty
  have mutex := follows.mutex
  simp only at empty mutex
  exact { follows with
    empty := by
      simp
      omega
    full := follows.full
    mutex := by
      simp
      omega }

/-- The copy of `queue_push` goes into a slot that no undelivered message lies in. -/
theorem follows_copyIn {msg : Message} (follows : Follows { locked := 1, empty := 1 } shared)
    (intact : msg.Intact) :
    Follows { locked := 1, full := 1, tail := 1, added := 1, taken := 1 }
      { shared with
        queue := { shared.queue with
          buffer := Function.update shared.queue.buffer shared.queue.tail msg }
        occupied := Function.update shared.occupied shared.queue.tail true
        pushed := shared.pushed ++ [msg] } := by
  have tail := follows.tail
  have tail_lt := follows.tail_lt
  have empty := follows.empty
  have full := follows.full
  have added := follows.added
  have free := follows.free
  simp only [maxQueueSize] at tail tail_lt empty full
  have tail_eq : shared.queue.tail = shared.pushed.length % maxQueueSize := by
    simp only [maxQueueSize]
    omega
  have elsewhere : ∀ k, shared.popped.length ≤ k → k < shared.pushed.length →
      k % maxQueueSize ≠ shared.queue.tail := by
    intro k lower upper
    simp only [maxQueueSize]
    omega
  exact {
    tail_lt := follows.tail_lt
    tail := by
      simp only [List.length_append, List.length_cons, List.length_nil, maxQueueSize]
      omega
    head_lt := follows.head_lt
    head := follows.head
    added := by
      simp only [List.length_append, List.length_cons, List.length_nil, Int32.ofNat_add] at added ⊢
      grind
    removed := follows.removed
    free := by
      simp only [List.length_append, List.length_cons, List.length_nil, Int32.ofNat_add] at free ⊢
      grind
    empty := by
      simp only [List.length_append, List.length_cons, List.length_nil, maxQueueSize]
      omega
    full := by
      simp only [List.length_append, List.length_cons, List.length_nil]
      omega
    mutex := follows.mutex
    stored := by
      intro k lower upper
      simp only [List.length_append, List.length_cons, List.length_nil] at lower upper ⊢
      rcases Nat.lt_succ_iff_lt_or_eq.mp upper with older | rfl
      · rw [List.getElem?_append_left older, follows.stored k lower older,
          Function.update_of_ne (elsewhere k lower older)]
      · simp [tail_eq]
    occupied := by
      intro slot
      simp only [List.length_append, List.length_cons, List.length_nil, Function.update_apply]
      split
      · next same =>
          subst same
          simp only [true_iff]
          exact ⟨shared.pushed.length, by omega, by omega, tail_eq.symm⟩
      · next different =>
          rw [follows.occupied]
          constructor
          · rintro ⟨k, lower, upper, at_slot⟩
            exact ⟨k, lower, by omega, at_slot⟩
          · rintro ⟨k, lower, upper, at_slot⟩
            refine ⟨k, lower, ?_, at_slot⟩
            by_contra last
            have : k = shared.pushed.length := by omega
            subst this
            exact different (by rw [← at_slot, tail_eq])
    inOrder := follows.inOrder.trans (List.prefix_append _ _)
    intact := by
      intro message message_mem
      rcases List.mem_append.mp message_mem with old | new
      · exact follows.intact message old
      · rw [List.mem_singleton.mp new]
        exact intact
    matched := follows.matched }

/-- The copy of `queue_pop` reads the oldest undelivered message. -/
theorem front_eq {lag : Lag} (follows : Follows lag shared) (settled : lag.head = 0)
    (nonempty : shared.popped.length < shared.pushed.length) :
    shared.queue.head = shared.popped.length % maxQueueSize ∧
      shared.pushed[shared.popped.length]? = some (shared.queue.buffer shared.queue.head) := by
  have head_eq : shared.queue.head = shared.popped.length % maxQueueSize := by
    have head := follows.head
    rwa [settled, Nat.add_zero, Nat.mod_eq_of_lt follows.head_lt] at head
  refine ⟨head_eq, ?_⟩
  rw [head_eq]
  exact follows.stored _ (Nat.le_refl _) nonempty

theorem follows_copyOut (follows : Follows { locked := 1, full := 1 } shared) :
    Follows { locked := 1, empty := 1, head := 1, removed := 1, freed := 1 }
      { shared with
        occupied := Function.update shared.occupied shared.queue.head false
        popped := shared.popped ++ [shared.queue.buffer shared.queue.head] } := by
  have head := follows.head
  have head_lt := follows.head_lt
  have empty := follows.empty
  have full := follows.full
  have removed := follows.removed
  have free := follows.free
  simp only [maxQueueSize] at head head_lt empty full
  obtain ⟨head_eq, front⟩ := front_eq follows rfl (by omega)
  exact {
    tail_lt := follows.tail_lt
    tail := follows.tail
    head_lt := follows.head_lt
    head := by
      simp only [List.length_append, List.length_cons, List.length_nil, maxQueueSize]
      omega
    added := follows.added
    removed := by
      simp only [List.length_append, List.length_cons, List.length_nil,
        Int32.ofNat_add] at removed ⊢
      grind
    free := by
      simp only [List.length_append, List.length_cons, List.length_nil, Int32.ofNat_add] at free ⊢
      grind
    empty := by
      simp only [List.length_append, List.length_cons, List.length_nil, maxQueueSize]
      omega
    full := by
      simp only [List.length_append, List.length_cons, List.length_nil]
      omega
    mutex := follows.mutex
    stored := by
      intro k lower upper
      simp only [List.length_append, List.length_cons, List.length_nil] at lower
      exact follows.stored k (by omega) upper
    occupied := by
      intro slot
      simp only [List.length_append, List.length_cons, List.length_nil, Function.update_apply]
      split
      · next same =>
          simp only [Bool.false_eq_true, false_iff, not_exists]
          rintro k ⟨lower, upper, at_slot⟩
          simp only [maxQueueSize] at at_slot head_eq
          omega
      · next different =>
          rw [follows.occupied]
          constructor
          · rintro ⟨k, lower, upper, at_slot⟩
            refine ⟨k, ?_, upper, at_slot⟩
            by_contra first
            have : k = shared.popped.length := by omega
            subst this
            exact different (by rw [← at_slot, head_eq])
          · rintro ⟨k, lower, upper, at_slot⟩
            exact ⟨k, by omega, upper, at_slot⟩
    inOrder := by
      obtain ⟨rest, split⟩ := follows.inOrder
      rw [← split, List.getElem?_append_right (Nat.le_refl _), Nat.sub_self] at front
      cases rest with
      | nil => simp at front
      | cons msg rest =>
          simp only [List.getElem?_cons_zero, Option.some.injEq] at front
          exact ⟨rest, by simpa [← front] using split⟩
    intact := follows.intact
    matched := follows.matched }

/-- A message copied out carries its hash. -/
theorem intact_front (follows : Follows { locked := 1, full := 1 } shared) :
    (shared.queue.buffer shared.queue.head).Intact := by
  have full := follows.full
  simp only at full
  obtain ⟨-, front⟩ := front_eq follows rfl (by omega)
  exact follows.intact _ (List.mem_of_getElem? front)

/-- Every step of `queue_push` catches up with one part of the lag. -/
theorem follows_queuePush {msg : Message} {stage : PushStage}
    (follows : Follows (Point.queuePush msg stage).lag shared) (intact : msg.Intact)
    (taken : queuePush shared msg stage = some (shared', point')) :
    Follows point'.lag shared' ∧ point'.Intact := by
  cases stage with
  | lock =>
      obtain ⟨-, -, -, rfl⟩ := semop_cases taken
      exact ⟨follows_semop_opsPush follows taken, intact⟩
  | copy =>
      simp only [queuePush, Option.some.injEq, Prod.mk.injEq] at taken
      obtain ⟨rfl, rfl⟩ := taken
      exact ⟨follows_copyIn follows intact, intact⟩
  | tail =>
      simp only [queuePush, Shared.update, Option.some.injEq, Prod.mk.injEq] at taken
      obtain ⟨rfl, rfl⟩ := taken
      exact ⟨{ follows with
        tail_lt := Nat.mod_lt _ (by decide)
        tail := by simpa [Point.lag] using follows.tail }, intact⟩
  | added =>
      simp only [queuePush, Shared.update, Option.some.injEq, Prod.mk.injEq] at taken
      obtain ⟨rfl, rfl⟩ := taken
      exact ⟨{ follows with
        added := by simpa [Point.lag] using follows.added }, intact⟩
  | free =>
      simp only [queuePush, Shared.update, Option.some.injEq, Prod.mk.injEq] at taken
      obtain ⟨rfl, rfl⟩ := taken
      have free := follows.free
      exact ⟨{ follows with
        free := by
          simp only [Point.lag] at free ⊢
          grind }, intact⟩
  | finish =>
      obtain ⟨-, -, -, rfl⟩ := semop_cases taken
      exact ⟨follows_semop_opsPushFinish follows taken, trivial⟩

/-- Every step of `queue_pop` catches up with one part of the lag. -/
theorem follows_queuePop {stage : PopStage}
    (follows : Follows (Point.queuePop stage).lag shared) (intact : (Point.queuePop stage).Intact)
    (taken : queuePop shared stage = some (shared', point')) :
    Follows point'.lag shared' ∧ point'.Intact := by
  cases stage with
  | lock =>
      obtain ⟨-, -, -, rfl⟩ := semop_cases taken
      exact ⟨follows_semop_opsPop follows taken, trivial⟩
  | copy =>
      simp only [queuePop, Option.some.injEq, Prod.mk.injEq] at taken
      obtain ⟨rfl, rfl⟩ := taken
      exact ⟨follows_copyOut follows, intact_front follows⟩
  | head outMsg =>
      simp only [queuePop, Shared.update, Option.some.injEq, Prod.mk.injEq] at taken
      obtain ⟨rfl, rfl⟩ := taken
      exact ⟨{ follows with
        head_lt := Nat.mod_lt _ (by decide)
        head := by simpa [Point.lag] using follows.head }, intact⟩
  | removed outMsg =>
      simp only [queuePop, Shared.update, Option.some.injEq, Prod.mk.injEq] at taken
      obtain ⟨rfl, rfl⟩ := taken
      exact ⟨{ follows with
        removed := by simpa [Point.lag] using follows.removed }, intact⟩
  | free outMsg =>
      simp only [queuePop, Shared.update, Option.some.injEq, Prod.mk.injEq] at taken
      obtain ⟨rfl, rfl⟩ := taken
      have free := follows.free
      exact ⟨{ follows with
        free := by
          simp only [Point.lag] at free ⊢
          grind }, intact⟩
  | finish outMsg =>
      obtain ⟨-, -, -, rfl⟩ := semop_cases taken
      exact ⟨follows_semop_opsPopFinish follows taken, intact⟩

/-- A message that carries its hash takes `consumer_task` past the mismatch branch. -/
theorem checkHash_of_intact {msg : Message} (intact : msg.Intact) :
    checkHash shared process msg = shared :=
  if_pos intact

theorem follows_advance (follows : Follows point.lag shared) (intact : point.Intact)
    (taken : advance shared process point = some (shared', point')) :
    Follows point'.lag shared' ∧ point'.Intact := by
  cases point with
  | absent | producerTask => simp [advance] at taken
  | queuePush msg stage => exact follows_queuePush follows intact taken
  | consumerTask =>
      simp only [advance, Option.some.injEq, Prod.mk.injEq] at taken
      obtain ⟨rfl, rfl⟩ := taken
      exact ⟨follows, trivial⟩
  | queuePop stage => exact follows_queuePop follows intact taken
  | checkHash msg =>
      simp only [advance, Option.some.injEq, Prod.mk.injEq] at taken
      obtain ⟨rfl, rfl⟩ := taken
      rw [checkHash_of_intact intact]
      exact ⟨follows, trivial⟩

theorem lag_of_outside (outside : point.inside = false) : point.lag = {} := by
  cases point with
  | absent | producerTask | consumerTask | checkHash => rfl
  | queuePush msg stage => cases stage <;> first | rfl | simp [Point.inside] at outside
  | queuePop stage => cases stage <;> first | rfl | simp [Point.inside] at outside

theorem locked_of_inside (inside : point.inside = true) : point.lag.locked = 1 := by
  cases point with
  | absent | producerTask | consumerTask | checkHash => simp [Point.inside] at inside
  | queuePush msg stage => cases stage <;> first | rfl | simp [Point.inside] at inside
  | queuePop stage => cases stage <;> first | rfl | simp [Point.inside] at inside

/-- A process outside stays outside and changes nothing shared, or has found semaphore 2 free. -/
theorem advance_outside (outside : point.inside = false) (intact : point.Intact)
    (taken : advance shared process point = some (shared', point')) :
    (point'.inside = false ∧ point'.Intact ∧ shared' = shared) ∨
      (point'.inside = true ∧ 0 < shared.semaphores 2) := by
  cases point with
  | absent | producerTask => simp [advance] at taken
  | queuePush msg stage =>
      cases stage with
      | lock =>
          obtain ⟨values, done, -, rfl⟩ := semop_cases taken
          exact Or.inr ⟨rfl, ((semop_take_eq_some (by decide)).mp done).2.1⟩
      | copy | tail | added | free | finish => simp [Point.inside] at outside
  | consumerTask =>
      simp only [advance, Option.some.injEq, Prod.mk.injEq] at taken
      obtain ⟨rfl, rfl⟩ := taken
      exact Or.inl ⟨rfl, trivial, rfl⟩
  | queuePop stage =>
      cases stage with
      | lock =>
          obtain ⟨values, done, -, rfl⟩ := semop_cases taken
          exact Or.inr ⟨rfl, ((semop_take_eq_some (by decide)).mp done).2.1⟩
      | copy | head | removed | free | finish => simp [Point.inside] at outside
  | checkHash msg =>
      simp only [advance, Option.some.injEq, Prod.mk.injEq] at taken
      obtain ⟨rfl, rfl⟩ := taken
      exact Or.inl ⟨rfl, trivial, checkHash_of_intact intact⟩

/-- The slot a push writes holds no undelivered message. -/
theorem slot_empty_of_follows
    (follows : Follows { locked := 1, empty := 1 } shared) :
    shared.occupied shared.queue.tail = false := by
  by_contra occupied
  obtain ⟨k, lower, upper, at_slot⟩ :=
    (follows.occupied shared.queue.tail).mp (by simpa using occupied)
  have tail := follows.tail
  have tail_lt := follows.tail_lt
  have empty := follows.empty
  simp only [maxQueueSize] at tail tail_lt empty at_slot
  omega

/-- The slot a pop reads holds an undelivered message. -/
theorem slot_occupied_of_follows
    (follows : Follows { locked := 1, full := 1 } shared) :
    shared.occupied shared.queue.head = true := by
  have full := follows.full
  simp only at full
  obtain ⟨head_eq, -⟩ := front_eq follows rfl (by omega)
  exact (follows.occupied _).mpr ⟨shared.popped.length, Nat.le_refl _, by omega, head_eq.symm⟩

end Steps

section Runs

variable [DecidableEq Process] {state successor : State Process}

/-- What is outstanding when a given process, if any, is inside. -/
def State.lagOf (state : State Process) (holder : Option Process) : Lag :=
  holder.elim {} fun process => (state.points process).lag

/-- At most one process is inside, and the shared state follows up to its lag. -/
structure Consistent (state : State Process) (holder : Option Process) : Prop where
  holds : ∀ process, Holds holder process (state.points process).inside
  follows : Follows (state.lagOf holder) state.shared
  intact : ∀ process, (state.points process).Intact

/-- A process that stays outside leaves everything consistent. -/
theorem Consistent.move {holder : Option Process} {process : Process} {point : Point}
    (consistent : Consistent state holder) (outside : (state.points process).inside = false)
    (outside' : point.inside = false) (intact : point.Intact) :
    Consistent (state.move process point) holder := by
  refine ⟨fun other => ?_, ?_, fun other => ?_⟩
  · by_cases same : other = process
    · subst same
      simpa [State.move, outside', outside] using consistent.holds other
    · simpa [State.move, same] using consistent.holds other
  · cases holder with
    | none => exact consistent.follows
    | some holder =>
        have different : holder ≠ process := by
          rintro rfl
          simpa [outside, Holds] using consistent.holds holder
        simpa [State.lagOf, State.move, different] using consistent.follows
  · by_cases same : other = process
    · subst same
      simpa [State.move] using intact
    · simpa [State.move, same] using consistent.intact other

/-- A step of the process inside, or of one that has found the queue free. -/
theorem Consistent.progress {holder holder' : Option Process} {process : Process}
    {shared : Shared Process} {point : Point} (consistent : Consistent state holder)
    (lag_eq : state.lagOf holder = (state.points process).lag)
    (mutexStep : MutexStep process holder (state.points process).inside holder' point.inside)
    (holder_eq : holder' = none ∧ point.inside = false ∨ holder' = some process)
    (taken : advance state.shared process (state.points process) = some (shared, point)) :
    Consistent ⟨shared, Function.update state.points process point⟩ holder' := by
  obtain ⟨follows, intact⟩ :=
    follows_advance (lag_eq ▸ consistent.follows) (consistent.intact process) taken
  refine ⟨fun other => ?_, ?_, fun other => ?_⟩
  · by_cases same : other = process
    · subst same
      simpa using mutexStep.own (consistent.holds other)
    · simpa [same] using
        mutexStep.elsewhere (consistent.holds process) same (consistent.holds other)
  · rcases holder_eq with ⟨rfl, outside⟩ | rfl
    · rwa [lag_of_outside outside] at follows
    · simpa [State.lagOf] using follows
  · by_cases same : other = process
    · subst same
      simpa using intact
    · simpa [same] using consistent.intact other

theorem Consistent.step {holder : Option Process} {process : Process} {shared : Shared Process}
    {point : Point} (consistent : Consistent state holder)
    (taken : advance state.shared process (state.points process) = some (shared, point)) :
    ∃ holder', Consistent ⟨shared, Function.update state.points process point⟩ holder' := by
  have own := consistent.holds process
  cases inside : (state.points process).inside with
  | true =>
      have holder_eq : holder = some process := (inside ▸ own).mp rfl
      have lag_eq : state.lagOf holder = (state.points process).lag := by
        rw [holder_eq]
        rfl
      cases inside' : point.inside with
      | true =>
          exact ⟨holder, consistent.progress lag_eq (by rw [inside, inside']; exact .keep)
            (Or.inr holder_eq) taken⟩
      | false =>
          exact ⟨none, consistent.progress lag_eq (by rw [inside']; exact .unlock inside)
            (Or.inl ⟨rfl, inside'⟩) taken⟩
  | false =>
      rcases advance_outside inside (consistent.intact process) taken with
        ⟨outside', intact, rfl⟩ | ⟨inside', free⟩
      · exact ⟨holder, consistent.move inside outside' intact⟩
      · have holder_eq : holder = none := by
          cases holder with
          | none => rfl
          | some other =>
              have locked := locked_of_inside ((consistent.holds other).mpr rfl)
              have mutex := consistent.follows.mutex
              simp only [State.lagOf, Option.elim_some, locked] at mutex
              omega
        have lag_eq : state.lagOf holder = (state.points process).lag := by
          rw [holder_eq, lag_of_outside inside]
          rfl
        exact ⟨some process, consistent.progress lag_eq
          (by rw [inside']; exact .lock holder_eq) (Or.inr rfl) taken⟩

/-- Children are killed, if at all, outside the two `semop` calls of a push or a pop. -/
def KillsOutside (state : State Process) (action : Action Process) : Prop :=
  ∀ process, action = .kill process → (state.points process).inside = false

theorem Consistent.next {holder : Option Process} {action : Action Process}
    (consistent : Consistent state holder) (permitted : KillsOutside state action)
    (taken : next state action = some successor) : ∃ holder', Consistent successor holder' := by
  cases action with
  | fork process role =>
      simp only [Lab04.next] at taken
      split at taken
      · next absent =>
          simp only [Option.some.injEq] at taken
          subst taken
          exact ⟨holder, consistent.move (by rw [absent]; rfl) (by cases role <;> rfl)
            (by cases role <;> trivial)⟩
      · simp at taken
  | produce process rand =>
      simp only [Lab04.next] at taken
      split at taken
      · next looping =>
          simp only [Option.some.injEq] at taken
          subst taken
          exact ⟨holder, consistent.move (by rw [looping]; rfl) rfl
            (Message.calculateHash_produce rand)⟩
      · simp at taken
  | step process =>
      simp only [Lab04.next, Option.map_eq_some_iff, Prod.exists] at taken
      obtain ⟨shared, point, advanced, rfl⟩ := taken
      exact consistent.step advanced
  | leave process =>
      simp only [Lab04.next] at taken
      split at taken
      · next looping =>
          simp only [Option.some.injEq] at taken
          subst taken
          exact ⟨holder, consistent.move (by rw [looping]; rfl) rfl trivial⟩
      · next looping =>
          simp only [Option.some.injEq] at taken
          subst taken
          exact ⟨holder, consistent.move (by rw [looping]; rfl) rfl trivial⟩
      · simp at taken
  | kill process =>
      simp only [Lab04.next, Option.some.injEq] at taken
      subst taken
      exact ⟨holder, consistent.move (permitted process rfl) rfl trivial⟩

theorem consistent_of_reachable
    (reached : (system Process).ReachableUnder KillsOutside state) :
    ∃ holder, Consistent state holder := by
  apply reached.invariant
  · intro state initial
    refine ⟨none, fun process => ?_, follows_of_initial initial, fun process => ?_⟩
    · rw [initial.points]
      exact .of_none process
    · rw [initial.points]
      trivial
  · rintro state action successor ⟨holder, consistent⟩ permitted taken
    exact consistent.next permitted taken

/-- Each message is delivered once, intact and in order. -/
structure Delivers (state : State Process) : Prop where
  exclusive : ∀ process other, (state.points process).inside = true →
    (state.points other).inside = true → process = other
  slot_empty : ∀ process msg, state.points process = .queuePush msg .copy →
    state.shared.queue.tail < maxQueueSize ∧
      state.shared.occupied state.shared.queue.tail = false
  slot_occupied : ∀ process, state.points process = .queuePop .copy →
    state.shared.queue.head < maxQueueSize ∧
      state.shared.occupied state.shared.queue.head = true
  freeSlots_eq : (∀ process, (state.points process).inside = false) →
    state.shared.queue.freeSlots = Int32.ofNat maxQueueSize -
      (state.shared.queue.addedCount - state.shared.queue.removedCount)
  inOrder : state.shared.popped <+: state.shared.pushed
  matched : state.shared.mismatches = []

theorem Consistent.delivers {holder : Option Process} (consistent : Consistent state holder) :
    Delivers state := by
  have lag_of : ∀ process, (state.points process).inside = true →
      Follows (state.points process).lag state.shared := by
    intro process inside
    have holder_eq : holder = some process := (inside ▸ consistent.holds process).mp rfl
    have follows := consistent.follows
    rwa [holder_eq] at follows
  refine ⟨fun process other inside inside' => ?_, fun process msg copying => ?_,
    fun process copying => ?_, fun outside => ?_, consistent.follows.inOrder,
    consistent.follows.matched⟩
  · by_contra different
    have outside := (consistent.holds other).exclusive (inside ▸ consistent.holds process) different
    simp [inside'] at outside
  · have follows := lag_of process (by rw [copying]; rfl)
    rw [copying] at follows
    exact ⟨follows.tail_lt, slot_empty_of_follows follows⟩
  · have follows := lag_of process (by rw [copying]; rfl)
    rw [copying] at follows
    exact ⟨follows.head_lt, slot_occupied_of_follows follows⟩
  · have settled : state.lagOf holder = {} := by
      cases holder with
      | none => rfl
      | some process => exact lag_of_outside (outside process)
    have follows := settled ▸ consistent.follows
    have added := follows.added
    have removed := follows.removed
    have free := follows.free
    simp only at added removed free
    grind

/-- With no process killed, every interleaving delivers each message once, intact, in order. -/
theorem delivers_of_reachable
    (reached : (system Process).ReachableUnder (fun _ action => ∀ process, action ≠ .kill process)
      state) :
    Delivers state := by
  have outside : (system Process).ReachableUnder KillsOutside state :=
    reached.mono fun _ _ _ alive process killed => absurd killed (alive process)
  obtain ⟨holder, consistent⟩ := consistent_of_reachable outside
  exact consistent.delivers

end Runs

/-- What `queue_init` leaves when no IPC object exists. -/
def freshState : State (Fin 2) where
  shared :=
    { queue := Queue.zero.reset
      semaphores := ![maxQueueSize, 0, 1]
      occupied := fun _ => false
      pushed := []
      popped := []
      mismatches := [] }
  points := fun _ => .absent

theorem initial_freshState : Initial freshState where
  queueInit := ⟨⟨none, none⟩, _, fun _ => false, 0, _, rfl, rfl, rfl, rfl, rfl⟩
  occupied := rfl
  pushed := rfl
  popped := rfl
  mismatches := rfl
  points := rfl

/-- A consumer waits, a producer pushes a message, and the consumer takes it. -/
def handover : List (Action (Fin 2)) :=
  [.fork 0 .producer, .fork 1 .consumer, .step 1, .produce 0 fun n => n, .step 0, .step 0,
    .step 0, .step 0, .step 0, .step 0, .step 1, .step 1, .step 1, .step 1, .step 1, .step 1,
    .step 1]

theorem delivers_handover :
    ∃ state, (system (Fin 2)).run freshState handover = some state ∧
      state.shared.popped.length = 1 ∧ Delivers state := by
  have ran : ((system (Fin 2)).run freshState handover).map
      (fun state => state.shared.popped.length) = some 1 := by
    decide +kernel
  obtain ⟨state, ran, popped⟩ := Option.map_eq_some_iff.mp ran
  exact ⟨state, ran, popped, delivers_of_reachable
    (System.ReachableUnder.of_run (.start initial_freshState) (by simp [handover]) ran)⟩

end Osis.Lab04
