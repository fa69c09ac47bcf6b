import Osis.Lab05.SemQueue.Shrinking

/-!
# When the semaphore queue stands still

A thread inside a queue function is blocked at a semaphore of value 0 or at the mutex of
another one. While nobody shrinks the queue, blocked producers and blocked consumers never
keep each other waiting: all of them are producers before a full queue, or consumers before
an empty one. Only a shrink, which waits while it holds the mutex, can block everybody.
-/

namespace Osis.Lab05.SemQueue

open Concurrency

universe u v

variable {Thread : Type v} {Message : Type u}

/-- The points from which a thread does not go on. -/
inductive Blocked (shared : Shared Thread Message) : Point Message → Prop where
  | idle : Blocked shared .idle
  | push (msg : Message) (taken : shared.semEmpty = 0) : Blocked shared (.queuePush msg .wait)
  | pop (taken : shared.semFull = 0) : Blocked shared (.queuePop .wait)
  | shrink (taken : shared.semEmpty = 0) : Blocked shared (.queueResizeDecrease .wait)
  | lock {point target : Point Message} (held : shared.mutex ≠ none) (locks : Locks point target) :
      Blocked shared point

/-- Some thread is inside a call, and none goes on. -/
def Stuck [DecidableEq Thread] (state : State Thread Message) : Prop :=
  (∃ thread, state.points thread ≠ .idle) ∧ ∀ thread, next state (.step thread) = none

/-- Producers wait for the consumers that are to come. -/
structure AllPushing (state : State Thread Message) : Prop where
  full : state.shared.queue.count = state.shared.queue.capacity
  some_waits : ∃ thread msg, state.points thread = .queuePush msg .wait
  others : ∀ thread, state.points thread = .idle ∨
    ∃ msg, state.points thread = .queuePush msg .wait

/-- Consumers wait for the producers that are to come. -/
structure AllPopping (state : State Thread Message) : Prop where
  empty : state.shared.queue.count = 0
  some_waits : ∃ thread, state.points thread = .queuePop .wait
  others : ∀ thread, state.points thread = .idle ∨ state.points thread = .queuePop .wait

/-- The points at which a thread waits for a semaphore, or for the mutex of a waiting shrink. -/
inductive AtWait : Point Message → Prop where
  | idle : AtWait .idle
  | push (msg : Message) : AtWait (.queuePush msg .wait)
  | pop : AtWait (.queuePop .wait)
  | shrink : AtWait (.queueResizeDecrease .wait)
  | lock {point target : Point Message} (locks : Locks point target) : AtWait point

/-- A shrink waits for a slot, and all slots are filled or claimed by producers that wait for it. -/
structure UnderShrink [Fintype Thread] (state : State Thread Message) : Prop where
  shrinks : ∃ thread, state.points thread = .queueResizeDecrease .wait
  claimed : state.shared.queue.count + state.slotTokens = state.shared.queue.capacity
  others : ∀ thread, AtWait (state.points thread)
  pops : ∀ thread, state.points thread = .queuePop .wait → state.shared.semFull = 0

section Points

variable {shared : Shared Thread Message} {thread : Thread} {point : Point Message}

theorem blocked_of_lock {target : Point Message} (locks : Locks point target)
    (stays : shared.lock thread target = none) : Blocked shared point := by
  simp only [Shared.lock, ite_eq_right_iff, reduceCtorEq, imp_false] at stays
  exact .lock stays locks

/-- Where the semaphores and the mutex leave a thread blocked. -/
theorem blocked_of_advance (stays : advance shared thread point = none) :
    Blocked shared point := by
  cases point with
  | idle => exact .idle
  | queuePush msg stage =>
      cases stage with
      | wait =>
          simp only [advance, queuePush, Shared.waitEmpty, ite_eq_right_iff, reduceCtorEq,
            imp_false, Nat.not_lt, Nat.le_zero] at stays
          exact .push msg stays
      | lock => exact blocked_of_lock (.push msg) stays
      | body =>
          simp only [advance, queuePush] at stays
          split at stays <;> contradiction
      | unlock | post => simp [advance, queuePush, Shared.unlock] at stays
  | queuePop stage =>
      cases stage with
      | wait =>
          simp only [advance, queuePop, Shared.waitFull, ite_eq_right_iff, reduceCtorEq,
            imp_false, Nat.not_lt, Nat.le_zero] at stays
          exact .pop stays
      | lock => exact blocked_of_lock .pop stays
      | body =>
          simp only [advance, queuePop] at stays
          split at stays <;> contradiction
      | unlock | post => simp [advance, queuePop, Shared.unlock] at stays
  | queueResizeIncrease stage =>
      cases stage with
      | lock => exact blocked_of_lock .increase stays
      | grow | unlock | post => simp [advance, queueResizeIncrease, Shared.unlock] at stays
  | queueResizeDecrease stage =>
      cases stage with
      | lock => exact blocked_of_lock .decrease stays
      | test =>
          simp only [advance, queueResizeDecrease] at stays
          split at stays
          · contradiction
          · split at stays <;> contradiction
      | wait =>
          simp only [advance, queueResizeDecrease, Shared.waitEmpty, ite_eq_right_iff,
            reduceCtorEq, imp_false, Nat.not_lt, Nat.le_zero] at stays
          exact .shrink stays
      | shrink | unlock => simp [advance, queueResizeDecrease, Shared.unlock] at stays

theorem Blocked.advance_eq (blocked : Blocked shared point) :
    advance shared thread point = none := by
  cases blocked with
  | idle => rfl
  | push msg taken => simp [advance, queuePush, Shared.waitEmpty, taken]
  | pop taken => simp [advance, queuePop, Shared.waitFull, taken]
  | shrink taken => simp [advance, queueResizeDecrease, Shared.waitEmpty, taken]
  | lock held locks => cases locks <;> exact if_neg held

theorem Blocked.atWait (blocked : Blocked shared point) : AtWait point := by
  cases blocked with
  | idle => exact .idle
  | push msg => exact .push msg
  | pop => exact .pop
  | shrink => exact .shrink
  | lock _ locks => exact .lock locks

/-- A waiting thread holds no claim but the slot of a producer. -/
theorem AtWait.emptyClaims (waits : AtWait point) : point.emptyClaims = point.slotTokens := by
  cases waits with
  | idle | push | pop | shrink => rfl
  | lock locks => cases locks <;> rfl

/-- Of the waiting threads only a shrink holds the mutex. -/
theorem AtWait.holds (waits : AtWait point) (holding : point.holds = true) :
    point = .queueResizeDecrease .wait := by
  cases waits with
  | idle | push | pop => exact absurd holding Bool.false_ne_true
  | shrink => rfl
  | lock locks => cases locks <;> exact absurd holding Bool.false_ne_true

end Points

section Runs

variable [DecidableEq Thread] {state : State Thread Message}

theorem next_step_eq_none_iff {thread : Thread} :
    next state (.step thread) = none ↔ Blocked state.shared (state.points thread) := by
  simp only [next, Option.map_eq_none_iff]
  exact ⟨blocked_of_advance, Blocked.advance_eq⟩

theorem Stuck.blocked (stuck : Stuck state) (thread : Thread) :
    Blocked state.shared (state.points thread) :=
  next_step_eq_none_iff.mp (stuck.2 thread)

variable [Fintype Thread]

/-- Under the mutex of a waiting shrink all slots are spoken for. -/
theorem underShrink_of_stuck (accounted : Accounted state) (stuck : Stuck state) {shrinker : Thread}
    (shrinks : state.points shrinker = .queueResizeDecrease .wait) : UnderShrink state := by
  have taken : state.shared.semEmpty = 0 := by
    have blocked := stuck.blocked shrinker
    rw [shrinks] at blocked
    cases blocked with
    | shrink taken => exact taken
    | lock _ locks => cases locks
  have claims : total Point.emptyClaims state.points = state.slotTokens :=
    Finset.sum_congr rfl fun thread _ => (stuck.blocked thread).atWait.emptyClaims
  have empty := accounted.empty
  refine ⟨⟨shrinker, shrinks⟩, by omega, fun thread => (stuck.blocked thread).atWait, ?_⟩
  intro thread pops
  have blocked := stuck.blocked thread
  rw [pops] at blocked
  cases blocked with
  | pop taken => exact taken
  | lock _ locks => cases locks

/-- Without a waiting shrink nobody holds the mutex, and the semaphores are exact. -/
theorem semaphores_of_stuck (accounted : Accounted state) (stuck : Stuck state)
    (none_shrinks : ∀ thread, state.points thread ≠ .queueResizeDecrease .wait) :
    (∀ thread, state.points thread = .idle ∨ (∃ msg, state.points thread = .queuePush msg .wait) ∨
      state.points thread = .queuePop .wait) ∧
    state.shared.semEmpty + state.shared.queue.count = state.shared.queue.capacity ∧
    state.shared.semFull = state.shared.queue.count := by
  have free : state.shared.mutex = none := by
    by_contra held
    rcases Option.ne_none_iff_exists'.mp held with ⟨holder, mutex_eq⟩
    have holding := (accounted.locked holder).mpr mutex_eq
    exact none_shrinks holder ((stuck.blocked holder).atWait.holds holding)
  have places : ∀ thread, state.points thread = .idle ∨
      (∃ msg, state.points thread = .queuePush msg .wait) ∨
      state.points thread = .queuePop .wait := by
    intro thread
    have blocked := stuck.blocked thread
    have elsewhere := none_shrinks thread
    generalize state.points thread = point at blocked elsewhere
    cases blocked with
    | idle => exact .inl rfl
    | push msg => exact .inr (.inl ⟨msg, rfl⟩)
    | pop => exact .inr (.inr rfl)
    | shrink => exact absurd rfl elsewhere
    | lock held => exact absurd free held
  have unclaimed : total Point.emptyClaims state.points = 0 ∧
      total Point.fullClaims state.points = 0 := by
    constructor
    · apply total_eq_zero
      intro thread
      rcases places thread with place | ⟨msg, place⟩ | place <;> rw [place] <;> rfl
    · apply total_eq_zero
      intro thread
      rcases places thread with place | ⟨msg, place⟩ | place <;> rw [place] <;> rfl
  have empty := accounted.empty
  have full := accounted.full
  exact ⟨places, by omega, by omega⟩

/-- Producers that wait before a full queue, with no consumer beside them, or the reverse. -/
theorem allPushing_or_allPopping (accounted : Accounted state) (stuck : Stuck state)
    (positive : 0 < state.shared.queue.capacity)
    (none_shrinks : ∀ thread, state.points thread ≠ .queueResizeDecrease .wait) :
    AllPushing state ∨ AllPopping state := by
  rcases semaphores_of_stuck accounted stuck none_shrinks with ⟨places, empty, full⟩
  by_cases some_pushes : ∃ thread msg, state.points thread = .queuePush msg .wait
  · rcases some_pushes with ⟨pusher, msg, pushes⟩
    have taken : state.shared.semEmpty = 0 := by
      have blocked := stuck.blocked pusher
      rw [pushes] at blocked
      cases blocked with
      | push _ taken => exact taken
      | lock _ locks => cases locks
    refine .inl ⟨by omega, ⟨pusher, msg, pushes⟩, fun thread => ?_⟩
    rcases places thread with idle | pushes | pops
    · exact .inl idle
    · exact .inr pushes
    · have blocked := stuck.blocked thread
      rw [pops] at blocked
      cases blocked with
      | pop taken => omega
      | lock _ locks => cases locks
  · have none_pushes : ∀ thread, state.points thread = .idle ∨
        state.points thread = .queuePop .wait := by
      intro thread
      rcases places thread with idle | pushes | pops
      · exact .inl idle
      · exact absurd ⟨thread, pushes⟩ some_pushes
      · exact .inr pops
    rcases stuck.1 with ⟨popper, busy⟩
    have pops := (none_pushes popper).resolve_left busy
    have blocked := stuck.blocked popper
    rw [pops] at blocked
    refine .inr ⟨?_, ⟨popper, pops⟩, none_pushes⟩
    cases blocked with
    | pop taken => omega
    | lock _ locks => cases locks

theorem stuck_of_underShrink (accounted : Accounted state) (under : UnderShrink state) :
    Stuck state := by
  rcases under.shrinks with ⟨shrinker, shrinks⟩
  have claims : total Point.emptyClaims state.points = state.slotTokens :=
    Finset.sum_congr rfl fun thread _ => (under.others thread).emptyClaims
  have empty := accounted.empty
  have claimed := under.claimed
  have taken : state.shared.semEmpty = 0 := by omega
  have held : state.shared.mutex ≠ none := by
    have holder := (accounted.locked shrinker).mp (by rw [shrinks]; rfl)
    simp [holder]
  refine ⟨⟨shrinker, by simp [shrinks]⟩, fun thread => next_step_eq_none_iff.mpr ?_⟩
  have pops := under.pops thread
  have waits := under.others thread
  generalize state.points thread = point at pops waits
  cases waits with
  | idle => exact .idle
  | push msg => exact .push msg taken
  | pop => exact .pop (pops rfl)
  | shrink => exact .shrink taken
  | lock locks => exact .lock held locks

theorem stuck_of_allPushing (accounted : Accounted state) (pushing : AllPushing state) :
    Stuck state := by
  rcases pushing.some_waits with ⟨pusher, msg, pushes⟩
  have empty := accounted.empty
  have full := pushing.full
  refine ⟨⟨pusher, by simp [pushes]⟩, fun thread => next_step_eq_none_iff.mpr ?_⟩
  rcases pushing.others thread with idle | ⟨msg, waits⟩
  · rw [idle]
    exact .idle
  · rw [waits]
    exact .push msg (by omega)

theorem stuck_of_allPopping (accounted : Accounted state) (popping : AllPopping state) :
    Stuck state := by
  rcases popping.some_waits with ⟨popper, pops⟩
  have full := accounted.full
  have empty := popping.empty
  refine ⟨⟨popper, by simp [pops]⟩, fun thread => next_step_eq_none_iff.mpr ?_⟩
  rcases popping.others thread with idle | waits
  · rw [idle]
    exact .idle
  · rw [waits]
    exact .pop (by omega)

end Runs

end Osis.Lab05.SemQueue
