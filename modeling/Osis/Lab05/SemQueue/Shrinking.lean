import Osis.Lab05.SemQueue.Accounting

/-!
# Shrinking the semaphore queue

`queue_resize_decrease` compares `count` with the new capacity under the mutex and then
waits on `sem_empty`, still under the mutex. A producer takes its slot from `sem_empty`
before it takes the mutex, so the test does not see the slots that waiting producers
have claimed. Once these and the messages make up the whole capacity, nobody can give
back a slot: the producers wait for the mutex, and its holder waits for them.
-/

namespace Osis.Lab05.SemQueue

open Concurrency

universe u v

variable {Thread : Type v} {Message : Type u}

/-- The slot of a producer that has passed `sem_wait` and waits for the mutex. -/
def Point.slotTokens : Point Message → ℕ
  | .queuePush _ .lock => 1
  | _ => 0

/-- A thread past its mutex section that has yet to `sem_post(&q->sem_empty)`. -/
def Point.pendingPost : Point Message → Bool
  | .queuePush _ (.post code) => code ≠ 0
  | .queuePop (.post result) => result.isSome
  | .queueResizeIncrease .post => true
  | _ => false

/-- A shrink at its `sem_wait`. -/
def Point.waitsForSlot : Point Message → Bool
  | .queueResizeDecrease .wait => true
  | _ => false

theorem Point.waitsForSlot_iff {point : Point Message} :
    point.waitsForSlot = true ↔ point = .queueResizeDecrease .wait := by
  unfold Point.waitsForSlot
  split
  · simp
  · next other => simpa using other

/-- A shrink that waits for a free slot finds one or has one coming. -/
def ShrinkFree (state : State Thread Message) : Prop :=
  ∀ thread, state.points thread = .queueResizeDecrease .wait → state.shared.semEmpty = 0 →
    ∃ other, (state.points other).pendingPost = true

section Advance

variable {shared shared' : Shared Thread Message} {thread : Thread} {point point' : Point Message}

/-- Outside its mutex section a thread claims a slot by a token or by a post to come. -/
theorem emptyClaims_of_outside (outside : point.holds = false)
    (settled : point.pendingPost = false) : point.emptyClaims = point.slotTokens := by
  cases point with
  | idle => rfl
  | queuePush msg stage =>
      cases stage with
      | wait | lock => rfl
      | body | unlock => simp [Point.holds] at outside
      | post code =>
          have done : code = 0 := by simpa [Point.pendingPost] using settled
          simp [Point.emptyClaims, Point.slotTokens, done]
  | queuePop stage =>
      cases stage with
      | wait | lock => rfl
      | body | unlock => simp [Point.holds] at outside
      | post result =>
          have failed : result.isSome = false := settled
          simp [Point.emptyClaims, Point.slotTokens, failed]
  | queueResizeIncrease stage =>
      cases stage with
      | lock => rfl
      | grow | unlock => simp [Point.holds] at outside
      | post => simp [Point.pendingPost] at settled
  | queueResizeDecrease stage =>
      cases stage with
      | lock => rfl
      | test | wait | shrink | unlock => simp [Point.holds] at outside

theorem slotTokens_le : point.slotTokens ≤ point.emptyClaims := by
  unfold Point.slotTokens
  split
  · exact Nat.le_refl _
  · exact Nat.zero_le _

theorem slotTokens_lt_of_pending (pending : point.pendingPost = true) :
    point.slotTokens < point.emptyClaims := by
  cases point with
  | idle => simp [Point.pendingPost] at pending
  | queuePush msg stage =>
      cases stage with
      | wait | lock | body | unlock => simp [Point.pendingPost] at pending
      | post code =>
          have failed : code ≠ 0 := by simpa [Point.pendingPost] using pending
          simp [Point.emptyClaims, Point.slotTokens, failed]
  | queuePop stage =>
      cases stage with
      | wait | lock | body | unlock => simp [Point.pendingPost] at pending
      | post result =>
          have popped : result.isSome = true := pending
          simp [Point.emptyClaims, Point.slotTokens, popped]
  | queueResizeIncrease stage =>
      cases stage with
      | lock | grow | unlock => simp [Point.pendingPost] at pending
      | post => simp [Point.emptyClaims, Point.slotTokens]
  | queueResizeDecrease stage => simp [Point.pendingPost] at pending

/-- Only a producer's `sem_wait` makes a token. -/
theorem slotTokens_of_advance (taken : advance shared thread point = some (shared', point')) :
    point'.slotTokens = 0 ∨
      ∃ msg, point = .queuePush msg .wait ∧ point' = .queuePush msg .lock := by
  cases advances_of_advance taken with
  | lock _ locks =>
      cases locks with
      | push | pop | increase | decrease => exact Or.inl rfl
  | unlock unlocks =>
      cases unlocks with
      | push | pop | increase | decrease => exact Or.inl rfl
  | claim _ claims =>
      cases claims with
      | push msg => exact Or.inr ⟨msg, rfl, rfl⟩
      | decrease => exact Or.inl rfl
  | insert | pushFails | pushPosts => exact Or.inl rfl
  | popClaims | popFails | remove | popPosts => exact Or.inl rfl
  | grow | increasePosts => exact Or.inl rfl
  | decreaseFails | decreaseGoesOn | shrink => exact Or.inl rfl

/-- Only a test that passes comes to the wait. -/
theorem wait_of_advance
    (taken : advance shared thread point = some (shared', .queueResizeDecrease .wait)) :
    point = .queueResizeDecrease .test ∧ shared' = shared ∧ 1 < shared.queue.capacity ∧
      shared.queue.count < shared.queue.capacity - 1 := by
  cases advances_of_advance taken with
  | lock _ locks => cases locks
  | unlock unlocks => cases unlocks
  | claim _ claims => cases claims
  | decreaseGoesOn large room => exact ⟨rfl, rfl, large, room⟩

end Advance

section Runs

variable [Fintype Thread] {state successor : State Thread Message}

/-- The slots claimed by producers that wait for the mutex. -/
def State.slotTokens (state : State Thread Message) : ℕ :=
  total Point.slotTokens state.points

/-- A waiting shrink is served exactly if there is room besides the claimed slots. -/
theorem Accounted.shrinkFree_iff (accounted : Accounted state) :
    ShrinkFree state ↔ ∀ thread, state.points thread = .queueResizeDecrease .wait →
      state.shared.queue.count + state.slotTokens < state.shared.queue.capacity := by
  have empty := accounted.empty
  constructor
  · intro free thread waiting
    by_contra claimed
    have tokens_le : state.slotTokens ≤ total Point.emptyClaims state.points :=
      Finset.sum_le_sum fun _ _ => slotTokens_le
    rcases free thread waiting (by omega) with ⟨other, pending⟩
    have tokens_lt : state.slotTokens < total Point.emptyClaims state.points :=
      Finset.sum_lt_sum (fun _ _ => slotTokens_le)
        ⟨other, Finset.mem_univ other, slotTokens_lt_of_pending pending⟩
    omega
  · intro room thread waiting drained
    have := room thread waiting
    by_contra none_pending
    have settled : total Point.emptyClaims state.points = state.slotTokens := by
      apply Finset.sum_congr rfl
      intro other _
      by_cases same : other = thread
      · subst same
        rw [waiting]
        rfl
      · apply emptyClaims_of_outside
        · apply (accounted.locked other).exclusive _ (Ne.symm same)
          have holder := accounted.locked thread
          rwa [waiting] at holder
        · simpa using fun pending => none_pending ⟨other, pending⟩
    omega

variable [DecidableEq Thread]

/-- A test passes, and a producer claims a slot from a waiting shrink, only if a slot is left. -/
structure LeavesSlot (state : State Thread Message) (action : Action Thread Message) : Prop where
  test : ∀ thread, action = .step thread → state.points thread = .queueResizeDecrease .test →
    state.shared.queue.count < state.shared.queue.capacity - 1 →
    state.shared.queue.count + state.slotTokens < state.shared.queue.capacity
  wait : ∀ thread msg other, action = .step thread → state.points thread = .queuePush msg .wait →
    state.points other = .queueResizeDecrease .wait → 0 < state.shared.semEmpty →
    state.shared.queue.count + state.slotTokens + 1 < state.shared.queue.capacity

omit [DecidableEq Thread] in
theorem leavesSlot_of_ne_step {action : Action Thread Message}
    (other : ∀ thread, action ≠ .step thread) : LeavesSlot state action :=
  ⟨fun thread own => absurd own (other thread), fun thread _ _ own => absurd own (other thread)⟩

/-- The test of `LeavesSlot`. -/
def leavesSlot (state : State Thread Message) : Action Thread Message → Bool
  | .step thread =>
      match state.points thread with
      | .queueResizeDecrease .test =>
          decide (state.shared.queue.count < state.shared.queue.capacity - 1 →
            state.shared.queue.count + state.slotTokens < state.shared.queue.capacity)
      | .queuePush _ .wait =>
          decide ((∃ other, (state.points other).waitsForSlot = true) → 0 < state.shared.semEmpty →
            state.shared.queue.count + state.slotTokens + 1 < state.shared.queue.capacity)
      | _ => true
  | _ => true

omit [DecidableEq Thread] in
theorem leavesSlot_of_test {action : Action Thread Message}
    (passed : leavesSlot state action = true) : LeavesSlot state action := by
  cases action with
  | call | stop => exact leavesSlot_of_ne_step (by simp)
  | step thread =>
      refine ⟨fun stepping own testing fits => ?_, fun stepping msg other own asking waiting some =>
        ?_⟩
      · cases own
        simp only [leavesSlot, testing, decide_eq_true_eq] at passed
        exact passed fits
      · cases own
        simp only [leavesSlot, asking, decide_eq_true_eq] at passed
        exact passed ⟨other, Point.waitsForSlot_iff.mpr waiting⟩ some

theorem slotTokens_move (state : State Thread Message) (shared : Shared Thread Message)
    (thread : Thread) (point : Point Message) :
    State.slotTokens ⟨shared, Function.update state.points thread point⟩ +
        (state.points thread).slotTokens = state.slotTokens + point.slotTokens :=
  total_update Point.slotTokens state.points thread point

omit [DecidableEq Thread] in
/-- A thread other than the waiting shrink leaves the queue alone. -/
theorem Accounted.queue_eq {thread other : Thread} {shared : Shared Thread Message}
    {point : Point Message} (accounted : Accounted state)
    (waiting : state.points other = .queueResizeDecrease .wait) (different : other ≠ thread)
    (taken : advance state.shared thread (state.points thread) = some (shared, point)) :
    shared.queue = state.shared.queue := by
  have outcome := outcome_advance (accounted.facts thread) (accounted.nonempty thread) taken
  have holder := accounted.locked other
  rw [waiting] at holder
  exact outcome.queue_eq ((accounted.locked thread).exclusive holder different)

theorem shrinkFree_step {thread : Thread} {shared : Shared Thread Message} {point : Point Message}
    (accounted : Accounted state)
    (accounted' : Accounted ⟨shared, Function.update state.points thread point⟩)
    (free : ShrinkFree state) (leaves : LeavesSlot state (.step thread))
    (taken : advance state.shared thread (state.points thread) = some (shared, point)) :
    ShrinkFree ⟨shared, Function.update state.points thread point⟩ := by
  rw [accounted'.shrinkFree_iff]
  intro other waiting
  have moved := slotTokens_move state shared thread point
  by_cases same : other = thread
  · subst same
    simp only [Function.update_self] at waiting
    subst waiting
    rcases wait_of_advance taken with ⟨testing, rfl, -, fits⟩
    have room := leaves.test other rfl testing fits
    rw [testing] at moved
    simp only [Point.slotTokens] at moved ⊢
    omega
  · simp only [ne_eq, same, not_false_eq_true, Function.update_of_ne] at waiting
    have room := accounted.shrinkFree_iff.mp free other waiting
    have queue_eq := accounted.queue_eq waiting same taken
    simp only [queue_eq]
    rcases slotTokens_of_advance taken with tokenless | ⟨msg, asking, rfl⟩
    · omega
    · rw [asking] at taken
      simp only [advance, queuePush, Shared.waitEmpty, Option.ite_none_right_eq_some] at taken
      have := leaves.wait thread msg other rfl asking waiting taken.1
      rw [asking] at moved
      simp only [Point.slotTokens] at moved ⊢
      omega

theorem leavesSlot_of_shrinkFree {thread : Thread} {shared : Shared Thread Message}
    {point : Point Message} (accounted : Accounted state)
    (accounted' : Accounted ⟨shared, Function.update state.points thread point⟩)
    (free : ShrinkFree ⟨shared, Function.update state.points thread point⟩)
    (taken : advance state.shared thread (state.points thread) = some (shared, point)) :
    LeavesSlot state (.step thread) := by
  have room := accounted'.shrinkFree_iff.mp free
  have moved := slotTokens_move state shared thread point
  refine ⟨fun stepping own testing fits => ?_, fun stepping msg other own asking waiting _ => ?_⟩
  · cases own
    rw [testing] at taken moved
    simp only [advance, queueResizeDecrease] at taken
    rw [if_neg (by omega), if_neg (by omega)] at taken
    simp only [Option.some.injEq, Prod.mk.injEq] at taken
    rcases taken with ⟨rfl, rfl⟩
    have := room thread (Function.update_self ..)
    simp only [Point.slotTokens] at moved this
    omega
  · cases own
    have different : other ≠ thread := by
      rintro rfl
      simp [asking] at waiting
    have queue_eq := accounted.queue_eq waiting different taken
    have := room other (by simpa [different] using waiting)
    rw [asking] at taken moved
    simp only [advance, queuePush, Shared.waitEmpty, Option.ite_none_right_eq_some,
      Option.some.injEq, Prod.mk.injEq] at taken
    rcases taken.2.2 with ⟨⟩
    simp only [Point.slotTokens, queue_eq] at moved this
    omega

theorem shrinkFree_call {thread : Thread} (call : Call Message) (accounted : Accounted state)
    (free : ShrinkFree state) (idle : state.points thread = .idle) :
    ShrinkFree { state with points := Function.update state.points thread call.entry } := by
  rw [(accounted_call call accounted idle).shrinkFree_iff]
  intro other waiting
  have tokenless : call.entry.slotTokens = 0 := by cases call <;> rfl
  have moved := slotTokens_move state state.shared thread call.entry
  have different : other ≠ thread := by
    rintro rfl
    cases call <;> simp [Call.entry] at waiting
  have room := accounted.shrinkFree_iff.mp free other (by simpa [different] using waiting)
  simp only
  omega

/-- A step keeps a shrink from hanging exactly if it leaves a slot. -/
theorem shrinkFree_next_iff {action : Action Thread Message} (accounted : Accounted state)
    (free : ShrinkFree state) (taken : next state action = some successor) :
    ShrinkFree successor ↔ LeavesSlot state action := by
  have accounted' := accounted_next accounted taken
  cases action with
  | call thread call =>
      simp only [next] at taken
      split at taken
      · next idle =>
          simp only [Option.some.injEq] at taken
          subst taken
          exact ⟨fun _ => leavesSlot_of_ne_step (by simp),
            fun _ => shrinkFree_call call accounted free idle⟩
      · simp at taken
  | step thread =>
      simp only [next, Option.map_eq_some_iff, Prod.exists] at taken
      rcases taken with ⟨shared, point, advanced, rfl⟩
      exact ⟨fun free' => leavesSlot_of_shrinkFree accounted accounted' free' advanced,
        fun leaves => shrinkFree_step accounted accounted' free leaves advanced⟩
  | stop =>
      simp only [next, Option.some.injEq] at taken
      subst taken
      exact ⟨fun _ => leavesSlot_of_ne_step (by simp), fun _ => free⟩

/-- In runs whose steps all leave a slot no shrink hangs. -/
theorem shrinkFree_of_reachable
    (reached : (system Thread Message).ReachableUnder LeavesSlot state) : ShrinkFree state := by
  have kept : Accounted state ∧ ShrinkFree state := by
    apply reached.invariant
    · rintro _ rfl
      exact ⟨accounted_init, by simp [ShrinkFree, init]⟩
    · rintro state action successor ⟨accounted, free⟩ leaves taken
      exact ⟨accounted_next accounted taken, (shrinkFree_next_iff accounted free taken).mpr leaves⟩
  exact kept.2

end Runs

/-- Two producers and the thread that resizes. -/
inductive Crew where
  | main
  | first
  | second
  deriving DecidableEq

instance : Fintype Crew where
  elems := {.main, .first, .second}
  complete member := by cases member <;> simp

/-- A shrink while one producer waits for the mutex with its slot. -/
def shrinkBesideClaim : List (Action Crew ℕ) :=
  [.call .first (.push 7), .step .first, .call .main .decrease, .step .main, .step .main,
    .step .main]

theorem shrinkFree_shrinkBesideClaim :
    ∃ state, ((system Crew ℕ).restrict leavesSlot).run init shrinkBesideClaim = some state ∧
      state.shared.semEmpty = 2 ∧ ShrinkFree state := by
  have ran : (((system Crew ℕ).restrict leavesSlot).run init shrinkBesideClaim).map
      (fun state => state.shared.semEmpty) = some 2 := by
    decide +kernel
  rcases Option.map_eq_some_iff.mp ran with ⟨state, ran, left⟩
  refine ⟨state, ran, left, shrinkFree_of_reachable ?_⟩
  have reached : (system Crew ℕ).ReachableUnder
      (fun state action => leavesSlot state action = true) state :=
    System.Reachable.of_restrict (System.Reachable.of_run (.start rfl) ran)
  exact reached.mono fun state action _ permitted => leavesSlot_of_test permitted

/-- Two producers claim both slots of a queue that is then shrunk to one. -/
def shrinkAfterClaims : List (Action Crew ℕ) :=
  [.call .main .decrease, .step .main, .step .main, .step .main, .step .main, .step .main,
    .call .main .decrease, .step .main, .step .main, .step .main, .step .main, .step .main,
    .call .first (.push 7), .step .first, .call .second (.push 8), .step .second,
    .call .main .decrease, .step .main, .step .main]

theorem not_shrinkFree_shrinkAfterClaims :
    ¬ ∀ state : State Crew ℕ, (system Crew ℕ).Reachable state → ShrinkFree state := by
  intro claimed
  have ran : ((system Crew ℕ).run init shrinkAfterClaims).map (fun state =>
      ((state.points .main).waitsForSlot, state.shared.semEmpty,
        decide (∃ other, (state.points other).pendingPost = true))) =
          some (true, 0, false) := by
    decide +kernel
  rcases Option.map_eq_some_iff.mp ran with ⟨state, ran, found⟩
  simp only [Prod.mk.injEq, decide_eq_false_iff_not] at found
  rcases found with ⟨waiting, drained, none_pending⟩
  apply none_pending
  exact claimed state (System.Reachable.of_run (.start rfl) ran) .main
    (Point.waitsForSlot_iff.mp waiting) drained

end Osis.Lab05.SemQueue
