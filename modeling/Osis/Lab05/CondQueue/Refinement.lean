import Osis.Concurrency.Mutex
import Osis.Lab05.CondQueue.Steps

/-!
# The condition-variable queue refines a bounded first-in first-out buffer

The mutex is held by exactly the thread whose point lies inside a section, so
what a thread has established about the queue (`Facts`) survives the steps of
all others. The sections that put a message in, take one out or resize are then
operations of a bounded buffer; every other step leaves the queue alone.
-/

namespace Osis.Lab05.CondQueue

open Concurrency

universe u v

variable {Thread : Type v} {Message : Type u}

/-- What a thread inside a section knows about the queue at its point. -/
def Facts (shared : Shared Thread Message) : Point Message → Prop
  | .queuePush _ .check => shared.queue.count < shared.queue.capacity ∨ shared.running = false
  | .queuePush _ .insert => shared.queue.count < shared.queue.capacity
  | .queuePop .check => 0 < shared.queue.count ∨ shared.running = false
  | .queuePop .remove => 0 < shared.queue.count
  | .queueResizeDecrease .shrink => shared.queue.count < shared.queue.capacity - 1
  | _ => True

/-- The message a thread has put in with a call that has yet to return. -/
def Point.pendingPush : Point Message → List Message
  | .queuePush msg .signal => [msg]
  | .queuePush msg (.unlock code) => if code = 0 then [msg] else []
  | _ => []

/-- The slot a thread has taken out with a call that has yet to return. -/
def Point.pendingPop : Point Message → List (Option Message)
  | .queuePop (.signal msg) => [msg]
  | .queuePop (.unlock result) => result.toList
  | _ => []

/-- Outside the sections a thread claims nothing about the queue. -/
theorem facts_of_holds_eq_false {point : Point Message} (outside : point.holds = false)
    (shared : Shared Thread Message) : Facts shared point := by
  cases point with
  | idle => trivial
  | queuePush msg stage => cases stage <;> simp_all [Point.holds, Facts]
  | queuePop stage => cases stage <;> simp_all [Point.holds, Facts]
  | queueResizeIncrease stage => trivial
  | queueResizeDecrease stage => cases stage <;> simp_all [Point.holds, Facts]

/-- What a thread knows depends on the queue, and on `running` only as long as that stays. -/
theorem facts_of_queue_eq {shared shared' : Shared Thread Message} {point : Point Message}
    (sameQueue : shared'.queue = shared.queue)
    (stopped : shared.running = false → shared'.running = false)
    (facts : Facts shared point) : Facts shared' point := by
  unfold Facts at facts ⊢
  split <;> simp only [sameQueue] at facts ⊢ <;> first | exact facts.imp_right stopped | exact facts

variable [DecidableEq Thread]

/-- The logs record for every thread what its calls have returned and are about to return. -/
def Delivered (shared : Shared Thread Message) (thread : Thread) (point : Point Message) : Prop :=
  shared.pushReturned thread ++ point.pendingPush = entriesOf thread shared.pushed ∧
    shared.popReturned thread ++ point.pendingPop = entriesOf thread shared.popped

/-- What holds of a thread between the steps of a run. -/
structure Consistent (shared : Shared Thread Message) (thread : Thread) (point : Point Message) :
    Prop where
  locked : Holds shared.mutex thread point.holds
  facts : Facts shared point
  delivered : Delivered shared thread point

/-- Everything a step of a thread can do to the shared state. -/
inductive Outcome (shared : Shared Thread Message) (thread : Thread) :
    Point Message → Shared Thread Message → Point Message → Prop where
  | stay {point point' : Point Message} (sameHolds : point'.holds = point.holds)
      (facts : shared.queue.WellFormed → Facts shared point → Facts shared point')
      (samePush : point'.pendingPush = point.pendingPush)
      (samePop : point'.pendingPop = point.pendingPop) :
      Outcome shared thread point shared point'
  | acquire {point point' : Point Message} (free : shared.mutex = none)
      (outside : point.holds = false) (inside : point'.holds = true)
      (facts : ∀ other : Shared Thread Message, Facts other point')
      (samePush : point'.pendingPush = point.pendingPush)
      (samePop : point'.pendingPop = point.pendingPop) :
      Outcome shared thread point { shared with mutex := some thread } point'
  | release {point point' : Point Message} (inside : point.holds = true)
      (outside : point'.holds = false) (noPush : point'.pendingPush = [])
      (noPop : point'.pendingPop = []) :
      Outcome shared thread point
        { shared with
          mutex := none
          pushReturned := Function.update shared.pushReturned thread
            (shared.pushReturned thread ++ point.pendingPush)
          popReturned := Function.update shared.popReturned thread
            (shared.popReturned thread ++ point.pendingPop) } point'
  | insert (msg : Message) :
      Outcome shared thread (.queuePush msg .insert)
        { shared with
          queue := shared.queue.insert msg
          pushed := shared.pushed ++ [(thread, msg)] } (.queuePush msg .signal)
  | remove :
      Outcome shared thread (.queuePop .remove)
        { shared with
          queue := shared.queue.remove
          popped := shared.popped ++ [(thread, shared.queue.front)] }
        (.queuePop (.signal shared.queue.front))
  | resize {point point' : Point Message} (newcap : ℕ) (inside : point.holds = true)
      (inside' : point'.holds = true)
      (room : shared.queue.WellFormed → Facts shared point → shared.queue.count < newcap)
      (facts : ∀ other : Shared Thread Message, Facts other point')
      (samePush : point'.pendingPush = point.pendingPush)
      (samePop : point'.pendingPop = point.pendingPop) :
      Outcome shared thread point { shared with queue := shared.queue.resize newcap } point'

section Advance

variable {shared shared' : Shared Thread Message} {thread : Thread} {point point' : Point Message}
  {notice : Notice}

/-- Giving the mutex up with nothing to return. -/
theorem outcome_block (inside : point.holds = true) (outside : point'.holds = false)
    (noPush : point.pendingPush = []) (noPop : point.pendingPop = [])
    (noPush' : point'.pendingPush = []) (noPop' : point'.pendingPop = []) :
    Outcome shared thread point { shared with mutex := none } point' := by
  have released : Outcome shared thread point _ point' := .release inside outside noPush' noPop'
  simpa [noPush, noPop] using released

theorem outcome_advance (taken : advance shared thread point = some (shared', point', notice)) :
    Outcome shared thread point shared' point' := by
  cases advances_of_advance taken with
  | lock free locks =>
      cases locks with
      | push | pushAgain | pop | popAgain | increase | decrease =>
          exact .acquire free rfl rfl (fun _ => trivial) rfl rfl
  | pushWaits | popWaits | increaseReturns | decreaseReturns =>
      exact outcome_block rfl rfl rfl rfl rfl rfl
  | pushWakes | pushFails | pushSignals | popWakes | popFails | popSignals | increaseNotifies
  | decreaseFails | decreaseNotifies => exact .stay rfl (fun _ _ => trivial) rfl rfl
  | pushLeaves msg leaves =>
      refine .stay rfl (fun wellFormed _ => ?_) rfl rfl
      have := wellFormed.count_le
      simp only [not_and, Bool.not_eq_true] at leaves
      simp only [Facts]
      by_cases full : shared.queue.count = shared.queue.capacity
      · exact Or.inr (leaves full)
      · exact Or.inl (by omega)
  | pushGoesOn msg running =>
      refine .stay rfl (fun _ facts => ?_) rfl rfl
      rcases facts with room | stopped
      · exact room
      · simp [running] at stopped
  | insert msg => exact .insert msg
  | pushReturns msg code =>
      have released : Outcome shared thread (.queuePush msg (.unlock code)) _ .idle :=
        .release rfl rfl rfl rfl
      by_cases success : code = 0 <;>
        simpa [Point.pendingPush, Point.pendingPop, success] using released
  | popLeaves leaves =>
      refine .stay rfl (fun _ _ => ?_) rfl rfl
      simp only [not_and, Bool.not_eq_true] at leaves
      simp only [Facts]
      by_cases empty : shared.queue.count = 0
      · exact Or.inr (leaves empty)
      · exact Or.inl (by omega)
  | popGoesOn leaves =>
      refine .stay rfl (fun _ facts => ?_) rfl rfl
      rcases facts with nonempty | stopped
      · exact nonempty
      · simp only [stopped, Bool.false_eq_true, not_false_eq_true, true_and] at leaves
        exact Nat.pos_of_ne_zero leaves
  | remove => exact .remove
  | popReturns result =>
      have released : Outcome shared thread (.queuePop (.unlock result)) _ .idle :=
        .release rfl rfl rfl rfl
      simpa [Point.pendingPush, Point.pendingPop] using released
  | grow =>
      exact .resize _ rfl rfl (fun wellFormed _ => Nat.lt_succ_of_le wellFormed.count_le)
        (fun _ => trivial) rfl rfl
  | decreaseGoesOn room => exact .stay rfl (fun _ _ => room) rfl rfl
  | shrink => exact .resize _ rfl rfl (fun _ room => room) (fun _ => trivial) rfl rfl

end Advance

namespace Outcome

variable {shared shared' : Shared Thread Message} {thread : Thread} {point point' : Point Message}

theorem running_eq (outcome : Outcome shared thread point shared' point') :
    shared'.running = shared.running := by
  cases outcome <;> rfl

/-- Only the thread in the mutex section changes the queue. -/
theorem queue_eq (outcome : Outcome shared thread point shared' point')
    (outside : point.holds = false) : shared'.queue = shared.queue := by
  cases outcome with
  | stay | acquire | release => rfl
  | insert | remove => simp [Point.holds] at outside
  | resize newcap inside => simp [inside] at outside

theorem mutexStep (outcome : Outcome shared thread point shared' point') :
    MutexStep thread shared.mutex point.holds shared'.mutex point'.holds := by
  cases outcome with
  | stay sameHolds => exact sameHolds ▸ .keep
  | acquire free outside inside => exact inside ▸ .lock free
  | release inside outside => exact outside ▸ .unlock inside
  | insert | remove => exact .keep
  | resize newcap inside inside' => exact inside'.trans inside.symm ▸ .keep

theorem facts (outcome : Outcome shared thread point shared' point')
    (wellFormed : shared.queue.WellFormed) (before : Facts shared point) :
    Facts shared' point' := by
  cases outcome with
  | stay _ facts => exact facts wellFormed before
  | acquire _ _ _ facts => exact facts _
  | release _ outside => exact facts_of_holds_eq_false outside _
  | insert | remove => trivial
  | resize _ _ _ _ facts => exact facts _

theorem delivered (outcome : Outcome shared thread point shared' point')
    (before : Delivered shared thread point) : Delivered shared' thread point' := by
  cases outcome with
  | stay _ _ samePush samePop => simpa [Delivered, samePush, samePop] using before
  | acquire _ _ _ _ samePush samePop => simpa [Delivered, samePush, samePop] using before
  | release _ _ noPush noPop => simpa [Delivered, noPush, noPop] using before
  | insert msg => simpa [Delivered, Point.pendingPush, Point.pendingPop] using before
  | remove => simpa [Delivered, Point.pendingPush, Point.pendingPop] using before
  | resize _ _ _ _ _ samePush samePop => simpa [Delivered, samePush, samePop] using before

theorem delivered_other (outcome : Outcome shared thread point shared' point') {other : Thread}
    (different : other ≠ thread) {otherPoint : Point Message}
    (before : Delivered shared other otherPoint) : Delivered shared' other otherPoint := by
  cases outcome with
  | stay => exact before
  | acquire => exact before
  | release => simpa [Delivered, different] using before
  | insert msg => simpa [Delivered, entriesOf_append_of_ne different] using before
  | remove => simpa [Delivered, entriesOf_append_of_ne different] using before
  | resize => exact before

end Outcome

section Notify

variable (condition : Condition) (point : Point Message)

/-- A notification changes nothing a thread relies on. -/
@[simp]
theorem consistent_notify (shared : Shared Thread Message) (thread : Thread) :
    Consistent shared thread (point.notify condition) ↔ Consistent shared thread point := by
  unfold Point.notify
  split
  · constructor <;> rintro ⟨locked, facts, delivered⟩ <;> exact ⟨locked, facts, delivered⟩
  · constructor <;> rintro ⟨locked, facts, delivered⟩ <;> exact ⟨locked, facts, delivered⟩
  · rfl

/-- Notifications leave a thread where it is, up to the flag of its wait. -/
theorem deliver_cases [Fintype Thread] {points points' : Thread → Point Message}
    {woken : List Thread} {notice : Notice} (delivered : deliver points woken notice = some points')
    (thread : Thread) :
    points' thread = points thread ∨
      ∃ condition, points' thread = (points thread).notify condition := by
  cases notice with
  | silent =>
      simp only [deliver, Option.some.injEq] at delivered
      exact Or.inl (delivered ▸ rfl)
  | signal condition =>
      simp only [deliver] at delivered
      split at delivered
      · simp only [Option.some.injEq] at delivered
        subst delivered
        by_cases chosen : thread ∈ woken
        · exact Or.inr ⟨condition, by simp [chosen]⟩
        · exact Or.inl (by simp [chosen])
      · simp at delivered
  | broadcast condition =>
      simp only [deliver, Option.some.injEq] at delivered
      exact Or.inr ⟨condition, delivered ▸ rfl⟩

end Notify

/-- What the threads rely on survives a call. -/
theorem consistent_call {shared : Shared Thread Message} {thread : Thread} (call : Call Message)
    (idle : Consistent shared thread .idle) : Consistent shared thread call.entry where
  locked := by cases call <;> exact idle.locked
  facts := by cases call <;> trivial
  delivered := by cases call <;> exact idle.delivered

/-- What the other threads rely on survives a step. -/
theorem consistent_other {shared shared' : Shared Thread Message} {thread other : Thread}
    {point point' otherPoint : Point Message}
    (outcome : Outcome shared thread point shared' point') (own : Consistent shared thread point)
    (different : other ≠ thread) (before : Consistent shared other otherPoint) :
    Consistent shared' other otherPoint where
  locked := outcome.mutexStep.elsewhere own.locked different before.locked
  facts := by
    by_cases inside : otherPoint.holds = true
    · -- the other thread holds the mutex, so the stepping one is outside its sections
      have outside : point.holds = false := own.locked.exclusive (inside ▸ before.locked) different
      exact facts_of_queue_eq (outcome.queue_eq outside)
        (fun stopped => outcome.running_eq.trans stopped) before.facts
    · exact facts_of_holds_eq_false (by simpa using inside) _
  delivered := outcome.delivered_other different before.delivered

/-- The queue stands for the buffer, and the logs for the buffer's history. -/
structure Refines (state : State Thread Message) (fifo : BoundedFifo Message) : Prop where
  consistent : ∀ thread, Consistent state.shared thread (state.points thread)
  represents : state.shared.queue.Represents fifo
  pushed_eq : state.shared.pushed.map Prod.snd = fifo.inserted
  popped_eq : state.shared.popped.map Prod.snd = fifo.removed.map some

theorem refines_init :
    Refines (init : State Thread Message) (.empty initialQueueCapacity (by decide)) where
  consistent := fun _ => ⟨.of_none _, trivial, rfl, rfl⟩
  represents := Queue.represents_queueInit
  pushed_eq := rfl
  popped_eq := rfl

/-- A section is at most one operation of the bounded buffer. -/
theorem Outcome.forward {shared shared' : Shared Thread Message} {thread : Thread}
    {point point' : Point Message} {fifo : BoundedFifo Message}
    (outcome : Outcome shared thread point shared' point') (facts : Facts shared point)
    (represents : shared.queue.Represents fifo)
    (pushed_eq : shared.pushed.map Prod.snd = fifo.inserted)
    (popped_eq : shared.popped.map Prod.snd = fifo.removed.map some) :
    ∃ operations fifo',
      (BoundedFifo.system initialQueueCapacity (by decide)).run fifo operations = some fifo' ∧
      shared'.queue.Represents fifo' ∧ shared'.pushed.map Prod.snd = fifo'.inserted ∧
      shared'.popped.map Prod.snd = fifo'.removed.map some := by
  cases outcome with
  | stay => exact ⟨[], fifo, rfl, represents, pushed_eq, popped_eq⟩
  | acquire => exact ⟨[], fifo, rfl, represents, pushed_eq, popped_eq⟩
  | release => exact ⟨[], fifo, rfl, represents, pushed_eq, popped_eq⟩
  | insert msg =>
      obtain ⟨fifo', taken, represents', inserted_eq, removed_eq⟩ := represents.insert facts msg
      refine ⟨[.insert msg], fifo', by simpa [BoundedFifo.system] using taken, represents', ?_, ?_⟩
      · simp [inserted_eq, pushed_eq]
      · rw [removed_eq, popped_eq]
  | remove =>
      obtain ⟨fifo', msg, taken, represents', front_eq, inserted_eq, removed_eq⟩ :=
        represents.remove facts
      refine ⟨[.remove], fifo', by simpa [BoundedFifo.system] using taken, represents', ?_, ?_⟩
      · rw [inserted_eq, pushed_eq]
      · simp [removed_eq, popped_eq, front_eq]
  | resize newcap _ _ room =>
      obtain ⟨fifo', taken, represents', inserted_eq, removed_eq⟩ :=
        represents.resize (room represents.wellFormed facts)
      refine ⟨[.resize newcap], fifo', by simpa [BoundedFifo.system] using taken, represents',
        ?_, ?_⟩
      · rw [inserted_eq, pushed_eq]
      · rw [removed_eq, popped_eq]

section Next

variable [Fintype Thread] {state successor : State Thread Message}

/-- Every step is a call, a step of one thread inside a function, or the end of `running`. -/
theorem next_cases {action : Action Thread Message} (taken : next state action = some successor) :
    (∃ thread call, state.points thread = .idle ∧ successor =
      { state with points := Function.update state.points thread (Call.entry call) }) ∨
    (∃ thread point, Outcome state.shared thread (state.points thread) successor.shared point ∧
      ∀ other, successor.points other = Function.update state.points thread point other ∨
        ∃ condition, successor.points other =
          (Function.update state.points thread point other).notify condition) ∨
    successor = { state with shared := { state.shared with running := false } } := by
  cases action with
  | call thread call =>
      rcases called_of_next taken with ⟨idle, entered⟩
      exact Or.inl ⟨thread, call, idle, entered⟩
  | step thread woken =>
      rcases stepped_of_next taken with
        ⟨shared, point, notice, points, advanced, delivered, rfl⟩
      exact Or.inr (Or.inl ⟨thread, point, outcome_advance advanced,
        fun other => deliver_cases delivered other⟩)
  | stop =>
      simp only [next, Option.some.injEq] at taken
      exact Or.inr (Or.inr taken.symm)

/-- One step keeps all threads consistent, given that the queue is well formed. -/
theorem consistent_next {action : Action Thread Message}
    (consistent : ∀ thread, Consistent state.shared thread (state.points thread))
    (wellFormed : state.shared.queue.WellFormed) (taken : next state action = some successor)
    (other : Thread) : Consistent successor.shared other (successor.points other) := by
  rcases next_cases taken with ⟨thread, call, idle, rfl⟩ | ⟨thread, point, outcome, moved⟩ | rfl
  · by_cases same : other = thread
    · subst same
      simpa using consistent_call call (idle ▸ consistent other)
    · simpa [same] using consistent other
  · have arrived : Consistent successor.shared other
        (Function.update state.points thread point other) := by
      by_cases same : other = thread
      · subst same
        have before := consistent other
        simpa using (⟨outcome.mutexStep.own before.locked, outcome.facts wellFormed before.facts,
          outcome.delivered before.delivered⟩ : Consistent successor.shared other point)
      · simpa [same] using consistent_other outcome (consistent thread) same (consistent other)
    rcases moved other with stays | ⟨condition, notified⟩
    · exact stays ▸ arrived
    · rw [notified]
      exact (consistent_notify condition _ _ _).mpr arrived
  · have before := consistent other
    have stopped : state.shared.queue =
        ({ state.shared with running := false } : Shared Thread Message).queue := rfl
    exact ⟨before.locked, facts_of_queue_eq stopped.symm (fun _ => rfl) before.facts,
      before.delivered⟩

/-- Every reachable state stands for a state of a bounded buffer. -/
theorem refines_of_reachable (reached : (system Thread Message).Reachable state) :
    ∃ fifo, (BoundedFifo.system initialQueueCapacity (by decide)).Reachable fifo ∧
      Refines state fifo := by
  apply reached.simulation
  · rintro _ rfl
    exact ⟨_, rfl, refines_init⟩
  · intro state action successor fifo refines taken
    have consistent' := consistent_next refines.consistent refines.represents.wellFormed taken
    rcases next_cases taken with ⟨thread, call, idle, rfl⟩ | ⟨thread, point, outcome, -⟩ | rfl
    · exact ⟨[], fifo, rfl, consistent', refines.represents, refines.pushed_eq, refines.popped_eq⟩
    · obtain ⟨operations, fifo', ran, represents', pushed_eq', popped_eq'⟩ :=
        outcome.forward (refines.consistent thread).facts refines.represents refines.pushed_eq
          refines.popped_eq
      exact ⟨operations, fifo', ran, consistent', represents', pushed_eq', popped_eq'⟩
    · exact ⟨[], fifo, rfl, consistent', refines.represents, refines.pushed_eq, refines.popped_eq⟩

/-- The ring is in shape and delivers the messages in the order in which they were put in. -/
structure DeliversInOrder (state : State Thread Message) : Prop where
  capacity_pos : 1 ≤ state.shared.queue.capacity
  count_le : state.shared.queue.count ≤ state.shared.queue.capacity
  head_lt : state.shared.queue.head < state.shared.queue.capacity
  tail_lt : state.shared.queue.tail < state.shared.queue.capacity
  tail_eq : state.shared.queue.tail =
    (state.shared.queue.head + state.shared.queue.count) % state.shared.queue.capacity
  counted : (state.shared.queue.addedCount : ℤ) - state.shared.queue.removedCount =
    state.shared.queue.count
  inOrder : state.shared.popped.map Prod.snd ++ state.shared.queue.contents =
    state.shared.pushed.map fun entry => some entry.2
  /-- The log of messages put in is made of the calls that have returned 0 or are about to. -/
  pushReturned : ∀ thread, state.shared.pushReturned thread ++ (state.points thread).pendingPush =
    entriesOf thread state.shared.pushed
  /-- The log of slots taken out is made of what the calls have returned or are about to. -/
  popReturned : ∀ thread, state.shared.popReturned thread ++ (state.points thread).pendingPop =
    entriesOf thread state.shared.popped

/-- The condition-variable queue is a bounded first-in first-out buffer in every interleaving. -/
theorem deliversInOrder_of_reachable (reached : (system Thread Message).Reachable state) :
    DeliversInOrder state := by
  obtain ⟨fifo, -, refines⟩ := refines_of_reachable reached
  have wellFormed := refines.represents.wellFormed
  refine ⟨wellFormed.capacity_pos, wellFormed.count_le, wellFormed.head_lt, wellFormed.tail_lt,
    wellFormed.tail_eq, ?_, ?_, fun thread => (refines.consistent thread).delivered.1,
    fun thread => (refines.consistent thread).delivered.2⟩
  · have := wellFormed.counted
    omega
  · exact refines.represents.logged refines.pushed_eq refines.popped_eq

end Next

/-- One thread pushes a message while another waits for one and takes it. -/
def handover : List (Action Bool ℕ) :=
  [.call true .pop, .step true [], .step true [], .call false (.push 7), .step false [],
    .step false [], .step false [], .step false [], .step false [true], .step false [],
    .step true [], .step true [], .step true [], .step true [], .step true [], .step true [], .stop,
    .step true []]

theorem deliversInOrder_handover :
    ∃ state, (system Bool ℕ).run init handover = some state ∧
      state.shared.popReturned true = [some 7] ∧ DeliversInOrder state := by
  have ran : ((system Bool ℕ).run init handover).map
      (fun state => state.shared.popReturned true) = some [some 7] := by
    decide +kernel
  obtain ⟨state, ran, returned⟩ := Option.map_eq_some_iff.mp ran
  exact ⟨state, ran, returned, deliversInOrder_of_reachable
    (System.Reachable.of_run (.start rfl) ran)⟩

end Osis.Lab05.CondQueue
