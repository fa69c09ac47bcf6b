import Osis.Concurrency.Mutex
import Osis.Lab05.SemQueue.Steps

/-!
# Semaphore accounting

Each semaphore together with the claims in the hands of threads adds up: free
slots to `capacity - count`, messages to `count`. A thread that holds a claim on
a free slot therefore finds room, and one that holds a claim on a message finds
a message, whatever happens between its `sem_wait` and its mutex section.
-/

namespace Osis.Lab05.SemQueue

open Concurrency

universe u v

variable {Thread : Type v} {Message : Type u}

/-- The points at which a thread holds the mutex. -/
def Point.holds : Point Message → Bool
  | .queuePush _ .body | .queuePush _ (.unlock _) => true
  | .queuePop .body | .queuePop (.unlock _) => true
  | .queueResizeIncrease .grow | .queueResizeIncrease .unlock => true
  | .queueResizeDecrease .lock => false
  | .queueResizeDecrease _ => true
  | _ => false

/-- The free slots a thread has claimed, or has made and not yet posted. -/
def Point.emptyClaims : Point Message → ℕ
  | .queuePush _ .lock | .queuePush _ .body => 1
  | .queuePush _ (.unlock code) | .queuePush _ (.post code) => if code = 0 then 0 else 1
  | .queuePop (.unlock result) | .queuePop (.post result) => if result.isSome then 1 else 0
  | .queueResizeIncrease .unlock | .queueResizeIncrease .post => 1
  | .queueResizeDecrease .shrink => 1
  | _ => 0

/-- The messages a thread has claimed, or has put in and not yet posted. -/
def Point.fullClaims : Point Message → ℕ
  | .queuePop .lock | .queuePop .body => 1
  | .queuePop (.unlock result) | .queuePop (.post result) => if result.isSome then 0 else 1
  | .queuePush _ (.unlock code) | .queuePush _ (.post code) => if code = 0 then 1 else 0
  | _ => 0

/-- What a thread at a point knows: that a shrink fits, and that its pop has a message. -/
def Facts (queue : Queue Message) : Point Message → Prop
  | .queueResizeDecrease .wait | .queueResizeDecrease .shrink => queue.count < queue.capacity - 1
  | .queuePop (.unlock result) | .queuePop (.post result) => result ≠ none
  | _ => True

theorem facts_of_queue_eq {queue queue' : Queue Message} {point : Point Message}
    (unseen : point.holds = true → queue' = queue) (facts : Facts queue point) :
    Facts queue' point := by
  unfold Facts at facts ⊢
  split <;> first | exact facts | simp_all [Point.holds]

/-- Everything a step of a thread can do to the shared state. -/
inductive Outcome (shared : Shared Thread Message) (thread : Thread) :
    Point Message → Shared Thread Message → Point Message → Prop where
  | quiet {point point' : Point Message} {mutex : Option Thread} {semEmpty semFull : ℕ}
      {popReturned : List (Thread × Option (Option Message))}
      (mutexStep : MutexStep thread shared.mutex point.holds mutex point'.holds)
      (empty : semEmpty + point'.emptyClaims = shared.semEmpty + point.emptyClaims)
      (full : semFull + point'.fullClaims = shared.semFull + point.fullClaims)
      (facts : Facts shared.queue point')
      (returned : ∀ entry ∈ popReturned, entry ∈ shared.popReturned ∨ entry.2 ≠ none) :
      Outcome shared thread point
        { shared with
          mutex := mutex
          semEmpty := semEmpty
          semFull := semFull
          popReturned := popReturned } point'
  | insert (msg : Message) :
      Outcome shared thread (.queuePush msg .body)
        { shared with
          queue := shared.queue.insert msg
          pushed := shared.pushed ++ [(thread, msg)] } (.queuePush msg (.unlock 0))
  | remove :
      Outcome shared thread (.queuePop .body)
        { shared with
          queue := shared.queue.remove
          popped := shared.popped ++ [(thread, shared.queue.front)] }
        (.queuePop (.unlock (some shared.queue.front)))
  | grow :
      Outcome shared thread (.queueResizeIncrease .grow)
        { shared with queue := shared.queue.resize (shared.queue.capacity + 1) }
        (.queueResizeIncrease .unlock)
  | shrink :
      Outcome shared thread (.queueResizeDecrease .shrink)
        { shared with queue := shared.queue.resize (shared.queue.capacity - 1) }
        (.queueResizeDecrease .unlock)

section Advance

variable {shared shared' : Shared Thread Message} {thread : Thread} {point point' : Point Message}

/-- A step that changes nothing but the point. -/
theorem outcome_stay (sameHolds : point'.holds = point.holds)
    (sameEmpty : point'.emptyClaims = point.emptyClaims)
    (sameFull : point'.fullClaims = point.fullClaims) (facts : Facts shared.queue point') :
    Outcome shared thread point shared point' :=
  .quiet (sameHolds ▸ .keep) (by rw [sameEmpty]) (by rw [sameFull]) facts
    fun _ entry_mem => Or.inl entry_mem

theorem outcome_locks (free : shared.mutex = none) (locks : Locks point point') :
    Outcome shared thread point { shared with mutex := some thread } point' := by
  cases locks with
  | push | pop | increase | decrease =>
      exact .quiet (.lock free) rfl rfl trivial fun _ entry_mem => Or.inl entry_mem

theorem outcome_unlocks (facts : Facts shared.queue point) (unlocks : Unlocks point point') :
    Outcome shared thread point { shared with mutex := none } point' := by
  cases unlocks with
  | push | increase | decrease =>
      exact .quiet (.unlock rfl) rfl rfl trivial fun _ entry_mem => Or.inl entry_mem
  | pop => exact .quiet (.unlock rfl) rfl rfl facts fun _ entry_mem => Or.inl entry_mem

theorem outcome_claims (facts : Facts shared.queue point) (slots : 0 < shared.semEmpty)
    (claims : Claims point point') :
    Outcome shared thread point { shared with semEmpty := shared.semEmpty - 1 } point' := by
  have taken : shared.semEmpty - 1 + 1 = shared.semEmpty := Nat.sub_add_cancel slots
  cases claims with
  | push => exact .quiet .keep taken rfl trivial fun _ entry_mem => Or.inl entry_mem
  | decrease => exact .quiet .keep taken rfl facts fun _ entry_mem => Or.inl entry_mem

theorem outcome_pushPosts (msg : Message) (code : ℤ) :
    Outcome shared thread (.queuePush msg (.post code))
      (if code = 0 then shared.postFull else shared.postEmpty) .idle := by
  split
  · next success =>
      exact .quiet .keep (by simp [Point.emptyClaims, success])
        (by simp [Point.fullClaims, success]) trivial fun _ entry_mem => Or.inl entry_mem
  · next failure =>
      exact .quiet .keep (by simp [Point.emptyClaims, failure])
        (by simp [Point.fullClaims, failure]) trivial fun _ entry_mem => Or.inl entry_mem

theorem outcome_popPosts {result : Option (Option Message)}
    (facts : Facts shared.queue (.queuePop (.post result))) :
    Outcome shared thread (.queuePop (.post result))
      { (if result.isSome then shared.postEmpty else shared.postFull) with
        popReturned := shared.popReturned ++ [(thread, result)] } .idle := by
  rcases Option.ne_none_iff_exists'.mp facts with ⟨msg, rfl⟩
  refine .quiet .keep rfl rfl trivial fun entry entry_mem => ?_
  rcases List.mem_append.mp entry_mem with old | new
  · exact Or.inl old
  · rw [List.mem_singleton.mp new]
    exact Or.inr (Option.some_ne_none msg)

/-- A thread whose pop finds a message never takes the `NULL` branch. -/
theorem outcome_advance (facts : Facts shared.queue point)
    (nonempty : 0 < point.fullClaims → 0 < shared.queue.count)
    (taken : advance shared thread point = some (shared', point')) :
    Outcome shared thread point shared' point' := by
  cases advances_of_advance taken with
  | lock free locks => exact outcome_locks free locks
  | unlock unlocks => exact outcome_unlocks facts unlocks
  | claim slots claims => exact outcome_claims facts slots claims
  | insert msg => exact .insert msg
  | pushFails => exact outcome_stay rfl rfl rfl trivial
  | pushPosts msg code => exact outcome_pushPosts msg code
  | popClaims messages =>
      exact .quiet .keep rfl (Nat.sub_add_cancel messages) trivial
        fun _ entry_mem => Or.inl entry_mem
  | popFails stopped empty => exact absurd empty (nonempty Nat.one_pos).ne'
  | remove => exact .remove
  | popPosts result => exact outcome_popPosts facts
  | grow => exact .grow
  | increasePosts => exact .quiet .keep rfl rfl trivial fun _ entry_mem => Or.inl entry_mem
  | decreaseFails => exact outcome_stay rfl rfl rfl trivial
  | decreaseGoesOn large room => exact outcome_stay rfl rfl rfl room
  | shrink => exact .shrink

end Advance

namespace Outcome

variable {shared shared' : Shared Thread Message} {thread : Thread} {point point' : Point Message}

theorem mutexStep (outcome : Outcome shared thread point shared' point') :
    MutexStep thread shared.mutex point.holds shared'.mutex point'.holds := by
  cases outcome with
  | quiet mutexStep => exact mutexStep
  | insert | remove | grow | shrink => exact .keep

/-- Only the thread in the mutex section changes the queue. -/
theorem queue_eq (outcome : Outcome shared thread point shared' point')
    (outside : point.holds = false) : shared'.queue = shared.queue := by
  cases outcome with
  | quiet => rfl
  | insert | remove | grow | shrink => simp [Point.holds] at outside

theorem facts (outcome : Outcome shared thread point shared' point') :
    Facts shared'.queue point' := by
  cases outcome with
  | quiet _ _ _ facts => exact facts
  | insert | grow | shrink => trivial
  | remove => simp [Facts]

/-- Claims on free slots move between a thread and `sem_empty`, and are used up by sections. -/
theorem empty_balance (outcome : Outcome shared thread point shared' point')
    (before : Facts shared.queue point)
    (nonempty : 0 < point.fullClaims → 0 < shared.queue.count) :
    shared'.semEmpty + point'.emptyClaims + shared'.queue.count + shared.queue.capacity =
      shared.semEmpty + point.emptyClaims + shared.queue.count + shared'.queue.capacity := by
  cases outcome with
  | quiet _ empty =>
      simp only
      omega
  | insert =>
      simp only [Point.emptyClaims, Queue.insert, ↓reduceIte]
      omega
  | remove =>
      have := nonempty Nat.one_pos
      simp only [Point.emptyClaims, Queue.remove, Option.isSome_some, ↓reduceIte]
      omega
  | grow =>
      simp only [Point.emptyClaims, Queue.resize]
      omega
  | shrink =>
      simp only [Facts] at before
      simp only [Point.emptyClaims, Queue.resize]
      omega

/-- Claims on messages move between a thread and `sem_full`, and are used up by sections. -/
theorem full_balance (outcome : Outcome shared thread point shared' point')
    (nonempty : 0 < point.fullClaims → 0 < shared.queue.count) :
    shared'.semFull + point'.fullClaims + shared.queue.count =
      shared.semFull + point.fullClaims + shared'.queue.count := by
  cases outcome with
  | quiet _ _ full =>
      simp only
      omega
  | insert =>
      simp only [Point.fullClaims, Queue.insert, ↓reduceIte]
      omega
  | remove =>
      have := nonempty Nat.one_pos
      simp only [Point.fullClaims, Queue.remove, Option.isSome_some, ↓reduceIte]
      omega
  | grow => rfl
  | shrink => rfl

theorem popReturned (outcome : Outcome shared thread point shared' point')
    (before : ∀ entry ∈ shared.popReturned, entry.2 ≠ none) :
    ∀ entry ∈ shared'.popReturned, entry.2 ≠ none := by
  cases outcome with
  | quiet _ _ _ _ returned =>
      intro entry entry_mem
      exact (returned entry entry_mem).elim (before entry) id
  | insert | remove | grow | shrink => exact before

/-- A section is at most one operation of the bounded buffer. -/
theorem forward {fifo : BoundedFifo Message}
    (outcome : Outcome shared thread point shared' point') (facts : Facts shared.queue point)
    (room : 0 < point.emptyClaims → shared.queue.count < shared.queue.capacity)
    (nonempty : 0 < point.fullClaims → 0 < shared.queue.count)
    (represents : shared.queue.Represents fifo)
    (pushed_eq : shared.pushed.map Prod.snd = fifo.inserted)
    (popped_eq : shared.popped.map Prod.snd = fifo.removed.map some) :
    ∃ operations fifo',
      (BoundedFifo.system initialQueueCapacity (by decide)).run fifo operations = some fifo' ∧
      shared'.queue.Represents fifo' ∧ shared'.pushed.map Prod.snd = fifo'.inserted ∧
      shared'.popped.map Prod.snd = fifo'.removed.map some := by
  cases outcome with
  | quiet => exact ⟨[], fifo, rfl, represents, pushed_eq, popped_eq⟩
  | insert msg =>
      obtain ⟨fifo', taken, represents', inserted_eq, removed_eq⟩ :=
        represents.insert (room Nat.one_pos) msg
      refine ⟨[.insert msg], fifo', by simpa [BoundedFifo.system] using taken, represents', ?_, ?_⟩
      · simp [inserted_eq, pushed_eq]
      · rw [removed_eq, popped_eq]
  | remove =>
      obtain ⟨fifo', msg, taken, represents', front_eq, inserted_eq, removed_eq⟩ :=
        represents.remove (nonempty Nat.one_pos)
      refine ⟨[.remove], fifo', by simpa [BoundedFifo.system] using taken, represents', ?_, ?_⟩
      · rw [inserted_eq, pushed_eq]
      · simp [removed_eq, popped_eq, front_eq]
  | grow =>
      obtain ⟨fifo', taken, represents', inserted_eq, removed_eq⟩ :=
        represents.resize (Nat.lt_succ_of_le represents.wellFormed.count_le)
      exact ⟨[.resize _], fifo', by simpa [BoundedFifo.system] using taken, represents',
        inserted_eq ▸ pushed_eq, removed_eq ▸ popped_eq⟩
  | shrink =>
      obtain ⟨fifo', taken, represents', inserted_eq, removed_eq⟩ := represents.resize facts
      exact ⟨[.resize _], fifo', by simpa [BoundedFifo.system] using taken, represents',
        inserted_eq ▸ pushed_eq, removed_eq ▸ popped_eq⟩

end Outcome

section Next

variable [Fintype Thread] [DecidableEq Thread] {state successor : State Thread Message}

/-- The balance of both semaphores, with what each thread knows. -/
structure Accounted (state : State Thread Message) : Prop where
  locked : ∀ thread, Holds state.shared.mutex thread (state.points thread).holds
  facts : ∀ thread, Facts state.shared.queue (state.points thread)
  empty : state.shared.semEmpty + total Point.emptyClaims state.points + state.shared.queue.count =
    state.shared.queue.capacity
  full : state.shared.semFull + total Point.fullClaims state.points = state.shared.queue.count
  popReturned : ∀ entry ∈ state.shared.popReturned, entry.2 ≠ none

omit [DecidableEq Thread] in
/-- A claim on a free slot is never in vain. -/
theorem Accounted.room (accounted : Accounted state) (thread : Thread)
    (claimed : 0 < (state.points thread).emptyClaims) :
    state.shared.queue.count < state.shared.queue.capacity := by
  have := le_total Point.emptyClaims state.points thread
  have := accounted.empty
  omega

omit [DecidableEq Thread] in
/-- A claim on a message is never in vain. -/
theorem Accounted.nonempty (accounted : Accounted state) (thread : Thread)
    (claimed : 0 < (state.points thread).fullClaims) : 0 < state.shared.queue.count := by
  have := le_total Point.fullClaims state.points thread
  have := accounted.full
  omega

omit [DecidableEq Thread] in
theorem accounted_init : Accounted (init : State Thread Message) where
  locked := fun thread => .of_none thread
  facts := fun _ => trivial
  empty := by
    have unclaimed : total Point.emptyClaims (init : State Thread Message).points = 0 :=
      total_eq_zero fun _ => rfl
    rw [unclaimed]
    rfl
  full := by
    have unclaimed : total Point.fullClaims (init : State Thread Message).points = 0 :=
      total_eq_zero fun _ => rfl
    rw [unclaimed]
    rfl
  popReturned := by simp [init]

/-- Every step is a call, a step of one thread inside a function, or the end of `running`. -/
theorem next_cases {action : Action Thread Message} (accounted : Accounted state)
    (taken : next state action = some successor) :
    (∃ thread call, state.points thread = .idle ∧ successor =
      { state with points := Function.update state.points thread (Call.entry call) }) ∨
    (∃ thread point, Outcome state.shared thread (state.points thread) successor.shared point ∧
      successor.points = Function.update state.points thread point) ∨
    successor = { state with shared := { state.shared with running := false } } := by
  cases action with
  | call thread call =>
      simp only [next] at taken
      split at taken
      · next idle =>
          simp only [Option.some.injEq] at taken
          exact Or.inl ⟨thread, call, idle, taken.symm⟩
      · simp at taken
  | step thread =>
      simp only [next, Option.map_eq_some_iff, Prod.exists] at taken
      obtain ⟨shared, point, advanced, rfl⟩ := taken
      exact Or.inr (Or.inl ⟨thread, point, outcome_advance (accounted.facts thread)
        (accounted.nonempty thread) advanced, rfl⟩)
  | stop =>
      simp only [next, Option.some.injEq] at taken
      exact Or.inr (Or.inr taken.symm)

/-- A call claims nothing yet. -/
theorem accounted_call {thread : Thread} (call : Call Message) (accounted : Accounted state)
    (idle : state.points thread = .idle) :
    Accounted { state with points := Function.update state.points thread call.entry } := by
  have entryHolds : call.entry.holds = false := by cases call <;> rfl
  have entryEmpty : call.entry.emptyClaims = 0 := by cases call <;> rfl
  have entryFull : call.entry.fullClaims = 0 := by cases call <;> rfl
  refine ⟨fun other => ?_, fun other => ?_, ?_, ?_, accounted.popReturned⟩
  · by_cases same : other = thread
    · subst same
      have before := accounted.locked other
      rw [idle] at before
      simp only [Function.update_self, entryHolds]
      exact before
    · simpa [same] using accounted.locked other
  · by_cases same : other = thread
    · subst same
      cases call <;> simp [Call.entry, Facts]
    · simpa [same] using accounted.facts other
  · have moved := total_update Point.emptyClaims state.points thread call.entry
    rw [idle, entryEmpty, show Point.emptyClaims (.idle : Point Message) = 0 from rfl] at moved
    have := accounted.empty
    simp only
    omega
  · have moved := total_update Point.fullClaims state.points thread call.entry
    rw [idle, entryFull, show Point.fullClaims (.idle : Point Message) = 0 from rfl] at moved
    have := accounted.full
    simp only
    omega

theorem accounted_outcome {thread : Thread} {point : Point Message} {shared : Shared Thread Message}
    (accounted : Accounted state)
    (outcome : Outcome state.shared thread (state.points thread) shared point) :
    Accounted ⟨shared, Function.update state.points thread point⟩ := by
  refine ⟨fun other => ?_, fun other => ?_, ?_, ?_, outcome.popReturned accounted.popReturned⟩
  · by_cases same : other = thread
    · subst same
      simpa using outcome.mutexStep.own (accounted.locked other)
    · simpa [same] using
        outcome.mutexStep.elsewhere (accounted.locked thread) same (accounted.locked other)
  · by_cases same : other = thread
    · subst same
      simpa using outcome.facts
    · have unseen : (state.points other).holds = true → shared.queue = state.shared.queue :=
        fun inside => outcome.queue_eq
          ((accounted.locked thread).exclusive (inside ▸ accounted.locked other) same)
      simpa [same] using facts_of_queue_eq unseen (accounted.facts other)
  · have balance := outcome.empty_balance (accounted.facts thread) (accounted.nonempty thread)
    have moved := total_update Point.emptyClaims state.points thread point
    have := accounted.empty
    simp only
    omega
  · have balance := outcome.full_balance (accounted.nonempty thread)
    have moved := total_update Point.fullClaims state.points thread point
    have := accounted.full
    simp only
    omega

theorem accounted_next {action : Action Thread Message} (accounted : Accounted state)
    (taken : next state action = some successor) : Accounted successor := by
  rcases next_cases accounted taken with
    ⟨thread, call, idle, rfl⟩ | ⟨thread, point, outcome, points_eq⟩ | rfl
  · exact accounted_call call accounted idle
  · have accounted' := accounted_outcome accounted outcome
    rwa [← points_eq] at accounted'
  · exact ⟨accounted.locked, accounted.facts, accounted.empty, accounted.full,
      accounted.popReturned⟩

/-- The accounts balance, the queue stands for the buffer, and the logs for its history. -/
structure Refines (state : State Thread Message) (fifo : BoundedFifo Message) : Prop where
  accounted : Accounted state
  represents : state.shared.queue.Represents fifo
  pushed_eq : state.shared.pushed.map Prod.snd = fifo.inserted
  popped_eq : state.shared.popped.map Prod.snd = fifo.removed.map some

/-- Every reachable state stands for a state of a bounded buffer. -/
theorem refines_of_reachable (reached : (system Thread Message).Reachable state) :
    ∃ fifo, (BoundedFifo.system initialQueueCapacity (by decide)).Reachable fifo ∧
      Refines state fifo := by
  apply reached.simulation
  · rintro _ rfl
    exact ⟨_, rfl, accounted_init, Queue.represents_queueInit, rfl, rfl⟩
  · intro state action successor fifo refines taken
    have accounted := refines.accounted
    have accounted' := accounted_next accounted taken
    rcases next_cases accounted taken with
      ⟨thread, call, idle, rfl⟩ | ⟨thread, point, outcome, points_eq⟩ | rfl
    · exact ⟨[], fifo, rfl, accounted', refines.represents, refines.pushed_eq,
        refines.popped_eq⟩
    · obtain ⟨operations, fifo', ran, represents', pushed_eq', popped_eq'⟩ :=
        outcome.forward (accounted.facts thread) (accounted.room thread)
          (accounted.nonempty thread) refines.represents refines.pushed_eq refines.popped_eq
      exact ⟨operations, fifo', ran, accounted', represents', pushed_eq', popped_eq'⟩
    · exact ⟨[], fifo, rfl, accounted', refines.represents, refines.pushed_eq,
        refines.popped_eq⟩

/-- Insertions find room, removals find a message, and messages come out in order. -/
structure SoundAccounting (state : State Thread Message) : Prop where
  insert_room : ∀ thread msg, state.points thread = .queuePush msg .body →
    state.shared.queue.count < state.shared.queue.capacity
  remove_nonempty : ∀ thread, state.points thread = .queuePop .body →
    0 < state.shared.queue.count
  pop_ne_null : ∀ entry ∈ state.shared.popReturned, entry.2 ≠ none
  head_lt : state.shared.queue.head < state.shared.queue.capacity
  tail_lt : state.shared.queue.tail < state.shared.queue.capacity
  tail_eq : state.shared.queue.tail =
    (state.shared.queue.head + state.shared.queue.count) % state.shared.queue.capacity
  inOrder : state.shared.popped.map Prod.snd ++ state.shared.queue.contents =
    state.shared.pushed.map fun entry => some entry.2

end Next

/-- Three threads of a run. -/
inductive Worker where
  | producer
  | consumer
  | shrinker
  deriving DecidableEq

instance : Fintype Worker where
  elems := {.producer, .consumer, .shrinker}
  complete worker := by cases worker <;> simp

/-- A push and a pop, with a shrink that waits for its slot in between. -/
def shrinkBetween : List (Action Worker ℕ) :=
  [.call .producer (.push 7), .step .producer, .step .producer, .step .producer,
    .step .producer, .step .producer, .call .consumer .pop, .step .consumer,
    .call .shrinker .decrease, .step .shrinker, .step .shrinker, .step .shrinker,
    .step .shrinker, .step .shrinker, .step .consumer, .step .consumer, .step .consumer, .stop,
    .step .consumer]

end Osis.Lab05.SemQueue
