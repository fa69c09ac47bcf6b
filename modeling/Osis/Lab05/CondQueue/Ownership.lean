import Osis.Lab05.CondQueue.Messages

/-!
# Who may use a message

Until it is put in, a message is known to one producer; once it is taken out, to one
consumer and to the producer that has yet to print it. Ownership is kept by every step,
save that a consumer may free a message that its producer still prints.
-/

namespace Osis.Lab05.CondQueue

open Concurrency

universe v

namespace Workers

section Ownership

variable {Thread : Type v}

/-- The messages put in, in order. -/
def sent (state : Workers Thread) : List ℕ := state.queue.shared.pushed.map Prod.snd

def unsent (state : Workers Thread) (thread : Thread) : List ℕ :=
  (state.works thread).unsent (state.queue.points thread)

def unreported (state : Workers Thread) (thread : Thread) : List ℕ :=
  (state.works thread).unreported (state.queue.points thread)

variable [DecidableEq Thread] [Fintype Thread]

section SetWork

variable {state : Workers Thread} {thread other : Thread} {work : Work} {msg : ℕ}

omit [Fintype Thread]

theorem mem_unsent_setWork (unsent : msg ∈ (state.setWork thread work).unsent other) :
    other = thread ∧ msg ∈ work.unsent (state.queue.points thread) ∨
      other ≠ thread ∧ msg ∈ state.unsent other := by
  by_cases same : other = thread
  · subst same
    exact .inl ⟨rfl, by simpa [Workers.unsent, setWork] using unsent⟩
  · exact .inr ⟨same, by simpa [Workers.unsent, setWork, same] using unsent⟩

theorem mem_unreported_setWork (unreported : msg ∈ (state.setWork thread work).unreported other) :
    other = thread ∧ msg ∈ work.unreported (state.queue.points thread) ∨
      other ≠ thread ∧ msg ∈ state.unreported other := by
  by_cases same : other = thread
  · subst same
    exact .inl ⟨rfl, by simpa [Workers.unreported, setWork] using unreported⟩
  · exact .inr ⟨same, by simpa [Workers.unreported, setWork, same] using unreported⟩

theorem setWork_self (stays : state.works thread = work) : state.setWork thread work = state := by
  rw [setWork, ← stays, Function.update_eq_self]

end SetWork

/-- Who owns which message. -/
structure Owned (state : Workers Thread) : Prop where
  queue : (CondQueue.system Thread ℕ).Reachable state.queue
  known : ∀ thread, (state.queue.points thread).codeKnown
  undrained : state.drained = none
  /-- A message that has not been put in is live, and one thread knows of it. -/
  unsent : ∀ thread, ∀ msg ∈ state.unsent thread,
    msg < state.fresh ∧ msg ∉ state.sent ∧ msg ∉ state.discarded
  apart : ∀ thread other, ∀ msg ∈ state.unsent thread, msg ∈ state.unsent other → thread = other
  sent_lt : ∀ msg ∈ state.sent, msg < state.fresh
  sent_nodup : state.sent.Nodup
  discarded : ∀ msg ∈ state.discarded, msg < state.fresh ∧ msg ∉ state.sent
  discarded_nodup : state.discarded.Nodup
  /-- A consumer frees and holds what its calls have returned. -/
  returned : ∀ thread,
    ((entriesOf thread state.released ++ (state.works thread).taken).map some).Sublist
      (state.queue.shared.popReturned thread)
  released_nodup : (state.released.map Prod.snd).Nodup
  /-- A message leaves the queue after the call that put it in. -/
  unpopped : ∀ thread, ∀ msg ∈ (state.queue.points thread).pendingPush,
    some msg ∉ state.queue.shared.popped.map Prod.snd
  unreported : ∀ thread, ∀ msg ∈ state.unreported thread,
    msg ∈ state.sent ∧ msg ∉ state.released.map Prod.snd
  misread : state.misread = []

theorem owned_init : Owned (init : Workers Thread) where
  queue := .start rfl
  known _ := trivial
  undrained := rfl
  unsent _ _ unsent := by simp [Workers.unsent, init, Work.unsent] at unsent
  apart _ _ _ unsent := by simp [Workers.unsent, init, Work.unsent] at unsent
  sent_lt _ sent := by simp [Workers.sent, init, CondQueue.init] at sent
  sent_nodup := List.nodup_nil
  discarded _ discarded := by simp [init] at discarded
  discarded_nodup := List.nodup_nil
  returned _ := List.nil_sublist _
  released_nodup := List.nodup_nil
  unpopped _ _ pending := by simp [init, CondQueue.init, Point.pendingPush] at pending
  unreported _ _ unreported := by simp [Workers.unreported, init, Work.unreported] at unreported
  misread := rfl

namespace Owned

variable {state : Workers Thread} {thread other : Thread} {msg : ℕ}

/-- What the queue has given out is the beginning of what was put in, in the same order. -/
theorem inOrder (owned : Owned state) :
    ∃ removed items : List ℕ, removed ++ items = state.sent ∧
      state.queue.shared.popped.map Prod.snd = removed.map some ∧
      state.queue.shared.queue.contents = items.map some := by
  rcases refines_of_reachable owned.queue with ⟨fifo, -, refines⟩
  refine ⟨fifo.removed, fifo.items, ?_, refines.popped_eq, refines.represents.contents_eq⟩
  rw [sent, refines.pushed_eq, fifo.conserved]

theorem popped_nodup (owned : Owned state) :
    (state.queue.shared.popped.map Prod.snd).Nodup := by
  rcases owned.inOrder with ⟨removed, items, sent_eq, popped_eq, -⟩
  rw [popped_eq]
  have distinct : (removed ++ items).Nodup := sent_eq ▸ owned.sent_nodup
  exact (List.nodup_append.mp distinct).1.map (Option.some_injective ℕ)

theorem mem_sent_of_popped (owned : Owned state)
    (popped : (thread, some msg) ∈ state.queue.shared.popped) : msg ∈ state.sent := by
  rcases owned.inOrder with ⟨removed, items, sent_eq, popped_eq, -⟩
  have among : some msg ∈ removed.map some := popped_eq ▸ List.mem_map_of_mem popped
  rw [← sent_eq]
  apply List.mem_append_left
  simpa using among

/-- A consumer frees and holds what it has taken out of the queue. -/
theorem sublist_popped (owned : Owned state) (thread : Thread) :
    ((entriesOf thread state.released ++ (state.works thread).taken).map some).Sublist
      (entriesOf thread state.queue.shared.popped) := by
  rcases refines_of_reachable owned.queue with ⟨fifo, -, refines⟩
  rw [← (refines.consistent thread).delivered.2]
  exact (owned.returned thread).trans (List.sublist_append_left _ _)

theorem popped_of_released (owned : Owned state) (released : (thread, msg) ∈ state.released) :
    (thread, some msg) ∈ state.queue.shared.popped := by
  apply mem_entriesOf.mp
  apply (owned.sublist_popped thread).subset
  apply List.mem_map_of_mem
  exact List.mem_append_left _ (mem_entriesOf.mpr released)

theorem popped_of_taken (owned : Owned state) (taken : msg ∈ (state.works thread).taken) :
    (thread, some msg) ∈ state.queue.shared.popped := by
  apply mem_entriesOf.mp
  apply (owned.sublist_popped thread).subset
  apply List.mem_map_of_mem
  exact List.mem_append_right _ taken

theorem mem_sent_of_released (owned : Owned state) (released : msg ∈ state.released.map Prod.snd) :
    msg ∈ state.sent := by
  rcases List.mem_map.mp released with ⟨⟨consumer, freed⟩, logged, rfl⟩
  exact owned.mem_sent_of_popped (owned.popped_of_released logged)

/-- What a consumer holds has been freed by nobody. -/
theorem live_of_taken (owned : Owned state) (taken : msg ∈ (state.works thread).taken) :
    msg ∉ state.released.map Prod.snd := by
  intro released
  rcases List.mem_map.mp released with ⟨⟨consumer, freed⟩, logged, rfl⟩
  have same : consumer = thread :=
    thread_unique owned.popped_nodup (owned.popped_of_released logged)
      (owned.popped_of_taken taken)
  subst same
  -- the consumer would have taken the message out twice
  have distinct := (nodup_entriesOf owned.popped_nodup consumer).sublist
    (owned.sublist_popped consumer)
  have distinct := List.Nodup.of_map some distinct
  exact (List.nodup_append.mp distinct).2.2 _ (mem_entriesOf.mpr logged) _ taken rfl

theorem not_freed (owned : Owned state) (undiscarded : msg ∉ state.discarded)
    (unreleased : msg ∉ state.released.map Prod.snd) : msg ∉ state.freed := by
  simpa [freed, owned.undrained, undiscarded] using unreleased

theorem read_unsent (owned : Owned state) (unsent : msg ∈ state.unsent thread) :
    state.read thread msg = state := by
  rcases owned.unsent thread msg unsent with ⟨-, fresh, undiscarded⟩
  exact if_neg (owned.not_freed undiscarded fun released =>
    fresh (owned.mem_sent_of_released released))

theorem read_unreported (owned : Owned state) (unreported : msg ∈ state.unreported thread) :
    state.read thread msg = state := by
  rcases owned.unreported thread msg unreported with ⟨sent, unreleased⟩
  exact if_neg (owned.not_freed (fun discarded => (owned.discarded msg discarded).2 sent)
    unreleased)

theorem read_taken (owned : Owned state) (taken : msg ∈ (state.works thread).taken) :
    state.read thread msg = state := by
  have sent := owned.mem_sent_of_popped (owned.popped_of_taken taken)
  exact if_neg (owned.not_freed (fun discarded => (owned.discarded msg discarded).2 sent)
    (owned.live_of_taken taken))

theorem freed_nodup (owned : Owned state) : state.freed.Nodup := by
  have apart : state.discarded.Disjoint (state.released.map Prod.snd) := by
    intro msg discarded released
    exact (owned.discarded msg discarded).2 (owned.mem_sent_of_released released)
  simpa [freed, owned.undrained] using
    owned.discarded_nodup.append owned.released_nodup apart

/-- A thread that moves on without putting in or freeing a message. -/
theorem moved (owned : Owned state) {queue : State Thread ℕ} {work : Work}
    (reached : (CondQueue.system Thread ℕ).Reachable queue)
    (known : ∀ other, (queue.points other).codeKnown)
    (pushed_eq : queue.shared.pushed = state.queue.shared.pushed)
    (unpopped : ∀ other, ∀ msg ∈ (queue.points other).pendingPush,
      some msg ∉ queue.shared.popped.map Prod.snd)
    (elsewhere : ∀ other ≠ thread,
      (queue.points other).unsent = (state.queue.points other).unsent ∧
        (queue.points other).pendingPush = (state.queue.points other).pendingPush ∧
        queue.shared.popReturned other = state.queue.shared.popReturned other)
    (unsent : work.unsent (queue.points thread) ⊆ state.unsent thread)
    (unreported : work.unreported (queue.points thread) ⊆ state.unreported thread)
    (returned : ((entriesOf thread state.released ++ work.taken).map some).Sublist
      (queue.shared.popReturned thread)) :
    Owned ({ state with queue := queue }.setWork thread work) := by
  have sent_eq : ({ state with queue := queue }.setWork thread work).sent = state.sent := by
    simp [sent, setWork, pushed_eq]
  have unsent_sub : ∀ other,
      ({ state with queue := queue }.setWork thread work).unsent other ⊆ state.unsent other := by
    intro other msg unsent'
    rcases mem_unsent_setWork unsent' with ⟨rfl, own⟩ | ⟨different, others⟩
    · exact unsent own
    · simpa only [Workers.unsent, Work.unsent_congr (elsewhere other different).1] using others
  have unreported_sub : ∀ other,
      ({ state with queue := queue }.setWork thread work).unreported other ⊆
        state.unreported other := by
    intro other msg unreported'
    rcases mem_unreported_setWork unreported' with ⟨rfl, own⟩ | ⟨different, others⟩
    · exact unreported own
    · simpa only [Workers.unreported, Work.unreported_congr (elsewhere other different).2.1]
        using others
  refine
    { queue := reached
      known := known
      undrained := owned.undrained
      unsent := ?_
      apart := ?_
      sent_lt := sent_eq ▸ owned.sent_lt
      sent_nodup := sent_eq ▸ owned.sent_nodup
      discarded := sent_eq ▸ owned.discarded
      discarded_nodup := owned.discarded_nodup
      returned := ?_
      released_nodup := owned.released_nodup
      unpopped := unpopped
      unreported := ?_
      misread := owned.misread }
  · intro other msg unsent
    exact sent_eq ▸ owned.unsent other msg (unsent_sub other unsent)
  · intro first second msg ofFirst ofSecond
    exact owned.apart first second msg (unsent_sub first ofFirst) (unsent_sub second ofSecond)
  · intro other
    by_cases same : other = thread
    · subst same
      simpa [setWork] using returned
    · simpa [setWork, Function.update_of_ne same, (elsewhere other same).2.2] using
        owned.returned other
  · intro other msg unreported
    exact sent_eq ▸ owned.unreported other msg (unreported_sub other unreported)

/-- A thread outside a call that goes on with its task. -/
theorem setWork (owned : Owned state) {work : Work}
    (unsent : work.unsent (state.queue.points thread) ⊆ state.unsent thread)
    (unreported : work.unreported (state.queue.points thread) ⊆ state.unreported thread)
    (taken : work.taken.Sublist (state.works thread).taken) :
    Owned (state.setWork thread work) := by
  apply owned.moved owned.queue owned.known rfl owned.unpopped (fun other _ => ⟨rfl, rfl, rfl⟩)
    unsent unreported
  exact (((List.Sublist.refl _).append taken).map some).trans (owned.returned thread)

theorem reachable_next (owned : Owned state) {action : Action Thread ℕ} {queue : State Thread ℕ}
    (taken : CondQueue.next state.queue action = some queue) :
    (CondQueue.system Thread ℕ).Reachable queue := by
  have step : (CondQueue.system Thread ℕ).next state.queue action = some queue := taken
  exact owned.queue.step trivial step

/-- A call of a queue function. -/
theorem call (owned : Owned state) {call : Call ℕ} {successor : Workers Thread}
    (unsent : call.entry.unsent ⊆ state.unsent thread)
    (taken : state.queueNext (.call thread call) = some successor) :
    Owned (successor.setWork thread .calling) := by
  simp only [queueNext, Option.map_eq_some_iff] at taken
  rcases taken with ⟨queue, taken, rfl⟩
  have reached := owned.reachable_next taken
  rcases called_of_next taken with ⟨idle, rfl⟩
  have nothing : call.entry.pendingPush = [] := by cases call <;> rfl
  apply owned.moved reached
  · intro other
    by_cases same : other = thread
    · subst same
      cases call <;> simp [Call.entry, Point.codeKnown]
    · simpa [same] using owned.known other
  · rfl
  · intro other msg pending
    by_cases same : other = thread
    · subst same
      simp [nothing] at pending
    · exact owned.unpopped other msg (by simpa [same] using pending)
  · intro other different
    simp [different]
  · simpa [Work.unsent] using unsent
  · simp [Work.unreported, nothing]
  · simp only [Work.taken, List.append_nil]
    exact ((List.sublist_append_left _ _).map some).trans (owned.returned thread)

/-- A message is put in by the thread it belongs to. -/
theorem inserted (owned : Owned state) (calling : state.works thread = .calling)
    (inserting : state.queue.points thread = .queuePush msg .insert) {queue : State Thread ℕ}
    (reached : (CondQueue.system Thread ℕ).Reachable queue)
    (known : ∀ other, (queue.points other).codeKnown)
    (grows : queue.shared.pushed = state.queue.shared.pushed ++ [(thread, msg)])
    (popped_eq : queue.shared.popped = state.queue.shared.popped)
    (returned_eq : queue.shared.popReturned = state.queue.shared.popReturned)
    (elsewhere : ∀ other ≠ thread,
      (queue.points other).unsent = (state.queue.points other).unsent ∧
        (queue.points other).pendingPush = (state.queue.points other).pendingPush)
    (unsent : (queue.points thread).unsent = [])
    (pending : (queue.points thread).pendingPush = [msg]) :
    Owned { state with queue := queue } := by
  have own : msg ∈ state.unsent thread := by
    simp [Workers.unsent, calling, Work.unsent, inserting, Point.unsent]
  rcases owned.unsent thread msg own with ⟨below, fresh, undiscarded⟩
  have unreleased : msg ∉ state.released.map Prod.snd :=
    fun released => fresh (owned.mem_sent_of_released released)
  have sent_eq : ({ state with queue := queue } : Workers Thread).sent = state.sent ++ [msg] := by
    simp [sent, grows]
  -- nobody else has the message, and this thread has it no longer
  have unsent_other : ∀ other msg',
      msg' ∈ ({ state with queue := queue } : Workers Thread).unsent other →
      msg' ∈ state.unsent other ∧ msg' ≠ msg := by
    intro other msg' unsent'
    by_cases same : other = thread
    · subst same
      simp [Workers.unsent, calling, Work.unsent, unsent] at unsent'
    · have before : msg' ∈ state.unsent other := by
        simpa only [Workers.unsent, Work.unsent_congr (elsewhere other same).1] using unsent'
      refine ⟨before, ?_⟩
      rintro rfl
      exact same (owned.apart other thread msg' before own)
  refine
    { queue := reached
      known := known
      undrained := owned.undrained
      unsent := ?_
      apart := ?_
      sent_lt := ?_
      sent_nodup := ?_
      discarded := ?_
      discarded_nodup := owned.discarded_nodup
      returned := returned_eq ▸ owned.returned
      released_nodup := owned.released_nodup
      unpopped := ?_
      unreported := ?_
      misread := owned.misread }
  · intro other msg' unsent'
    rcases unsent_other other msg' unsent' with ⟨before, different⟩
    rcases owned.unsent other msg' before with ⟨below', fresh', undiscarded'⟩
    exact ⟨below', by simp [sent_eq, fresh', different], undiscarded'⟩
  · intro first second msg' ofFirst ofSecond
    exact owned.apart first second msg' (unsent_other first msg' ofFirst).1
      (unsent_other second msg' ofSecond).1
  · intro msg' sent
    rw [sent_eq, List.mem_append, List.mem_singleton] at sent
    rcases sent with sent | rfl
    · exact owned.sent_lt msg' sent
    · exact below
  · rw [sent_eq]
    exact owned.sent_nodup.append (List.nodup_singleton msg) (by simpa using fresh)
  · intro msg' discarded
    rcases owned.discarded msg' discarded with ⟨below', fresh'⟩
    have different : msg' ≠ msg := by
      rintro rfl
      exact undiscarded discarded
    exact ⟨below', by simp [sent_eq, fresh', different]⟩
  · intro other msg' pends
    simp only [popped_eq]
    by_cases same : other = thread
    · subst same
      rw [pending, List.mem_singleton] at pends
      subst pends
      intro popped
      rcases List.mem_map.mp popped with ⟨⟨consumer, slot⟩, logged, rfl⟩
      exact fresh (owned.mem_sent_of_popped logged)
    · exact owned.unpopped other msg' ((elsewhere other same).2 ▸ pends)
  · intro other msg' unreported
    by_cases same : other = thread
    · subst same
      simp only [Workers.unreported, calling, Work.unreported, pending,
        List.mem_singleton] at unreported
      subst unreported
      exact ⟨by simp [sent_eq], unreleased⟩
    · have before : msg' ∈ state.unreported other := by
        simpa only [Workers.unreported, Work.unreported_congr (elsewhere other same).2]
          using unreported
      rcases owned.unreported other msg' before with ⟨sent, unreleased'⟩
      exact ⟨by simp [sent_eq, sent], unreleased'⟩

section Step

variable {queue : State Thread ℕ} {point' : Point ℕ}

/-- A step inside a call that neither puts a message in nor takes one out. -/
theorem advanced (owned : Owned state) {work : Work} (calling : state.works thread = .calling)
    (reached : (CondQueue.system Thread ℕ).Reachable queue)
    (arrived : Arrived state.queue queue thread point') (known : point'.codeKnown)
    (samePushed : queue.shared.pushed = state.queue.shared.pushed)
    (samePopped : queue.shared.popped = state.queue.shared.popped)
    (returned : ∀ other ≠ thread,
      queue.shared.popReturned other = state.queue.shared.popReturned other)
    (pending : point'.pendingPush ⊆ (state.queue.points thread).pendingPush)
    (unsent : work.unsent point' ⊆ (state.queue.points thread).unsent)
    (unreported : work.unreported point' ⊆ (state.queue.points thread).pendingPush)
    (taken : (((entriesOf thread state.released).map some) ++ work.taken.map some).Sublist
      (queue.shared.popReturned thread)) :
    Owned ({ state with queue := queue }.setWork thread work) := by
  apply owned.moved reached (arrived.known known owned.known) samePushed
  · intro other msg pends
    rw [samePopped]
    by_cases same : other = thread
    · subst same
      exact owned.unpopped other msg (pending (arrived.pending ▸ pends))
    · exact owned.unpopped other msg ((arrived.elsewhere other same).2 ▸ pends)
  · intro other different
    rcases arrived.elsewhere other different with ⟨sameUnsent, samePending⟩
    exact ⟨sameUnsent, samePending, returned other different⟩
  · rw [Work.unsent_congr arrived.unsent, Workers.unsent, calling]
    exact unsent
  · rw [Work.unreported_congr arrived.pending, Workers.unreported, calling]
    exact unreported
  · rw [List.map_append]
    exact taken

/-- While one thread takes a message out, no other thread is between putting one in and the end
of its call. -/
theorem removes_alone (owned : Owned state)
    (removing : state.queue.points thread = .queuePop .remove) :
    (state.queue.points other).pendingPush = [] := by
  apply List.eq_nil_iff_forall_not_mem.mpr
  intro msg pending
  have inside := Point.holds_of_mem_pendingPush pending
  rcases refines_of_reachable owned.queue with ⟨fifo, -, refines⟩
  have locked := (refines.consistent thread).locked
  rw [removing] at locked
  have different : other ≠ thread := by
    rintro rfl
    simp [removing, Point.pendingPush] at pending
  have outside := locked.exclusive (inside ▸ (refines.consistent other).locked) different
  simp [Point.holds] at outside

/-- A step inside a call, by what it does to the messages. -/
theorem step (owned : Owned state) (calling : state.works thread = .calling)
    {woken : List Thread} {successor : Workers Thread}
    (taken : state.queueNext (.step thread woken) = some successor) :
    Owned (successor.setWork thread (afterCall (state.queue.points thread))) := by
  simp only [queueNext, Option.map_eq_some_iff] at taken
  rcases taken with ⟨queue, taken, rfl⟩
  have reached := owned.reachable_next taken
  rcases transfer_step taken with ⟨point', transfer, arrived⟩
  have held := owned.returned thread
  simp only [calling, Work.taken, List.append_nil] at held
  have known := owned.known thread
  generalize stands : state.queue.points thread = point at transfer known ⊢
  cases transfer with
  | stay samePushed samePopped sameReturned inside sameUnsent samePending known' =>
      rw [inside]
      apply owned.advanced calling reached arrived known' samePushed samePopped
        (fun other _ => congrFun sameReturned other)
      · rw [stands, samePending]
        exact List.Subset.refl _
      · rw [stands, Work.unsent, sameUnsent]
        exact List.Subset.refl _
      · rw [stands, Work.unreported, samePending]
        exact List.Subset.refl _
      · simpa [Work.taken, sameReturned] using held
  | insert msg grows samePopped sameReturned =>
      have put := owned.inserted calling stands reached (arrived.known trivial owned.known) grows
        samePopped sameReturned arrived.elsewhere arrived.unsent arrived.pending
      have stays : afterCall (.queuePush msg .insert) = .calling := rfl
      rw [stays, setWork_self]
      · exact put
      · exact calling
  | remove slot samePushed grows sameReturned =>
      apply owned.moved reached (arrived.known trivial owned.known) samePushed
      · intro other msg pending
        have none_pending : (queue.points other).pendingPush = [] := by
          by_cases same : other = thread
          · rw [same, arrived.pending]
            rfl
          · rw [(arrived.elsewhere other same).2, owned.removes_alone stands]
        simp [none_pending] at pending
      · intro other different
        rcases arrived.elsewhere other different with ⟨sameUnsent, samePending⟩
        exact ⟨sameUnsent, samePending, congrFun sameReturned other⟩
      · have nothing : (queue.points thread).unsent = [] := arrived.unsent
        simp [afterCall, Work.unsent, nothing]
      · have nothing : (queue.points thread).pendingPush = [] := arrived.pending
        simp [afterCall, Work.unreported, nothing]
      · simpa [afterCall, Work.taken, sameReturned] using held
  | pushed msg code samePushed samePopped sameReturned =>
      apply owned.advanced calling reached arrived trivial samePushed samePopped
        (fun other _ => congrFun sameReturned other) (List.nil_subset _)
      · rcases known with rfl | rfl
        · simp [afterCall, Work.unsent]
        · simp [afterCall, Work.unsent, stands, Point.unsent]
      · rcases known with rfl | rfl
        · simp [afterCall, Work.unreported, stands, Point.pendingPush]
        · simp [afterCall, Work.unreported]
      · rcases known with rfl | rfl
        · simpa [afterCall, Work.taken, sameReturned] using held
        · simpa [afterCall, Work.taken, sameReturned] using held
  | popped result samePushed samePopped returned =>
      apply owned.advanced calling reached arrived trivial samePushed samePopped
        (fun other different => by rw [returned, Function.update_of_ne different])
        (List.nil_subset _)
      · rcases result with - | - | msg <;> simp [afterCall, Work.unsent]
      · rcases result with - | - | msg <;> simp [afterCall, Work.unreported]
      · rw [returned, Function.update_self]
        rcases result with - | - | msg
        · simpa [afterCall, Work.taken] using held
        · simpa [afterCall, Work.taken] using held.trans (List.sublist_append_left _ _)
        · simpa [afterCall, Work.taken] using held.append (List.Sublist.refl [some msg])
  | resized samePushed samePopped sameReturned outside =>
      rw [outside]
      apply owned.advanced calling reached arrived trivial samePushed samePopped
        (fun other _ => congrFun sameReturned other) (List.nil_subset _) (List.nil_subset _)
        (List.nil_subset _)
      simpa [Work.taken, sameReturned] using held

end Step

/-- `running` drops to 0. -/
theorem stop (owned : Owned state) {successor : Workers Thread}
    (taken : state.queueNext .stop = some successor) : Owned successor := by
  simp only [queueNext, Option.map_eq_some_iff] at taken
  rcases taken with ⟨queue, taken, rfl⟩
  have reached := owned.reachable_next taken
  simp only [CondQueue.next, Option.some.injEq] at taken
  subst taken
  exact
    { owned with
      queue := reached
      known := owned.known
      unsent := owned.unsent
      apart := owned.apart
      sent_lt := owned.sent_lt
      sent_nodup := owned.sent_nodup
      discarded := owned.discarded
      returned := owned.returned
      unpopped := owned.unpopped
      unreported := owned.unreported }

/-- A producer allocates a message. -/
theorem allocate (owned : Owned state) (testing : state.works thread = .test) :
    Owned ({ state with fresh := state.fresh + 1 }.setWork thread (.fill state.fresh)) := by
  have unsent_cases : ∀ other msg,
      msg ∈ ({ state with fresh := state.fresh + 1 }.setWork thread
        (.fill state.fresh)).unsent other →
      other = thread ∧ msg = state.fresh ∨ msg ∈ state.unsent other ∧ msg < state.fresh := by
    intro other msg unsent
    rcases mem_unsent_setWork unsent with ⟨rfl, own⟩ | ⟨-, before⟩
    · exact .inl ⟨rfl, by simpa [Work.unsent] using own⟩
    · exact .inr ⟨before, (owned.unsent other msg before).1⟩
  have sent_old : state.fresh ∉ state.sent := fun sent => (owned.sent_lt _ sent).false
  have discarded_old : state.fresh ∉ state.discarded :=
    fun discarded => (owned.discarded _ discarded).1.false
  refine
    { owned with
      unsent := ?_
      apart := ?_
      sent_lt := fun msg sent => Nat.lt_succ_of_lt (owned.sent_lt msg sent)
      discarded := fun msg discarded =>
        ⟨Nat.lt_succ_of_lt (owned.discarded msg discarded).1, (owned.discarded msg discarded).2⟩
      returned := ?_
      unreported := ?_ }
  · intro other msg unsent
    rcases unsent_cases other msg unsent with ⟨-, rfl⟩ | ⟨before, -⟩
    · exact ⟨Nat.lt_succ_self _, sent_old, discarded_old⟩
    · rcases owned.unsent other msg before with ⟨below, fresh, undiscarded⟩
      exact ⟨Nat.lt_succ_of_lt below, fresh, undiscarded⟩
  · intro first second msg ofFirst ofSecond
    rcases unsent_cases first msg ofFirst with ⟨first_eq, new⟩ | ⟨before, below⟩ <;>
      rcases unsent_cases second msg ofSecond with ⟨second_eq, new'⟩ | ⟨before', below'⟩
    · rw [first_eq, second_eq]
    · exact absurd below' (new ▸ lt_irrefl _)
    · exact absurd below (new' ▸ lt_irrefl _)
    · exact owned.apart first second msg before before'
  · intro other
    by_cases same : other = thread
    · subst same
      simpa [Workers.setWork, testing, Work.taken] using owned.returned other
    · simpa [Workers.setWork, same] using owned.returned other
  · intro other msg unreported
    rcases mem_unreported_setWork unreported with ⟨-, own⟩ | ⟨-, before⟩
    · simp [Work.unreported] at own
    · exact owned.unreported other msg before

/-- A producer frees the message that it could not put in. -/
theorem discard (owned : Owned state) (discarding : state.works thread = .discard msg) :
    Owned ({ state with discarded := state.discarded ++ [msg] }.setWork thread .ended) := by
  have own : msg ∈ state.unsent thread := by
    simp [Workers.unsent, discarding, Work.unsent]
  rcases owned.unsent thread msg own with ⟨below, fresh, undiscarded⟩
  have unsent_before : ∀ other msg',
      msg' ∈ ({ state with discarded := state.discarded ++ [msg] }.setWork thread
        .ended).unsent other →
      msg' ∈ state.unsent other ∧ msg' ≠ msg := by
    intro other msg' unsent
    rcases mem_unsent_setWork unsent with ⟨-, nothing⟩ | ⟨different, before⟩
    · simp [Work.unsent] at nothing
    · refine ⟨before, ?_⟩
      rintro rfl
      exact different (owned.apart other thread msg' before own)
  refine
    { owned with
      unsent := ?_
      apart := ?_
      discarded := ?_
      discarded_nodup := ?_
      returned := ?_
      unreported := ?_ }
  · intro other msg' unsent
    rcases unsent_before other msg' unsent with ⟨before, different⟩
    rcases owned.unsent other msg' before with ⟨below', fresh', undiscarded'⟩
    exact ⟨below', fresh', by simp [Workers.setWork, undiscarded', different]⟩
  · intro first second msg' ofFirst ofSecond
    exact owned.apart first second msg' (unsent_before first msg' ofFirst).1
      (unsent_before second msg' ofSecond).1
  · intro msg' freed
    rcases List.mem_append.mp freed with before | last
    · exact owned.discarded msg' before
    · rw [List.mem_singleton] at last
      subst last
      exact ⟨below, fresh⟩
  · exact owned.discarded_nodup.append (List.nodup_singleton msg) (by simpa using undiscarded)
  · intro other
    by_cases same : other = thread
    · subst same
      simpa [Workers.setWork, discarding, Work.taken] using owned.returned other
    · simpa [Workers.setWork, same] using owned.returned other
  · intro other msg' unreported
    rcases mem_unreported_setWork unreported with ⟨-, own⟩ | ⟨-, before⟩
    · simp [Work.unreported] at own
    · exact owned.unreported other msg' before

/-- A consumer frees a message that no producer is about to print. -/
theorem release (owned : Owned state) (releasing : state.works thread = .release msg)
    (reported : ∀ other, state.works other ≠ .added msg) :
    Owned ({ state with released := state.released ++ [(thread, msg)] }.setWork thread .sleep) := by
  have held : msg ∈ (state.works thread).taken := by simp [releasing, Work.taken]
  have unsent_sub : ∀ other msg',
      msg' ∈ ({ state with released := state.released ++ [(thread, msg)] }.setWork thread
        .sleep).unsent other → msg' ∈ state.unsent other := by
    intro other msg' unsent
    rcases mem_unsent_setWork unsent with ⟨-, nothing⟩ | ⟨-, before⟩
    · simp [Work.unsent] at nothing
    · exact before
  refine
    { owned with
      unsent := fun other msg' unsent => owned.unsent other msg' (unsent_sub other msg' unsent)
      apart := fun first second msg' ofFirst ofSecond =>
        owned.apart first second msg' (unsent_sub first msg' ofFirst)
          (unsent_sub second msg' ofSecond)
      returned := ?_
      released_nodup := ?_
      unreported := ?_ }
  · intro other
    by_cases same : other = thread
    · subst same
      simpa [Workers.setWork, releasing, Work.taken] using owned.returned other
    · simpa [Workers.setWork, same, entriesOf_append_of_ne same] using owned.returned other
  · have unreleased := owned.live_of_taken held
    simpa [Workers.setWork] using
      owned.released_nodup.append (List.nodup_singleton msg) (by simpa using unreleased)
  · intro other msg' unreported
    rcases mem_unreported_setWork unreported with ⟨-, nothing⟩ | ⟨-, before⟩
    · simp [Work.unreported] at nothing
    · rcases owned.unreported other msg' before with ⟨sent, unreleased⟩
      have different : msg' ≠ msg := by
        rintro rfl
        -- the call that put the message in has returned, so its thread would be at the report
        have popped := List.mem_map_of_mem (f := Prod.snd) (owned.popped_of_taken held)
        simp only [Workers.unreported] at before
        cases works : state.works other with
        | calling =>
            rw [works] at before
            exact owned.unpopped other msg' before popped
        | added reports =>
            rw [works, Work.unreported, List.mem_singleton] at before
            exact reported other (before ▸ works)
        | test | fill | discard | removed | compare | release | sleep | ended =>
            simp [works, Work.unreported] at before
      exact ⟨sent, by simp [Workers.setWork, unreleased, different]⟩

/-- `queue_destroy` frees what is left in the queue. -/
theorem drain (owned : Owned state) :
    UsedWhileLive
      { state with drained := some (state.queue.shared.queue.contents.filterMap id) } where
  misread_eq := owned.misread
  freed_nodup := by
    rcases owned.inOrder with ⟨removed, items, sent_eq, popped_eq, contents_eq⟩
    have distinct : (removed ++ items).Nodup := sent_eq ▸ owned.sent_nodup
    have left_over : state.queue.shared.queue.contents.filterMap id = items := by
      simp [contents_eq]
    have freed_before := owned.freed_nodup
    simp only [freed, owned.undrained, Option.getD_none, List.append_nil, Option.getD_some,
      left_over] at freed_before ⊢
    apply freed_before.append (List.nodup_append.mp distinct).2.1
    intro msg freed item
    rcases List.mem_append.mp freed with discarded | released
    · apply (owned.discarded msg discarded).2
      rw [← sent_eq]
      exact List.mem_append_right _ item
    · rcases List.mem_map.mp released with ⟨⟨consumer, message⟩, logged, rfl⟩
      have popped := List.mem_map_of_mem (f := Prod.snd) (owned.popped_of_released logged)
      rw [popped_eq] at popped
      exact (List.nodup_append.mp distinct).2.2 message (by simpa using popped) message item rfl

variable {kinds : Thread → Option Kind} {successor : Workers Thread}

/-- The steps of the two tasks. -/
theorem workNext (owned : Owned state) {woken : List Thread}
    (reported : Reported state (.advance thread woken))
    (taken : state.workNext kinds thread woken = some successor) : Owned successor := by
  simp only [Workers.workNext] at taken
  cases works : state.works thread with
  | test =>
      simp only [works] at taken
      split at taken
      · cases kind : kinds thread with
        | none => simp [kind] at taken
        | some kind' =>
            cases kind' with
            | producer =>
                simp only [kind, Option.some.injEq] at taken
                exact taken ▸ owned.allocate works
            | consumer =>
                simp only [kind, Option.map_eq_some_iff] at taken
                rcases taken with ⟨called, taken, rfl⟩
                exact owned.call (List.nil_subset _) taken
      · simp only [Option.some.injEq] at taken
        exact taken ▸ owned.setWork (List.nil_subset _) (List.nil_subset _) (List.nil_sublist _)
  | fill msg =>
      have own : msg ∈ state.unsent thread := by simp [Workers.unsent, works, Work.unsent]
      simp only [works, owned.read_unsent own, Option.map_eq_some_iff] at taken
      rcases taken with ⟨called, taken, rfl⟩
      apply owned.call _ taken
      simpa [Call.entry, Point.unsent] using own
  | calling =>
      simp only [works, Option.map_eq_some_iff] at taken
      rcases taken with ⟨stepped, taken, rfl⟩
      exact owned.step works taken
  | added msg =>
      have own : msg ∈ state.unreported thread := by
        simp [Workers.unreported, works, Work.unreported]
      simp only [works, owned.read_unreported own, Option.some.injEq] at taken
      exact taken ▸ owned.setWork (List.nil_subset _) (List.nil_subset _) (List.nil_sublist _)
  | discard msg =>
      simp only [works, Option.some.injEq] at taken
      exact taken ▸ owned.discard works
  | removed msg =>
      have held : msg ∈ (state.works thread).taken := by simp [works, Work.taken]
      simp only [works, owned.read_taken held, Option.some.injEq] at taken
      refine taken ▸ owned.setWork (List.nil_subset _) (List.nil_subset _) ?_
      rw [works]
      exact List.Sublist.refl _
  | compare msg =>
      have held : msg ∈ (state.works thread).taken := by simp [works, Work.taken]
      simp only [works, owned.read_taken held, Option.some.injEq] at taken
      refine taken ▸ owned.setWork (List.nil_subset _) (List.nil_subset _) ?_
      rw [works]
      exact List.Sublist.refl _
  | release msg =>
      simp only [works, Option.some.injEq] at taken
      simp only [Reported, works] at reported
      exact taken ▸ owned.release works reported
  | sleep =>
      simp only [works, Option.some.injEq] at taken
      exact taken ▸ owned.setWork (List.nil_subset _) (List.nil_subset _) (List.nil_sublist _)
  | ended => simp [works] at taken

/-- The ownership of the messages is kept until the queue is destroyed. -/
theorem next {move : Move Thread} (owned : Owned state) (reported : Reported state move)
    (taken : Workers.next kinds state move = some successor) :
    Owned successor ∨ successor.drained.isSome = true ∧ UsedWhileLive successor := by
  have running : state.drained.isSome = false := by simp [owned.undrained]
  simp only [Workers.next, running, Bool.false_eq_true, if_false] at taken
  cases move with
  | advance thread woken => exact .inl (owned.workNext reported taken)
  | cancel thread =>
      simp only [cancel] at taken
      split at taken
      case h_5 => simp at taken
      all_goals
        simp only [Option.some.injEq] at taken
        exact .inl (taken ▸ owned.setWork (List.nil_subset _) (List.nil_subset _)
          (List.nil_sublist _))
  | resize thread increase =>
      simp only [Workers.resize] at taken
      split at taken
      · simp only [Option.map_eq_some_iff] at taken
        rcases taken with ⟨called, taken, rfl⟩
        apply Or.inl
        apply owned.call _ taken
        cases increase <;> exact List.nil_subset _
      · simp at taken
  | stop => exact .inl (owned.stop taken)
  | destroy =>
      simp only [Workers.destroy] at taken
      split at taken
      · simp only [Option.some.injEq] at taken
        exact .inr (taken ▸ ⟨rfl, owned.drain⟩)
      · simp at taken

theorem usedWhileLive (owned : Owned state) : UsedWhileLive state :=
  ⟨owned.misread, owned.freed_nodup⟩

end Owned

/-- As long as every message is printed by its producer before a consumer frees it, no message is
used after it is freed, and none is freed twice. -/
theorem usedWhileLive_of_reachable {kinds : Thread → Option Kind} {state : Workers Thread}
    (reached : (system kinds).ReachableUnder Reported state) : UsedWhileLive state := by
  have ownership : Owned state ∨ state.drained.isSome = true ∧ UsedWhileLive state := by
    apply reached.invariant
    · rintro _ rfl
      exact .inl owned_init
    · intro state move successor before reported taken
      rcases before with owned | ⟨destroyed, -⟩
      · exact owned.next reported taken
      · simp [system, Workers.next, destroyed] at taken
  rcases ownership with owned | ⟨-, used⟩
  · exact owned.usedWhileLive
  · exact used

end Ownership

section Runs

/-- One producer and one consumer. -/
def pair : Bool → Option Kind
  | false => some .producer
  | true => some .consumer

/-- The producer puts a message in and has yet to print it. -/
def put : List (Move Bool) := List.replicate 8 (.advance false [])

/-- The consumer takes a message out, prints, compares and frees it. -/
def take : List (Move Bool) := List.replicate 10 (.advance true [])

instance (state : Workers Bool) (move : Move Bool) : Decidable (Reported state move) := by
  cases move with
  | advance thread woken =>
      change Decidable (match state.works thread with
        | .release msg => ∀ other, state.works other ≠ .added msg
        | _ => True)
      cases state.works thread <;> dsimp only <;> infer_instance
  | cancel | resize | stop | destroy => exact instDecidableTrue

theorem usedWhileLive_reported :
    ∃ state, (system pair).ReachableUnder Reported state ∧ state.released = [(true, 0)] ∧
      UsedWhileLive state := by
  have ran : (((system pair).restrict fun state move => decide (Reported state move)).run init
      (put ++ .advance false [] :: take)).map Workers.released = some [(true, 0)] := by
    decide +kernel
  rcases Option.map_eq_some_iff.mp ran with ⟨state, ran, released⟩
  have reached : ((system pair).restrict fun state move => decide (Reported state move)).Reachable
      state := System.Reachable.of_run (.start rfl) ran
  have reported : (system pair).ReachableUnder Reported state :=
    reached.of_restrict.mono fun _ _ _ allowed => of_decide_eq_true allowed
  exact ⟨state, reported, released, usedWhileLive_of_reachable reported⟩

/-- A consumer that is quicker than the producer's `printf` frees the message under it. -/
theorem not_usedWhileLive_unreported :
    ¬∀ state, (system pair).Reachable state → UsedWhileLive state := by
  intro always
  have ran : ((system pair).run init (put ++ take ++ [.advance false []])).map Workers.misread =
      some [(false, 0)] := by
    decide +kernel
  rcases Option.map_eq_some_iff.mp ran with ⟨state, ran, misread⟩
  have used := always state (System.Reachable.of_run (.start rfl) ran)
  simp [used.misread_eq] at misread

end Runs

end Workers

end Osis.Lab05.CondQueue
