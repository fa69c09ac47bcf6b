import Osis.Lab05.CondQueue.Closing

/-!
# The workers of the program

While `running` is set, the slots of the arrays below the counts hold the live workers, a
worker ends only in a slot that `main` joins, and the mutex is held by the thread inside
a section of the queue functions or by `main` inside a section of its own.
-/

namespace Osis.Lab05.CondQueue

open Concurrency

universe u v

section Guarded

variable {Thread : Type v} {Message : Type u} {condition : Condition} {point : Point Message}

@[simp]
theorem Point.holds_notify : (point.notify condition).holds = point.holds := by
  unfold Point.notify
  split <;> rfl

theorem facts_notify {shared : Shared Thread Message} (facts : Facts shared point) :
    Facts shared (point.notify condition) := by
  unfold Point.notify
  split
  · trivial
  · trivial
  · exact facts

variable [DecidableEq Thread]

theorem Outcome.wellFormed {shared shared' : Shared Thread Message} {thread : Thread}
    {point' : Point Message} (outcome : Outcome shared thread point shared' point')
    (facts : Facts shared point) (wellFormed : shared.queue.WellFormed) :
    shared'.queue.WellFormed := by
  cases outcome with
  | stay | acquire | release => exact wellFormed
  | insert msg => exact Queue.wellFormed_insert wellFormed facts msg
  | remove => exact Queue.wellFormed_remove wellFormed facts
  | resize newcap _ _ room => exact Queue.wellFormed_resize wellFormed (room wellFormed facts)

/-- A call that has come as far as a result succeeds. -/
def Point.Succeeds : Point Message → Prop
  | .queuePush _ (.unlock code) => code = 0
  | .queuePop (.signal msg) => msg.isSome = true
  | .queuePop (.unlock result) => result.join.isSome = true
  | _ => True

omit [DecidableEq Thread] in
theorem succeeds_notify (succeeds : point.Succeeds) : (point.notify condition).Succeeds := by
  unfold Point.notify
  split
  · trivial
  · trivial
  · exact succeeds

/-- No slot of the ring that holds a message has been left unwritten. -/
def Filled (queue : Queue Message) : Prop := ∀ slot ∈ queue.contents, slot.isSome = true

/-- While `running`, a call comes to a successful result. -/
theorem succeeds_advance {shared shared' : Shared Thread Message} {thread : Thread}
    {point' : Point Message} {notice : Notice}
    (taken : advance shared thread point = some (shared', point', notice))
    (running : shared.running = true) (wellFormed : shared.queue.WellFormed)
    (filled : Filled shared.queue) (facts : Facts shared point) (succeeds : point.Succeeds) :
    point'.Succeeds := by
  cases advances_of_advance taken with
  | lock free locks =>
      cases locks with
      | push | pushAgain | pop | popAgain | increase | decrease => trivial
  | pushFails msg stopped => exact absurd (running.symm.trans stopped) (by decide)
  | popFails stopped => exact absurd running stopped
  | pushSignals => rfl
  | remove =>
      have in_ring : shared.queue.front ∈ shared.queue.contents := by
        rw [Queue.contents_remove wellFormed facts]
        exact List.mem_cons_self
      exact filled _ in_ring
  | popSignals => exact succeeds
  | pushWaits | pushWakes | pushLeaves | pushGoesOn | insert | pushReturns | popWaits | popWakes
  | popLeaves | popGoesOn | popReturns | grow | increaseNotifies | increaseReturns | decreaseFails
  | decreaseGoesOn | shrink | decreaseNotifies | decreaseReturns => trivial

theorem Outcome.filled {shared shared' : Shared Thread Message} {thread : Thread}
    {point' : Point Message} (outcome : Outcome shared thread point shared' point')
    (facts : Facts shared point) (wellFormed : shared.queue.WellFormed)
    (filled : Filled shared.queue) : Filled shared'.queue := by
  cases outcome with
  | stay | acquire | release => exact filled
  | insert msg =>
      intro slot slot_mem
      rw [Queue.contents_insert wellFormed facts] at slot_mem
      rcases List.mem_append.mp slot_mem with old | new
      · exact filled slot old
      · rw [List.mem_singleton.mp new]
        rfl
  | remove =>
      intro slot slot_mem
      apply filled slot
      rw [Queue.contents_remove wellFormed facts]
      exact List.mem_cons_of_mem _ slot_mem
  | resize newcap _ _ room =>
      intro slot slot_mem
      rw [Queue.contents_resize (room wellFormed facts).le] at slot_mem
      exact filled slot slot_mem

variable [Fintype Thread]

/-- The mutex and the threads agree, where `own` tells who is inside a section of its own. -/
structure Guarded (own : Thread → Bool) (state : State Thread Message) : Prop where
  running : state.shared.running = true
  locked : ∀ thread, Holds state.shared.mutex thread ((state.points thread).holds || own thread)
  facts : ∀ thread, Facts state.shared (state.points thread)
  wellFormed : state.shared.queue.WellFormed
  filled : Filled state.shared.queue
  succeeds : ∀ thread, (state.points thread).Succeeds
  covered : Covered state

namespace Guarded

variable {own : Thread → Bool} {state successor : State Thread Message} {thread : Thread}

omit [DecidableEq Thread] in
theorem holder_eq (guarded : Guarded own state) (inside : (state.points thread).holds = true) :
    state.shared.mutex = some thread :=
  (guarded.locked thread).mp (by simp [inside])

theorem call (guarded : Guarded own state) {call : Call Message}
    (taken : next state (.call thread call) = some successor) : Guarded own successor := by
  have covered := covered_next (fun _ => guarded.covered) taken
  rcases called_of_next taken with ⟨idle, rfl⟩
  have entry_outside : call.entry.holds = false := by cases call <;> rfl
  refine ⟨guarded.running, fun other => ?_, fun other => ?_, guarded.wellFormed,
    guarded.filled, fun other => ?_, covered guarded.running⟩
  · have before := guarded.locked other
    by_cases same : other = thread
    · subst same
      rw [idle] at before
      simp only [Function.update_self, entry_outside]
      exact before
    · simpa [same] using before
  · by_cases same : other = thread
    · subst same
      simpa using facts_of_holds_eq_false entry_outside state.shared
    · simpa [same] using guarded.facts other
  · by_cases same : other = thread
    · subst same
      simp only [Function.update_self]
      cases call <;> trivial
    · simpa [same] using guarded.succeeds other

theorem step (guarded : Guarded own state) {woken : List Thread} (outside : own thread = false)
    (taken : next state (.step thread woken) = some successor) : Guarded own successor := by
  have covered := covered_next (fun _ => guarded.covered) taken
  rcases stepped_of_next taken with ⟨shared, point, notice, points, advanced, delivered, rfl⟩
  have outcome := outcome_advance advanced
  have running : shared.running = true := outcome.running_eq.trans guarded.running
  have own_locked := guarded.locked thread
  rw [outside, Bool.or_false] at own_locked
  refine ⟨running, fun other => ?_, fun other => ?_,
    outcome.wellFormed (guarded.facts thread) guarded.wellFormed,
    outcome.filled (guarded.facts thread) guarded.wellFormed guarded.filled, fun other => ?_,
    covered running⟩
  · have arrived : Holds shared.mutex other
        ((Function.update state.points thread point other).holds || own other) := by
      by_cases same : other = thread
      · subst same
        simpa [outside] using outcome.mutexStep.own own_locked
      · simpa [same] using outcome.mutexStep.elsewhere own_locked same (guarded.locked other)
    change Holds shared.mutex other ((points other).holds || own other)
    rcases deliver_cases delivered other with stays | ⟨condition, notified⟩
    · rw [stays]
      exact arrived
    · rw [notified, Point.holds_notify]
      exact arrived
  · have arrived : Facts shared (Function.update state.points thread point other) := by
      by_cases same : other = thread
      · subst same
        simpa using outcome.facts guarded.wellFormed (guarded.facts other)
      · rw [Function.update_of_ne same]
        by_cases inside : (state.points other).holds = true
        · have stepping_outside : (state.points thread).holds = false := by
            have others := guarded.locked other
            rw [inside, Bool.true_or] at others
            exact own_locked.exclusive others same
          exact facts_of_queue_eq (outcome.queue_eq stepping_outside)
            (fun stopped => outcome.running_eq.trans stopped) (guarded.facts other)
        · exact facts_of_holds_eq_false (by simpa using inside) _
    change Facts shared (points other)
    rcases deliver_cases delivered other with stays | ⟨condition, notified⟩
    · rw [stays]
      exact arrived
    · rw [notified]
      exact facts_notify arrived
  · have arrived : (Function.update state.points thread point other).Succeeds := by
      by_cases same : other = thread
      · subst same
        rw [Function.update_self]
        exact succeeds_advance advanced guarded.running guarded.wellFormed guarded.filled
          (guarded.facts other) (guarded.succeeds other)
      · rw [Function.update_of_ne same]
        exact guarded.succeeds other
    change (points other).Succeeds
    rcases deliver_cases delivered other with stays | ⟨condition, notified⟩
    · rw [stays]
      exact arrived
    · rw [notified]
      exact succeeds_notify arrived

/-- A thread outside the queue functions locks the mutex for a section of its own. -/
theorem lock (guarded : Guarded own state) (free : state.shared.mutex = none)
    (idle : state.points thread = .idle) :
    Guarded (Function.update own thread true)
      { state with shared := { state.shared with mutex := some thread } } := by
  refine ⟨guarded.running, fun other => ?_, fun other => ?_, guarded.wellFormed, guarded.filled,
    guarded.succeeds, guarded.covered⟩
  · by_cases same : other = thread
    · subst same
      simp [Holds]
    · have before := guarded.locked other
      rw [free] at before
      simpa [Holds, same, Ne.symm same] using before
  · exact facts_of_queue_eq rfl id (guarded.facts other)

theorem unlock (guarded : Guarded own state) (entered : own thread = true)
    (idle : state.points thread = .idle) :
    Guarded (Function.update own thread false)
      { state with shared := { state.shared with mutex := none } } := by
  have holder : state.shared.mutex = some thread := (guarded.locked thread).mp (by simp [entered])
  refine ⟨guarded.running, fun other => ?_, fun other => ?_, guarded.wellFormed, guarded.filled,
    guarded.succeeds, guarded.covered⟩
  · by_cases same : other = thread
    · subst same
      simp [Holds, idle, Point.holds]
    · have before := guarded.locked other
      rw [holder] at before
      simpa [Holds, same, Ne.symm same] using before
  · exact facts_of_queue_eq rfl id (guarded.facts other)

omit [DecidableEq Thread] in
theorem broadcast (guarded : Guarded own state) (condition : Condition) :
    Guarded own { state with points := fun thread => (state.points thread).notify condition } := by
  refine ⟨guarded.running, fun other => ?_, fun other => facts_notify (guarded.facts other),
    guarded.wellFormed, guarded.filled, fun other => succeeds_notify (guarded.succeeds other),
    fun other thread waits => ?_⟩
  · simpa using guarded.locked other
  · have waits_before := (Point.waitsOn_of_notify waits).1
    exact (guarded.covered other thread waits_before).trans
      (Finset.sum_le_sum fun _ _ => Point.credit_le_notify)

end Guarded

end Guarded

/-- The kind of worker that stands at a point. -/
def Point.role {Message : Type u} : Point Message → Option Kind
  | .queuePush _ _ => some .producer
  | .queuePop _ => some .consumer
  | _ => none

section Role

variable {Thread : Type v} {Message : Type u} {point point' : Point Message}

@[simp]
theorem Point.role_notify (condition : Condition) :
    (point.notify condition).role = point.role := by
  unfold Point.notify
  split <;> rfl

theorem Point.notify_eq_idle {condition : Condition} :
    point.notify condition = .idle ↔ point = .idle := by
  unfold Point.notify
  split <;> simp

variable [DecidableEq Thread] {shared shared' : Shared Thread Message} {thread : Thread}
  {notice : Notice}

/-- A step stays in its function until the call returns. -/
theorem role_advance (taken : advance shared thread point = some (shared', point', notice)) :
    (Program.goesOn point = none ∧ point'.role = point.role ∧
        (point.role = none ∨ point' ≠ .idle)) ∨
      ((Program.goesOn point).isSome = true ∧ point' = .idle) ∨ (point.role = none ∧ point' = .idle)
    := by
  cases advances_of_advance taken with
  | lock free locks =>
      cases locks with
      | push | pushAgain | pop | popAgain => exact Or.inl ⟨rfl, rfl, Or.inr (by simp)⟩
      | increase | decrease => exact Or.inl ⟨rfl, rfl, Or.inl rfl⟩
  | pushWaits | pushWakes | pushLeaves | pushGoesOn | pushFails | insert | pushSignals
  | popWaits | popWakes | popLeaves | popGoesOn | popFails | remove | popSignals =>
      exact Or.inl ⟨rfl, rfl, Or.inr (by simp)⟩
  | pushReturns | popReturns => exact Or.inr (Or.inl ⟨rfl, rfl⟩)
  | grow | increaseNotifies | increaseReturns | decreaseFails | decreaseGoesOn | shrink
  | decreaseNotifies | decreaseReturns => exact Or.inl ⟨rfl, rfl, Or.inl rfl⟩

/-- What a step does to the roles: only the stepping thread may enter or leave a function. -/
theorem role_step [Fintype Thread] {state successor : State Thread Message} {woken : List Thread}
    (taken : next state (.step thread woken) = some successor) :
    (∀ other, other ≠ thread → (successor.points other).role = (state.points other).role ∧
      (successor.points other = .idle ↔ state.points other = .idle)) ∧
    ((Program.goesOn (state.points thread) = none ∧
        (successor.points thread).role = (state.points thread).role ∧
        ((state.points thread).role = none ∨ successor.points thread ≠ .idle)) ∨
      ((Program.goesOn (state.points thread)).isSome = true ∧ successor.points thread = .idle) ∨
      ((state.points thread).role = none ∧ successor.points thread = .idle)) := by
  rcases stepped_of_next taken with ⟨shared, point, notice, points, advanced, delivered, rfl⟩
  have unmoved : ∀ other, (points other).role =
        (Function.update state.points thread point other).role ∧
      (points other = .idle ↔ Function.update state.points thread point other = .idle) := by
    intro other
    rcases deliver_cases delivered other with same | ⟨condition, notified⟩
    · rw [same]
      exact ⟨rfl, Iff.rfl⟩
    · rw [notified]
      exact ⟨Point.role_notify condition, Point.notify_eq_idle⟩
  constructor
  · intro other different
    simpa [different] using unmoved other
  · have own := unmoved thread
    rw [Function.update_self] at own
    simp only
    rw [own.1, Ne, own.2]
    exact role_advance advanced

end Role

/-- `main` waits for the end of the worker in a slot. -/
def MainPoint.joins {maxProds : ℕ} (kind : Kind) (slot : Fin maxProds) :
    MainPoint maxProds → Bool
  | .join kind' slot' _ => kind' = kind ∧ slot' = slot
  | _ => false

/-- The kind of which `main` is about to cancel the last worker. -/
def MainPoint.removes {maxProds : ℕ} : MainPoint maxProds → Option Kind
  | .lock _ (.removeLast kind _) | .locked _ (.removeLast kind _) | .cancel kind _ => some kind
  | _ => none

/-- `main` is inside a mutex section of its own. -/
def MainPoint.inSection {maxProds : ℕ} : MainPoint maxProds → Bool
  | .locked _ _ => true
  | _ => false

namespace Program

variable {maxProds : ℕ} {Message : Type u}

/-- The thread that is inside a section outside the queue functions. -/
def ownSection (main : MainPoint maxProds) : ThreadId maxProds → Bool
  | .main => main.inSection
  | .worker _ _ => false

/-- What holds between the steps of a run that keeps `running` set. -/
structure Staffed (state : Program maxProds Message) : Prop where
  guarded : Guarded (ownSection state.main) state.queue
  main_role : (state.queue.points .main).role = none
  main_idle : state.main ≠ .resize → state.queue.points .main = .idle
  role : ∀ kind slot, state.queue.points (.worker kind slot) = .idle ∨
    (state.queue.points (.worker kind slot)).role = some kind
  calling : ∀ kind slot,
    state.tasks kind slot = .calling ↔ state.queue.points (.worker kind slot) ≠ .idle
  present : ∀ kind slot, state.tasks kind slot ≠ .absent ↔
    slot < state.count kind ∨ state.main.joins kind slot = true
  last : ∀ kind slot, state.main.joins kind slot = true → slot = state.count kind
  cancelled : ∀ kind slot, state.cancelled kind slot = state.main.joins kind slot
  ended : ∀ kind slot, state.tasks kind slot = .ended → state.main.joins kind slot = true
  count_le : ∀ kind, state.count kind ≤ maxProds
  some_left : ∀ kind, state.main.removes = some kind → 0 < state.count kind

section Tasks

variable {state successor : Program maxProds Message} {kind : Kind} {slot : Fin maxProds}

theorem update_update_apply {Value : Type*} (values : Kind → Fin maxProds → Value) (value : Value)
    (kind' : Kind) (slot' : Fin maxProds) :
    Function.update values kind (Function.update (values kind) slot value) kind' slot' =
      if kind' = kind ∧ slot' = slot then value else values kind' slot' := by
  by_cases same_kind : kind' = kind
  · subst same_kind
    by_cases same_slot : slot' = slot
    · simp [same_slot]
    · simp [same_slot]
  · simp [same_kind]

theorem setTask_tasks (task : Task) (kind' : Kind) (slot' : Fin maxProds) :
    (state.setTask kind slot task).tasks kind' slot' =
      if kind' = kind ∧ slot' = slot then task else state.tasks kind' slot' :=
  update_update_apply state.tasks task kind' slot'

theorem worker_ne {kind' : Kind} {slot' : Fin maxProds}
    (different : ¬(kind' = kind ∧ slot' = slot)) :
    ThreadId.worker kind' slot' ≠ .worker kind slot := by
  simpa using different

/-- Outside its calls a worker is in no queue function. -/
theorem Staffed.idle_of_ne (staffed : Staffed state)
    (elsewhere : state.tasks kind slot ≠ .calling) :
    state.queue.points (.worker kind slot) = .idle := by
  by_contra busy
  exact elsewhere ((staffed.calling kind slot).mpr busy)

/-- A worker in a call is in the function of its kind. -/
theorem Staffed.role_of_calling (staffed : Staffed state)
    (calling : state.tasks kind slot = .calling) :
    (state.queue.points (.worker kind slot)).role = some kind :=
  (staffed.role kind slot).resolve_left ((staffed.calling kind slot).mp calling)

theorem Staffed.calling_of_holds (staffed : Staffed state)
    (inside : (state.queue.points (.worker kind slot)).holds = true) :
    state.tasks kind slot = .calling := by
  apply (staffed.calling kind slot).mpr
  intro idle
  rw [idle] at inside
  exact absurd inside Bool.false_ne_true

/-- A worker that moves on to a live task stays one of the workers. -/
theorem Staffed.moved (staffed : Staffed state) {task : Task}
    {queue : State (ThreadId maxProds) Message}
    (guarded : Guarded (ownSection state.main) queue)
    (others : ∀ other, other ≠ .worker kind slot →
      (queue.points other).role = (state.queue.points other).role ∧
        (queue.points other = .idle ↔ state.queue.points other = .idle))
    (role : queue.points (.worker kind slot) = .idle ∨
      (queue.points (.worker kind slot)).role = some kind)
    (calling : task = .calling ↔ queue.points (.worker kind slot) ≠ .idle)
    (alive : state.tasks kind slot ≠ .absent) (alive' : task ≠ .absent)
    (ended : task = .ended → state.main.joins kind slot = true) :
    Staffed ({ state with queue := queue }.setTask kind slot task) := by
  have not_main : (.main : ThreadId maxProds) ≠ .worker kind slot := by simp
  refine ⟨guarded, (others .main not_main).1.trans staffed.main_role,
    fun outside => (others .main not_main).2.mpr (staffed.main_idle outside),
    fun kind' slot' => ?_, fun kind' slot' => ?_, fun kind' slot' => ?_, staffed.last,
    staffed.cancelled, fun kind' slot' ends => ?_, staffed.count_le, staffed.some_left⟩
  · by_cases same : kind' = kind ∧ slot' = slot
    · rw [same.1, same.2]
      exact role
    · have unmoved := others _ (worker_ne same)
      exact (staffed.role kind' slot').imp unmoved.2.mpr unmoved.1.trans
  · rw [setTask_tasks]
    by_cases same : kind' = kind ∧ slot' = slot
    · rw [if_pos same, same.1, same.2]
      exact calling
    · rw [if_neg same]
      exact (staffed.calling kind' slot').trans (not_congr (others _ (worker_ne same)).2).symm
  · rw [setTask_tasks]
    by_cases same : kind' = kind ∧ slot' = slot
    · rw [if_pos same, same.1, same.2]
      exact (iff_of_true alive' alive).trans (staffed.present kind slot)
    · rw [if_neg same]
      exact staffed.present kind' slot'
  · rw [setTask_tasks] at ends
    by_cases same : kind' = kind ∧ slot' = slot
    · rw [if_pos same] at ends
      rw [same.1, same.2]
      exact ended ends
    · rw [if_neg same] at ends
      exact staffed.ended kind' slot' ends

/-- A call that returns lets the worker go on. -/
theorem afterStep_of_succeeds {point : Point Message} (succeeds : point.Succeeds) :
    afterStep point = if (goesOn point).isSome then .sleep else .calling := by
  unfold afterStep goesOn
  cases point with
  | idle | queueResizeIncrease | queueResizeDecrease => rfl
  | queuePush msg stage =>
      cases stage with
      | unlock code =>
          have success : code = 0 := succeeds
          subst success
          rfl
      | lock | test | wait | relock | check | insert | signal => rfl
  | queuePop stage =>
      cases stage with
      | unlock result =>
          have success : result.join.isSome = true := succeeds
          simp [success]
      | lock | test | wait | relock | check | remove | signal => rfl

/-- A step of a worker keeps the staff together. -/
theorem staffed_worker {msg : Message} {woken : List (ThreadId maxProds)}
    (staffed : Staffed state) (taken : state.workerNext kind slot msg woken = some successor) :
    Staffed successor := by
  cases workerAdvances_of_workerNext taken with
  | calls msg testing running called =>
      have guarded := staffed.guarded.call called
      rcases called_of_next called with ⟨-, rfl⟩
      have entered : (call msg kind).entry ≠ .idle ∧ (call msg kind).entry.role = some kind := by
        cases kind <;> exact ⟨by simp [call, Call.entry], rfl⟩
      refine staffed.moved guarded (fun other different => ?_) (Or.inr ?_) ?_ (by simp [testing])
        (by simp) (by simp)
      · simp [different]
      · simpa using entered.2
      · simpa using entered.1
  | leaves testing stopped => exact absurd staffed.guarded.running stopped
  | steps woken calling stepped =>
      have guarded := staffed.guarded.step rfl stepped
      have role := staffed.role_of_calling calling
      rcases role_step stepped with ⟨others, own⟩
      rw [role] at own
      rw [afterStep_of_succeeds (staffed.guarded.succeeds (.worker kind slot))]
      rcases own with ⟨inside, role', stays⟩ | ⟨returns, idle⟩ | ⟨impossible, -⟩
      · rw [inside]
        have stays' := stays.resolve_left (by simp)
        exact staffed.moved guarded others (Or.inr role') (by simpa using stays')
          (by simp [calling]) (by simp) (by simp)
      · rw [if_pos returns]
        exact staffed.moved guarded others (Or.inl idle) (by simpa using idle)
          (by simp [calling]) (by simp) (by simp)
      · simp at impossible
  | wakes asleep =>
      have idle : ¬state.queue.points (.worker kind slot) ≠ .idle :=
        not_not.mpr (staffed.idle_of_ne (by simp [asleep]))
      refine staffed.moved staffed.guarded (fun _ _ => ⟨rfl, Iff.rfl⟩)
        (staffed.role kind slot) ?_ (by simp [asleep]) ?_ ?_
      · refine iff_of_false ?_ idle
        split <;> simp
      · split <;> simp
      · intro ends
        rw [← staffed.cancelled]
        by_contra goes_on
        simp [goes_on] at ends

end Tasks

section Main

variable {state successor : Program maxProds Message}

/-- `main` moves on with the queue, without joining anyone before or after. -/
theorem Staffed.mainMoved (staffed : Staffed state) {queue : State (ThreadId maxProds) Message}
    {main : MainPoint maxProds} {left : Option Bool} (guarded : Guarded (ownSection main) queue)
    (role : (queue.points .main).role = none)
    (idle : main ≠ .resize → queue.points .main = .idle)
    (workers : ∀ kind slot,
      (queue.points (.worker kind slot)).role = (state.queue.points (.worker kind slot)).role ∧
        (queue.points (.worker kind slot) = .idle ↔
          state.queue.points (.worker kind slot) = .idle))
    (joins : ∀ kind slot, main.joins kind slot = state.main.joins kind slot)
    (removes : ∀ kind, main.removes = some kind → 0 < state.count kind) :
    Staffed { state with queue := queue, main := main, left := left } where
  guarded := guarded
  main_role := role
  main_idle := idle
  role kind slot := (staffed.role kind slot).imp (workers kind slot).2.mpr
    (workers kind slot).1.trans
  calling kind slot := (staffed.calling kind slot).trans (not_congr (workers kind slot).2).symm
  present kind slot := by
    rw [joins]
    exact staffed.present kind slot
  last kind slot joining := staffed.last kind slot (joins kind slot ▸ joining)
  cancelled kind slot := (staffed.cancelled kind slot).trans (joins kind slot).symm
  ended kind slot ends := (joins kind slot).trans (staffed.ended kind slot ends)
  count_le := staffed.count_le
  some_left := removes

/-- `main` moves on outside the queue and its own sections. -/
theorem Staffed.mainAt (staffed : Staffed state) {main : MainPoint maxProds} {left : Option Bool}
    (outside : main.inSection = state.main.inSection) (not_resizing : state.main ≠ .resize)
    (joins : ∀ kind slot, main.joins kind slot = state.main.joins kind slot)
    (removes : ∀ kind, main.removes = some kind → 0 < state.count kind) :
    Staffed { state with main := main, left := left } := by
  have same_own : ownSection main = ownSection state.main := by
    funext thread
    cases thread with
    | main => exact outside
    | worker kind slot => rfl
  exact staffed.mainMoved (same_own ▸ staffed.guarded) staffed.main_role
    (fun _ => staffed.main_idle not_resizing) (fun _ _ => ⟨rfl, Iff.rfl⟩) joins removes

theorem ownSection_update (main : MainPoint maxProds) (inside : Bool) :
    Function.update (ownSection main) .main inside =
      fun thread => if thread = .main then inside else false := by
  funext thread
  cases thread <;> simp [ownSection]

theorem ownSection_eq (main : MainPoint maxProds) :
    ownSection main = fun thread => if thread = .main then main.inSection else false := by
  funext thread
  cases thread <;> simp [ownSection]

/-- `main` steps inside a resize function, or calls one. -/
theorem staffed_resize {action : Action (ThreadId maxProds) Message}
    {queue : State (ThreadId maxProds) Message} {main : MainPoint maxProds}
    (staffed : Staffed state) (resizing : main = .resize)
    (outside : state.main.inSection = false)
    (no_join : ∀ kind slot, state.main.joins kind slot = false)
    (acts : action = .step .main [] ∨ action = .call .main .increase ∨
      action = .call .main .decrease)
    (taken : CondQueue.next state.queue action = some queue) :
    Staffed { state with queue := queue, main := main } := by
  subst resizing
  have same_own : ownSection (.resize : MainPoint maxProds) = ownSection state.main := by
    rw [ownSection_eq, ownSection_eq, outside]
    rfl
  have removes : ∀ kind, (.resize : MainPoint maxProds).removes = some kind →
      0 < state.count kind := fun kind removing => absurd removing (by simp [MainPoint.removes])
  have joins : ∀ kind slot, (.resize : MainPoint maxProds).joins kind slot =
      state.main.joins kind slot := fun kind slot => (no_join kind slot).symm
  rcases acts with rfl | called
  · have main_outside : ownSection state.main .main = false := outside
    have guarded := staffed.guarded.step main_outside taken
    rcases role_step taken with ⟨others, own⟩
    refine staffed.mainMoved (same_own ▸ guarded) ?_ (fun other => absurd rfl other)
      (fun kind slot => others _ (by simp)) joins removes
    rcases own with ⟨-, role', -⟩ | ⟨-, idle⟩ | ⟨-, idle⟩
    · exact role'.trans staffed.main_role
    · rw [idle]
      rfl
    · rw [idle]
      rfl
  · have entered : ∃ call : Call Message, action = .call .main call ∧ call.entry.role = none := by
      rcases called with rfl | rfl
      · exact ⟨.increase, rfl, rfl⟩
      · exact ⟨.decrease, rfl, rfl⟩
    rcases entered with ⟨call, rfl, no_role⟩
    have guarded := staffed.guarded.call taken
    rcases called_of_next taken with ⟨-, rfl⟩
    refine staffed.mainMoved (same_own ▸ guarded) ?_ (fun other => absurd rfl other)
      (fun kind slot => ?_) joins removes
    · simpa using no_role
    · simp

theorem staffed_create (staffed : Staffed state) (scanning : state.main = .scan) (kind : Kind) :
    Staffed (state.create kind) := by
  have idle := staffed.main_idle (by simp [scanning])
  unfold create
  split
  · next room =>
      have was_absent : state.tasks kind ⟨state.count kind, room⟩ = .absent := by
        by_contra alive
        have := (staffed.present _ _).mp alive
        simp [scanning, MainPoint.joins] at this
      have same_own : ownSection (.test : MainPoint maxProds) = ownSection state.main := by
        rw [scanning]
        rfl
      refine ⟨same_own ▸ staffed.guarded, staffed.main_role, fun _ => idle, staffed.role,
        fun kind' slot' => ?_, fun kind' slot' => ?_, fun _ _ joins => ?_, fun kind' slot' => ?_,
        fun kind' slot' ends => ?_, fun kind' => ?_, fun _ removes => ?_⟩
      · simp only [setTask_tasks]
        split
        · next same =>
            rw [same.1, same.2]
            have not_calling := staffed.calling kind ⟨state.count kind, room⟩
            rw [was_absent] at not_calling
            exact iff_of_false (by simp) fun busy => absurd (not_calling.mpr busy) (by simp)
        · exact staffed.calling kind' slot'
      · simp only [setTask_tasks]
        have before := staffed.present kind' slot'
        simp only [scanning, MainPoint.joins, Bool.false_eq_true, or_false] at before ⊢
        by_cases same_kind : kind' = kind
        · subst same_kind
          rw [Function.update_self]
          by_cases same_slot : slot' = ⟨state.count kind', room⟩
          · simp [same_slot]
          · have different : (slot' : ℕ) ≠ state.count kind' := fun same =>
              same_slot (Fin.ext same)
            rw [if_neg (by simp [same_slot]), before]
            omega
        · rw [if_neg (by simp [same_kind]), Function.update_of_ne same_kind]
          exact before
      · exact absurd joins Bool.false_ne_true
      · have before := staffed.cancelled kind' slot'
        rw [scanning] at before
        exact before
      · simp only [setTask_tasks] at ends
        split at ends
        · simp at ends
        · have before := staffed.ended kind' slot' ends
          rw [scanning] at before
          exact before
      · change Function.update state.count kind (state.count kind + 1) kind' ≤ maxProds
        by_cases same_kind : kind' = kind
        · subst same_kind
          rw [Function.update_self]
          exact room
        · rw [Function.update_of_ne same_kind]
          exact staffed.count_le kind'
      · exact absurd removes (by simp [MainPoint.removes])
  · exact staffed.mainAt (by rw [scanning]; rfl) (by simp [scanning])
      (by simp [scanning, MainPoint.joins]) (by simp [MainPoint.removes])

theorem staffed_cancel {kind : Kind} {caller : Caller} (staffed : Staffed state)
    (cancelling : state.main = .cancel kind caller)
    (taken : state.cancel kind caller = some successor) : Staffed successor := by
  have idle := staffed.main_idle (by simp [cancelling])
  have some_left : 0 < state.count kind :=
    staffed.some_left kind (by simp [cancelling, MainPoint.removes])
  simp only [cancel, Option.dite_none_right_eq_some, Option.some.injEq] at taken
  rcases taken with ⟨slot_lt, rfl⟩
  have same_own : ownSection (.join kind ⟨state.count kind - 1, slot_lt⟩ caller) =
      ownSection state.main := by
    rw [cancelling]
    rfl
  have no_join : ∀ kind slot, state.main.joins kind slot = false := by
    simp [cancelling, MainPoint.joins]
  refine ⟨same_own ▸ staffed.guarded, staffed.main_role, fun _ => idle, staffed.role,
    staffed.calling, fun kind' slot' => ?_, fun kind' slot' joins => ?_, fun kind' slot' => ?_,
    fun kind' slot' ends => ?_, fun kind' => ?_, fun _ removes => ?_⟩
  · rw [staffed.present, no_join]
    simp only [MainPoint.joins, decide_eq_true_eq, Bool.false_eq_true, or_false]
    by_cases same_kind : kind' = kind
    · subst same_kind
      simp only [Function.update_self, true_and]
      have last : ((⟨state.count kind' - 1, slot_lt⟩ : Fin maxProds) : ℕ) =
        state.count kind' - 1 := rfl
      rw [Fin.ext_iff]
      omega
    · simp [same_kind, Ne.symm same_kind]
  · simp only [MainPoint.joins, decide_eq_true_eq] at joins
    rcases joins with ⟨rfl, rfl⟩
    simp
  · simp only [MainPoint.joins]
    rw [update_update_apply]
    split
    · next same => simp [same.1, same.2]
    · next different =>
        rw [staffed.cancelled, no_join]
        simp only [false_eq_decide_iff]
        exact fun same => different ⟨same.1.symm, same.2.symm⟩
  · exact absurd (staffed.ended kind' slot' ends) (by simp [no_join])
  · change Function.update state.count kind (state.count kind - 1) kind' ≤ maxProds
    have before := staffed.count_le kind'
    by_cases same_kind : kind' = kind
    · subst same_kind
      rw [Function.update_self]
      omega
    · rw [Function.update_of_ne same_kind]
      exact before
  · exact absurd removes (by simp [MainPoint.removes])

theorem staffed_join {kind : Kind} {slot : Fin maxProds} {caller : Caller}
    (staffed : Staffed state) (joining : state.main = .join kind slot caller)
    (taken : state.join kind slot caller = some successor) : Staffed successor := by
  have idle := staffed.main_idle (by simp [joining])
  simp only [join, Option.ite_none_right_eq_some, Option.some.injEq] at taken
  rcases taken with ⟨ended, rfl⟩
  have same_own : ownSection (Caller.target caller : MainPoint maxProds) =
      ownSection state.main := by
    rw [joining]
    cases caller <;> rfl
  have no_join : ∀ kind slot,
      (Caller.target caller : MainPoint maxProds).joins kind slot = false := by
    cases caller <;> simp [Caller.target, MainPoint.joins]
  have joins_iff : ∀ kind' slot', state.main.joins kind' slot' = true ↔
      kind' = kind ∧ slot' = slot := by
    intro kind' slot'
    simp only [joining, MainPoint.joins, decide_eq_true_eq]
    exact and_congr eq_comm eq_comm
  have last := staffed.last kind slot ((joins_iff kind slot).mpr ⟨rfl, rfl⟩)
  refine ⟨same_own ▸ staffed.guarded, staffed.main_role, fun _ => idle, staffed.role,
    fun kind' slot' => ?_, fun kind' slot' => ?_, fun kind' slot' joins => ?_,
    fun kind' slot' => ?_, fun kind' slot' ends => ?_, staffed.count_le, fun _ removes => ?_⟩
  · simp only [setTask_tasks]
    split
    · next same =>
        rw [same.1, same.2]
        have not_calling := staffed.calling kind slot
        rw [ended] at not_calling
        exact iff_of_false (by simp) fun busy => absurd (not_calling.mpr busy) (by simp)
    · exact staffed.calling kind' slot'
  · simp only [setTask_tasks]
    rw [no_join]
    have before := staffed.present kind' slot'
    rw [joins_iff] at before
    by_cases same : kind' = kind ∧ slot' = slot
    · rw [if_pos same, same.1, same.2]
      simp only [ne_eq, not_true, Bool.false_eq_true, or_false, false_iff]
      exact Nat.not_lt.mpr (Nat.le_of_eq last.symm)
    · rw [if_neg same, before]
      simp only [same, Bool.false_eq_true]
      exact Iff.rfl
  · exact absurd joins (by simp [no_join])
  · simp only
    rw [no_join, update_update_apply]
    split
    · rfl
    · next different =>
        rw [staffed.cancelled, Bool.eq_false_iff]
        exact fun joins => different ((joins_iff kind' slot').mp joins)
  · simp only [setTask_tasks] at ends
    split at ends
    · simp at ends
    · next different =>
        exact absurd ((joins_iff kind' slot').mp (staffed.ended kind' slot' ends)) different
  · exact absurd removes (by cases caller <;> simp [Caller.target, MainPoint.removes])

/-- Through a mutex section `main` stays about to remove whom it is about to remove. -/
theorem removes_lock (broadcasts : List Condition) (after : After) :
    (.lock broadcasts after : MainPoint maxProds).removes =
      (.locked broadcasts after : MainPoint maxProds).removes := by
  cases after <;> rfl

theorem removes_locked (condition : Condition) (broadcasts : List Condition) (after : After) :
    (.locked (condition :: broadcasts) after : MainPoint maxProds).removes =
      (.locked broadcasts after : MainPoint maxProds).removes := by
  cases after <;> rfl

theorem removes_target (after : After) :
    (After.target after : MainPoint maxProds).removes =
      (.locked [] after : MainPoint maxProds).removes := by
  cases after <;> rfl

/-- A step of `main` keeps the staff together. -/
theorem staffed_main (staffed : Staffed state) (taken : state.mainNext = some successor) :
    Staffed successor := by
  cases mainAdvances_of_mainNext taken with
  | scans at_main =>
      exact staffed.mainAt (by rw [at_main]; rfl) (by simp [at_main])
        (by simp [at_main, MainPoint.joins]) (by simp [MainPoint.removes])
  | leaves _ stopped => exact absurd (stopped.symm.trans staffed.guarded.running) (by decide)
  | resized at_main idle =>
      have same_own : ownSection (.test : MainPoint maxProds) = ownSection state.main := by
        rw [at_main]
        rfl
      exact staffed.mainMoved (same_own ▸ staffed.guarded) staffed.main_role (fun _ => idle)
        (fun _ _ => ⟨rfl, Iff.rfl⟩) (by simp [at_main, MainPoint.joins])
        (by simp [MainPoint.removes])
  | resizes at_main stepped =>
      exact staffed_resize staffed at_main (by rw [at_main]; rfl)
        (by simp [at_main, MainPoint.joins]) (Or.inl rfl) stepped
  | @locks broadcasts after at_main free =>
      have idle := staffed.main_idle (by simp [at_main])
      have guarded := staffed.guarded.lock free idle
      rw [ownSection_update] at guarded
      have entered : ownSection (.locked broadcasts after : MainPoint maxProds) =
          fun thread => if thread = .main then true else false := ownSection_eq _
      refine staffed.mainMoved (entered ▸ guarded) staffed.main_role (fun _ => idle)
        (fun _ _ => ⟨rfl, Iff.rfl⟩) (by simp [at_main, MainPoint.joins]) fun kind removes => ?_
      apply staffed.some_left kind
      rw [at_main, removes_lock, removes]
  | @unlocks after at_main =>
      have idle := staffed.main_idle (by simp [at_main])
      have entered : ownSection state.main .main = true := by
        rw [at_main]
        rfl
      have guarded := staffed.guarded.unlock entered idle
      rw [ownSection_update] at guarded
      have outside : (After.target after : MainPoint maxProds).inSection = false := by
        cases after <;> rfl
      have left_section : ownSection (After.target after : MainPoint maxProds) =
          fun thread => if thread = .main then false else false := by
        rw [ownSection_eq, outside]
      refine staffed.mainMoved (left_section ▸ guarded) staffed.main_role (fun _ => idle)
        (fun _ _ => ⟨rfl, Iff.rfl⟩) (fun kind slot => ?_) fun kind removes => ?_
      · rw [at_main]
        cases after <;> rfl
      · apply staffed.some_left kind
        rw [at_main, ← removes_target, removes]
  | @broadcasts condition broadcasts after at_main =>
      have idle := staffed.main_idle (by simp [at_main])
      have guarded := staffed.guarded.broadcast condition
      have same_own : ownSection (.locked broadcasts after : MainPoint maxProds) =
          ownSection state.main := by
        rw [at_main]
        rfl
      refine staffed.mainMoved (same_own ▸ guarded) ?_ (fun _ => ?_) (fun kind slot => ?_)
        (by simp [at_main, MainPoint.joins]) fun kind removes => ?_
      · simpa [Program.broadcast] using staffed.main_role
      · exact Point.notify_eq_idle.mpr idle
      · exact ⟨Point.role_notify condition, Point.notify_eq_idle⟩
      · apply staffed.some_left kind
        rw [at_main, removes_locked, removes]
  | @nobodyLeft kind caller at_main nobody =>
      refine staffed.mainAt (by rw [at_main]; cases caller <;> rfl) (by simp [at_main])
        (fun kind' slot' => ?_) fun kind' removes => ?_
      · rw [at_main]
        cases caller <;> rfl
      · exact absurd removes (by cases caller <;> simp [Caller.target, MainPoint.removes])
  | removes at_main some_left =>
      refine staffed.mainAt (by rw [at_main]; rfl) (by simp [at_main])
        (by simp [at_main, MainPoint.joins]) fun kind' removes => ?_
      simp only [MainPoint.removes, Option.some.injEq] at removes
      exact removes ▸ some_left
  | cancels at_main taken => exact staffed_cancel staffed at_main taken
  | joins at_main taken => exact staffed_join staffed at_main taken
  | removesNext at_main =>
      exact staffed.mainAt (by rw [at_main]; rfl) (by simp [at_main])
        (by simp [at_main, MainPoint.joins]) (by simp [MainPoint.removes])
  | @removedAll final at_main =>
      cases final with
      | true =>
          exact staffed.mainAt (by rw [at_main]; rfl) (by simp [at_main])
            (by simp [at_main, MainPoint.joins]) (by simp [MainPoint.removes])
      | false =>
          exact staffed.mainAt (by rw [at_main]; rfl) (by simp [at_main])
            (by simp [at_main, MainPoint.joins]) (by simp [MainPoint.removes])

/-- A command that does not stop the program keeps the staff together. -/
theorem staffed_execute {command : Command} (staffed : Staffed state)
    (scanning : state.main = .scan) (goes_on : command ≠ .quit)
    (taken : state.execute command = some successor) : Staffed successor := by
  have outside : state.main.inSection = false := by
    rw [scanning]
    rfl
  have no_join : ∀ kind slot, state.main.joins kind slot = false := by
    simp [scanning, MainPoint.joins]
  cases command with
  | createProducer | createConsumer =>
      simp only [execute, Option.some.injEq] at taken
      exact taken ▸ staffed_create staffed scanning _
  | removeLastProducer | removeLastConsumer | removeAll | printStatus | unknown =>
      simp only [execute, Option.some.injEq] at taken
      subst taken
      exact staffed.mainAt (by rw [outside]; rfl) (by simp [scanning])
        (fun kind slot => (no_join kind slot).symm) (by simp [MainPoint.removes])
  | increase | decrease =>
      simp only [execute, queueNext, Option.map_eq_some_iff] at taken
      rcases taken with ⟨queue, taken, rfl⟩
      exact staffed_resize staffed rfl outside no_join (Or.inr (by simp)) taken
  | quit => exact absurd rfl goes_on

end Main

/-- A label that leaves `running` as it is. -/
def keepsRunning : Label maxProds Message → Bool
  | .interrupt | .command .quit => false
  | _ => true

theorem staffed_next {state successor : Program maxProds Message}
    {label : Label maxProds Message} (staffed : Staffed state)
    (keeps : keepsRunning label = true) (taken : state.next label = some successor) :
    Staffed successor := by
  cases label with
  | command command =>
      simp only [next] at taken
      split at taken
      · next scanning =>
          refine staffed_execute staffed scanning ?_ taken
          rintro rfl
          exact absurd keeps Bool.false_ne_true
      · simp at taken
  | endOfInput =>
      simp only [next] at taken
      split at taken
      · next scanning =>
          simp only [Option.some.injEq] at taken
          subst taken
          exact staffed.mainAt (by rw [scanning]; rfl) (by simp [scanning])
            (by simp [scanning, MainPoint.joins]) (by simp [MainPoint.removes])
      · simp at taken
  | main => exact staffed_main staffed taken
  | worker kind slot msg woken => exact staffed_worker staffed taken
  | interrupt => exact absurd keeps Bool.false_ne_true

theorem staffed_init : Staffed (init : Program maxProds Message) where
  guarded :=
    { running := rfl
      locked := fun thread => by cases thread <;> simp [Holds, init, CondQueue.init, Point.holds,
        ownSection, MainPoint.inSection]
      facts := fun _ => trivial
      wellFormed := Queue.wellFormed_queueInit
      filled := fun slot slot_mem => absurd slot_mem List.not_mem_nil
      succeeds := fun _ => trivial
      covered := fun condition thread waits => absurd waits (by
        cases condition <;> simp [init, CondQueue.init, Point.waitsOn]) }
  main_role := rfl
  main_idle := fun _ => rfl
  role := fun _ _ => Or.inl rfl
  calling := fun _ _ => by simp [init, CondQueue.init]
  present := fun _ _ => by simp [init, MainPoint.joins]
  last := fun _ _ joins => absurd joins Bool.false_ne_true
  cancelled := fun _ _ => rfl
  ended := fun _ _ ends => absurd ends (by simp [init])
  count_le := fun _ => Nat.zero_le _
  some_left := fun _ removes => absurd removes (by simp [init, MainPoint.removes])

end Program

end Osis.Lab05.CondQueue
