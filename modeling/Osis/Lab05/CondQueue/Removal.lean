import Osis.Lab05.CondQueue.Staff

/-!
# Removing a worker

A cancelled worker ends once the call it is in has returned, so `main` waits for ever if
that call does: in a producer if the queue stays full, in a consumer if it stays empty.
The worker is sure to end if a worker of the other kind is left, if its call has done its
work already, or if there is something left to take and no other worker can take it first.
-/

namespace Osis.Lab05.CondQueue

open Concurrency

universe u v

/-- Past the statements that put a message in or take one out. -/
def Point.past {Message : Type u} : Point Message → Bool
  | .queuePush _ .signal | .queuePush _ (.unlock _) => true
  | .queuePop (.signal _) | .queuePop (.unlock _) => true
  | _ => false

section Advance

variable {Thread : Type v} {Message : Type u} {point point' : Point Message}

@[simp]
theorem Point.past_notify (condition : Condition) : (point.notify condition).past = point.past := by
  unfold Point.notify
  split <;> rfl

theorem Point.eq_wait_of_waitsOn (waits : point.waitsOn .notFull = true) :
    ∃ msg, point = .queuePush msg (.wait false) := by
  unfold Point.waitsOn at waits
  split at waits
  · exact ⟨_, rfl⟩
  · next impossible => exact absurd impossible (by simp)
  · exact absurd waits Bool.false_ne_true

theorem Point.waitsOn_notify_of_eq_false {condition other : Condition}
    (awake : point.waitsOn condition = false) :
    (point.notify other).waitsOn condition = false := by
  by_contra waits
  rw [Bool.not_eq_false] at waits
  exact absurd ((Point.waitsOn_of_notify waits).1.symm.trans awake) (by decide)

variable [DecidableEq Thread] {shared shared' : Shared Thread Message} {thread : Thread}
  {notice : Notice}

/-- With something to take, a worker in front of its work comes closer to it. -/
theorem ready_advance {kind : Kind}
    (taken : advance shared thread point = some (shared', point', notice))
    (role : point.role = some kind) (running : shared.running = true)
    (available : 0 < kind.condition.available shared.queue) (before : point.past = false) :
    point'.past = true ∨ (shared'.queue = shared.queue ∧
      point'.waitsOn kind.condition = false ∧ (point.holds = true → point'.holds = true)) := by
  cases advances_of_advance taken with
  | lock free locks =>
      cases locks <;> cases kind <;> exact Or.inr ⟨rfl, rfl, fun _ => rfl⟩
  | pushWaits msg full =>
      cases kind with
      | producer => simp [Kind.condition, Condition.available, full] at available
      | consumer => cases role
  | popWaits empty =>
      cases kind with
      | producer => cases role
      | consumer => simp [Kind.condition, Condition.available, empty] at available
  | pushWakes | popWakes =>
      cases kind <;> exact Or.inr ⟨rfl, rfl, fun inside => absurd inside Bool.false_ne_true⟩
  | pushLeaves | pushGoesOn | popLeaves | popGoesOn =>
      cases kind <;> exact Or.inr ⟨rfl, rfl, fun _ => rfl⟩
  | pushFails msg stopped => exact absurd (running.symm.trans stopped) (by decide)
  | popFails stopped => exact absurd running stopped
  | insert | remove => exact Or.inl rfl
  | pushSignals | pushReturns | popSignals | popReturns =>
      exact absurd before.symm Bool.false_ne_true
  | grow | increaseNotifies | increaseReturns | decreaseFails | decreaseGoesOn | shrink
  | decreaseNotifies | decreaseReturns => cases role

/-- Past its work a worker stays so until its call returns. -/
theorem past_advance (taken : advance shared thread point = some (shared', point', notice))
    (past : point.past = true) : point'.past = true ∨ (Program.goesOn point).isSome = true := by
  cases advances_of_advance taken with
  | pushSignals | popSignals => exact Or.inl rfl
  | pushReturns | popReturns => exact Or.inr rfl
  | lock free locks => cases locks <;> exact absurd past Bool.false_ne_true
  | _ => exact absurd past Bool.false_ne_true

end Advance

namespace Program

variable {maxProds : ℕ} {Message : Type u}

/-- The worker is sure to end after `pthread_cancel`. -/
def Removable (state : Program maxProds Message) (kind : Kind) (slot : Fin maxProds) : Prop :=
  0 < state.count kind.other ∨ state.tasks kind slot = .sleep ∨
    (state.queue.points (.worker kind slot)).past = true ∨
    (0 < kind.condition.available state.queue.shared.queue ∧
      ((state.queue.points (.worker kind slot)).holds = true ∨ state.count kind = 1))

instance (state : Program maxProds Message) (kind : Kind) (slot : Fin maxProds) :
    Decidable (Removable state kind slot) :=
  inferInstanceAs (Decidable (_ ∨ _ ∨ _ ∨ _))

/-- The runs that set no end to `running` and cancel only workers that are sure to end. -/
def permitted (state : Program maxProds Message) (label : Label maxProds Message) : Bool :=
  keepsRunning label &&
    match label, state.main with
    | .main, .cancel kind _ =>
        decide (∀ slot : Fin maxProds, slot + 1 = state.count kind → Removable state kind slot)
    | _, _ => true

/-- The steps of workers, without the spurious wake-ups. -/
def awake (state : Program maxProds Message) : Label maxProds Message → Bool
  | .worker kind slot _ _ =>
      !(state.queue.points (.worker kind slot)).waitsOn kind.condition
  | _ => false

/-- The workers alone lead from one state to another. -/
def Leads (state final : Program maxProds Message) : Prop :=
  ∃ labels, ((system maxProds Message).restrict awake).run state labels = some final

/-- The workers alone can bring the task of a worker to its end. -/
def CanEnd (state : Program maxProds Message) (kind : Kind) (slot : Fin maxProds) : Prop :=
  ∃ final, Leads state final ∧ final.tasks kind slot = .ended

section Leads

variable {state middle final successor : Program maxProds Message} {kind : Kind}
  {slot : Fin maxProds}

theorem Leads.refl (state : Program maxProds Message) : Leads state state := ⟨[], rfl⟩

theorem Leads.trans (first : Leads state middle) (second : Leads middle final) :
    Leads state final := by
  rcases first with ⟨labels, ran⟩
  rcases second with ⟨labels', ran'⟩
  refine ⟨labels ++ labels', ?_⟩
  rw [System.run_append, ran]
  exact ran'

theorem Leads.of_worker (kind : Kind) (slot : Fin maxProds) (msg : Message)
    (woken : List (ThreadId maxProds))
    (moves : (state.queue.points (.worker kind slot)).waitsOn kind.condition = false)
    (taken : state.workerNext kind slot msg woken = some final) : Leads state final := by
  refine ⟨[.worker kind slot msg woken], ?_⟩
  have taken' : (system maxProds Message).next state (.worker kind slot msg woken) = some final :=
    taken
  simp [System.restrict, awake, moves, taken']

/-- A step of a worker leaves what belongs to `main` as it is. -/
theorem workerNext_frame {msg : Message} {woken : List (ThreadId maxProds)}
    (taken : state.workerNext kind slot msg woken = some successor) :
    successor.main = state.main ∧ successor.count = state.count := by
  cases workerAdvances_of_workerNext taken with
  | calls | leaves | steps | wakes => exact ⟨rfl, rfl⟩

/-- Only a thread steps. -/
theorem present_of_workerNext {msg : Message} {woken : List (ThreadId maxProds)}
    (taken : state.workerNext kind slot msg woken = some successor) :
    state.tasks kind slot ≠ .absent := by
  intro absent
  simp [workerNext, absent] at taken

theorem Leads.keeps (staffed : Staffed state) (leads : Leads state final) :
    Staffed final ∧ final.main = state.main ∧ final.count = state.count := by
  rcases leads with ⟨labels, ran⟩
  induction labels generalizing state with
  | nil =>
      simp only [System.run_nil, Option.some.injEq] at ran
      exact ran ▸ ⟨staffed, rfl, rfl⟩
  | cons label labels ih =>
      simp only [System.run_cons, Option.bind_eq_some_iff, System.restrict,
        Option.ite_none_right_eq_some] at ran
      rcases ran with ⟨successor, ⟨allowed, taken⟩, ran⟩
      cases label with
      | command | endOfInput | main | interrupt => exact absurd allowed Bool.false_ne_true
      | worker kind slot msg woken =>
          have same := workerNext_frame (show state.workerNext kind slot msg woken = _ from taken)
          have later := ih (staffed_worker staffed taken) ran
          exact ⟨later.1, later.2.1.trans same.1, later.2.2.trans same.2⟩

end Leads

/-- A state with one worker placed at a point of its task. -/
def place (state : Program maxProds Message) (kind : Kind) (slot : Fin maxProds) (task : Task)
    (shared : Shared (ThreadId maxProds) Message) (point : Point Message) :
    Program maxProds Message :=
  { state with
    queue := ⟨shared, Function.update state.queue.points (.worker kind slot) point⟩ }.setTask
      kind slot task

/-- A state with some of the threads notified. -/
def wake (state : Program maxProds Message) (condition : Condition)
    (woken : List (ThreadId maxProds)) : Program maxProds Message :=
  { state with
    queue := { state.queue with
      points := fun thread =>
        if thread ∈ woken then (state.queue.points thread).notify condition
        else state.queue.points thread } }

section Place

variable {state : Program maxProds Message} {kind : Kind} {slot : Fin maxProds}
  {task task' : Task} {shared shared' : Shared (ThreadId maxProds) Message}
  {point point' : Point Message}

@[simp]
theorem place_shared : (state.place kind slot task shared point).queue.shared = shared := rfl

@[simp]
theorem place_points_self :
    (state.place kind slot task shared point).queue.points (.worker kind slot) = point := by
  simp [place, setTask]

@[simp]
theorem place_tasks_self : (state.place kind slot task shared point).tasks kind slot = task := by
  rw [place, setTask_tasks]
  simp

theorem place_points_of_ne {other : ThreadId maxProds} (different : other ≠ .worker kind slot) :
    (state.place kind slot task shared point).queue.points other = state.queue.points other := by
  simp [place, setTask, different]

theorem place_tasks_of_ne {kind' : Kind} {slot' : Fin maxProds}
    (different : ¬(kind' = kind ∧ slot' = slot)) :
    (state.place kind slot task shared point).tasks kind' slot' = state.tasks kind' slot' := by
  rw [place, setTask_tasks, if_neg different]

@[simp]
theorem place_place :
    (state.place kind slot task shared point).place kind slot task' shared' point' =
      state.place kind slot task' shared' point' := by
  simp [place, setTask]

theorem place_self (task_eq : state.tasks kind slot = task)
    (point_eq : state.queue.points (.worker kind slot) = point) :
    state.place kind slot task state.queue.shared point = state := by
  subst task_eq
  subst point_eq
  simp [place, setTask]

variable [Inhabited Message]

/-- A step of a placed worker that notifies the given threads, if any. -/
theorem leads_place {notice : Notice} {woken : List (ThreadId maxProds)}
    {points : ThreadId maxProds → Point Message} (moves : point.waitsOn kind.condition = false)
    (advanced : advance shared (.worker kind slot) point = some (shared', point', notice))
    (delivered : deliver (Function.update state.queue.points (.worker kind slot) point') woken
      notice = some points) :
    Leads (state.place kind slot .calling shared point)
      ({ state with queue := ⟨shared', points⟩ }.setTask kind slot (afterStep point)) := by
  refine Leads.of_worker kind slot default woken (by simpa using moves) ?_
  simp only [workerNext, place_tasks_self, queueNext, CondQueue.next]
  simp [place, setTask, advanced, delivered]

/-- A silent step of a placed worker. -/
theorem leads_silent (moves : point.waitsOn kind.condition = false)
    (advanced : advance shared (.worker kind slot) point = some (shared', point', .silent)) :
    Leads (state.place kind slot .calling shared point)
      (state.place kind slot (afterStep point) shared' point') :=
  leads_place moves advanced (show deliver _ [] .silent = _ from rfl)

/-- Threads that a signal sent by `own` may wake up. -/
structure Wakes (state : Program maxProds Message) (condition : Condition)
    (own : ThreadId maxProds) (woken : List (ThreadId maxProds)) : Prop where
  wait : ∀ thread ∈ woken, thread ≠ own ∧
    (state.queue.points thread).waitsOn condition = true
  some_if_any : woken = [] → ∀ thread, thread ≠ own →
    (state.queue.points thread).waitsOn condition = false

omit [Inhabited Message] in
theorem exists_wakes (state : Program maxProds Message) (condition : Condition)
    (own : ThreadId maxProds) : ∃ woken, Wakes state condition own woken := by
  by_cases any : ∃ thread, thread ≠ own ∧ (state.queue.points thread).waitsOn condition = true
  · rcases any with ⟨thread, other, waits⟩
    refine ⟨[thread], fun other' other_mem => ?_, fun none => absurd none (List.cons_ne_nil _ _)⟩
    rw [List.mem_singleton.mp other_mem]
    exact ⟨other, waits⟩
  · refine ⟨[], fun _ other_mem => absurd other_mem List.not_mem_nil, fun _ thread other => ?_⟩
    by_contra waits
    exact any ⟨thread, other, by simpa using waits⟩

/-- A placed worker signals. -/
theorem leads_signal {condition : Condition} {woken : List (ThreadId maxProds)}
    (wakes : Wakes state condition (.worker kind slot) woken)
    (moves : point.waitsOn kind.condition = false) (awake : point'.waitsOn condition = false)
    (advanced : advance shared (.worker kind slot) point =
      some (shared', point', .signal condition)) :
    Leads (state.place kind slot .calling shared point)
      ((state.wake condition woken).place kind slot (afterStep point) shared' point') := by
  have chosen : (∀ thread ∈ woken,
        (Function.update state.queue.points (.worker kind slot) point' thread).waitsOn
          condition = true) ∧
      (woken = [] → ∀ thread, ¬(Function.update state.queue.points (.worker kind slot) point'
        thread).waitsOn condition = true) := by
    constructor
    · intro thread thread_mem
      have waits := wakes.wait thread thread_mem
      rw [Function.update_of_ne waits.1]
      exact waits.2
    · intro nobody thread
      by_cases own : thread = .worker kind slot
      · subst own
        simp [awake]
      · simp [own, wakes.some_if_any nobody thread own]
  have delivered : deliver (Function.update state.queue.points (.worker kind slot) point') woken
      (.signal condition) = some (Function.update (state.wake condition woken).queue.points
        (.worker kind slot) point') := by
    rw [deliver, if_pos chosen, Option.some.injEq]
    funext thread
    by_cases own : thread = .worker kind slot
    · have not_woken : thread ∉ woken := fun thread_mem => (wakes.wait thread thread_mem).1 own
      rw [if_neg not_woken, own, Function.update_self, Function.update_self]
    · rw [Function.update_of_ne own, Function.update_of_ne own]
      rfl
  exact leads_place moves advanced delivered

/-- What a worker leaves behind when it has put in or taken out one and its call has returned. -/
structure Served (state : Program maxProds Message) (kind : Kind) (slot : Fin maxProds)
    (woken : List (ThreadId maxProds)) (final : Program maxProds Message) : Prop where
  free : final.queue.shared.mutex = none
  asleep : final.tasks kind slot = .sleep
  available : 0 < kind.other.condition.available final.queue.shared.queue
  points : ∀ other, other ≠ .worker kind slot →
    final.queue.points other = (state.wake kind.other.condition woken).queue.points other
  tasks : ∀ kind' slot', ¬(kind' = kind ∧ slot' = slot) →
    final.tasks kind' slot' = state.tasks kind' slot'

omit [Inhabited Message] in
theorem served_place {woken : List (ThreadId maxProds)} (free : shared.mutex = none)
    (available : 0 < kind.other.condition.available shared.queue) :
    Served state kind slot woken
      ((state.wake kind.other.condition woken).place kind slot .sleep shared point) where
  free := free
  asleep := place_tasks_self
  available := available
  points _ different := place_points_of_ne different
  tasks _ _ different := place_tasks_of_ne different

/-- From the test of `queue_push` to its return, with room in the queue. -/
theorem leads_queuePush {msg : Message} {stage : PushStage} {woken : List (ThreadId maxProds)}
    (before : stage = .test ∨ stage = .check ∨ stage = .insert)
    (running : shared.running = true) (room : shared.queue.count < shared.queue.capacity)
    (wakes : Wakes state .notEmpty (.worker .producer slot) woken) :
    ∃ final, Leads (state.place .producer slot .calling shared (.queuePush msg stage)) final ∧
      Served state .producer slot woken final := by
  have test_leads : Leads
      (state.place .producer slot .calling shared (.queuePush msg .test))
      (state.place .producer slot .calling shared (.queuePush msg .check)) :=
    leads_silent rfl (by
      simp only [advance, queuePush]
      rw [if_neg fun full => absurd full.1 (Nat.ne_of_lt room)])
  have check_leads : Leads
      (state.place .producer slot .calling shared (.queuePush msg .check))
      (state.place .producer slot .calling shared (.queuePush msg .insert)) :=
    leads_silent rfl (by simp only [advance, queuePush, if_pos running])
  have insert_leads : Leads
      (state.place .producer slot .calling shared (.queuePush msg .insert))
      (state.place .producer slot .calling _ (.queuePush msg .signal)) :=
    leads_silent rfl rfl
  have signal_leads : ∀ shared, Leads
      (state.place .producer slot .calling shared (.queuePush msg .signal))
      ((state.wake .notEmpty woken).place .producer slot .calling shared
        (.queuePush msg (.unlock 0))) :=
    fun shared => leads_signal wakes rfl rfl rfl
  have unlock_leads : ∀ shared, Leads
      ((state.wake .notEmpty woken).place .producer slot .calling shared
        (.queuePush msg (.unlock 0)))
      ((state.wake .notEmpty woken).place .producer slot .sleep _ .idle) :=
    fun shared => leads_silent rfl rfl
  have inserted := insert_leads.trans ((signal_leads _).trans (unlock_leads _))
  have finish : ∀ start, Leads start
        (state.place .producer slot .calling shared (.queuePush msg .insert)) →
      ∃ final, Leads start final ∧ Served state .producer slot woken final :=
    fun start led => ⟨_, led.trans inserted, served_place rfl (Nat.succ_pos shared.queue.count)⟩
  rcases before with rfl | rfl | rfl
  · exact finish _ (test_leads.trans check_leads)
  · exact finish _ check_leads
  · exact finish _ (Leads.refl _)

/-- From the test of `queue_pop` to its return, with a message in the queue. -/
theorem leads_queuePop {stage : PopStage Message} {woken : List (ThreadId maxProds)}
    (before : stage = .test ∨ stage = .check ∨ stage = .remove)
    (running : shared.running = true) (filled : Filled shared.queue)
    (wellFormed : shared.queue.WellFormed) (some_left : 0 < shared.queue.count)
    (wakes : Wakes state .notFull (.worker .consumer slot) woken) :
    ∃ final, Leads (state.place .consumer slot .calling shared (.queuePop stage)) final ∧
      Served state .consumer slot woken final := by
  have test_leads : Leads
      (state.place .consumer slot .calling shared (.queuePop .test))
      (state.place .consumer slot .calling shared (.queuePop .check)) :=
    leads_silent rfl (by
      simp only [advance, queuePop]
      rw [if_neg fun empty => absurd empty.1 (Nat.ne_of_gt some_left)])
  have check_leads : Leads
      (state.place .consumer slot .calling shared (.queuePop .check))
      (state.place .consumer slot .calling shared (.queuePop .remove)) :=
    leads_silent rfl (by simp only [advance, queuePop, running, not_true, false_and, if_false])
  have remove_leads : Leads
      (state.place .consumer slot .calling shared (.queuePop .remove))
      (state.place .consumer slot .calling _ (.queuePop (.signal shared.queue.front))) :=
    leads_silent rfl rfl
  have signal_leads : ∀ shared' msg, Leads
      (state.place .consumer slot .calling shared' (.queuePop (.signal msg)))
      ((state.wake .notFull woken).place .consumer slot .calling shared'
        (.queuePop (.unlock (some msg)))) :=
    fun shared' msg => leads_signal wakes rfl rfl rfl
  have unlock_leads : ∀ shared', Leads
      ((state.wake .notFull woken).place .consumer slot .calling shared'
        (.queuePop (.unlock (some shared.queue.front))))
      ((state.wake .notFull woken).place .consumer slot
        (afterStep (.queuePop (.unlock (some shared.queue.front)))) _ .idle) :=
    fun shared' => leads_silent rfl rfl
  have front_some : shared.queue.front.isSome = true := by
    apply filled
    rw [Queue.contents_remove wellFormed some_left]
    exact List.mem_cons_self
  have goes_on : afterStep (.queuePop (.unlock (some shared.queue.front))) = .sleep :=
    afterStep_of_succeeds front_some
  rw [goes_on] at unlock_leads
  have removed := remove_leads.trans ((signal_leads _ _).trans (unlock_leads _))
  have room : 0 < Condition.notFull.available shared.queue.remove := by
    have := wellFormed.count_le
    simp only [Condition.available, Queue.remove]
    omega
  have finish : ∀ start, Leads start
        (state.place .consumer slot .calling shared (.queuePop .remove)) →
      ∃ final, Leads start final ∧ Served state .consumer slot woken final :=
    fun start led => ⟨_, led.trans removed, served_place rfl room⟩
  rcases before with rfl | rfl | rfl
  · exact finish _ (test_leads.trans check_leads)
  · exact finish _ check_leads
  · exact finish _ (Leads.refl _)

end Place

/-- A worker that can go for the mutex: it is alive and not blocked un-notified. -/
structure Able (state : Program maxProds Message) (kind : Kind) (slot : Fin maxProds) :
    Prop where
  alive : state.tasks kind slot = .test ∨ state.tasks kind slot = .calling ∨
    (state.tasks kind slot = .sleep ∧ state.cancelled kind slot = false)
  awake : (state.queue.points (.worker kind slot)).waitsOn kind.condition = false

section Serve

variable {state : Program maxProds Message} {kind : Kind} {slot : Fin maxProds}
  {woken : List (ThreadId maxProds)} [Inhabited Message]

/-- The test of the loop in `queue_push` or `queue_pop`. -/
def AtTest : Kind → Point Message → Prop
  | .producer, point => ∃ msg, point = .queuePush msg .test
  | .consumer, point => point = .queuePop .test

/-- With the mutex free, a worker inside its call comes to the test of its loop. -/
theorem leads_test_of_calling (staffed : Staffed state) (free : state.queue.shared.mutex = none)
    (calling : state.tasks kind slot = .calling)
    (awake : (state.queue.points (.worker kind slot)).waitsOn kind.condition = false) :
    ∃ point, AtTest kind point ∧ Leads state (state.place kind slot .calling
      { state.queue.shared with mutex := some (.worker kind slot) } point) := by
  have role := staffed.role_of_calling calling
  have outside : (state.queue.points (.worker kind slot)).holds = false := by
    by_contra inside
    rw [Bool.not_eq_false] at inside
    have holder := staffed.guarded.holder_eq inside
    simp [free] at holder
  have self := place_self calling rfl
  generalize point_eq : state.queue.points (.worker kind slot) = point at *
  cases kind with
  | producer =>
      cases point with
      | queuePush msg stage =>
          refine ⟨.queuePush msg .test, ⟨msg, rfl⟩, ?_⟩
          have relock_leads : ∀ notified, Leads
              (state.place .producer slot .calling state.queue.shared
                (.queuePush msg (.relock notified)))
              (state.place .producer slot .calling
                { state.queue.shared with mutex := some (.worker .producer slot) }
                (.queuePush msg .test)) :=
            fun notified => leads_silent rfl
              (by simp only [advance, queuePush, Shared.lock, free, if_true])
          rw [← self]
          simp only [place_place, place_shared]
          cases stage with
          | lock => exact leads_silent rfl (by simp [advance, queuePush, Shared.lock, free])
          | relock notified => exact relock_leads notified
          | wait notified =>
              cases notified with
              | false => exact absurd awake (by simp [Point.waitsOn, Kind.condition])
              | true =>
                  have woken_leads : Leads
                      (state.place .producer slot .calling state.queue.shared
                        (.queuePush msg (.wait true)))
                      (state.place .producer slot .calling _ (.queuePush msg (.relock true))) :=
                    leads_silent rfl rfl
                  exact woken_leads.trans (relock_leads true)
          | test | check | insert | signal | unlock => exact absurd outside (by simp [Point.holds])
      | idle | queuePop | queueResizeIncrease | queueResizeDecrease => simp [Point.role] at role
  | consumer =>
      cases point with
      | queuePop stage =>
          refine ⟨.queuePop .test, rfl, ?_⟩
          have relock_leads : ∀ notified, Leads
              (state.place .consumer slot .calling state.queue.shared
                (.queuePop (.relock notified)))
              (state.place .consumer slot .calling
                { state.queue.shared with mutex := some (.worker .consumer slot) }
                (.queuePop .test)) :=
            fun notified => leads_silent rfl
              (by simp only [advance, queuePop, Shared.lock, free, if_true])
          rw [← self]
          simp only [place_place, place_shared]
          cases stage with
          | lock => exact leads_silent rfl (by simp [advance, queuePop, Shared.lock, free])
          | relock notified => exact relock_leads notified
          | wait notified =>
              cases notified with
              | false => exact absurd awake (by simp [Point.waitsOn, Kind.condition])
              | true =>
                  have woken_leads : Leads
                      (state.place .consumer slot .calling state.queue.shared
                        (.queuePop (.wait true)))
                      (state.place .consumer slot .calling _ (.queuePop (.relock true))) :=
                    leads_silent rfl rfl
                  exact woken_leads.trans (relock_leads true)
          | test | check | remove | signal | unlock => exact absurd outside (by simp [Point.holds])
      | idle | queuePush | queueResizeIncrease | queueResizeDecrease => simp [Point.role] at role

/-- With the mutex free, a worker at the head of its task makes a call and comes to the test. -/
theorem leads_test_of_test (staffed : Staffed state) (free : state.queue.shared.mutex = none)
    (testing : state.tasks kind slot = .test) :
    ∃ point, AtTest kind point ∧ Leads state (state.place kind slot .calling
      { state.queue.shared with mutex := some (.worker kind slot) } point) := by
  have idle : state.queue.points (.worker kind slot) = .idle :=
    staffed.idle_of_ne (by simp [testing])
  have called : state.workerNext kind slot default [] =
      some (state.place kind slot .calling state.queue.shared (call default kind).entry) := by
    simp [workerNext, testing, staffed.guarded.running, queueNext, CondQueue.next, idle, place]
  have led : Leads state
      (state.place kind slot .calling state.queue.shared (call default kind).entry) :=
    Leads.of_worker kind slot default [] (by rw [idle]; cases kind <;> rfl) called
  have staffed' := (led.keeps staffed).1
  have awake : ((state.place kind slot .calling state.queue.shared
      (call default kind).entry).queue.points (.worker kind slot)).waitsOn kind.condition =
        false := by
    rw [place_points_self]
    cases kind <;> rfl
  rcases leads_test_of_calling staffed' free place_tasks_self awake with ⟨point, at_test, led'⟩
  rw [place_place] at led'
  exact ⟨point, at_test, led.trans led'⟩

/-- With the mutex free, an able worker comes to the test of the loop in its call. -/
theorem leads_test (staffed : Staffed state) (free : state.queue.shared.mutex = none)
    (able : Able state kind slot) :
    ∃ point, AtTest kind point ∧ Leads state (state.place kind slot .calling
      { state.queue.shared with mutex := some (.worker kind slot) } point) := by
  rcases able.alive with testing | calling | ⟨asleep, not_cancelled⟩
  · exact leads_test_of_test staffed free testing
  · exact leads_test_of_calling staffed free calling able.awake
  · have idle : state.queue.points (.worker kind slot) = .idle :=
      staffed.idle_of_ne (by simp [asleep])
    have wakes_up : state.workerNext kind slot default [] =
        some (state.place kind slot .test state.queue.shared .idle) := by
      simp [workerNext, asleep, not_cancelled, place, setTask, ← idle]
    have led : Leads state (state.place kind slot .test state.queue.shared .idle) :=
      Leads.of_worker kind slot default [] able.awake wakes_up
    rcases leads_test_of_test (led.keeps staffed).1 free place_tasks_self with
      ⟨point, at_test, led'⟩
    rw [place_place] at led'
    exact ⟨point, at_test, led.trans led'⟩

/-- From the test of the loop to the end of the call, with something to take. -/
theorem leads_of_test (state : Program maxProds Message) (slot : Fin maxProds)
    {shared : Shared (ThreadId maxProds) Message} {point : Point Message}
    (at_test : AtTest kind point) (running : shared.running = true)
    (filled : Filled shared.queue) (wellFormed : shared.queue.WellFormed)
    (available : 0 < kind.condition.available shared.queue)
    (wakes : Wakes state kind.other.condition (.worker kind slot) woken) :
    ∃ final, Leads (state.place kind slot .calling shared point) final ∧
      Served state kind slot woken final := by
  cases kind with
  | producer =>
      rcases at_test with ⟨msg, rfl⟩
      exact leads_queuePush (Or.inl rfl) running (Nat.lt_of_sub_pos available) wakes
  | consumer =>
      have at_test' : point = .queuePop .test := at_test
      subst at_test'
      exact leads_queuePop (Or.inl rfl) running filled wellFormed available wakes

/-- With the mutex free and something to take, an able worker takes it. -/
theorem leads_of_able (staffed : Staffed state) (free : state.queue.shared.mutex = none)
    (able : Able state kind slot)
    (available : 0 < kind.condition.available state.queue.shared.queue)
    (wakes : Wakes state kind.other.condition (.worker kind slot) woken) :
    ∃ final, Leads state final ∧ Served state kind slot woken final := by
  rcases leads_test staffed free able with ⟨point, at_test, led⟩
  have guarded := staffed.guarded
  rcases leads_of_test state slot
      (show AtTest kind point from at_test)
      (show ({ state.queue.shared with mutex := some (.worker kind slot) } :
        Shared (ThreadId maxProds) Message).running = true from guarded.running)
      guarded.filled guarded.wellFormed available wakes with ⟨final, led', served⟩
  exact ⟨final, led.trans led', served⟩

/-- A worker inside its section before its work takes what there is. -/
theorem leads_of_holds (staffed : Staffed state)
    (inside : (state.queue.points (.worker kind slot)).holds = true)
    (before : (state.queue.points (.worker kind slot)).past = false)
    (available : 0 < kind.condition.available state.queue.shared.queue)
    (wakes : Wakes state kind.other.condition (.worker kind slot) woken) :
    ∃ final, Leads state final ∧ Served state kind slot woken final := by
  have calling := staffed.calling_of_holds inside
  have self := place_self calling rfl
  have role := staffed.role_of_calling calling
  have guarded := staffed.guarded
  generalize point_eq : state.queue.points (.worker kind slot) = point at *
  cases kind with
  | producer =>
      cases point with
      | queuePush msg stage =>
          have at_stage : stage = .test ∨ stage = .check ∨ stage = .insert := by
            cases stage with
            | test | check | insert => simp
            | lock | wait | relock => exact absurd inside Bool.false_ne_true
            | signal | unlock => exact absurd before.symm Bool.false_ne_true
          have led : ∃ final, Leads (state.place .producer slot .calling state.queue.shared
              (.queuePush msg stage)) final ∧ Served state .producer slot woken final :=
            leads_queuePush at_stage guarded.running (Nat.lt_of_sub_pos available) wakes
          rwa [self] at led
      | idle | queuePop | queueResizeIncrease | queueResizeDecrease => simp [Point.role] at role
  | consumer =>
      cases point with
      | queuePop stage =>
          have at_stage : stage = .test ∨ stage = .check ∨ stage = .remove := by
            cases stage with
            | test | check | remove => simp
            | lock | wait | relock => exact absurd inside Bool.false_ne_true
            | signal | unlock => exact absurd before.symm Bool.false_ne_true
          have led : ∃ final, Leads (state.place .consumer slot .calling state.queue.shared
              (.queuePop stage)) final ∧ Served state .consumer slot woken final :=
            leads_queuePop at_stage guarded.running guarded.filled guarded.wellFormed available
              wakes
          rwa [self] at led
      | idle | queuePush | queueResizeIncrease | queueResizeDecrease => simp [Point.role] at role

/-- A worker past its work gives the mutex back. -/
theorem leads_of_past (staffed : Staffed state)
    (past : (state.queue.points (.worker kind slot)).past = true) :
    ∃ final, Leads state final ∧ final.queue.shared.mutex = none ∧
      final.tasks kind slot = .sleep := by
  have busy : state.queue.points (.worker kind slot) ≠ .idle := by
    intro idle
    rw [idle] at past
    exact absurd past Bool.false_ne_true
  have self := place_self ((staffed.calling kind slot).mpr busy) rfl
  have role := (staffed.role kind slot).resolve_left busy
  have succeeds := staffed.guarded.succeeds (.worker kind slot)
  generalize point_eq : state.queue.points (.worker kind slot) = point at *
  cases kind with
  | producer =>
      rcases exists_wakes state .notEmpty (.worker .producer slot) with ⟨woken, wakes⟩
      have unlock_leads : ∀ (other : Program maxProds Message) msg, ∃ final,
          Leads (other.place .producer slot .calling state.queue.shared
            (.queuePush msg (.unlock 0))) final ∧ final.queue.shared.mutex = none ∧
            final.tasks .producer slot = .sleep :=
        fun other msg => ⟨_, leads_silent rfl rfl, rfl, place_tasks_self⟩
      cases point with
      | queuePush msg stage =>
          rw [← self]
          cases stage with
          | signal =>
              have signal_leads : Leads
                  (state.place .producer slot .calling state.queue.shared (.queuePush msg .signal))
                  ((state.wake .notEmpty woken).place .producer slot .calling state.queue.shared
                    (.queuePush msg (.unlock 0))) :=
                leads_signal wakes rfl rfl rfl
              rcases unlock_leads (state.wake .notEmpty woken) msg with ⟨final, led, free, asleep⟩
              exact ⟨final, signal_leads.trans led, free, asleep⟩
          | unlock code =>
              have success : code = 0 := succeeds
              subst success
              exact unlock_leads state msg
          | lock | test | wait | relock | check | insert =>
              exact absurd past Bool.false_ne_true
      | idle | queuePop | queueResizeIncrease | queueResizeDecrease => simp [Point.role] at role
  | consumer =>
      rcases exists_wakes state .notFull (.worker .consumer slot) with ⟨woken, wakes⟩
      have unlock_leads : ∀ (other : Program maxProds Message) result,
          (Point.queuePop (.unlock result) : Point Message).Succeeds → ∃ final,
          Leads (other.place .consumer slot .calling state.queue.shared
            (.queuePop (.unlock result))) final ∧ final.queue.shared.mutex = none ∧
            final.tasks .consumer slot = .sleep := by
        intro other result success
        refine ⟨_, leads_silent rfl rfl, rfl, ?_⟩
        rw [place_tasks_self, afterStep_of_succeeds success]
        rfl
      cases point with
      | queuePop stage =>
          rw [← self]
          cases stage with
          | signal msg =>
              have signal_leads : Leads
                  (state.place .consumer slot .calling state.queue.shared (.queuePop (.signal msg)))
                  ((state.wake .notFull woken).place .consumer slot .calling state.queue.shared
                    (.queuePop (.unlock (some msg)))) :=
                leads_signal wakes rfl rfl rfl
              rcases unlock_leads (state.wake .notFull woken) (some msg) succeeds with
                ⟨final, led, free, asleep⟩
              exact ⟨final, signal_leads.trans led, free, asleep⟩
          | unlock result => exact unlock_leads state result succeeds
          | lock | test | wait | relock | check | remove =>
              exact absurd past Bool.false_ne_true
      | idle | queuePush | queueResizeIncrease | queueResizeDecrease => simp [Point.role] at role

/-- A worker inside its section that finds nothing blocks and gives the mutex back. -/
theorem leads_of_empty (staffed : Staffed state)
    (inside : (state.queue.points (.worker kind slot)).holds = true)
    (before : (state.queue.points (.worker kind slot)).past = false)
    (nothing : kind.condition.available state.queue.shared.queue = 0) :
    ∃ final, Leads state final ∧ final.queue.shared.mutex = none := by
  have calling := staffed.calling_of_holds inside
  have self := place_self calling rfl
  have role := staffed.role_of_calling calling
  have facts := staffed.guarded.facts (.worker kind slot)
  have running := staffed.guarded.running
  have count_le := staffed.guarded.wellFormed.count_le
  generalize point_eq : state.queue.points (.worker kind slot) = point at *
  cases kind with
  | producer =>
      cases point with
      | queuePush msg stage =>
          simp only [Kind.condition, Condition.available] at nothing
          cases stage with
          | test =>
              have full : state.queue.shared.queue.count = state.queue.shared.queue.capacity := by
                omega
              have led : Leads
                  (state.place .producer slot .calling state.queue.shared (.queuePush msg .test))
                  (state.place .producer slot .calling { state.queue.shared with mutex := none }
                    (.queuePush msg (.wait false))) :=
                leads_silent rfl (by simp [advance, queuePush, full, running])
              rw [self] at led
              exact ⟨_, led, rfl⟩
          | check =>
              rcases facts with room | stopped
              · omega
              · simp [running] at stopped
          | insert =>
              have room : state.queue.shared.queue.count < state.queue.shared.queue.capacity :=
                facts
              omega
          | lock | wait | relock => exact absurd inside Bool.false_ne_true
          | signal | unlock => exact absurd before.symm Bool.false_ne_true
      | idle | queuePop | queueResizeIncrease | queueResizeDecrease => simp [Point.role] at role
  | consumer =>
      cases point with
      | queuePop stage =>
          simp only [Kind.condition, Condition.available] at nothing
          cases stage with
          | test =>
              have led : Leads
                  (state.place .consumer slot .calling state.queue.shared (.queuePop .test))
                  (state.place .consumer slot .calling { state.queue.shared with mutex := none }
                    (.queuePop (.wait false))) :=
                leads_silent rfl (by simp [advance, queuePop, nothing, running])
              rw [self] at led
              exact ⟨_, led, rfl⟩
          | check =>
              rcases facts with some_left | stopped
              · omega
              · simp [running] at stopped
          | remove =>
              have some_left : 0 < state.queue.shared.queue.count := facts
              omega
          | lock | wait | relock => exact absurd inside Bool.false_ne_true
          | signal | unlock => exact absurd before.symm Bool.false_ne_true
      | idle | queuePush | queueResizeIncrease | queueResizeDecrease => simp [Point.role] at role

/-- While `main` is outside its own sections, the workers can free the mutex. -/
theorem leads_free (staffed : Staffed state) (outside : state.main.inSection = false)
    (not_resizing : state.main ≠ .resize) :
    ∃ final, Leads state final ∧ final.queue.shared.mutex = none := by
  cases mutex_eq : state.queue.shared.mutex with
  | none => exact ⟨state, Leads.refl state, mutex_eq⟩
  | some holder =>
      have inside := (staffed.guarded.locked holder).mpr mutex_eq
      cases holder with
      | main =>
          rw [staffed.main_idle not_resizing] at inside
          exact absurd (outside.symm.trans inside) Bool.false_ne_true
      | worker kind slot =>
          have holds : (state.queue.points (.worker kind slot)).holds = true := by
            simpa [ownSection] using inside
          cases before : (state.queue.points (.worker kind slot)).past with
          | true =>
              rcases leads_of_past staffed before with ⟨final, led, free, -⟩
              exact ⟨final, led, free⟩
          | false =>
              rcases Nat.eq_zero_or_pos (kind.condition.available state.queue.shared.queue) with
                nothing | available
              · exact leads_of_empty staffed holds before nothing
              · rcases exists_wakes state kind.other.condition (.worker kind slot) with
                  ⟨woken, wakes⟩
                rcases leads_of_holds staffed holds before available wakes with
                  ⟨final, led, served⟩
                exact ⟨final, led, served.free⟩

end Serve

section Counterpart

variable {state final : Program maxProds Message} {kind : Kind} {slot : Fin maxProds}

theorem available_other {queue : Queue Message} (wellFormed : queue.WellFormed)
    (nothing : kind.condition.available queue = 0) : 0 < kind.other.condition.available queue := by
  have capacity_pos := wellFormed.capacity_pos
  have count_le := wellFormed.count_le
  cases kind with
  | producer =>
      simp only [Kind.condition, Kind.other, Condition.available] at nothing ⊢
      omega
  | consumer =>
      simp only [Kind.condition, Kind.other, Condition.available] at nothing ⊢
      omega

theorem CanEnd.of_leads (led : Leads state final) (ends : CanEnd final kind slot) :
    CanEnd state kind slot := by
  rcases ends with ⟨last, led', ended⟩
  exact ⟨last, led.trans led', ended⟩

/-- A cancelled worker ends as soon as it is asleep. -/
theorem canEnd_of_sleep [Inhabited Message] (staffed : Staffed state)
    (joins : state.main.joins kind slot = true) (asleep : state.tasks kind slot = .sleep) :
    CanEnd state kind slot := by
  have idle : state.queue.points (.worker kind slot) = .idle :=
    staffed.idle_of_ne (by simp [asleep])
  have cancelled := (staffed.cancelled kind slot).trans joins
  refine ⟨state.setTask kind slot .ended, Leads.of_worker kind slot default []
    (by rw [idle]; cases kind <;> rfl) ?_, by simp [setTask_tasks]⟩
  simp [workerNext, asleep, cancelled]

/-- With the mutex free, someone has been notified of what another one waits for. -/
theorem exists_notified {condition : Condition} {thread : ThreadId maxProds}
    (staffed : Staffed state) (free : state.queue.shared.mutex = none)
    (waits : (state.queue.points thread).waitsOn condition = true)
    (available : 0 < condition.available state.queue.shared.queue) :
    ∃ other, (state.queue.points other).notified condition = true := by
  have covered := staffed.guarded.covered condition thread waits
  by_contra nobody
  have no_credit : total (Point.credit condition) state.queue.points = 0 := by
    apply total_eq_zero
    intro other
    have not_notified : (state.queue.points other).notified condition = false := by
      by_contra notified
      exact nobody ⟨other, by simpa using notified⟩
    have not_owing : (state.queue.points other).owes condition = false := by
      by_contra owes
      have holder := staffed.guarded.holder_eq (holds_of_owes (by simpa using owes))
      simp [free] at holder
    simp [Point.credit, not_notified, not_owing]
  omega

/-- A notified thread is an able worker. -/
theorem able_of_notified {thread : ThreadId maxProds} (staffed : Staffed state)
    (notified : (state.queue.points thread).notified kind.condition = true) :
    ∃ slot, thread = .worker kind slot ∧ Able state kind slot := by
  have stands : (state.queue.points thread).role = some kind ∧
      (state.queue.points thread).waitsOn kind.condition = false := by
    generalize state.queue.points thread = point at *
    unfold Point.notified at notified
    split at notified
    all_goals try exact absurd notified Bool.false_ne_true
    all_goals subst notified; cases kind <;> simp_all [Kind.condition, Point.role, Point.waitsOn]
  cases thread with
  | main => simp [staffed.main_role] at stands
  | worker kind' slot =>
      have busy : state.queue.points (.worker kind' slot) ≠ .idle := by
        intro idle
        rw [idle] at stands
        simp [Point.role] at stands
      have own := (staffed.role kind' slot).resolve_left busy
      have same : kind' = kind := Option.some.inj (own.symm.trans stands.1)
      subst same
      exact ⟨slot, rfl, Or.inr (Or.inl ((staffed.calling kind' slot).mpr busy)), stands.2⟩

/-- A worker that is present and not being joined is alive. -/
theorem alive_of_present (staffed : Staffed state) (present : state.tasks kind slot ≠ .absent)
    (not_joined : state.main.joins kind slot = false) :
    state.tasks kind slot = .test ∨ state.tasks kind slot = .calling ∨
      (state.tasks kind slot = .sleep ∧ state.cancelled kind slot = false) := by
  have cancelled := (staffed.cancelled kind slot).trans not_joined
  cases task_eq : state.tasks kind slot with
  | test | calling => simp
  | sleep => exact Or.inr (Or.inr ⟨rfl, cancelled⟩)
  | absent => exact absurd task_eq present
  | ended =>
      have joins := staffed.ended kind slot task_eq
      exact absurd (joins.symm.trans not_joined) (by decide)

/-- If a worker of a kind is left and there is something for it, one of the kind is able. -/
theorem exists_able (staffed : Staffed state) (free : state.queue.shared.mutex = none)
    (some_left : 0 < state.count kind)
    (not_joined : ∀ slot, state.main.joins kind slot = false)
    (available : 0 < kind.condition.available state.queue.shared.queue) :
    ∃ slot, Able state kind slot := by
  have slot_lt : 0 < maxProds := some_left.trans_le (staffed.count_le kind)
  have present : state.tasks kind ⟨0, slot_lt⟩ ≠ .absent :=
    (staffed.present kind ⟨0, slot_lt⟩).mpr (Or.inl some_left)
  cases waits : (state.queue.points (.worker kind ⟨0, slot_lt⟩)).waitsOn kind.condition with
  | false => exact ⟨_, alive_of_present staffed present (not_joined _), waits⟩
  | true =>
      rcases exists_notified staffed free waits available with ⟨thread, notified⟩
      rcases able_of_notified staffed notified with ⟨slot, -, able⟩
      exact ⟨slot, able⟩

variable [Inhabited Message]

/-- The joined worker takes what there is, and ends. -/
theorem canEnd_of_able (staffed : Staffed state) (joins : state.main.joins kind slot = true)
    (free : state.queue.shared.mutex = none) (able : Able state kind slot)
    (available : 0 < kind.condition.available state.queue.shared.queue) :
    CanEnd state kind slot := by
  rcases exists_wakes state kind.other.condition (.worker kind slot) with ⟨woken, wakes⟩
  rcases leads_of_able staffed free able available wakes with ⟨final, led, served⟩
  rcases led.keeps staffed with ⟨staffed', main_eq, -⟩
  exact (canEnd_of_sleep staffed' (main_eq ▸ joins) served.asleep).of_leads led

omit [Inhabited Message] in
/-- What a worker of the other kind leaves behind for the one that `main` joins. -/
theorem Served.joined (slot : Fin maxProds) {other : Fin maxProds}
    {woken : List (ThreadId maxProds)}
    (served : Served state kind.other other woken final) :
    final.queue.shared.mutex = none ∧
      0 < kind.condition.available final.queue.shared.queue ∧
      final.tasks kind slot = state.tasks kind slot ∧
      final.queue.points (.worker kind slot) =
        (state.wake kind.condition woken).queue.points (.worker kind slot) := by
  have available := served.available
  have points := served.points (.worker kind slot) (by simp [kind.other_ne.symm])
  rw [Kind.other_other] at available points
  exact ⟨served.free, available, served.tasks kind slot (by simp [kind.other_ne.symm]), points⟩

omit [Inhabited Message] in
theorem eq_join {main : MainPoint maxProds} (joins : main.joins kind slot = true) :
    ∃ caller, main = .join kind slot caller := by
  cases main with
  | join kind' slot' caller =>
      simp only [MainPoint.joins, decide_eq_true_eq] at joins
      exact ⟨caller, by rw [joins.1, joins.2]⟩
  | test | scan | resize | lock | locked | removeLast | cancel | removeAll | destroy =>
      exact absurd joins Bool.false_ne_true

omit [Inhabited Message] in
theorem joins_unique {main : MainPoint maxProds} {kind' : Kind} {slot' : Fin maxProds}
    (joins : main.joins kind slot = true) (joins' : main.joins kind' slot' = true) :
    kind' = kind ∧ slot' = slot := by
  cases main with
  | join kind'' slot'' caller =>
      simp only [MainPoint.joins, decide_eq_true_eq] at joins joins'
      exact ⟨joins'.1.symm.trans joins.1, joins'.2.symm.trans joins.2⟩
  | test | scan | resize | lock | locked | removeLast | cancel | removeAll | destroy =>
      exact absurd joins Bool.false_ne_true

/-- A worker of the other kind gives back what the joined one waits for. -/
theorem canEnd_of_counterpart (staffed : Staffed state)
    (joins : state.main.joins kind slot = true) (free : state.queue.shared.mutex = none)
    (alive : state.tasks kind slot = .test ∨ state.tasks kind slot = .calling)
    (other_left : 0 < state.count kind.other)
    (available : 0 < kind.other.condition.available state.queue.shared.queue) :
    CanEnd state kind slot := by
  have not_joined : ∀ other, state.main.joins kind.other other = false := by
    intro other
    by_contra joins'
    exact kind.other_ne (joins_unique joins (by simpa using joins')).1
  rcases exists_able staffed free other_left not_joined available with ⟨other, able⟩
  -- the joined worker is woken if it waits, and stays awake if it does not
  have wakes : ∃ woken, Wakes state kind.condition (.worker kind.other other) woken ∧
      ((state.wake kind.condition woken).queue.points (.worker kind slot)).waitsOn
        kind.condition = false := by
    cases waits : (state.queue.points (.worker kind slot)).waitsOn kind.condition with
    | true =>
        refine ⟨[.worker kind slot], ⟨fun thread thread_mem => ?_,
          fun none => absurd none (List.cons_ne_nil _ _)⟩, ?_⟩
        · rw [List.mem_singleton.mp thread_mem]
          exact ⟨by simp [kind.other_ne.symm], waits⟩
        · by_contra still
          simp only [wake, List.mem_singleton, if_true, Bool.not_eq_false] at still
          exact (Point.waitsOn_of_notify still).2 rfl
    | false =>
        rcases exists_wakes state kind.condition (.worker kind.other other) with ⟨woken, wakes⟩
        refine ⟨woken, wakes, ?_⟩
        have not_woken : ThreadId.worker kind slot ∉ woken := fun woken_mem =>
          absurd ((wakes.wait _ woken_mem).2.symm.trans waits) (by decide)
        simpa [wake, not_woken] using waits
  rcases wakes with ⟨woken, wakes, awake⟩
  rcases leads_of_able staffed free able available (by rwa [Kind.other_other]) with
    ⟨final, led, served⟩
  rcases led.keeps staffed with ⟨staffed', main_eq, -⟩
  rcases served.joined slot with ⟨free', available', tasks_eq, points_eq⟩
  have able' : Able final kind slot := by
    refine ⟨?_, points_eq ▸ awake⟩
    rw [tasks_eq]
    exact alive.imp_right Or.inl
  exact (canEnd_of_able staffed' (main_eq ▸ joins) free' able' available').of_leads led

/-- As long as a worker of the other kind is left, the joined worker can end. -/
theorem canEnd_of_other_left (staffed : Staffed state)
    (joins : state.main.joins kind slot = true) (free : state.queue.shared.mutex = none)
    (other_left : 0 < state.count kind.other) : CanEnd state kind slot := by
  have present : state.tasks kind slot ≠ .absent :=
    (staffed.present kind slot).mpr (Or.inr joins)
  by_cases asleep : state.tasks kind slot = .sleep
  · exact canEnd_of_sleep staffed joins asleep
  by_cases ended : state.tasks kind slot = .ended
  · exact ⟨state, Leads.refl state, ended⟩
  have alive : state.tasks kind slot = .test ∨ state.tasks kind slot = .calling := by
    cases task_eq : state.tasks kind slot with
    | test | calling => simp
    | absent => exact absurd task_eq present
    | sleep => exact absurd task_eq asleep
    | ended => exact absurd task_eq ended
  rcases Nat.eq_zero_or_pos (kind.other.condition.available state.queue.shared.queue) with
    nothing | available
  · -- then there is something for the joined worker, or for one notified in its place
    have own_available := available_other staffed.guarded.wellFormed nothing
    rw [Kind.other_other] at own_available
    cases waits : (state.queue.points (.worker kind slot)).waitsOn kind.condition with
    | false =>
        exact canEnd_of_able staffed joins free ⟨alive.imp_right Or.inl, waits⟩ own_available
    | true =>
        rcases exists_notified staffed free waits own_available with ⟨thread, notified⟩
        rcases able_of_notified staffed notified with ⟨first, rfl, able⟩
        have different : ¬(kind = kind ∧ slot = first) := by
          rintro ⟨-, rfl⟩
          exact absurd (able.awake.symm.trans waits) (by decide)
        rcases exists_wakes state kind.other.condition (.worker kind first) with ⟨woken, wakes⟩
        rcases leads_of_able staffed free able own_available wakes with ⟨final, led, served⟩
        rcases led.keeps staffed with ⟨staffed', main_eq, count_eq⟩
        have tasks_eq := served.tasks kind slot different
        refine (canEnd_of_counterpart staffed' (main_eq ▸ joins) served.free (tasks_eq ▸ alive)
          ?_ served.available).of_leads led
        rw [count_eq]
        exact other_left
  · exact canEnd_of_counterpart staffed joins free alive other_left available

end Counterpart

/-- The worker that `main` joins is sure to end. -/
def Sure (state : Program maxProds Message) (kind : Kind) (slot : Fin maxProds) : Prop :=
  0 < state.count kind.other ∨ state.tasks kind slot = .sleep ∨
    state.tasks kind slot = .ended ∨
    (state.queue.points (.worker kind slot)).past = true ∨
    (0 < kind.condition.available state.queue.shared.queue ∧
      ((state.queue.points (.worker kind slot)).holds = true ∨
        (state.count kind = 0 ∧
          (state.queue.points (.worker kind slot)).waitsOn kind.condition = false)))

section Sure

variable {state successor : Program maxProds Message} {kind : Kind} {slot : Fin maxProds}

theorem outside_of_joins (joins : state.main.joins kind slot = true) :
    state.main.inSection = false ∧ state.main ≠ .resize := by
  cases main_eq : state.main with
  | join => exact ⟨rfl, by simp⟩
  | test | scan | resize | lock | locked | removeLast | cancel | removeAll | destroy =>
      rw [main_eq] at joins
      exact absurd joins Bool.false_ne_true

/-- Only the last worker of its kind is left, so nobody else is in a section. -/
theorem free_of_last (staffed : Staffed state) (joins : state.main.joins kind slot = true)
    (no_other : state.count kind.other = 0) (last : state.count kind = 0)
    (outside : (state.queue.points (.worker kind slot)).holds = false) :
    state.queue.shared.mutex = none := by
  cases mutex_eq : state.queue.shared.mutex with
  | none => rfl
  | some holder =>
      have inside := (staffed.guarded.locked holder).mpr mutex_eq
      cases holder with
      | main =>
          rcases outside_of_joins joins with ⟨not_inside, not_resizing⟩
          rw [staffed.main_idle not_resizing] at inside
          exact absurd (not_inside.symm.trans inside) Bool.false_ne_true
      | worker kind' slot' =>
          have holds : (state.queue.points (.worker kind' slot')).holds = true := by
            simpa [ownSection] using inside
          have calling := staffed.calling_of_holds holds
          rcases (staffed.present kind' slot').mp (by simp [calling]) with below | joins'
          · have none_left : state.count kind' = 0 := by
              by_cases same : kind' = kind
              · rw [same, last]
              · have other : kind' = kind.other := by
                  cases kind <;> cases kind' <;> simp_all [Kind.other]
                rw [other, no_other]
            omega
          · rcases joins_unique joins joins' with ⟨rfl, rfl⟩
            exact absurd (outside.symm.trans holds) Bool.false_ne_true

theorem canEnd_of_sure [Inhabited Message] (staffed : Staffed state)
    (joins : state.main.joins kind slot = true) (sure : Sure state kind slot) :
    CanEnd state kind slot := by
  rcases outside_of_joins joins with ⟨outside, not_resizing⟩
  by_cases other_left : 0 < state.count kind.other
  · rcases leads_free staffed outside not_resizing with ⟨final, led, free⟩
    rcases led.keeps staffed with ⟨staffed', main_eq, count_eq⟩
    refine (canEnd_of_other_left staffed' (main_eq ▸ joins) free ?_).of_leads led
    rw [count_eq]
    exact other_left
  have of_past : (state.queue.points (.worker kind slot)).past = true →
      CanEnd state kind slot := by
    intro past
    rcases leads_of_past staffed past with ⟨final, led, -, asleep⟩
    rcases led.keeps staffed with ⟨staffed', main_eq, -⟩
    exact (canEnd_of_sleep staffed' (main_eq ▸ joins) asleep).of_leads led
  have of_holds : 0 < kind.condition.available state.queue.shared.queue →
      (state.queue.points (.worker kind slot)).holds = true → CanEnd state kind slot := by
    intro available holds
    cases before : (state.queue.points (.worker kind slot)).past with
    | true => exact of_past before
    | false =>
        rcases exists_wakes state kind.other.condition (.worker kind slot) with ⟨woken, wakes⟩
        rcases leads_of_holds staffed holds before available wakes with ⟨final, led, served⟩
        rcases led.keeps staffed with ⟨staffed', main_eq, -⟩
        exact (canEnd_of_sleep staffed' (main_eq ▸ joins) served.asleep).of_leads led
  rcases sure with left | asleep | ended | past | ⟨available, holds | ⟨last, awake⟩⟩
  · exact absurd left other_left
  · exact canEnd_of_sleep staffed joins asleep
  · exact ⟨state, Leads.refl state, ended⟩
  · exact of_past past
  · exact of_holds available holds
  · cases holds : (state.queue.points (.worker kind slot)).holds with
    | true => exact of_holds available holds
    | false =>
        have free := free_of_last staffed joins (by omega) last holds
        have present := (staffed.present kind slot).mpr (Or.inr joins)
        cases task_eq : state.tasks kind slot with
        | absent => exact absurd task_eq present
        | sleep => exact canEnd_of_sleep staffed joins task_eq
        | ended => exact ⟨state, Leads.refl state, task_eq⟩
        | test =>
            exact canEnd_of_able staffed joins free ⟨Or.inl task_eq, awake⟩ available
        | calling =>
            exact canEnd_of_able staffed joins free ⟨Or.inr (Or.inl task_eq), awake⟩ available

/-- What the step of a worker leaves of the others, and of the queue if it is outside its
section. -/
theorem workerNext_other {kind' : Kind} {slot' : Fin maxProds} {msg : Message}
    {woken : List (ThreadId maxProds)} (different : ¬(kind = kind' ∧ slot = slot'))
    (taken : state.workerNext kind' slot' msg woken = some successor) :
    successor.tasks kind slot = state.tasks kind slot ∧
      (successor.queue.points (.worker kind slot) = state.queue.points (.worker kind slot) ∨
        ∃ condition, successor.queue.points (.worker kind slot) =
          (state.queue.points (.worker kind slot)).notify condition) ∧
      ((state.queue.points (.worker kind' slot')).holds = false →
        successor.queue.shared.queue = state.queue.shared.queue) := by
  have not_same : ThreadId.worker kind slot ≠ .worker kind' slot' := worker_ne different
  cases workerAdvances_of_workerNext taken with
  | calls msg testing running called =>
      rcases called_of_next called with ⟨-, rfl⟩
      refine ⟨?_, Or.inl ?_, fun _ => rfl⟩
      · rw [setTask_tasks, if_neg different]
      · simp [setTask, not_same]
  | steps woken calling stepped =>
      rcases stepped_of_next stepped with
        ⟨shared, point, notice, points, advanced, delivered, rfl⟩
      refine ⟨?_, ?_, fun outside => (outcome_advance advanced).queue_eq outside⟩
      · rw [setTask_tasks, if_neg different]
      · have moved := deliver_cases delivered (.worker kind slot)
        rw [Function.update_of_ne not_same] at moved
        exact moved
  | leaves | wakes => exact ⟨by rw [setTask_tasks, if_neg different], Or.inl rfl, fun _ => rfl⟩

/-- A step of another worker does not take away what the joined one is sure of. -/
theorem sure_of_other {kind' : Kind} {slot' : Fin maxProds} {msg : Message}
    {woken : List (ThreadId maxProds)} (staffed : Staffed state)
    (joins : state.main.joins kind slot = true) (sure : Sure state kind slot)
    (no_other : state.count kind.other = 0) (different : ¬(kind' = kind ∧ slot' = slot))
    (taken : state.workerNext kind' slot' msg woken = some successor) :
    Sure successor kind slot := by
  have present := present_of_workerNext taken
  have some_left : 0 < state.count kind := by
    rcases (staffed.present kind' slot').mp present with below | joins'
    · have same : kind' = kind := by
        by_contra other
        have other_eq : kind' = kind.other := by
          cases kind <;> cases kind' <;> simp_all [Kind.other]
        rw [other_eq, no_other] at below
        exact absurd below (Nat.not_lt_zero _)
      exact same ▸ Nat.zero_lt_of_lt below
    · exact absurd (joins_unique joins joins') different
  have not_same : ¬(kind = kind' ∧ slot = slot') :=
    fun same => different ⟨same.1.symm, same.2.symm⟩
  rcases workerNext_other not_same taken with ⟨tasks_eq, moved, queue_eq⟩
  have same_point : (successor.queue.points (.worker kind slot)).past =
        (state.queue.points (.worker kind slot)).past ∧
      (successor.queue.points (.worker kind slot)).holds =
        (state.queue.points (.worker kind slot)).holds := by
    rcases moved with same | ⟨condition, notified⟩
    · rw [same]
      exact ⟨rfl, rfl⟩
    · rw [notified]
      exact ⟨Point.past_notify condition, Point.holds_notify⟩
  rcases sure with left | asleep | ended | past | ⟨available, holds | ⟨last, -⟩⟩
  · omega
  · exact Or.inr (Or.inl (tasks_eq.trans asleep))
  · exact Or.inr (Or.inr (Or.inl (tasks_eq.trans ended)))
  · exact Or.inr (Or.inr (Or.inr (Or.inl (same_point.1.trans past))))
  · have outside : (state.queue.points (.worker kind' slot')).holds = false := by
      by_contra inside
      rw [Bool.not_eq_false] at inside
      have holder := staffed.guarded.holder_eq holds
      rw [staffed.guarded.holder_eq inside] at holder
      exact not_same (by simpa [eq_comm] using holder)
    refine Or.inr (Or.inr (Or.inr (Or.inr ⟨?_, Or.inl (same_point.2.trans holds)⟩)))
    rw [queue_eq outside]
    exact available
  · omega

/-- Its own steps bring the joined worker closer to its end. -/
theorem sure_of_own {msg : Message} {woken : List (ThreadId maxProds)} (staffed : Staffed state)
    (joins : state.main.joins kind slot = true) (sure : Sure state kind slot)
    (no_other : state.count kind.other = 0)
    (taken : state.workerNext kind slot msg woken = some successor) :
    Sure successor kind slot := by
  cases workerAdvances_of_workerNext taken with
  | wakes asleep =>
      have cancelled := (staffed.cancelled kind slot).trans joins
      rw [if_pos cancelled]
      exact Or.inr (Or.inr (Or.inl (by simp [setTask_tasks])))
  | leaves _ stopped => exact absurd staffed.guarded.running stopped
  | calls msg testing running called =>
      rcases called_of_next called with ⟨idle, rfl⟩
      rcases sure with left | asleep | ended | past | ⟨available, holds | ⟨last, -⟩⟩
      · omega
      · simp [testing] at asleep
      · simp [testing] at ended
      · rw [idle] at past
        exact absurd past Bool.false_ne_true
      · rw [idle] at holds
        exact absurd holds Bool.false_ne_true
      · refine Or.inr (Or.inr (Or.inr (Or.inr ⟨available, Or.inr ⟨last, ?_⟩⟩)))
        simp only [setTask, Function.update_self]
        cases kind <;> rfl
  | steps woken calling stepped =>
      have role := staffed.role_of_calling calling
      have succeeds := staffed.guarded.succeeds (.worker kind slot)
      rcases stepped_of_next stepped with
        ⟨shared, point, notice, points, advanced, delivered, rfl⟩
      have moved := deliver_cases delivered (.worker kind slot)
      rw [Function.update_self] at moved
      have past_eq : (points (.worker kind slot)).past = point.past := by
        rcases moved with same | ⟨condition, notified⟩
        · rw [same]
        · rw [notified, Point.past_notify]
      have holds_eq : (points (.worker kind slot)).holds = point.holds := by
        rcases moved with same | ⟨condition, notified⟩
        · rw [same]
        · rw [notified, Point.holds_notify]
      -- behind its section the worker ends or goes to sleep
      have stays_past : (state.queue.points (.worker kind slot)).past = true →
          Sure ({ state with queue := ⟨shared, points⟩ }.setTask kind slot
            (afterStep (state.queue.points (.worker kind slot)))) kind slot := by
        intro past
        rcases past_advance advanced past with past' | returns
        · exact Or.inr (Or.inr (Or.inr (Or.inl (past_eq.trans past'))))
        · refine Or.inr (Or.inl ?_)
          rw [setTask_tasks, if_pos ⟨rfl, rfl⟩, afterStep_of_succeeds succeeds, if_pos returns]
      rcases sure with left | asleep | ended | past | ⟨available, ready⟩
      · omega
      · simp [calling] at asleep
      · simp [calling] at ended
      · exact stays_past past
      · cases before : (state.queue.points (.worker kind slot)).past with
        | true => exact stays_past before
        | false =>
            rcases ready_advance advanced role staffed.guarded.running available before with
              past' | ⟨queue_eq, awake, stays_inside⟩
            · exact Or.inr (Or.inr (Or.inr (Or.inl (past_eq.trans past'))))
            · refine Or.inr (Or.inr (Or.inr (Or.inr ⟨?_, ?_⟩)))
              · change 0 < kind.condition.available shared.queue
                rw [queue_eq]
                exact available
              · rcases ready with holds | ⟨last, -⟩
                · exact Or.inl (holds_eq.trans (stays_inside holds))
                · refine Or.inr ⟨last, ?_⟩
                  change (points (.worker kind slot)).waitsOn kind.condition = false
                  rcases moved with same | ⟨condition, notified⟩
                  · exact same ▸ awake
                  · rw [notified]
                    exact Point.waitsOn_notify_of_eq_false awake

/-- One step of a worker leaves the joined worker sure to end. -/
theorem sure_worker {kind' : Kind} {slot' : Fin maxProds} {msg : Message}
    {woken : List (ThreadId maxProds)} (staffed : Staffed state)
    (joins : state.main.joins kind slot = true) (sure : Sure state kind slot)
    (taken : state.workerNext kind' slot' msg woken = some successor) :
    Sure successor kind slot := by
  rcases Nat.eq_zero_or_pos (state.count kind.other) with no_other | left
  · by_cases same : kind' = kind ∧ slot' = slot
    · rcases same with ⟨rfl, rfl⟩
      exact sure_of_own staffed joins sure no_other taken
    · exact sure_of_other staffed joins sure no_other same taken
  · refine Or.inl ?_
    rw [(workerNext_frame taken).2]
    exact left

/-- A worker that is sure to end before `pthread_cancel` is sure to end after it. -/
theorem sure_of_removable {caller : Caller} (staffed : Staffed state)
    (cancelling : state.main = .cancel kind caller) (last : slot + 1 = state.count kind)
    (removable : Removable state kind slot) (taken : state.cancel kind caller = some successor) :
    Sure successor kind slot := by
  simp only [cancel, Option.dite_none_right_eq_some, Option.some.injEq] at taken
  rcases taken with ⟨-, rfl⟩
  by_cases left : 0 < state.count kind.other
  · refine Or.inl ?_
    change 0 < Function.update state.count kind (state.count kind - 1) kind.other
    rw [Function.update_of_ne kind.other_ne]
    exact left
  rcases removable with left' | asleep | past | ⟨available, holds | alone⟩
  · exact absurd left' left
  · exact Or.inr (Or.inl asleep)
  · exact Or.inr (Or.inr (Or.inr (Or.inl past)))
  · exact Or.inr (Or.inr (Or.inr (Or.inr ⟨available, Or.inl holds⟩)))
  · refine Or.inr (Or.inr (Or.inr (Or.inr ⟨available, Or.inr ⟨?_, ?_⟩⟩)))
    · change Function.update state.count kind (state.count kind - 1) kind = 0
      rw [Function.update_self, alone]
    · by_contra waits
      rw [Bool.not_eq_false] at waits
      have covered := staffed.guarded.covered kind.condition (.worker kind slot) waits
      -- nobody is left to whom the free slots or the messages could be spoken for
      have no_credit : total (Point.credit kind.condition) state.queue.points = 0 := by
        apply total_eq_zero
        intro thread
        cases thread with
        | main =>
            rw [staffed.main_idle (by simp [cancelling]), Point.credit_idle]
        | worker kind' slot' =>
            by_cases same : kind' = kind ∧ slot' = slot
            · rw [same.1, same.2]
              exact Point.credit_of_waitsOn waits
            · have idle : state.queue.points (.worker kind' slot') = .idle := by
                apply staffed.idle_of_ne
                intro calling
                rcases (staffed.present kind' slot').mp (by simp [calling]) with below | joins
                · by_cases same_kind : kind' = kind
                  · subst same_kind
                    exact same ⟨rfl, Fin.ext (by omega)⟩
                  · have other_eq : kind' = kind.other := by
                      cases kind <;> cases kind' <;> simp_all [Kind.other]
                    rw [other_eq] at below
                    omega
                · rw [cancelling] at joins
                  exact absurd joins Bool.false_ne_true
              rw [idle, Point.credit_idle]
      omega

/-- Only `pthread_cancel` takes `main` into `pthread_join`. -/
theorem cancel_of_joins (staffed : Staffed state) (taken : state.mainNext = some successor)
    (joins : successor.main.joins kind slot = true) :
    ∃ caller, state.main = .cancel kind caller ∧ slot + 1 = state.count kind := by
  cases mainAdvances_of_mainNext taken with
  | @cancels kind' caller _ at_main taken =>
      have some_left : 0 < state.count kind' :=
        staffed.some_left kind' (by simp [at_main, MainPoint.removes])
      simp only [cancel, Option.dite_none_right_eq_some, Option.some.injEq] at taken
      rcases taken with ⟨slot_lt, rfl⟩
      simp only [MainPoint.joins, decide_eq_true_eq] at joins
      rcases joins with ⟨rfl, rfl⟩
      exact ⟨caller, at_main, Nat.sub_add_cancel some_left⟩
  | @joins _ _ caller _ _ taken =>
      simp only [join, Option.ite_none_right_eq_some, Option.some.injEq] at taken
      rcases taken with ⟨-, rfl⟩
      cases caller <;> exact absurd joins Bool.false_ne_true
  | resizes at_main =>
      simp only [at_main] at joins
      exact absurd joins Bool.false_ne_true
  | @unlocks after => cases after <;> exact absurd joins Bool.false_ne_true
  | @nobodyLeft _ caller => cases caller <;> exact absurd joins Bool.false_ne_true
  | @removedAll final => cases final <;> exact absurd joins Bool.false_ne_true
  | _ => exact absurd joins Bool.false_ne_true

theorem not_joins_of_execute {command : Command}
    (taken : state.execute command = some successor) :
    successor.main.joins kind slot = false := by
  cases command with
  | createProducer | createConsumer =>
      simp only [execute, create, Option.some.injEq] at taken
      split at taken
      all_goals
        subst taken
        rfl
  | removeLastProducer | removeLastConsumer | removeAll | printStatus | unknown =>
      simp only [execute, Option.some.injEq] at taken
      subst taken
      rfl
  | increase | decrease | quit =>
      simp only [execute, queueNext, Option.map_eq_some_iff] at taken
      rcases taken with ⟨queue, -, rfl⟩
      rfl

/-- What holds in the permitted runs. -/
structure Removing (state : Program maxProds Message) : Prop where
  staffed : Staffed state
  sure : ∀ kind slot, state.main.joins kind slot = true → Sure state kind slot

theorem removing_next {label : Label maxProds Message} (removing : Removing state)
    (permits : permitted state label = true) (taken : state.next label = some successor) :
    Removing successor := by
  simp only [permitted, Bool.and_eq_true] at permits
  refine ⟨staffed_next removing.staffed permits.1 taken, fun kind slot joins => ?_⟩
  cases label with
  | worker kind' slot' msg woken =>
      have main_eq := (workerNext_frame (show state.workerNext _ _ _ _ = _ from taken)).1
      rw [main_eq] at joins
      exact sure_worker removing.staffed joins (removing.sure kind slot joins) taken
  | interrupt => exact absurd permits.1 Bool.false_ne_true
  | main =>
      rcases cancel_of_joins removing.staffed (show state.mainNext = _ from taken) joins with
        ⟨caller, cancelling, last⟩
      have removable := permits.2
      simp only [cancelling, decide_eq_true_eq] at removable
      have cancels : state.cancel kind caller = some successor := by
        simpa [next, mainNext, cancelling] using taken
      exact sure_of_removable removing.staffed cancelling last (removable slot last) cancels
  | endOfInput =>
      simp only [next] at taken
      split at taken
      · simp only [Option.some.injEq] at taken
        subst taken
        exact absurd joins Bool.false_ne_true
      · simp at taken
  | command command =>
      simp only [next] at taken
      split at taken
      · exact absurd (joins.symm.trans (not_joins_of_execute taken)) (by decide)
      · simp at taken

end Sure

/-- In the permitted runs, whoever `main` waits for in `pthread_join` can end. -/
theorem canEnd_of_permitted [Inhabited Message] {state : Program maxProds Message}
    (reached : (system maxProds Message).ReachableUnder
      (fun state label => permitted state label = true) state) {kind : Kind}
    {slot : Fin maxProds} {caller : Caller} (joining : state.main = .join kind slot caller) :
    CanEnd state kind slot := by
  have removing : Removing state := by
    apply reached.invariant
    · rintro _ rfl
      exact ⟨staffed_init, fun _ _ joins => absurd joins Bool.false_ne_true⟩
    · intro state label successor removing permits taken
      exact removing_next removing permits taken
  have joins : state.main.joins kind slot = true := by
    rw [joining]
    simp [MainPoint.joins]
  exact canEnd_of_sure removing.staffed joins (removing.sure kind slot joins)

/-- A consumer is there when the producer is removed in the middle of its call. -/
def removeWithConsumer : List (Label 6 ℕ) :=
  [.main, .command .createProducer, .main, .command .createConsumer, .worker .producer 0 7 [],
    .worker .producer 0 7 [], .main, .command .removeLastProducer, .main] ++
    List.replicate 5 (.worker .producer 0 7 []) ++ List.replicate 4 .main

theorem canEnd_removeWithConsumer :
    ∃ state, ((system 6 ℕ).restrict permitted).run init removeWithConsumer = some state ∧
      ∃ caller, state.main = .join .producer 0 caller ∧ CanEnd state .producer 0 := by
  have ran : (((system 6 ℕ).restrict permitted).run init removeWithConsumer).map
      (fun state => state.main.joins .producer 0) = some true := by
    decide +kernel
  rcases Option.map_eq_some_iff.mp ran with ⟨state, ran, joins⟩
  rcases eq_join joins with ⟨caller, joining⟩
  have reached : (system 6 ℕ).ReachableUnder (fun state label => permitted state label = true)
      state :=
    System.Reachable.of_restrict (System.Reachable.of_run (.start rfl) ran)
  exact ⟨state, ran, caller, joining, canEnd_of_permitted reached joining⟩

section Stuck

variable {state successor : Program maxProds Message} {slot : Fin maxProds}

/-- The only worker is a producer in front of a full queue. -/
structure Stuck (state : Program maxProds Message) (slot : Fin maxProds) : Prop where
  running : state.queue.shared.running = true
  full : state.queue.shared.queue.count = state.queue.shared.queue.capacity
  alone : ∀ kind slot', state.tasks kind slot' ≠ .absent → kind = .producer ∧ slot' = slot
  calling : state.tasks .producer slot = .calling
  waiting : ∃ msg stage, state.queue.points (.worker .producer slot) = .queuePush msg stage ∧
    (stage = .lock ∨ stage = .test ∨ ∃ notified, stage = .wait notified ∨ stage = .relock notified)

/-- At a full queue a producer in front of its test goes around in circles. -/
theorem blocked_advance {Thread : Type*} [DecidableEq Thread]
    {shared shared' : Shared Thread Message} {thread : Thread} {msg : Message}
    {stage : PushStage} {point : Point Message} {notice : Notice}
    (full : shared.queue.count = shared.queue.capacity) (running : shared.running = true)
    (at_stage : stage = .lock ∨ stage = .test ∨
      ∃ notified, stage = .wait notified ∨ stage = .relock notified)
    (taken : advance shared thread (.queuePush msg stage) = some (shared', point, notice)) :
    notice = .silent ∧ shared'.running = shared.running ∧ shared'.queue = shared.queue ∧
      ∃ stage', point = .queuePush msg stage' ∧ (stage' = .lock ∨ stage' = .test ∨
        ∃ notified, stage' = .wait notified ∨ stage' = .relock notified) := by
  cases advances_of_advance taken with
  | lock _ locks =>
      cases locks with
      | push | pushAgain => exact ⟨rfl, rfl, rfl, .test, rfl, Or.inr (Or.inl rfl)⟩
  | pushWaits => exact ⟨rfl, rfl, rfl, .wait false, rfl, by simp⟩
  | pushWakes _ notified => exact ⟨rfl, rfl, rfl, .relock notified, rfl, by simp⟩
  | pushLeaves _ leaves => exact absurd ⟨full, running⟩ leaves
  | pushGoesOn | pushFails | insert | pushSignals | pushReturns => simp at at_stage

/-- Nobody gets such a producer out of its call. -/
theorem stuck_worker {kind : Kind} {slot' : Fin maxProds} {msg : Message}
    {woken : List (ThreadId maxProds)} (stuck : Stuck state slot)
    (taken : state.workerNext kind slot' msg woken = some successor) : Stuck successor slot := by
  rcases stuck.alone kind slot' (present_of_workerNext taken) with ⟨rfl, rfl⟩
  rcases stuck.waiting with ⟨msg', stage, point_eq, at_stage⟩
  cases workerAdvances_of_workerNext taken with
  | calls _ testing => simp [stuck.calling] at testing
  | leaves testing => simp [stuck.calling] at testing
  | wakes asleep => simp [stuck.calling] at asleep
  | steps woken calling stepped =>
      rcases stepped_of_next stepped with
        ⟨shared, point, notice, points, advanced, delivered, rfl⟩
      rw [point_eq] at advanced
      have stays : afterStep (state.queue.points (.worker .producer slot')) = .calling := by
        rw [point_eq]
        rcases at_stage with rfl | rfl | ⟨notified, rfl | rfl⟩ <;> rfl
      rcases blocked_advance stuck.full stuck.running at_stage advanced with
        ⟨rfl, running_eq, queue_eq, stage', rfl, at_stage'⟩
      simp only [deliver, Option.some.injEq] at delivered
      subst delivered
      refine ⟨running_eq.trans stuck.running, ?_, fun kind' slot alive => ?_, ?_, ?_⟩
      · change shared.queue.count = shared.queue.capacity
        rw [queue_eq]
        exact stuck.full
      · rw [setTask_tasks] at alive
        split at alive
        · next same => exact same
        · exact stuck.alone kind' slot alive
      · rw [setTask_tasks, if_pos ⟨rfl, rfl⟩, stays]
      · exact ⟨msg', stage', by simp [setTask], at_stage'⟩

theorem stuck_run {labels : List (Label maxProds Message)} (stuck : Stuck state slot)
    (workers : ∀ label ∈ labels, ∃ kind slot' msg woken, label = .worker kind slot' msg woken)
    (ran : (system maxProds Message).run state labels = some successor) :
    Stuck successor slot := by
  induction labels generalizing state with
  | nil =>
      simp only [System.run_nil, Option.some.injEq] at ran
      exact ran ▸ stuck
  | cons label labels ih =>
      rw [List.forall_mem_cons] at workers
      rcases workers.1 with ⟨kind, slot', msg, woken, rfl⟩
      simp only [System.run_cons, Option.bind_eq_some_iff] at ran
      rcases ran with ⟨middle, taken, ran⟩
      exact ih (stuck_worker stuck taken) workers.2 ran

end Stuck

/-- The only producer fills the queue up, blocks, and is removed. -/
def removeFromFull : List (Label 6 ℕ) :=
  [.main, .command .createProducer] ++ List.replicate 35 (.worker .producer 0 7 []) ++
    [.main, .command .removeLastProducer] ++ List.replicate 5 .main ++
    List.replicate 3 (.worker .producer 0 7 [])

/-- Without consumers nothing the workers do lets a producer leave a full queue. -/
theorem not_canEnd_removeFromFull :
    ∃ state, (system 6 ℕ).ReachableUnder (fun _ label => keepsRunning label = true) state ∧
      (∃ caller, state.main = .join .producer 0 caller) ∧
      ∀ labels final, (∀ label ∈ labels, ∃ kind slot msg woken,
          label = Label.worker kind slot msg woken) →
        (system 6 ℕ).run state labels = some final → final.tasks .producer 0 ≠ .ended := by
  have ran : ((system 6 ℕ).run init removeFromFull).map (fun state =>
      (decide (state.queue.shared.queue.count = state.queue.shared.queue.capacity),
        state.main.joins .producer 0, state.count .producer, state.count .consumer,
        (state.queue.points (.worker .producer 0)).waitsOn .notFull)) =
      some (true, true, 0, 0, true) := by
    decide +kernel
  rcases Option.map_eq_some_iff.mp ran with ⟨state, ran, found⟩
  simp only [Prod.mk.injEq, decide_eq_true_eq] at found
  rcases found with ⟨full, joins, no_producer, no_consumer, waits⟩
  have keeps : ∀ label ∈ removeFromFull, keepsRunning label = true := by decide
  have reached : (system 6 ℕ).ReachableUnder (fun _ label => keepsRunning label = true) state :=
    System.ReachableUnder.of_run (.start rfl) (fun label label_mem _ => keeps label label_mem) ran
  have staffed : Staffed state := by
    apply reached.invariant
    · rintro _ rfl
      exact staffed_init
    · intro state label successor staffed keeps taken
      exact staffed_next staffed keeps taken
  rcases Point.eq_wait_of_waitsOn waits with ⟨msg, point_eq⟩
  have stuck : Stuck state 0 := by
    refine ⟨staffed.guarded.running, full, fun kind slot alive => ?_, ?_, msg, .wait false,
      point_eq, by simp⟩
    · rcases (staffed.present kind slot).mp alive with below | joins'
      · cases kind <;> omega
      · exact joins_unique joins joins'
    · rw [staffed.calling, point_eq]
      simp
  refine ⟨state, reached, eq_join joins, fun labels final workers ran' ended => ?_⟩
  have stuck' := stuck_run stuck workers ran'
  rw [stuck'.calling] at ended
  exact absurd ended (by decide)

end Program

end Osis.Lab05.CondQueue
