import Osis.Concurrency.Ranking
import Osis.Lab05.CondQueue.Ending
import Osis.Lab05.CondQueue.Removal

/-!
# The way to the end

Once `running` has dropped, no thread starts to wait, so the program takes a bounded number
of steps and comes to rest. It does so where `main` reads a command, where `main` destroys
the queue, or where `main` joins a worker that nobody is going to wake up. If `main` has left
its loop since, its two broadcasts exclude the last, and it gets to `queue_destroy`.
-/

namespace Osis.Lab05.CondQueue

open Concurrency

universe u v

section Advance

variable {Thread : Type v} {Message : Type u}

/-- How many steps a call has left without `running`. -/
def Point.remaining : Point Message → ℕ
  | .idle => 0
  | .queuePush _ (.wait _) => 6
  | .queuePush _ .lock | .queuePush _ (.relock _) => 5
  | .queuePush _ .test => 4
  | .queuePush _ .check | .queuePush _ .insert => 3
  | .queuePush _ .signal => 2
  | .queuePush _ (.unlock _) => 1
  | .queuePop (.wait _) => 7
  | .queuePop .lock | .queuePop (.relock _) => 6
  | .queuePop .test => 5
  | .queuePop .check => 4
  | .queuePop .remove => 3
  | .queuePop (.signal _) => 2
  | .queuePop (.unlock _) => 1
  | .queueResizeIncrease .lock => 4
  | .queueResizeIncrease .grow => 3
  | .queueResizeIncrease .broadcast => 2
  | .queueResizeIncrease .unlock => 1
  | .queueResizeDecrease .lock => 5
  | .queueResizeDecrease .test => 4
  | .queueResizeDecrease .shrink => 3
  | .queueResizeDecrease .broadcast => 2
  | .queueResizeDecrease .unlock => 1

@[simp]
theorem Point.remaining_notify {point : Point Message} (condition : Condition) :
    (point.notify condition).remaining = point.remaining := by
  unfold Point.notify
  split <;> rfl

variable [DecidableEq Thread] {shared shared' : Shared Thread Message} {thread : Thread}
  {point point' : Point Message} {notice : Notice}

theorem remaining_advance (taken : advance shared thread point = some (shared', point', notice))
    (stopped : shared.running = false) : point'.remaining < point.remaining := by
  have not_running : ¬shared.running = true := by simp [stopped]
  cases advances_of_advance taken with
  | lock free locks => cases locks <;> exact Nat.lt_succ_self _
  | pushWaits _ _ running | popWaits _ running => exact absurd running not_running
  | pushGoesOn _ running => exact absurd running not_running
  | pushFails | popFails | decreaseFails => simp [Point.remaining]
  | _ => exact Nat.lt_succ_self _

/-- A thread in a call is only kept from going on by the mutex. -/
theorem exists_advance (busy : point ≠ .idle)
    (free : ∀ target, Locks point target → shared.mutex = none) :
    ∃ outcome, advance shared thread point = some outcome := by
  cases point with
  | idle => exact absurd rfl busy
  | queuePush msg stage =>
      cases stage with
      | lock => exact ⟨_, if_pos (free _ (.push msg))⟩
      | relock notified => exact ⟨_, if_pos (free _ (.pushAgain msg notified))⟩
      | test | check =>
          simp only [advance, queuePush]
          split <;> exact ⟨_, rfl⟩
      | wait | insert | signal | unlock => exact ⟨_, rfl⟩
  | queuePop stage =>
      cases stage with
      | lock => exact ⟨_, if_pos (free _ .pop)⟩
      | relock notified => exact ⟨_, if_pos (free _ (.popAgain notified))⟩
      | test | check =>
          simp only [advance, queuePop]
          split <;> exact ⟨_, rfl⟩
      | wait | remove | signal | unlock => exact ⟨_, rfl⟩
  | queueResizeIncrease stage =>
      cases stage with
      | lock => exact ⟨_, if_pos (free _ .increase)⟩
      | grow | broadcast | unlock => exact ⟨_, rfl⟩
  | queueResizeDecrease stage =>
      cases stage with
      | lock => exact ⟨_, if_pos (free _ .decrease)⟩
      | test =>
          simp only [advance, queueResizeDecrease]
          split
          · exact ⟨_, rfl⟩
          · split <;> exact ⟨_, rfl⟩
      | shrink | broadcast | unlock => exact ⟨_, rfl⟩

theorem not_holds_of_locks {target : Point Message} (locks : Locks point target) :
    point.holds = false := by
  cases locks <;> rfl

variable [Fintype Thread]

/-- A signal finds threads to wake up, or there are none. -/
theorem exists_deliver (points : Thread → Point Message) (notice : Notice) :
    ∃ woken points', deliver points woken notice = some points' := by
  cases notice with
  | silent => exact ⟨[], _, rfl⟩
  | broadcast condition => exact ⟨[], _, rfl⟩
  | signal condition =>
      by_cases any : ∃ thread, (points thread).waitsOn condition = true
      · rcases any with ⟨thread, waits⟩
        exact ⟨[thread], _, if_pos ⟨by simpa using waits, by simp⟩⟩
      · exact ⟨[], _, if_pos ⟨by simp, fun _ thread waits => any ⟨thread, waits⟩⟩⟩

theorem exists_step {state : State Thread Message} (busy : state.points thread ≠ .idle)
    (free : ∀ target, Locks (state.points thread) target → state.shared.mutex = none) :
    ∃ woken successor, next state (.step thread woken) = some successor := by
  have moves : ∃ outcome, advance state.shared thread (state.points thread) = some outcome :=
    exists_advance busy free
  rcases moves with ⟨⟨shared, point, notice⟩, advanced⟩
  rcases exists_deliver (Function.update state.points thread point) notice with
    ⟨woken, points, delivered⟩
  exact ⟨woken, ⟨shared, points⟩, by simp [next, advanced, delivered]⟩

/-- Without `running` a step brings its thread nearer to the end of its call, and no other. -/
theorem remaining_step {state successor : State Thread Message} {woken : List Thread}
    (taken : next state (.step thread woken) = some successor)
    (stopped : state.shared.running = false) :
    (successor.points thread).remaining < (state.points thread).remaining ∧
      ∀ other, other ≠ thread →
        (successor.points other).remaining = (state.points other).remaining := by
  rcases stepped_of_next taken with ⟨shared, point, notice, points, advanced, delivered, rfl⟩
  have unmoved : ∀ other, (points other).remaining =
      (Function.update state.points thread point other).remaining := by
    intro other
    rcases deliver_cases delivered other with same | ⟨condition, notified⟩
    · rw [same]
    · rw [notified, Point.remaining_notify]
  constructor
  · change (points thread).remaining < _
    rw [unmoved, Function.update_self]
    exact remaining_advance advanced stopped
  · intro other different
    change (points other).remaining = _
    rw [unmoved, Function.update_of_ne different]

end Advance

/-- What a worker has left to do. -/
def Task.remaining {Message : Type u} (point : Point Message) : Task → ℕ
  | .absent | .ended => 0
  | .test => 1
  | .calling => point.remaining + 2
  | .sleep => 2

/-- What `main` has left to do after the removal of one worker, beside removing the others. -/
def Caller.remaining : Caller → ℕ
  | .command => 11
  | .removeAll final => if final then 0 else 11

/-- What `main` has left to do after a mutex section, with the given number of workers. -/
def After.remaining (workers : ℕ) : After → ℕ
  | .printStatus => 7 * workers + 11
  | .removeLast _ caller => 7 * (workers - 1) + 4 + caller.remaining
  | .removeAll final => 7 * workers + 2 + (Caller.removeAll final).remaining
  | .shutdown => 7 * workers + 6

/-- What `main` has left to do outside the queue functions. -/
def MainPoint.remaining {maxProds : ℕ} (workers : ℕ) : MainPoint maxProds → ℕ
  | .test => 7 * workers + 11
  | .scan => 7 * workers + 20
  | .resize => 7 * workers + 12
  | .lock broadcasts after => after.remaining workers + broadcasts.length + 2
  | .locked broadcasts after => after.remaining workers + broadcasts.length + 1
  | .removeLast _ caller => 7 * workers + 1 + caller.remaining
  | .cancel _ caller => 7 * (workers - 1) + 4 + caller.remaining
  | .join _ _ caller => 7 * workers + 3 + caller.remaining
  | .removeAll final => 7 * workers + 2 + (Caller.removeAll final).remaining
  | .destroy => 0

namespace Program

variable {maxProds : ℕ} {Message : Type u} {state successor : Program maxProds Message}

/-- What a thread has left to do. -/
def duty (state : Program maxProds Message) : ThreadId maxProds → ℕ
  | .main => state.main.remaining (state.count .producer + state.count .consumer) +
      (state.queue.points .main).remaining
  | .worker kind slot =>
      (state.tasks kind slot).remaining (state.queue.points (.worker kind slot))

/-- How many steps the program has left without `running`. -/
def remaining (state : Program maxProds Message) : ℕ := ∑ thread, state.duty thread

/-- One thread does some of its work. -/
theorem remaining_lt_of_duty {thread : ThreadId maxProds}
    (lower : successor.duty thread < state.duty thread)
    (others : ∀ other, other ≠ thread → successor.duty other = state.duty other) :
    successor.remaining < state.remaining := by
  apply sum_lt_of_moved {thread}
  · intro other unmoved
    exact others other (by simpa using unmoved)
  · simpa using lower

/-- `main` does some of its work, and leaves the workers to theirs. -/
theorem remaining_lt_of_main (lower : successor.duty .main < state.duty .main)
    (workers : ∀ kind slot, successor.duty (.worker kind slot) = state.duty (.worker kind slot)) :
    successor.remaining < state.remaining := by
  apply remaining_lt_of_duty lower
  intro other different
  cases other with
  | main => exact absurd rfl different
  | worker kind slot => exact workers kind slot

theorem duty_setTask_of_ne {kind kind' : Kind} {slot slot' : Fin maxProds} {task : Task}
    {queue : State (ThreadId maxProds) Message} (different : ¬(kind' = kind ∧ slot' = slot))
    (same : (queue.points (.worker kind' slot')).remaining =
      (state.queue.points (.worker kind' slot')).remaining) :
    duty ({ state with queue := queue }.setTask kind slot task) (.worker kind' slot') =
      state.duty (.worker kind' slot') := by
  simp only [duty, setTask_tasks, if_neg different]
  change (state.tasks kind' slot').remaining (queue.points _) = _
  cases state.tasks kind' slot' with
  | calling => exact congrArg (· + 2) same
  | absent | test | sleep | ended => rfl

/-- A worker that moves on leaves the work of all others as it is. -/
theorem remaining_setTask {kind : Kind} {slot : Fin maxProds} {task : Task}
    {queue : State (ThreadId maxProds) Message}
    (lower : task.remaining (queue.points (.worker kind slot)) <
      (state.tasks kind slot).remaining (state.queue.points (.worker kind slot)))
    (others : ∀ other, other ≠ .worker kind slot →
      (queue.points other).remaining = (state.queue.points other).remaining) :
    remaining ({ state with queue := queue }.setTask kind slot task) < state.remaining := by
  have own : duty ({ state with queue := queue }.setTask kind slot task) (.worker kind slot) <
      state.duty (.worker kind slot) := by
    simp only [duty, setTask_tasks, and_self, if_true]
    exact lower
  apply remaining_lt_of_duty own
  intro other different
  cases other with
  | main => exact congrArg (state.main.remaining _ + ·) (others .main different)
  | worker kind' slot' =>
      have not_own : ¬(kind' = kind ∧ slot' = slot) := fun same =>
        different (by rw [same.1, same.2])
      exact duty_setTask_of_ne not_own (others _ different)

theorem remaining_afterStep {point point' : Point Message} (lower : point'.remaining <
    point.remaining) : (afterStep point).remaining point' < point.remaining + 2 := by
  unfold afterStep
  split
  · exact Nat.add_lt_add_right lower 2
  · exact Nat.lt_add_of_pos_left (Nat.zero_lt_of_lt lower)
  · exact Nat.succ_pos _

/-- A step of a worker is one less to come. -/
theorem remaining_worker {kind : Kind} {slot : Fin maxProds} {msg : Message}
    {woken : List (ThreadId maxProds)} (stopped : state.queue.shared.running = false)
    (taken : state.workerNext kind slot msg woken = some successor) :
    successor.remaining < state.remaining := by
  cases workerAdvances_of_workerNext taken with
  | calls _ _ running => exact absurd (stopped.symm.trans running) Bool.false_ne_true
  | leaves testing =>
      apply remaining_setTask
      · rw [testing]
        exact Nat.succ_pos 0
      · exact fun _ _ => rfl
  | steps woken calling stepped =>
      rcases remaining_step stepped stopped with ⟨lower, others⟩
      apply remaining_setTask
      · rw [calling]
        exact remaining_afterStep lower
      · exact others
  | wakes asleep =>
      apply remaining_setTask
      · rw [asleep]
        split
        · exact Nat.succ_pos 1
        · exact Nat.lt_succ_self 1
      · exact fun _ _ => rfl

/-- `main` moves on while the threads stay where they are, up to notifications. -/
theorem remaining_moved (tasks_eq : successor.tasks = state.tasks)
    (count_eq : successor.count = state.count)
    (points : ∀ thread, (successor.queue.points thread).remaining =
      (state.queue.points thread).remaining)
    (lower : successor.main.remaining (state.count .producer + state.count .consumer) <
      state.main.remaining (state.count .producer + state.count .consumer)) :
    successor.remaining < state.remaining := by
  apply remaining_lt_of_main
  · simp only [duty, count_eq]
    exact Nat.add_lt_add_of_lt_of_le lower (Nat.le_of_eq (points .main))
  · intro kind slot
    simp only [duty, tasks_eq]
    cases state.tasks kind slot with
    | calling => exact congrArg (· + 2) (points (.worker kind slot))
    | absent | test | sleep | ended => rfl

theorem count_le_workers (state : Program maxProds Message) (kind : Kind) :
    state.count kind ≤ state.count .producer + state.count .consumer := by
  cases kind
  · exact Nat.le_add_right _ _
  · exact Nat.le_add_left _ _

/-- One worker less of a kind is one worker less. -/
theorem workers_update_sub (state : Program maxProds Message) {kind : Kind}
    (some_left : 0 < state.count kind) :
    Function.update state.count kind (state.count kind - 1) .producer +
        Function.update state.count kind (state.count kind - 1) .consumer =
      state.count .producer + state.count .consumer - 1 := by
  cases kind with
  | producer =>
      rw [Function.update_self, Function.update_of_ne (by simp)]
      omega
  | consumer =>
      rw [Function.update_self, Function.update_of_ne (by simp)]
      omega

/-- A step of `main` is one less to come. -/
theorem remaining_main (manned : Manned state) (stopped : state.queue.shared.running = false)
    (taken : state.mainNext = some successor) : successor.remaining < state.remaining := by
  cases mainAdvances_of_mainNext taken with
  | scans _ running => exact absurd (stopped.symm.trans running) Bool.false_ne_true
  | leaves at_main =>
      refine remaining_moved rfl rfl (fun _ => rfl) ?_
      rw [at_main]
      simp only [MainPoint.remaining, After.remaining, bothConditions, List.length_cons,
        List.length_nil]
      omega
  | resized at_main idle =>
      refine remaining_moved rfl rfl (fun _ => rfl) ?_
      rw [at_main]
      exact Nat.lt_succ_self _
  | resizes at_main stepped =>
      rcases remaining_step stepped stopped with ⟨lower, others⟩
      apply remaining_lt_of_main
      · exact Nat.add_lt_add_left lower _
      · intro kind slot
        simp only [duty]
        cases state.tasks kind slot with
        | calling => exact congrArg (· + 2) (others (.worker kind slot) (by simp))
        | absent | test | sleep | ended => rfl
  | locks at_main free =>
      refine remaining_moved rfl rfl (fun _ => rfl) ?_
      rw [at_main]
      exact Nat.lt_succ_self _
  | broadcasts at_main =>
      refine remaining_moved rfl rfl (fun _ => Point.remaining_notify _) ?_
      rw [at_main]
      exact Nat.lt_succ_self _
  | @unlocks after at_main =>
      refine remaining_moved rfl rfl (fun _ => rfl) ?_
      rw [at_main]
      cases after with
      | printStatus | removeLast | removeAll => exact Nat.lt_succ_self _
      | shutdown =>
          simp only [After.target, MainPoint.remaining, After.remaining, Caller.remaining,
            bothConditions, List.length_cons, List.length_nil, if_true]
          omega
  | @nobodyLeft kind caller at_main nobody =>
      refine remaining_moved rfl rfl (fun _ => rfl) ?_
      rw [at_main]
      cases caller with
      | command => exact Nat.add_lt_add_right (Nat.lt_succ_self _) 11
      | removeAll final =>
          have some_left := manned.rostered.chosen kind final at_main
          exact absurd nobody some_left.ne'
  | @removes kind caller at_main some_left =>
      have workers := count_le_workers state kind
      refine remaining_moved rfl rfl (fun _ => rfl) ?_
      rw [at_main]
      simp only [MainPoint.remaining, After.remaining, List.length_cons, List.length_nil]
      omega
  | @cancels kind caller _ at_main taken =>
      have some_left : 0 < state.count kind :=
        manned.rostered.some_left kind (by rw [at_main]; rfl)
      simp only [cancel, Option.dite_none_right_eq_some, Option.some.injEq] at taken
      rcases taken with ⟨slot_lt, rfl⟩
      apply remaining_lt_of_main
      · simp only [duty, workers_update_sub state some_left, at_main, MainPoint.remaining]
        omega
      · exact fun _ _ => rfl
  | @joins kind slot caller _ at_main taken =>
      simp only [join, Option.ite_none_right_eq_some, Option.some.injEq] at taken
      rcases taken with ⟨ended, rfl⟩
      apply remaining_lt_of_main
      · apply Nat.add_lt_add_right
        rw [at_main]
        cases caller with
        | command => exact Nat.add_lt_add_right (Nat.lt_add_of_pos_right (by decide)) 11
        | removeAll final => exact Nat.add_lt_add_right (Nat.lt_succ_self _) _
      · intro kind' slot'
        simp only [duty, setTask_tasks]
        split
        · next same =>
            rw [same.1, same.2, ended]
            rfl
        · rfl
  | @removesNext final kind at_main some_left =>
      refine remaining_moved rfl rfl (fun _ => rfl) ?_
      rw [at_main]
      exact Nat.add_lt_add_right (Nat.lt_succ_self _) _
  | @removedAll final at_main nobody =>
      refine remaining_moved rfl rfl (fun _ => rfl) ?_
      rw [at_main, nobody, nobody]
      cases final <;> exact Nat.lt_of_sub_pos (Nat.succ_pos _)

theorem workers_update_add (state : Program maxProds Message) (kind : Kind) :
    Function.update state.count kind (state.count kind + 1) .producer +
        Function.update state.count kind (state.count kind + 1) .consumer =
      state.count .producer + state.count .consumer + 1 := by
  cases kind with
  | producer =>
      rw [Function.update_self, Function.update_of_ne (by simp)]
      omega
  | consumer =>
      rw [Function.update_self, Function.update_of_ne (by simp)]
      omega

/-- A new worker is paid for by the command read. -/
theorem remaining_create (manned : Manned state) (scanning : state.main = .scan) (kind : Kind) :
    (state.create kind).remaining < state.remaining := by
  unfold create
  split
  · next room =>
      have was_absent : state.tasks kind ⟨state.count kind, room⟩ = .absent := by
        by_contra alive
        have below := (manned.rostered.present _ _).mp alive
        simp [staff, scanning, MainPoint.joining] at below
      apply sum_lt_of_moved {.main, .worker kind ⟨state.count kind, room⟩}
      · intro other unmoved
        simp only [Finset.mem_insert, Finset.mem_singleton, not_or] at unmoved
        cases other with
        | main => exact absurd rfl unmoved.1
        | worker kind' slot' =>
            have not_own : ¬(kind' = kind ∧ slot' = ⟨state.count kind, room⟩) := by
              rintro ⟨rfl, rfl⟩
              exact unmoved.2 rfl
            exact duty_setTask_of_ne not_own rfl
      · have different : ThreadId.main ∉
            ({.worker kind ⟨state.count kind, room⟩} : Finset (ThreadId maxProds)) := by simp
        rw [Finset.sum_insert different, Finset.sum_insert different, Finset.sum_singleton,
          Finset.sum_singleton]
        simp only [duty, workers_update_add, setTask_tasks, and_self, if_true, was_absent, scanning,
          MainPoint.remaining, Task.remaining]
        change 7 * _ + 11 + (state.queue.points .main).remaining + 1 < _
        omega
  · refine remaining_moved rfl rfl (fun _ => rfl) ?_
    rw [scanning]
    exact Nat.add_lt_add_left (by decide) _

/-- A command is one step less to come. -/
theorem remaining_execute {command : Command} (manned : Manned state)
    (scanning : state.main = .scan) (taken : state.execute command = some successor) :
    successor.remaining < state.remaining := by
  have idle := manned.placed.main_idle (by simp [scanning])
  cases command with
  | createProducer | createConsumer =>
      cases taken
      exact remaining_create manned scanning _
  | removeLastProducer | removeLastConsumer | removeAll | printStatus | unknown =>
      cases taken
      refine remaining_moved rfl rfl (fun _ => rfl) ?_
      rw [scanning]
      simp [MainPoint.remaining, After.remaining, Caller.remaining, bothConditions]
  | increase | decrease =>
      simp only [execute, queueNext, Option.map_eq_some_iff] at taken
      rcases taken with ⟨queue, called, rfl⟩
      rcases called_of_next called with ⟨-, rfl⟩
      apply remaining_lt_of_main
      · simp only [duty, Function.update_self, scanning, idle, MainPoint.remaining, Call.entry,
          Point.remaining]
        omega
      · intro kind slot
        simp [duty]
  | quit =>
      simp only [execute, queueNext, Option.map_eq_some_iff] at taken
      rcases taken with ⟨queue, stops, rfl⟩
      simp only [CondQueue.next, Option.some.injEq] at stops
      subst stops
      refine remaining_moved rfl rfl (fun _ => rfl) ?_
      rw [scanning]
      exact Nat.add_lt_add_left (by decide) _

theorem remaining_next {label : Label maxProds Message} (manned : Manned state)
    (stopped : state.queue.shared.running = false) (counted : label ≠ .interrupt)
    (taken : state.next label = some successor) : successor.remaining < state.remaining := by
  cases label with
  | command command =>
      simp only [next] at taken
      split at taken
      · next scanning => exact remaining_execute manned scanning taken
      · cases taken
  | endOfInput =>
      simp only [next] at taken
      split at taken
      · next scanning =>
          cases taken
          refine remaining_moved rfl rfl (fun _ => rfl) ?_
          rw [scanning]
          simp [MainPoint.remaining, After.remaining, bothConditions]
      · cases taken
  | main => exact remaining_main manned stopped taken
  | worker kind slot msg woken => exact remaining_worker stopped taken
  | interrupt => exact absurd rfl counted

/-- `running` does not come back. -/
theorem stopped_of_next {label : Label maxProds Message}
    (stopped : state.queue.shared.running = false) (taken : state.next label = some successor) :
    successor.queue.shared.running = false := by
  rcases effect_next taken with ⟨condition, broadcasts, after, -, rfl⟩ | ⟨effect, -⟩
  · exact stopped
  · exact (effect.stopped stopped).1

/-- Neither `main` nor a worker goes on, spurious wake-ups apart. -/
structure Rests (state : Program maxProds Message) : Prop where
  main : state.mainNext = none
  workers : ∀ label, awake state label = true → state.next label = none

/-- `main` joins a worker that nobody has woken up. -/
def Hangs (state : Program maxProds Message) : Prop :=
  ∃ kind slot caller, state.main = .join kind slot caller ∧
    (state.queue.points (.worker kind slot)).waitsOn kind.condition = true

theorem not_waitsOn_of_holds {point : Point Message} {condition : Condition}
    (inside : point.holds = true) : point.waitsOn condition = false := by
  by_contra waits
  rw [Bool.not_eq_false] at waits
  cases condition with
  | notFull =>
      rcases Point.eq_wait_of_waitsOn waits with ⟨msg, rfl⟩
      exact absurd inside Bool.false_ne_true
  | notEmpty =>
      unfold Point.waitsOn at waits
      split at waits
      · next impossible => exact absurd impossible (by simp)
      · exact absurd inside Bool.false_ne_true
      · exact absurd waits Bool.false_ne_true

/-- A worker at rest inside a call waits for a wake-up or for the mutex. -/
theorem Rests.waits [Inhabited Message] (rests : Rests state) {kind : Kind} {slot : Fin maxProds}
    (calling : state.tasks kind slot = .calling)
    (busy : state.queue.points (.worker kind slot) ≠ .idle) :
    (state.queue.points (.worker kind slot)).waitsOn kind.condition = true ∨
      ((state.queue.points (.worker kind slot)).holds = false ∧
        state.queue.shared.mutex ≠ none) := by
  by_contra goes
  rw [not_or] at goes
  have free : ∀ target, Locks (state.queue.points (.worker kind slot)) target →
      state.queue.shared.mutex = none := by
    intro target locks
    by_contra held
    exact goes.2 ⟨not_holds_of_locks locks, held⟩
  rcases exists_step busy free with ⟨woken, queue, stepped⟩
  have stays := rests.workers (.worker kind slot default woken) (by simpa [awake] using goes.1)
  simp [next, workerNext, calling, queueNext, stepped] at stays

/-- A resize function of `main` goes on as soon as the mutex is free. -/
theorem exists_resize {queue : State (ThreadId maxProds) Message}
    (role : (queue.points .main).role = none) (busy : queue.points .main ≠ .idle)
    (free : ∀ target, Locks (queue.points .main) target → queue.shared.mutex = none) :
    ∃ successor, CondQueue.next queue (.step .main []) = some successor := by
  have moves : ∃ outcome, advance queue.shared .main (queue.points .main) = some outcome :=
    exists_advance busy free
  rcases moves with ⟨⟨shared, point, notice⟩, advanced⟩
  have no_signal : ∀ condition, notice ≠ .signal condition := by
    rintro condition rfl
    generalize queue.points .main = before at advanced role
    cases advances_of_advance advanced with
    | pushSignals | popSignals => exact absurd role (Option.some_ne_none _)
  have delivered : ∃ points,
      deliver (Function.update queue.points .main point) [] notice = some points := by
    cases notice with
    | silent | broadcast => exact ⟨_, rfl⟩
    | signal condition => exact absurd rfl (no_signal condition)
  rcases delivered with ⟨points, delivered⟩
  exact ⟨⟨shared, points⟩, by simp [CondQueue.next, advanced, delivered]⟩

theorem Rests.resizing (rests : Rests state) (manned : Manned state)
    (at_main : state.main = .resize) :
    state.queue.points .main ≠ .idle ∧ (state.queue.points .main).holds = false ∧
      state.queue.shared.mutex ≠ none := by
  have stays := rests.main
  have busy : state.queue.points .main ≠ .idle := by
    intro idle
    simp [mainNext, at_main, idle] at stays
  refine ⟨busy, ?_⟩
  by_contra goes
  have free : ∀ target, Locks (state.queue.points .main) target →
      state.queue.shared.mutex = none := by
    intro target locks
    by_contra held
    exact goes ⟨not_holds_of_locks locks, held⟩
  rcases exists_resize manned.placed.main_role busy free with ⟨queue, stepped⟩
  simp [mainNext, at_main, queueNext, stepped] at stays

/-- At rest the mutex is free. -/
theorem Rests.free [Inhabited Message] (rests : Rests state) (manned : Manned state) :
    state.queue.shared.mutex = none := by
  by_contra held
  rcases Option.ne_none_iff_exists'.mp held with ⟨holder, mutex_eq⟩
  have inside := (manned.kept.steady holder).locked.mpr mutex_eq
  cases holder with
  | worker kind slot =>
      rw [ownSection, Bool.or_false] at inside
      have busy : state.queue.points (.worker kind slot) ≠ .idle := by
        intro idle
        rw [idle] at inside
        exact absurd inside Bool.false_ne_true
      rcases rests.waits ((manned.placed.calling kind slot).mpr busy) busy with waits | ⟨outside, -⟩
      · rw [not_waitsOn_of_holds inside] at waits
        exact absurd waits Bool.false_ne_true
      · exact absurd (outside.symm.trans inside) Bool.false_ne_true
  | main =>
      have stays := rests.main
      by_cases resizing : state.main = .resize
      · rw [(rests.resizing manned resizing).2.1, resizing] at inside
        exact absurd inside Bool.false_ne_true
      · rw [manned.placed.main_idle resizing] at inside
        change state.main.inSection = true at inside
        cases main_eq : state.main with
        | locked broadcasts after =>
            simp only [mainNext, main_eq] at stays
            cases broadcasts <;> cases stays
        | _ =>
            rw [main_eq] at inside
            exact absurd inside Bool.false_ne_true

/-- Where the program comes to rest. -/
theorem Rests.cases [Inhabited Message] (rests : Rests state) (manned : Manned state) :
    state.main = .destroy ∨ state.main = .scan ∨ Hangs state := by
  have free := rests.free manned
  have stays := rests.main
  cases main_eq : state.main with
  | destroy => exact Or.inl rfl
  | scan => exact Or.inr (Or.inl rfl)
  | test =>
      simp only [mainNext, main_eq] at stays
      split at stays <;> cases stays
  | resize => exact absurd free (rests.resizing manned main_eq).2.2
  | lock broadcasts after => simp [mainNext, main_eq, free] at stays
  | locked broadcasts after =>
      simp only [mainNext, main_eq] at stays
      cases broadcasts <;> cases stays
  | removeLast kind caller =>
      simp only [mainNext, main_eq] at stays
      split at stays <;> cases stays
  | removeAll final =>
      simp only [mainNext, main_eq] at stays
      split at stays
      · cases stays
      · split at stays
        · cases stays
        · cases final <;> cases stays
  | cancel kind caller =>
      have some_left := manned.rostered.some_left kind (by rw [main_eq]; rfl)
      have bound := manned.rostered.count_le kind
      simp only [mainNext, main_eq, Program.cancel, dite_eq_right_iff, reduceCtorEq,
        imp_false] at stays
      omega
  | join kind slot caller =>
      have alive : state.tasks kind slot ≠ .absent := by
        rw [manned.rostered.present, manned.rostered.last kind slot caller main_eq]
        simp [staff, main_eq, MainPoint.joining]
      cases task_eq : state.tasks kind slot with
      | absent => exact absurd task_eq alive
      | ended => simp [mainNext, main_eq, Program.join, task_eq] at stays
      | calling =>
          have busy := (manned.placed.calling kind slot).mp task_eq
          rcases rests.waits task_eq busy with waits | ⟨-, held⟩
          · exact Or.inr (Or.inr ⟨kind, slot, caller, main_eq, waits⟩)
          · exact absurd free held
      | test | sleep =>
          have idle : state.queue.points (.worker kind slot) = .idle :=
            manned.placed.idle_of_ne (by simp [task_eq])
          have asleep := rests.workers (.worker kind slot default [])
            (by cases kind <;> simp [awake, idle, Point.waitsOn])
          by_cases running : state.queue.shared.running = true
          · simp [next, workerNext, task_eq, queueNext, CondQueue.next, idle, running] at asleep
          · simp [next, workerNext, task_eq, running] at asleep

end Program

/-- `main` is on its way out after a removal. -/
def Caller.leaving : Caller → Bool
  | .command => false
  | .removeAll final => final

def After.leaving : After → Bool
  | .printStatus => false
  | .removeLast _ caller => caller.leaving
  | .removeAll final => final
  | .shutdown => true

/-- `main` has left its loop. -/
def MainPoint.leaving {maxProds : ℕ} : MainPoint maxProds → Bool
  | .test | .scan | .resize => false
  | .lock _ after | .locked _ after => after.leaving
  | .removeLast _ caller | .cancel _ caller | .join _ _ caller => caller.leaving
  | .removeAll final => final
  | .destroy => true

namespace Program

variable {maxProds : ℕ} {Message : Type u} {state successor : Program maxProds Message}

theorem leaving_target (caller : Caller) :
    (Caller.target caller : MainPoint maxProds).leaving = caller.leaving := by
  cases caller <;> rfl

theorem leaving_main (leaving : state.main.leaving = true)
    (taken : state.mainNext = some successor) : successor.main.leaving = true := by
  cases mainAdvances_of_mainNext taken with
  | scans at_main | resized at_main =>
      rw [at_main] at leaving
      exact absurd leaving Bool.false_ne_true
  | leaves => rfl
  | resizes => exact leaving
  | locks at_main | broadcasts at_main | removes at_main =>
      rw [at_main] at leaving
      exact leaving
  | @unlocks after at_main =>
      rw [at_main] at leaving
      cases after with
      | printStatus => exact absurd leaving Bool.false_ne_true
      | removeLast | removeAll => exact leaving
      | shutdown => rfl
  | nobodyLeft at_main =>
      rw [at_main] at leaving
      exact (leaving_target _).trans leaving
  | cancels at_main taken =>
      simp only [cancel, Option.dite_none_right_eq_some, Option.some.injEq] at taken
      rcases taken with ⟨-, rfl⟩
      rw [at_main] at leaving
      exact leaving
  | joins at_main taken =>
      simp only [join, Option.ite_none_right_eq_some, Option.some.injEq] at taken
      rcases taken with ⟨-, rfl⟩
      rw [at_main] at leaving
      exact (leaving_target _).trans leaving
  | removesNext at_main =>
      rw [at_main] at leaving
      exact leaving
  | @removedAll final at_main =>
      rw [at_main] at leaving
      change final = true at leaving
      subst leaving
      rfl

theorem leaving_of_due {main : MainPoint maxProds} {condition : Condition}
    (due : main.due condition = true) : main.leaving = true := by
  unfold MainPoint.due at due
  split at due
  · rfl
  · rfl
  · exact absurd due Bool.false_ne_true

/-- On its way out `main` stays there. -/
theorem leaving_stays {label : Label maxProds Message} (leaving : state.main.leaving = true)
    (taken : state.next label = some successor) : successor.main.leaving = true := by
  cases label with
  | command command =>
      simp only [next] at taken
      split at taken
      · next scanning =>
          rw [scanning] at leaving
          exact absurd leaving Bool.false_ne_true
      · cases taken
  | endOfInput =>
      simp only [next] at taken
      split at taken
      · next scanning =>
          rw [scanning] at leaving
          exact absurd leaving Bool.false_ne_true
      · cases taken
  | main => exact leaving_main leaving taken
  | worker kind slot msg woken =>
      rw [(workerNext_frame taken).1]
      exact leaving
  | interrupt =>
      rw [(queueEffect_queueNext state taken rfl).2.1]
      exact leaving

/-- Since `main` has left its loop, it is on its way out. -/
theorem leaving_of_reachable (reached : (system maxProds Message).Reachable state) :
    state.left ≠ none → state.main.leaving = true := by
  apply reached.invariant
  · rintro _ rfl inside
    exact absurd rfl inside
  · intro state label successor leaving _ taken outside
    rcases effect_next taken with ⟨condition, broadcasts, after, main_eq, rfl⟩ |
      ⟨-, ⟨-, -, due⟩ | ⟨left_eq, -⟩⟩
    · exact leaving_stays (leaving outside) taken
    · exact leaving_of_due (due .notFull)
    · exact leaving_stays (leaving (left_eq ▸ outside)) taken

/-- At the end nobody is left that could go on. -/
theorem rests_of_destroys (manned : Manned state) (destroys : state.main = .destroy) :
    Rests state := by
  refine ⟨by simp [mainNext, destroys], fun label woken => ?_⟩
  cases label with
  | worker kind slot msg woken =>
      simp [next, workerNext, (manned.unused destroys).absent kind slot]
  | _ => exact absurd woken Bool.false_ne_true

/-- Once `running` has dropped, every run has an end, where `main` reads a command, destroys the
queue or hangs in a join; since it has left its loop with `running` at 0, it destroys the queue. -/
theorem ends_of_stopped [Inhabited Message] {state final : Program maxProds Message}
    {labels : List (Label maxProds Message)} (reached : (system maxProds Message).Reachable state)
    (stopped : state.queue.shared.running = false)
    (ran : (system maxProds Message).run state labels = some final)
    (uninterrupted : ∀ label ∈ labels, label ≠ .interrupt) :
    labels.length + final.remaining ≤ state.remaining ∧
      (Rests final → final.main = .destroy ∨ final.main = .scan ∨ Hangs final) ∧
      (final.left = some false → (Rests final ↔ final.main = .destroy)) := by
  have reached_final := reached.of_run ran
  have manned := manned_of_reachable reached_final
  have bound : (Manned final ∧ final.queue.shared.running = false) ∧
      labels.length + final.remaining ≤ state.remaining := by
    apply System.run_length_le ?_ ⟨manned_of_reachable reached, stopped⟩ uninterrupted ran
    intro state label successor holds counted taken
    exact ⟨⟨manned_next holds.1 taken, stopped_of_next holds.2 taken⟩,
      remaining_next holds.1 holds.2 counted taken⟩
  refine ⟨bound.2, fun rests => rests.cases manned, fun left => ⟨fun rests => ?_,
    rests_of_destroys manned⟩⟩
  rcases rests.cases manned with destroys | scanning | ⟨kind, slot, caller, joining, waits⟩
  · exact destroys
  · have leaving := leaving_of_reachable reached_final (by simp [left])
    rw [scanning] at leaving
    exact absurd leaving Bool.false_ne_true
  · have awake := (quiet_of_reachable reached_final).nobody_waits left kind.condition
      (by rw [joining]; rfl) (.worker kind slot)
    exact absurd (awake.symm.trans waits) Bool.false_ne_true

/-- A consumer blocks on the empty queue, and the program is interrupted. -/
def interruptedConsumer : List (Label 1 ℕ) :=
  [.main, .command .createConsumer] ++ List.replicate 3 (.worker .consumer (.last 0) 0 []) ++
    [.interrupt]

/-- The broadcasts wake the consumer up, and it is joined. -/
def joinedConsumer : List (Label 1 ℕ) :=
  List.replicate 15 .main ++ List.replicate 5 (.worker .consumer (.last 0) 0 []) ++ [.main, .main]

theorem ends_of_stopped_interruptedConsumer :
    ∃ state final, (system 1 ℕ).run init interruptedConsumer = some state ∧
      (system 1 ℕ).run state joinedConsumer = some final ∧
      joinedConsumer.length + final.remaining ≤ state.remaining ∧ Rests final := by
  have ran : ((system 1 ℕ).run init interruptedConsumer).bind (fun state =>
      ((system 1 ℕ).run state joinedConsumer).map fun final =>
        (state.queue.shared.running, final.left,
          match final.main with
          | .destroy => true
          | _ => false)) = some (false, some false, true) := by
    decide +kernel
  rcases Option.bind_eq_some_iff.mp ran with ⟨state, ran, rest⟩
  rcases Option.map_eq_some_iff.mp rest with ⟨final, ran', found⟩
  simp only [Prod.mk.injEq] at found
  rcases found with ⟨stopped, left, at_end⟩
  have destroys : final.main = .destroy := by
    split at at_end
    · assumption
    · cases at_end
  rcases ends_of_stopped (System.Reachable.of_run (.start rfl) ran) stopped ran' (by simp
    [joinedConsumer]) with ⟨bound, -, ends⟩
  exact ⟨state, final, ran, ran', bound, (ends left).mpr destroys⟩

end Program

end Osis.Lab05.CondQueue
