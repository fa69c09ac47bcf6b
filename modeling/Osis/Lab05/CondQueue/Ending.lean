import Osis.Lab05.CondQueue.Staff

/-!
# The queue until its end

Over whole runs of the program `running` may drop at any time, and `main` enters mutex
sections of its own. The queue stays a bounded first-in first-out buffer, and when `main`
destroys it all workers have been joined: nobody is left that could use it, and the messages
freed are those that were put in and never taken out.
-/

namespace Osis.Lab05.CondQueue

open Concurrency

universe u v

/-- The messages that the loop of `queue_destroy` frees. -/
def queueDestroy {Message : Type u} (queue : Queue Message) : List (Option Message) :=
  freed queue.head queue.count
where
  freed (head : ℕ) : ℕ → List (Option Message)
    | 0 => []
    | count + 1 => queue.buffer head :: freed ((head + 1) % queue.capacity) count

/-- The loop frees what the ring holds. -/
theorem queueDestroy_eq {Message : Type u} {queue : Queue Message} (wellFormed : queue.WellFormed) :
    queueDestroy queue = queue.contents := by
  have frees : ∀ count head, head < queue.capacity → queueDestroy.freed queue head count =
      Ring.contents queue.buffer head count queue.capacity := by
    intro count
    induction count with
    | zero => exact fun _ _ => rfl
    | succ count ih =>
        intro head inside
        rw [queueDestroy.freed, Ring.contents_succ inside,
          ih _ (Nat.mod_lt _ wellFormed.capacity_pos)]
  exact frees queue.count queue.head wellFormed.head_lt

section Kept

variable {Thread : Type v} {Message : Type u} [DecidableEq Thread]

/-- What holds of a thread that may be inside a section of its own. -/
structure Steady (own : Bool) (shared : Shared Thread Message) (thread : Thread)
    (point : Point Message) : Prop where
  locked : Holds shared.mutex thread (point.holds || own)
  facts : Facts shared point
  delivered : Delivered shared thread point

omit [DecidableEq Thread] in
/-- The queue and the logs stand for a bounded buffer with its history. -/
def Buffered (shared : Shared Thread Message) : Prop :=
  ∃ fifo, shared.queue.Represents fifo ∧ shared.pushed.map Prod.snd = fifo.inserted ∧
    shared.popped.map Prod.snd = fifo.removed.map some

/-- The queue beside the sections that threads enter on their own. -/
structure Kept (own : Thread → Bool) (state : State Thread Message) : Prop where
  steady : ∀ thread, Steady (own thread) state.shared thread (state.points thread)
  buffered : Buffered state.shared

variable {own : Bool} {shared shared' : Shared Thread Message} {thread other : Thread}
  {point point' : Point Message}

omit [DecidableEq Thread] in
theorem Buffered.wellFormed (buffered : Buffered shared) : shared.queue.WellFormed := by
  rcases buffered with ⟨fifo, represents, -⟩
  exact represents.wellFormed

theorem Steady.notify (steady : Steady own shared thread point) (condition : Condition) :
    Steady own shared thread (point.notify condition) := by
  refine ⟨by simpa using steady.locked, facts_notify steady.facts, ?_⟩
  unfold Point.notify
  split
  · exact steady.delivered
  · exact steady.delivered
  · exact steady.delivered

theorem Outcome.buffered (outcome : Outcome shared thread point shared' point')
    (facts : Facts shared point) (buffered : Buffered shared) : Buffered shared' := by
  rcases buffered with ⟨fifo, represents, pushed_eq, popped_eq⟩
  rcases outcome.forward facts represents pushed_eq popped_eq with
    ⟨-, fifo', -, represents', pushed_eq', popped_eq'⟩
  exact ⟨fifo', represents', pushed_eq', popped_eq'⟩

/-- What the others rely on survives the step of a thread outside a section of its own. -/
theorem steady_other {otherPoint : Point Message}
    (outcome : Outcome shared thread point shared' point')
    (stepping : Steady false shared thread point) (different : other ≠ thread)
    (before : Steady own shared other otherPoint) : Steady own shared' other otherPoint := by
  have own_locked := stepping.locked
  rw [Bool.or_false] at own_locked
  refine ⟨outcome.mutexStep.elsewhere own_locked different before.locked, ?_,
    outcome.delivered_other different before.delivered⟩
  by_cases inside : otherPoint.holds = true
  · have stepping_outside : point.holds = false := by
      have others := before.locked
      rw [inside, Bool.true_or] at others
      exact own_locked.exclusive others different
    exact facts_of_queue_eq (outcome.queue_eq stepping_outside)
      (fun stopped => outcome.running_eq.trans stopped) before.facts
  · exact facts_of_holds_eq_false (by simpa using inside) _

theorem steady_own (outcome : Outcome shared thread point shared' point')
    (wellFormed : shared.queue.WellFormed) (before : Steady false shared thread point) :
    Steady false shared' thread point' := by
  have locked := before.locked
  rw [Bool.or_false] at locked
  have locked' := outcome.mutexStep.own locked
  rw [← Bool.or_false point'.holds] at locked'
  exact ⟨locked', outcome.facts wellFormed before.facts, outcome.delivered before.delivered⟩

namespace Kept

variable {own : Thread → Bool} {state successor : State Thread Message} [Fintype Thread]

/-- A step of a thread outside a section of its own. -/
theorem step (kept : Kept own state) {woken : List Thread} (outside : own thread = false)
    (taken : next state (.step thread woken) = some successor) : Kept own successor := by
  rcases stepped_of_next taken with ⟨shared, point, notice, points, advanced, delivered, rfl⟩
  have outcome := outcome_advance advanced
  have stepping := kept.steady thread
  rw [outside] at stepping
  refine ⟨fun other => ?_, outcome.buffered stepping.facts kept.buffered⟩
  have arrived : Steady (own other) shared other
      (Function.update state.points thread point other) := by
    by_cases same : other = thread
    · subst same
      rw [outside, Function.update_self]
      exact steady_own outcome kept.buffered.wellFormed stepping
    · rw [Function.update_of_ne same]
      exact steady_other outcome stepping same (kept.steady other)
  change Steady (own other) shared other (points other)
  rcases deliver_cases delivered other with stays | ⟨condition, notified⟩
  · rw [stays]
    exact arrived
  · rw [notified]
    exact arrived.notify condition

theorem call (kept : Kept own state) {call : Call Message}
    (taken : next state (.call thread call) = some successor) : Kept own successor := by
  rcases called_of_next taken with ⟨idle, rfl⟩
  refine ⟨fun other => ?_, kept.buffered⟩
  have before := kept.steady other
  change Steady (own other) state.shared other (Function.update state.points thread _ other)
  by_cases same : other = thread
  · subst same
    rw [idle] at before
    rw [Function.update_self]
    cases call with
    | push | pop | increase | decrease => exact ⟨before.locked, trivial, before.delivered⟩
  · rw [Function.update_of_ne same]
    exact before

theorem stop (kept : Kept own state) (taken : next state .stop = some successor) :
    Kept own successor := by
  simp only [next, Option.some.injEq] at taken
  subst taken
  refine ⟨fun other => ?_, kept.buffered⟩
  have before := kept.steady other
  have same_queue : ({ state.shared with running := false } : Shared Thread Message).queue =
      state.shared.queue := rfl
  exact ⟨before.locked, facts_of_queue_eq same_queue (fun _ => rfl) before.facts,
    before.delivered⟩

omit [Fintype Thread] in
/-- A thread outside the queue functions locks the mutex for a section of its own. -/
theorem lock (kept : Kept own state) (free : state.shared.mutex = none) :
    Kept (Function.update own thread true)
      { state with shared := { state.shared with mutex := some thread } } := by
  refine ⟨fun other => ?_, kept.buffered⟩
  have before := kept.steady other
  refine ⟨?_, facts_of_queue_eq rfl id before.facts, before.delivered⟩
  by_cases same : other = thread
  · subst same
    simp [Holds]
  · have locked := before.locked
    rw [free] at locked
    simpa [Holds, same, Ne.symm same] using locked

omit [Fintype Thread] in
theorem unlock (kept : Kept own state) (entered : own thread = true)
    (idle : state.points thread = .idle) :
    Kept (Function.update own thread false)
      { state with shared := { state.shared with mutex := none } } := by
  have holder : state.shared.mutex = some thread :=
    (kept.steady thread).locked.mp (by simp [entered])
  refine ⟨fun other => ?_, kept.buffered⟩
  have before := kept.steady other
  refine ⟨?_, facts_of_queue_eq rfl id before.facts, before.delivered⟩
  by_cases same : other = thread
  · subst same
    simp [Holds, idle, Point.holds]
  · have locked := before.locked
    rw [holder] at locked
    simpa [Holds, same, Ne.symm same] using locked

omit [Fintype Thread] in
theorem broadcast (kept : Kept own state) (condition : Condition) :
    Kept own { state with points := fun thread => (state.points thread).notify condition } :=
  ⟨fun other => (kept.steady other).notify condition, kept.buffered⟩

omit [Fintype Thread] in
/-- Beside the sections of their own the threads make a bounded buffer of the queue. -/
theorem deliversInOrder (kept : Kept own state) : DeliversInOrder state := by
  rcases kept.buffered with ⟨fifo, represents, pushed_eq, popped_eq⟩
  have wellFormed := represents.wellFormed
  refine ⟨wellFormed.capacity_pos, wellFormed.count_le, wellFormed.head_lt, wellFormed.tail_lt,
    wellFormed.tail_eq, ?_, represents.logged pushed_eq popped_eq,
    fun thread => (kept.steady thread).delivered.1, fun thread => (kept.steady thread).delivered.2⟩
  have counted := wellFormed.counted
  omega

end Kept

end Kept

/-- The kind of the worker that `main` waits for. -/
def MainPoint.joining {maxProds : ℕ} : MainPoint maxProds → Option Kind
  | .join kind _ _ => some kind
  | _ => none

namespace Program

variable {maxProds : ℕ} {Message : Type u} {state successor : Program maxProds Message}

/-- The number of slots with a thread: `main` counts a worker down before it joins it. -/
def staff (state : Program maxProds Message) (kind : Kind) : ℕ :=
  state.count kind + if state.main.joining = some kind then 1 else 0

/-- The threads are where `main` and the tasks of the workers say. -/
structure Placed (state : Program maxProds Message) : Prop where
  main_role : (state.queue.points .main).role = none
  main_idle : state.main ≠ .resize → state.queue.points .main = .idle
  role : ∀ kind slot, state.queue.points (.worker kind slot) = .idle ∨
    (state.queue.points (.worker kind slot)).role = some kind
  calling : ∀ kind slot,
    state.tasks kind slot = .calling ↔ state.queue.points (.worker kind slot) ≠ .idle

/-- The arrays and their counts describe the workers. -/
structure Rostered (state : Program maxProds Message) : Prop where
  present : ∀ kind (slot : Fin maxProds), state.tasks kind slot ≠ .absent ↔
    slot < state.staff kind
  last : ∀ kind slot caller, state.main = .join kind slot caller → slot = state.count kind
  count_le : ∀ kind, state.count kind ≤ maxProds
  some_left : ∀ kind, state.main.removes = some kind → 0 < state.count kind
  /-- `remove_all` removes only workers that there are. -/
  chosen : ∀ kind final, state.main = .removeLast kind (.removeAll final) → 0 < state.count kind
  nobody : state.main = .destroy → ∀ kind, state.count kind = 0

/-- What holds in all runs. -/
structure Manned (state : Program maxProds Message) : Prop where
  kept : Kept (ownSection state.main) state.queue
  placed : Placed state
  rostered : Rostered state

section Tasks

variable {kind : Kind} {slot : Fin maxProds}

/-- A worker that moves on leaves all others where they are. -/
theorem Placed.moved (placed : Placed state) {task : Task}
    {queue : State (ThreadId maxProds) Message}
    (others : ∀ other, other ≠ .worker kind slot →
      (queue.points other).role = (state.queue.points other).role ∧
        (queue.points other = .idle ↔ state.queue.points other = .idle))
    (role : queue.points (.worker kind slot) = .idle ∨
      (queue.points (.worker kind slot)).role = some kind)
    (calling : task = .calling ↔ queue.points (.worker kind slot) ≠ .idle) :
    Placed ({ state with queue := queue }.setTask kind slot task) := by
  have not_main : (.main : ThreadId maxProds) ≠ .worker kind slot := by simp
  refine ⟨(others .main not_main).1.trans placed.main_role,
    fun outside => (others .main not_main).2.mpr (placed.main_idle outside),
    fun kind' slot' => ?_, fun kind' slot' => ?_⟩
  · by_cases same : kind' = kind ∧ slot' = slot
    · rw [same.1, same.2]
      exact role
    · have unmoved := others _ (worker_ne same)
      exact (placed.role kind' slot').imp unmoved.2.mpr unmoved.1.trans
  · rw [setTask_tasks]
    by_cases same : kind' = kind ∧ slot' = slot
    · rw [if_pos same, same.1, same.2]
      exact calling
    · rw [if_neg same]
      exact (placed.calling kind' slot').trans (not_congr (others _ (worker_ne same)).2).symm

theorem Rostered.moved (rostered : Rostered state) {task : Task}
    {queue : State (ThreadId maxProds) Message} (alive : state.tasks kind slot ≠ .absent)
    (alive' : task ≠ .absent) :
    Rostered ({ state with queue := queue }.setTask kind slot task) := by
  refine ⟨fun kind' slot' => ?_, rostered.last, rostered.count_le, rostered.some_left,
    rostered.chosen, rostered.nobody⟩
  rw [setTask_tasks]
  by_cases same : kind' = kind ∧ slot' = slot
  · rw [if_pos same, same.1, same.2]
    exact (iff_of_true alive' alive).trans (rostered.present kind slot)
  · rw [if_neg same]
    exact rostered.present kind' slot'

theorem Placed.idle_of_ne (placed : Placed state) (elsewhere : state.tasks kind slot ≠ .calling) :
    state.queue.points (.worker kind slot) = .idle := by
  by_contra busy
  exact elsewhere ((placed.calling kind slot).mpr busy)

/-- After a step a worker is in its call exactly if the step was not the return from it. -/
theorem afterStep_eq_calling {point : Point Message} : afterStep point = .calling ↔
    goesOn point = none := by
  unfold afterStep
  split
  · next inside => simp [inside]
  · next goes => simp [goes]
  · next ends => simp [ends]

theorem afterStep_ne_absent (point : Point Message) : afterStep point ≠ .absent := by
  unfold afterStep
  split <;> simp

theorem manned_worker {msg : Message} {woken : List (ThreadId maxProds)} (manned : Manned state)
    (taken : state.workerNext kind slot msg woken = some successor) : Manned successor := by
  cases workerAdvances_of_workerNext taken with
  | calls msg testing running called =>
      have kept := manned.kept.call called
      rcases called_of_next called with ⟨-, rfl⟩
      have entered : (call msg kind).entry ≠ .idle ∧ (call msg kind).entry.role = some kind := by
        cases kind <;> exact ⟨by simp [call, Call.entry], rfl⟩
      refine ⟨kept, manned.placed.moved (fun other different => ?_) (Or.inr ?_) ?_,
        manned.rostered.moved (by simp [testing]) (by simp)⟩
      · simp [different]
      · simpa using entered.2
      · simpa using entered.1
  | leaves testing stopped =>
      have idle : state.queue.points (.worker kind slot) = .idle :=
        manned.placed.idle_of_ne (by simp [testing])
      exact ⟨manned.kept, manned.placed.moved (fun _ _ => ⟨rfl, Iff.rfl⟩) (Or.inl idle)
        (by simp [idle]), manned.rostered.moved (by simp [testing]) (by simp)⟩
  | steps woken calling stepped =>
      have kept := manned.kept.step rfl stepped
      have role := (manned.placed.role kind slot).resolve_left
        ((manned.placed.calling kind slot).mp calling)
      rcases role_step stepped with ⟨others, own⟩
      have rostered (queue : State (ThreadId maxProds) Message) :
          Rostered ({ state with queue := queue }.setTask kind slot
            (afterStep (state.queue.points (.worker kind slot)))) :=
        manned.rostered.moved (by simp [calling]) (afterStep_ne_absent _)
      rw [role] at own
      rcases own with ⟨inside, role', stays⟩ | ⟨returns, idle⟩ | ⟨impossible, -⟩
      · have stays' := stays.resolve_left (by simp)
        exact ⟨kept, manned.placed.moved others (Or.inr role')
          (iff_of_true (afterStep_eq_calling.mpr inside) stays'), rostered _⟩
      · refine ⟨kept, manned.placed.moved others (Or.inl idle) ?_, rostered _⟩
        rw [afterStep_eq_calling]
        exact iff_of_false (by simpa [Option.isSome_iff_ne_none] using returns)
          (not_not.mpr idle)
      · simp at impossible
  | wakes asleep =>
      have idle : state.queue.points (.worker kind slot) = .idle :=
        manned.placed.idle_of_ne (by simp [asleep])
      refine ⟨manned.kept, manned.placed.moved (fun _ _ => ⟨rfl, Iff.rfl⟩) (Or.inl idle) ?_,
        manned.rostered.moved (by simp [asleep]) ?_⟩
      · refine iff_of_false ?_ (not_not.mpr idle)
        split <;> simp
      · split <;> simp

end Tasks

/-- The end of `running` moves nobody. -/
theorem Manned.stop (manned : Manned state) {queue : State (ThreadId maxProds) Message}
    (taken : CondQueue.next state.queue .stop = some queue) :
    Manned { state with queue := queue } := by
  have kept := manned.kept.stop taken
  simp only [CondQueue.next, Option.some.injEq] at taken
  subst taken
  have rostered := manned.rostered
  exact ⟨kept, ⟨manned.placed.main_role, manned.placed.main_idle, manned.placed.role,
    manned.placed.calling⟩, ⟨rostered.present, rostered.last, rostered.count_le,
    rostered.some_left, rostered.chosen, rostered.nobody⟩⟩

section Main

theorem ne_join_of_joining {main : MainPoint maxProds} (joins : main.joining = none) {kind : Kind}
    {slot : Fin maxProds} {caller : Caller} : main ≠ .join kind slot caller := by
  rintro rfl
  exact absurd joins (Option.some_ne_none kind)

theorem some_left_of_keeps {main : MainPoint maxProds} (keeps : main.removes = none) (kind : Kind)
    (removes : main.removes = some kind) : 0 < state.count kind :=
  absurd (keeps.symm.trans removes) (Option.some_ne_none kind).symm

/-- `main` moves on with the queue, without joining anyone before or after. -/
theorem Rostered.mainMoved (rostered : Rostered state) {queue : State (ThreadId maxProds) Message}
    {main : MainPoint maxProds} {left : Option Bool} (before : state.main.joining = none)
    (after : main.joining = none)
    (some_left : ∀ kind, main.removes = some kind → 0 < state.count kind)
    (chosen : ∀ kind final, main = .removeLast kind (.removeAll final) → 0 < state.count kind)
    (nobody : main = .destroy → ∀ kind, state.count kind = 0) :
    Rostered { state with queue := queue, main := main, left := left } := by
  refine ⟨fun kind slot => ?_, fun kind slot caller joins => ?_, rostered.count_le, some_left,
    chosen, nobody⟩
  · have present := rostered.present kind slot
    simp only [staff, before, after] at present ⊢
    exact present
  · exact absurd joins (ne_join_of_joining after)

theorem Placed.mainMoved (placed : Placed state) {queue : State (ThreadId maxProds) Message}
    {main : MainPoint maxProds} {left : Option Bool} (role : (queue.points .main).role = none)
    (idle : main ≠ .resize → queue.points .main = .idle)
    (workers : ∀ kind slot,
      (queue.points (.worker kind slot)).role = (state.queue.points (.worker kind slot)).role ∧
        (queue.points (.worker kind slot) = .idle ↔
          state.queue.points (.worker kind slot) = .idle)) :
    Placed { state with queue := queue, main := main, left := left } where
  main_role := role
  main_idle := idle
  role kind slot := (placed.role kind slot).imp (workers kind slot).2.mpr
    (workers kind slot).1.trans
  calling kind slot := (placed.calling kind slot).trans (not_congr (workers kind slot).2).symm

/-- `main` moves on outside the queue and its own sections. -/
theorem Manned.mainAt (manned : Manned state) {main : MainPoint maxProds} {left : Option Bool}
    (outside : main.inSection = state.main.inSection) (not_resizing : state.main ≠ .resize)
    (before : state.main.joining = none) (after : main.joining = none)
    (some_left : ∀ kind, main.removes = some kind → 0 < state.count kind)
    (chosen : ∀ kind final, main = .removeLast kind (.removeAll final) → 0 < state.count kind)
    (nobody : main = .destroy → ∀ kind, state.count kind = 0) :
    Manned { state with main := main, left := left } := by
  have same_own : ownSection main = ownSection state.main := by
    rw [ownSection_eq, ownSection_eq, outside]
  exact ⟨same_own ▸ manned.kept,
    manned.placed.mainMoved manned.placed.main_role
      (fun _ => manned.placed.main_idle not_resizing) (fun _ _ => ⟨rfl, Iff.rfl⟩),
    manned.rostered.mainMoved before after some_left chosen nobody⟩

/-- Outside its sections `main` goes on to a point where it is not about to remove anybody. -/
theorem Manned.mainFree (manned : Manned state) {main : MainPoint maxProds} {left : Option Bool}
    (section_before : state.main.inSection = false) (section_after : main.inSection = false)
    (not_resizing : state.main ≠ .resize) (before : state.main.joining = none)
    (after : main.joining = none) (keeps : main.removes = none)
    (chooses : ∀ kind final, main ≠ .removeLast kind (.removeAll final))
    (goes_on : main ≠ .destroy) : Manned { state with main := main, left := left } :=
  manned.mainAt (section_after.trans section_before.symm) not_resizing before after
    (some_left_of_keeps keeps)
    (fun kind final chosen => absurd chosen (chooses kind final)) fun destroys =>
      absurd destroys goes_on

/-- `main` steps inside a resize function, or calls one. -/
theorem manned_resize {action : Action (ThreadId maxProds) Message}
    {queue : State (ThreadId maxProds) Message} (manned : Manned state)
    (outside : state.main.inSection = false) (joins : state.main.joining = none)
    (acts : action = .step .main [] ∨ action = .call .main .increase ∨
      action = .call .main .decrease)
    (taken : CondQueue.next state.queue action = some queue) :
    Manned { state with queue := queue, main := .resize } := by
  have same_own : ownSection (.resize : MainPoint maxProds) = ownSection state.main := by
    rw [ownSection_eq, ownSection_eq, outside]
    rfl
  have rostered : Rostered { state with queue := queue, main := .resize } :=
    manned.rostered.mainMoved joins rfl (some_left_of_keeps rfl) (by simp) (by simp)
  rcases acts with rfl | called
  · have main_outside : ownSection state.main .main = false := outside
    have kept := manned.kept.step main_outside taken
    rcases role_step taken with ⟨others, own⟩
    refine ⟨same_own ▸ kept, manned.placed.mainMoved ?_ (fun other => absurd rfl other)
      (fun kind slot => others _ (by simp)), rostered⟩
    rcases own with ⟨-, role', -⟩ | ⟨-, idle⟩ | ⟨-, idle⟩
    · exact role'.trans manned.placed.main_role
    · rw [idle]
      rfl
    · rw [idle]
      rfl
  · have entered : ∃ call : Call Message, action = .call .main call ∧ call.entry.role = none := by
      rcases called with rfl | rfl
      · exact ⟨.increase, rfl, rfl⟩
      · exact ⟨.decrease, rfl, rfl⟩
    rcases entered with ⟨call, rfl, no_role⟩
    have kept := manned.kept.call taken
    rcases called_of_next taken with ⟨-, rfl⟩
    refine ⟨same_own ▸ kept, manned.placed.mainMoved ?_ (fun other => absurd rfl other)
      (fun kind slot => ?_), rostered⟩
    · simpa using no_role
    · simp

theorem manned_create (manned : Manned state) (scanning : state.main = .scan) (kind : Kind) :
    Manned (state.create kind) := by
  have idle := manned.placed.main_idle (by simp [scanning])
  unfold create
  split
  · next room =>
      have staff_eq : ∀ kind, state.staff kind = state.count kind := by
        intro kind
        simp [staff, scanning, MainPoint.joining]
      have was_absent : state.tasks kind ⟨state.count kind, room⟩ = .absent := by
        by_contra alive
        have below := (manned.rostered.present _ _).mp alive
        rw [staff_eq] at below
        exact absurd below (Nat.lt_irrefl _)
      have same_own : ownSection (.test : MainPoint maxProds) = ownSection state.main := by
        rw [scanning]
        rfl
      refine ⟨same_own ▸ manned.kept, ⟨manned.placed.main_role, fun _ => idle,
        manned.placed.role, fun kind' slot' => ?_⟩, ⟨fun kind' slot' => ?_,
        fun _ _ _ joins => absurd joins (ne_join_of_joining rfl), fun kind' => ?_,
        some_left_of_keeps rfl, by simp, by simp⟩⟩
      · simp only [setTask_tasks]
        split
        · next same =>
            rw [same.1, same.2]
            have not_calling := manned.placed.calling kind ⟨state.count kind, room⟩
            rw [was_absent] at not_calling
            exact iff_of_false (by simp) fun busy => absurd (not_calling.mpr busy) (by simp)
        · exact manned.placed.calling kind' slot'
      · have present := manned.rostered.present kind' slot'
        rw [staff_eq] at present
        simp only [setTask_tasks, staff, MainPoint.joining, reduceCtorEq, if_false, Nat.add_zero]
        by_cases same_kind : kind' = kind
        · subst same_kind
          rw [Function.update_self]
          by_cases same_slot : slot' = ⟨state.count kind', room⟩
          · simp [same_slot]
          · have different : (slot' : ℕ) ≠ state.count kind' := fun same =>
              same_slot (Fin.ext same)
            rw [if_neg (by simp [same_slot]), present]
            omega
        · rw [if_neg (by simp [same_kind]), Function.update_of_ne same_kind]
          exact present
      · change Function.update state.count kind (state.count kind + 1) kind' ≤ maxProds
        by_cases same_kind : kind' = kind
        · subst same_kind
          rw [Function.update_self]
          exact room
        · rw [Function.update_of_ne same_kind]
          exact manned.rostered.count_le kind'
  · exact manned.mainFree (by rw [scanning]; rfl) rfl (by simp [scanning])
      (by rw [scanning]; rfl) rfl rfl (by simp) (by simp)

/-- The worker that `main` has cancelled still has its thread. -/
theorem manned_cancel {kind : Kind} {caller : Caller} (manned : Manned state)
    (cancelling : state.main = .cancel kind caller)
    (taken : state.cancel kind caller = some successor) : Manned successor := by
  have idle := manned.placed.main_idle (by simp [cancelling])
  have some_left : 0 < state.count kind :=
    manned.rostered.some_left kind (by rw [cancelling]; rfl)
  simp only [cancel, Option.dite_none_right_eq_some, Option.some.injEq] at taken
  rcases taken with ⟨slot_lt, rfl⟩
  have same_own : ownSection (.join kind ⟨state.count kind - 1, slot_lt⟩ caller) =
      ownSection state.main := by
    rw [cancelling]
    rfl
  refine ⟨same_own ▸ manned.kept, ⟨manned.placed.main_role, fun _ => idle, manned.placed.role,
    manned.placed.calling⟩, ⟨fun kind' slot' => ?_, fun kind' slot' caller' joins => ?_,
    fun kind' => ?_, some_left_of_keeps rfl, by simp, by simp⟩⟩
  · have present := manned.rostered.present kind' slot'
    simp only [staff, cancelling, MainPoint.joining, reduceCtorEq, if_false, Nat.add_zero,
      Option.some.injEq] at present ⊢
    rw [present]
    by_cases same : kind' = kind
    · subst same
      rw [Function.update_self, if_pos rfl]
      omega
    · rw [Function.update_of_ne same, if_neg (Ne.symm same), Nat.add_zero]
  · cases joins
    simp
  · change Function.update state.count kind (state.count kind - 1) kind' ≤ maxProds
    have before := manned.rostered.count_le kind'
    by_cases same : kind' = kind
    · subst same
      rw [Function.update_self]
      omega
    · rw [Function.update_of_ne same]
      exact before

theorem joining_target (caller : Caller) :
    (Caller.target caller : MainPoint maxProds).joining = none := by
  cases caller <;> rfl

theorem removes_caller (caller : Caller) :
    (Caller.target caller : MainPoint maxProds).removes = none := by
  cases caller <;> rfl

theorem manned_join {kind : Kind} {slot : Fin maxProds} {caller : Caller} (manned : Manned state)
    (joining : state.main = .join kind slot caller)
    (taken : state.join kind slot caller = some successor) : Manned successor := by
  have idle := manned.placed.main_idle (by simp [joining])
  have last := manned.rostered.last kind slot caller joining
  simp only [join, Option.ite_none_right_eq_some, Option.some.injEq] at taken
  rcases taken with ⟨ended, rfl⟩
  have same_own : ownSection (Caller.target caller : MainPoint maxProds) =
      ownSection state.main := by
    rw [joining]
    cases caller <;> rfl
  refine ⟨same_own ▸ manned.kept, ⟨manned.placed.main_role, fun _ => idle, manned.placed.role,
    fun kind' slot' => ?_⟩, ⟨fun kind' slot' => ?_, fun _ _ _ joins => ?_,
    manned.rostered.count_le, fun _ removes => ?_, fun _ _ chosen => ?_, fun destroys => ?_⟩⟩
  · simp only [setTask_tasks]
    split
    · next same =>
        rw [same.1, same.2]
        have not_calling := manned.placed.calling kind slot
        rw [ended] at not_calling
        exact iff_of_false (by simp) fun busy => absurd (not_calling.mpr busy) (by simp)
    · exact manned.placed.calling kind' slot'
  · have present := manned.rostered.present kind' slot'
    simp only [staff, joining, MainPoint.joining, Option.some.injEq] at present
    simp only [setTask_tasks, staff, joining_target, reduceCtorEq, if_false, Nat.add_zero]
    change _ ↔ (slot' : ℕ) < state.count kind'
    by_cases same_kind : kind' = kind
    · subst same_kind
      rw [if_pos rfl] at present
      by_cases same_slot : slot' = slot
      · simp [same_slot, last]
      · have different : (slot' : ℕ) ≠ slot := fun same => same_slot (Fin.ext same)
        rw [if_neg (by simp [same_slot]), present]
        omega
    · rw [if_neg (by simp [same_kind]), present, if_neg (Ne.symm same_kind), Nat.add_zero]
  · exact absurd joins (ne_join_of_joining (joining_target caller))
  · exact absurd ((removes_caller caller).symm.trans removes) (by simp)
  · cases caller <;> cases chosen
  · cases caller <;> cases destroys

/-- A step of `main` keeps the program manned. -/
theorem manned_main (manned : Manned state) (taken : state.mainNext = some successor) :
    Manned successor := by
  cases mainAdvances_of_mainNext taken with
  | scans at_main =>
      exact manned.mainFree (by rw [at_main]; rfl) rfl (by simp [at_main])
        (by rw [at_main]; rfl) rfl rfl (by simp) (by simp)
  | leaves at_main =>
      exact manned.mainFree (by rw [at_main]; rfl) rfl (by simp [at_main])
        (by rw [at_main]; rfl) rfl rfl (by simp) (by simp)
  | resized at_main idle =>
      have same_own : ownSection (.test : MainPoint maxProds) = ownSection state.main := by
        rw [at_main]
        rfl
      exact ⟨same_own ▸ manned.kept, manned.placed.mainMoved manned.placed.main_role
        (fun _ => idle) (fun _ _ => ⟨rfl, Iff.rfl⟩),
        manned.rostered.mainMoved (by rw [at_main]; rfl) rfl (some_left_of_keeps rfl) (by simp)
          (by simp)⟩
  | resizes at_main stepped =>
      have resized := manned_resize manned (by rw [at_main]; rfl) (by rw [at_main]; rfl)
        (Or.inl rfl) stepped
      rw [← at_main] at resized
      exact resized
  | @locks broadcasts after at_main free =>
      have idle := manned.placed.main_idle (by simp [at_main])
      have entered : ownSection (.locked broadcasts after : MainPoint maxProds) =
          Function.update (ownSection state.main) .main true := by
        rw [ownSection_update, ownSection_eq]
        rfl
      have kept : Kept (ownSection (.locked broadcasts after))
          (state.setMutex (some .main)).queue := entered ▸ manned.kept.lock free
      refine ⟨kept, manned.placed.mainMoved manned.placed.main_role (fun _ => idle)
        (fun _ _ => ⟨rfl, Iff.rfl⟩), manned.rostered.mainMoved (by rw [at_main]; rfl) rfl
          (fun kind removes => ?_) (by simp) (by simp)⟩
      apply manned.rostered.some_left kind
      rw [at_main, removes_lock, removes]
  | @unlocks after at_main =>
      have idle := manned.placed.main_idle (by simp [at_main])
      have entered : ownSection state.main .main = true := by
        rw [at_main]
        rfl
      have kept := manned.kept.unlock entered idle
      rw [ownSection_update] at kept
      have outside : (After.target after : MainPoint maxProds).inSection = false := by
        cases after <;> rfl
      have left_section : ownSection (After.target after : MainPoint maxProds) =
          fun thread => if thread = .main then false else false := by
        rw [ownSection_eq, outside]
      have joins : (After.target after : MainPoint maxProds).joining = none := by
        cases after <;> rfl
      refine ⟨left_section ▸ kept, manned.placed.mainMoved manned.placed.main_role (fun _ => idle)
        (fun _ _ => ⟨rfl, Iff.rfl⟩), manned.rostered.mainMoved (by rw [at_main]; rfl) joins
          (fun kind removes => ?_) (fun _ _ chosen => ?_) fun destroys => ?_⟩
      · apply manned.rostered.some_left kind
        rw [at_main, ← removes_target, removes]
      · cases after <;> cases chosen
      · cases after <;> cases destroys
  | @broadcasts condition broadcasts after at_main =>
      have idle := manned.placed.main_idle (by simp [at_main])
      have kept := manned.kept.broadcast condition
      have same_own : ownSection (.locked broadcasts after : MainPoint maxProds) =
          ownSection state.main := by
        rw [at_main]
        rfl
      refine ⟨same_own ▸ kept, manned.placed.mainMoved ?_ (fun _ => ?_) (fun kind slot => ?_),
        manned.rostered.mainMoved (by rw [at_main]; rfl) rfl (fun kind removes => ?_)
          (by simp) (by simp)⟩
      · simpa [Program.broadcast] using manned.placed.main_role
      · exact Point.notify_eq_idle.mpr idle
      · exact ⟨Point.role_notify condition, Point.notify_eq_idle⟩
      · apply manned.rostered.some_left kind
        rw [at_main, removes_locked, removes]
  | @nobodyLeft kind caller at_main nobody =>
      exact manned.mainFree (by rw [at_main]; rfl) (by cases caller <;> rfl) (by simp [at_main])
        (by rw [at_main]; rfl) (joining_target caller) (removes_caller caller)
        (by cases caller <;> simp [Caller.target]) (by cases caller <;> simp [Caller.target])
  | @removes kind caller at_main some_left =>
      refine manned.mainAt (by rw [at_main]; rfl) (by simp [at_main]) (by rw [at_main]; rfl) rfl
        (fun kind' removes => ?_) (by simp) (by simp)
      cases removes
      exact some_left
  | cancels at_main taken => exact manned_cancel manned at_main taken
  | joins at_main taken => exact manned_join manned at_main taken
  | removesNext at_main some_left =>
      refine manned.mainAt (by rw [at_main]; rfl) (by simp [at_main]) (by rw [at_main]; rfl) rfl
        (some_left_of_keeps rfl) (fun kind' final' chosen => ?_) (by simp)
      cases chosen
      exact some_left
  | @removedAll final at_main nobody =>
      have outside : state.main.inSection = false := by rw [at_main]; rfl
      refine manned.mainAt (outside.symm ▸ ?_) (by simp [at_main]) (by rw [at_main]; rfl) ?_
        (fun kind' removes => ?_) (fun kind' final' chosen => ?_) fun _ => nobody
      · cases final <;> rfl
      · cases final <;> rfl
      · cases final <;> cases removes
      · cases final <;> cases chosen

theorem manned_execute {command : Command} (manned : Manned state) (scanning : state.main = .scan)
    (taken : state.execute command = some successor) : Manned successor := by
  have outside : state.main.inSection = false := by
    rw [scanning]
    rfl
  have joins : state.main.joining = none := by
    rw [scanning]
    rfl
  cases command with
  | createProducer | createConsumer =>
      simp only [execute, Option.some.injEq] at taken
      exact taken ▸ manned_create manned scanning _
  | removeLastProducer | removeLastConsumer | removeAll | printStatus | unknown =>
      simp only [execute, Option.some.injEq] at taken
      subst taken
      exact manned.mainFree outside rfl (by simp [scanning]) joins rfl rfl (by simp) (by simp)
  | increase | decrease =>
      simp only [execute, queueNext, Option.map_eq_some_iff] at taken
      rcases taken with ⟨queue, taken, rfl⟩
      exact manned_resize manned outside joins (Or.inr (by simp)) taken
  | quit =>
      simp only [execute, queueNext, Option.map_eq_some_iff] at taken
      rcases taken with ⟨queue, taken, rfl⟩
      have at_test : Manned { state with main := .test, left := state.left } :=
        manned.mainFree outside rfl (by simp [scanning]) joins rfl rfl (by simp) (by simp)
      exact at_test.stop taken

end Main

theorem manned_next {label : Label maxProds Message} (manned : Manned state)
    (taken : state.next label = some successor) : Manned successor := by
  cases label with
  | command command =>
      simp only [next] at taken
      split at taken
      · next scanning => exact manned_execute manned scanning taken
      · cases taken
  | endOfInput =>
      simp only [next] at taken
      split at taken
      · next scanning =>
          cases taken
          exact manned.mainFree (by rw [scanning]; rfl) rfl (by simp [scanning])
            (by rw [scanning]; rfl) rfl rfl (by simp) (by simp)
      · cases taken
  | main => exact manned_main manned taken
  | worker kind slot msg woken => exact manned_worker manned taken
  | interrupt =>
      simp only [next, queueNext, Option.map_eq_some_iff] at taken
      rcases taken with ⟨queue, taken, rfl⟩
      exact manned.stop taken

theorem manned_init : Manned (init : Program maxProds Message) where
  kept :=
    { steady := fun thread => by
        refine ⟨?_, trivial, rfl, rfl⟩
        cases thread <;> exact Holds.of_none _
      buffered := ⟨_, Queue.represents_queueInit, rfl, rfl⟩ }
  placed :=
    { main_role := rfl
      main_idle := fun _ => rfl
      role := fun _ _ => Or.inl rfl
      calling := fun _ _ => by simp [init, CondQueue.init] }
  rostered :=
    { present := fun _ _ => by simp [init, staff, MainPoint.joining]
      last := fun _ _ _ joins => absurd joins (ne_join_of_joining rfl)
      count_le := fun _ => Nat.zero_le _
      some_left := some_left_of_keeps rfl
      chosen := by simp [init]
      nobody := by simp [init] }

theorem manned_of_reachable (reached : (system maxProds Message).Reachable state) :
    Manned state := by
  apply reached.invariant
  · rintro _ rfl
    exact manned_init
  · intro state label successor manned _ taken
    exact manned_next manned taken

/-- Nobody uses the queue any more, and it holds what has been put in and never taken out. -/
structure Unused (state : Program maxProds Message) : Prop where
  nobody : ∀ kind, state.count kind = 0
  absent : ∀ kind slot, state.tasks kind slot = .absent
  idle : ∀ thread, state.queue.points thread = .idle
  free : state.queue.shared.mutex = none
  accounted : state.queue.shared.popped.map Prod.snd ++ queueDestroy state.queue.shared.queue =
    state.queue.shared.pushed.map fun entry => some entry.2
  pushReturned : ∀ thread, state.queue.shared.pushReturned thread =
    entriesOf thread state.queue.shared.pushed
  popReturned : ∀ thread, state.queue.shared.popReturned thread =
    entriesOf thread state.queue.shared.popped

theorem Manned.unused (manned : Manned state) (destroys : state.main = .destroy) :
    Unused state := by
  have nobody := manned.rostered.nobody destroys
  have absent : ∀ kind slot, state.tasks kind slot = .absent := by
    intro kind slot
    by_contra alive
    have below := (manned.rostered.present kind slot).mp alive
    simp [staff, destroys, MainPoint.joining, nobody kind] at below
  have idle : ∀ thread, state.queue.points thread = .idle := by
    intro thread
    cases thread with
    | main => exact manned.placed.main_idle (by simp [destroys])
    | worker kind slot => exact manned.placed.idle_of_ne (by simp [absent])
  have free : state.queue.shared.mutex = none := by
    by_contra held
    rcases Option.ne_none_iff_exists'.mp held with ⟨holder, mutex_eq⟩
    have inside := (manned.kept.steady holder).locked.mpr mutex_eq
    rw [idle, ownSection_eq, destroys] at inside
    simp [Point.holds, MainPoint.inSection] at inside
  have delivers := manned.kept.deliversInOrder
  refine ⟨nobody, absent, idle, free, ?_, fun thread => ?_, fun thread => ?_⟩
  · rw [queueDestroy_eq manned.kept.buffered.wellFormed]
    exact delivers.inOrder
  · have returned := delivers.pushReturned thread
    rw [idle] at returned
    simpa [Point.pendingPush] using returned
  · have returned := delivers.popReturned thread
    rw [idle] at returned
    simpa [Point.pendingPop] using returned

/-- In every run the queue is a bounded first-in first-out buffer, and `main` destroys it once
nobody uses it any more. -/
theorem unused_of_reachable (reached : (system maxProds Message).Reachable state) :
    DeliversInOrder state.queue ∧ (state.main = .destroy → Unused state) := by
  have manned := manned_of_reachable reached
  exact ⟨manned.kept.deliversInOrder, manned.unused⟩

/-- A producer puts a message in, is interrupted in its sleep and joined. -/
def interruptedProducer : List (Label 1 ℕ) :=
  [.main, .command .createProducer] ++ List.replicate 7 (.worker .producer (.last 0) 7 []) ++
    [.interrupt] ++ List.replicate 15 .main ++ [.worker .producer (.last 0) 8 [], .main, .main]

theorem unused_interruptedProducer :
    ∃ state, (system 1 ℕ).run init interruptedProducer = some state ∧
      queueDestroy state.queue.shared.queue = [some 7] ∧ Unused state := by
  have ran : ((system 1 ℕ).run init interruptedProducer).map (fun state =>
      (queueDestroy state.queue.shared.queue,
        match state.main with
        | .destroy => true
        | _ => false)) = some ([some 7], true) := by
    decide +kernel
  rcases Option.map_eq_some_iff.mp ran with ⟨state, ran, found⟩
  simp only [Prod.mk.injEq] at found
  rcases found with ⟨frees, at_end⟩
  have destroys : state.main = .destroy := by
    split at at_end
    · assumption
    · cases at_end
  exact ⟨state, ran, frees, (unused_of_reachable (System.Reachable.of_run (.start rfl) ran)).2
    destroys⟩

end Program

end Osis.Lab05.CondQueue
