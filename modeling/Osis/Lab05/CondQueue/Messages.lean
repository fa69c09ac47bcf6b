import Osis.Lab05.CondQueue.Program

/-!
# The messages of the workers (`5.2/main.c`)

A message is allocated by a producer, handed over by `queue_push`, and freed by the
consumer that `queue_pop` returns it to, or by `queue_destroy` where no consumer took it.
The producer keeps its pointer and prints the message after `queue_push` has returned.

Messages are numbered by their allocations, so that a message freed is never live again.
Of all reads the model records those of messages that have been freed before. The
broadcasts of `main` are left out, since a blocked thread may also wake up by itself.
-/

namespace Osis.Lab05.CondQueue

open Concurrency

universe u v

/-- Where a worker is in its task, or `main` between its calls. -/
inductive Work where
  /-- At the test of `while (running)`. -/
  | test
  /-- Filling in a message just allocated, the hash last. -/
  | fill (msg : ℕ)
  /-- Inside a queue function. -/
  | calling
  /-- Printing the message that `queue_push` has taken. -/
  | added (msg : ℕ)
  /-- At the `free` after a failed `queue_push`. -/
  | discard (msg : ℕ)
  /-- Printing the message that `queue_pop` has returned. -/
  | removed (msg : ℕ)
  /-- Comparing the hash of this message. -/
  | compare (msg : ℕ)
  /-- At the `free` of this message. -/
  | release (msg : ℕ)
  | sleep
  | ended
  deriving DecidableEq

/-- The state of the workers around a queue. -/
structure Workers (Thread : Type v) where
  queue : State Thread ℕ
  works : Thread → Work
  /-- The next message to be allocated. -/
  fresh : ℕ
  /-- The messages freed by their producers, in order. -/
  discarded : List ℕ
  /-- The messages freed by consumers, in order. -/
  released : List (Thread × ℕ)
  /-- The messages freed by `queue_destroy`, once it has run. -/
  drained : Option (List ℕ)
  /-- The reads of messages that had been freed. -/
  misread : List (Thread × ℕ)

/-- What happens next: a thread steps (a signal with the threads it wakes), a worker is cancelled
where it prints or sleeps, `main` resizes the queue, `running` drops to 0, or `main` destroys
the queue. -/
inductive Move (Thread : Type v) where
  | advance (thread : Thread) (woken : List Thread)
  | cancel (thread : Thread)
  | resize (thread : Thread) (increase : Bool)
  | stop
  | destroy

namespace Workers

section Definitions

variable {Thread : Type v}

/-- All messages freed. -/
def freed (state : Workers Thread) : List ℕ :=
  state.discarded ++ state.released.map Prod.snd ++ state.drained.getD []

/-- Where a thread goes on when its call has made a step from the given point. -/
def afterCall : Point ℕ → Work
  | .queuePush msg (.unlock code) => if code = -1 then .discard msg else .added msg
  | .queuePop (.unlock result) =>
      match result.join with
      | none => .ended
      | some msg => .removed msg
  | .queueResizeIncrease .unlock | .queueResizeDecrease .unlock => .test
  | _ => .calling

variable [DecidableEq Thread]

def setWork (state : Workers Thread) (thread : Thread) (work : Work) : Workers Thread :=
  { state with works := Function.update state.works thread work }

/-- A thread reads the fields of a message. -/
def read (state : Workers Thread) (thread : Thread) (msg : ℕ) : Workers Thread :=
  if msg ∈ state.freed then { state with misread := state.misread ++ [(thread, msg)] } else state

variable [Fintype Thread]

/-- A step of a queue function. -/
def queueNext (state : Workers Thread) (action : Action Thread ℕ) : Option (Workers Thread) :=
  (next state.queue action).map fun queue => { state with queue := queue }

/-- `producer_task` and `consumer_task`; a thread of neither kind is `main`. -/
def workNext (kinds : Thread → Option Kind) (state : Workers Thread) (thread : Thread)
    (woken : List Thread) : Option (Workers Thread) :=
  match state.works thread with
  | .test =>
      if state.queue.shared.running then
        match kinds thread with
        | none => none
        | some .producer =>
            some ({ state with fresh := state.fresh + 1 }.setWork thread (.fill state.fresh))
        | some .consumer =>
            (state.queueNext (.call thread .pop)).map fun state => state.setWork thread .calling
      else some (state.setWork thread .ended)
  | .fill msg =>
      -- `calculate_hash` reads the message before anyone else can know of it
      ((state.read thread msg).queueNext (.call thread (.push msg))).map fun state =>
        state.setWork thread .calling
  | .calling =>
      (state.queueNext (.step thread woken)).map fun state' =>
        state'.setWork thread (afterCall (state.queue.points thread))
  | .added msg => some ((state.read thread msg).setWork thread .sleep)
  | .discard msg =>
      some ({ state with discarded := state.discarded ++ [msg] }.setWork thread .ended)
  | .removed msg => some ((state.read thread msg).setWork thread (.compare msg))
  | .compare msg => some ((state.read thread msg).setWork thread (.release msg))
  | .release msg =>
      some ({ state with released := state.released ++ [(thread, msg)] }.setWork thread .sleep)
  | .sleep => some (state.setWork thread .test)
  | .ended => none

/-- A pending cancellation takes effect where a worker prints or sleeps. -/
def cancel (state : Workers Thread) (thread : Thread) : Option (Workers Thread) :=
  match state.works thread with
  | .added _ | .removed _ | .compare _ | .sleep => some (state.setWork thread .ended)
  | _ => none

/-- The commands `+` and `-` of `main`. -/
def resize (kinds : Thread → Option Kind) (state : Workers Thread) (thread : Thread)
    (increase : Bool) : Option (Workers Thread) :=
  if kinds thread = none ∧ state.works thread = .test then
    (state.queueNext (.call thread (if increase then .increase else .decrease))).map fun state =>
      state.setWork thread .calling
  else none

/-- `queue_destroy`, which `main` calls after it has joined all workers. -/
def destroy (kinds : Thread → Option Kind) (state : Workers Thread) : Option (Workers Thread) :=
  if ∀ thread, state.works thread = .ended ∨ kinds thread = none ∧ state.works thread = .test then
    some { state with drained := some (state.queue.shared.queue.contents.filterMap id) }
  else none

/-- The successor of a state, `none` once the queue has been destroyed. -/
def next (kinds : Thread → Option Kind) (state : Workers Thread) (move : Move Thread) :
    Option (Workers Thread) :=
  if state.drained.isSome then none
  else match move with
    | .advance thread woken => state.workNext kinds thread woken
    | .cancel thread => state.cancel thread
    | .resize thread increase => state.resize kinds thread increase
    | .stop => state.queueNext .stop
    | .destroy => state.destroy kinds

omit [DecidableEq Thread] [Fintype Thread] in
/-- After `queue_init`, with nothing allocated yet. -/
def init : Workers Thread where
  queue := CondQueue.init
  works := fun _ => .test
  fresh := 0
  discarded := []
  released := []
  drained := none
  misread := []

/-- All interleavings of the given producers and consumers. -/
def system (kinds : Thread → Option Kind) : System (Workers Thread) (Move Thread) where
  initial state := state = init
  next := next kinds

omit [DecidableEq Thread] [Fintype Thread] in
/-- No message has been read after it was freed, and none was freed twice. -/
structure UsedWhileLive (state : Workers Thread) : Prop where
  misread_eq : state.misread = []
  freed_nodup : state.freed.Nodup

omit [DecidableEq Thread] [Fintype Thread] in
/-- A consumer frees a message only if its producer is not about to print it. -/
def Reported (state : Workers Thread) : Move Thread → Prop
  | .advance thread _ =>
      match state.works thread with
      | .release msg => ∀ other, state.works other ≠ .added msg
      | _ => True
  | _ => True

end Definitions

end Workers

section Points

variable {Message : Type u}

/-- The message that a call has yet to put in, or that it has failed to put in. -/
def Point.unsent : Point Message → List Message
  | .queuePush _ .signal => []
  | .queuePush msg (.unlock code) => if code = 0 then [] else [msg]
  | .queuePush msg _ => [msg]
  | _ => []

/-- `queue_push` returns 0 or -1. -/
def Point.codeKnown : Point Message → Prop
  | .queuePush _ (.unlock code) => code = 0 ∨ code = -1
  | _ => True

variable {condition : Condition} {point : Point Message}

@[simp]
theorem Point.unsent_notify : (point.notify condition).unsent = point.unsent := by
  unfold Point.notify
  split <;> rfl

@[simp]
theorem Point.pendingPush_notify : (point.notify condition).pendingPush = point.pendingPush := by
  unfold Point.notify
  split <;> rfl

theorem Point.codeKnown_notify (known : point.codeKnown) :
    (point.notify condition).codeKnown := by
  unfold Point.notify
  split
  · trivial
  · trivial
  · exact known

/-- A thread that has put a message in holds the mutex until its call returns. -/
theorem Point.holds_of_mem_pendingPush {msg : Message} (pending : msg ∈ point.pendingPush) :
    point.holds = true := by
  cases point with
  | queuePush other stage =>
      cases stage with
      | signal | unlock => rfl
      | lock | test | wait | relock | check | insert => simp [Point.pendingPush] at pending
  | idle | queuePop | queueResizeIncrease | queueResizeDecrease =>
      simp [Point.pendingPush] at pending

end Points

section Transfers

variable {Thread : Type v} [DecidableEq Thread]

/-- Everything a step inside a call can do to the messages. -/
inductive Transfer (shared : Shared Thread ℕ) (thread : Thread) (shared' : Shared Thread ℕ) :
    Point ℕ → Point ℕ → Prop where
  | stay {point point' : Point ℕ} (samePushed : shared'.pushed = shared.pushed)
      (samePopped : shared'.popped = shared.popped)
      (sameReturned : shared'.popReturned = shared.popReturned)
      (inside : Workers.afterCall point = .calling) (sameUnsent : point'.unsent = point.unsent)
      (samePending : point'.pendingPush = point.pendingPush) (known : point'.codeKnown) :
      Transfer shared thread shared' point point'
  | insert (msg : ℕ) (grows : shared'.pushed = shared.pushed ++ [(thread, msg)])
      (samePopped : shared'.popped = shared.popped)
      (sameReturned : shared'.popReturned = shared.popReturned) :
      Transfer shared thread shared' (.queuePush msg .insert) (.queuePush msg .signal)
  | remove (slot : Option ℕ) (samePushed : shared'.pushed = shared.pushed)
      (grows : shared'.popped = shared.popped ++ [(thread, slot)])
      (sameReturned : shared'.popReturned = shared.popReturned) :
      Transfer shared thread shared' (.queuePop .remove) (.queuePop (.signal slot))
  | pushed (msg : ℕ) (code : ℤ) (samePushed : shared'.pushed = shared.pushed)
      (samePopped : shared'.popped = shared.popped)
      (sameReturned : shared'.popReturned = shared.popReturned) :
      Transfer shared thread shared' (.queuePush msg (.unlock code)) .idle
  | popped (result : Option (Option ℕ)) (samePushed : shared'.pushed = shared.pushed)
      (samePopped : shared'.popped = shared.popped)
      (returned : shared'.popReturned = Function.update shared.popReturned thread
        (shared.popReturned thread ++ result.toList)) :
      Transfer shared thread shared' (.queuePop (.unlock result)) .idle
  | resized {point : Point ℕ} (samePushed : shared'.pushed = shared.pushed)
      (samePopped : shared'.popped = shared.popped)
      (sameReturned : shared'.popReturned = shared.popReturned)
      (outside : Workers.afterCall point = .test) :
      Transfer shared thread shared' point .idle

variable {shared shared' : Shared Thread ℕ} {thread : Thread} {point point' : Point ℕ}
  {notice : Notice}

/-- What a step inside a call does to the messages. -/
theorem transfer_advance (taken : advance shared thread point = some (shared', point', notice)) :
    Transfer shared thread shared' point point' := by
  cases advances_of_advance taken with
  | lock free locks =>
      cases locks with
      | push | pushAgain | pop | popAgain | increase | decrease =>
          exact .stay rfl rfl rfl rfl rfl rfl trivial
  | pushWaits | pushWakes | pushLeaves | pushGoesOn | popWaits | popWakes | popLeaves | popGoesOn
  | popFails | popSignals | grow | increaseNotifies | decreaseFails | decreaseGoesOn | shrink
  | decreaseNotifies => exact .stay rfl rfl rfl rfl rfl rfl trivial
  | pushFails => exact .stay rfl rfl rfl rfl rfl rfl (.inr rfl)
  | pushSignals => exact .stay rfl rfl rfl rfl rfl rfl (.inl rfl)
  | insert msg => exact .insert msg rfl rfl rfl
  | remove => exact .remove _ rfl rfl rfl
  | pushReturns msg code => exact .pushed msg code rfl rfl rfl
  | popReturns result => exact .popped result rfl rfl rfl
  | increaseReturns | decreaseReturns => exact .resized rfl rfl rfl rfl

/-- Where all threads stand once one of them has moved to a point, up to notifications. -/
structure Arrived (state successor : State Thread ℕ) (thread : Thread) (point' : Point ℕ) :
    Prop where
  unsent : (successor.points thread).unsent = point'.unsent
  pending : (successor.points thread).pendingPush = point'.pendingPush
  elsewhere : ∀ other ≠ thread,
    (successor.points other).unsent = (state.points other).unsent ∧
      (successor.points other).pendingPush = (state.points other).pendingPush
  known : point'.codeKnown → (∀ other, (state.points other).codeKnown) →
    ∀ other, (successor.points other).codeKnown

variable [Fintype Thread] {state successor : State Thread ℕ} {woken : List Thread}

/-- A step moves one thread; the others are notified at most. -/
theorem transfer_step (taken : next state (.step thread woken) = some successor) :
    ∃ point', Transfer state.shared thread successor.shared (state.points thread) point' ∧
      Arrived state successor thread point' := by
  rcases stepped_of_next taken with ⟨shared, point', notice, points, advanced, delivered, rfl⟩
  have same : ∀ other,
      (points other).unsent = (Function.update state.points thread point' other).unsent ∧
        (points other).pendingPush =
          (Function.update state.points thread point' other).pendingPush ∧
        ((Function.update state.points thread point' other).codeKnown →
          (points other).codeKnown) := by
    intro other
    rcases deliver_cases delivered other with stays | ⟨condition, notified⟩
    · exact stays ▸ ⟨rfl, rfl, id⟩
    · rw [notified]
      exact ⟨Point.unsent_notify, Point.pendingPush_notify, Point.codeKnown_notify⟩
  refine ⟨point', transfer_advance advanced, ?_, ?_, ?_, ?_⟩
  · simpa using (same thread).1
  · simpa using (same thread).2.1
  · intro other different
    have own := same other
    rw [Function.update_of_ne different] at own
    exact ⟨own.1, own.2.1⟩
  · intro known before other
    apply (same other).2.2
    by_cases moves : other = thread
    · subst moves
      simpa using known
    · simpa [moves] using before other

end Transfers

/-- The messages that a thread has yet to put in, or has failed to put in. -/
def Work.unsent (point : Point ℕ) : Work → List ℕ
  | .fill msg | .discard msg => [msg]
  | .calling => point.unsent
  | _ => []

/-- The messages that a thread has put in and has yet to print. -/
def Work.unreported (point : Point ℕ) : Work → List ℕ
  | .calling => point.pendingPush
  | .added msg => [msg]
  | _ => []

/-- The messages that a thread has been given and has yet to free. -/
def Work.taken : Work → List ℕ
  | .removed msg | .compare msg | .release msg => [msg]
  | _ => []

theorem Work.unsent_congr {point point' : Point ℕ} (same : point'.unsent = point.unsent)
    (work : Work) : work.unsent point' = work.unsent point := by
  cases work <;> simp [Work.unsent, same]

theorem Work.unreported_congr {point point' : Point ℕ}
    (same : point'.pendingPush = point.pendingPush) (work : Work) :
    work.unreported point' = work.unreported point := by
  cases work <;> simp [Work.unreported, same]

end Osis.Lab05.CondQueue
