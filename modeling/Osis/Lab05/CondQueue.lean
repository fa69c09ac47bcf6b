import Osis.Concurrency.Threads
import Osis.Lab05.Queue

/-!
# The condition-variable queue of lab 5 (`5.2/queue.c`)

Every thread is at some point of one of the four queue functions, or outside
them. The mutex is explicit, and so are the two condition variables: a thread
blocked in `pthread_cond_wait` carries whether it has been notified, a signal
notifies at least one waiting thread if there is one, and a blocked thread may
also wake up spuriously. `running` is read where the code reads it, so it may
drop between the loop condition of `queue_push` and the test after the loop.

The shared state also records the messages in the order of the sections that
put them in and took them out, each with its thread, and what every finished
call has returned.
-/

namespace Osis.Lab05.CondQueue

open Concurrency

universe u v

/-- The two condition variables of a queue. -/
inductive Condition where
  | notFull
  | notEmpty
  deriving DecidableEq

/-- Where a thread is inside `queue_push`. -/
inductive PushStage where
  | lock
  | test
  | wait (notified : Bool)
  | relock (notified : Bool)
  | check
  | insert
  | signal
  | unlock (code : ℤ)

/-- Where a thread is inside `queue_pop`. -/
inductive PopStage (Message : Type u) where
  | lock
  | test
  | wait (notified : Bool)
  | relock (notified : Bool)
  | check
  | remove
  | signal (msg : Option Message)
  | unlock (result : Option (Option Message))

/-- Where a thread is inside `queue_resize_increase`. -/
inductive IncreaseStage where
  | lock
  | grow
  | broadcast
  | unlock

/-- Where a thread is inside `queue_resize_decrease`. -/
inductive DecreaseStage where
  | lock
  | test
  | shrink
  | broadcast
  | unlock

/-- Where a thread is. -/
inductive Point (Message : Type u) where
  | idle
  | queuePush (msg : Message) (stage : PushStage)
  | queuePop (stage : PopStage Message)
  | queueResizeIncrease (stage : IncreaseStage)
  | queueResizeDecrease (stage : DecreaseStage)

/-- A call of one of the four queue functions. -/
inductive Call (Message : Type u) where
  | push (msg : Message)
  | pop
  | increase
  | decrease

/-- What a step does to the threads blocked on a condition variable. -/
inductive Notice where
  | silent
  | signal (condition : Condition)
  | broadcast (condition : Condition)

/-- The state all threads share. -/
structure Shared (Thread : Type v) (Message : Type u) where
  queue : Queue Message
  running : Bool
  mutex : Option Thread
  /-- The messages put in, in the order of the inserting sections. -/
  pushed : List (Thread × Message)
  /-- The slots taken out, in the order of the removing sections. -/
  popped : List (Thread × Option Message)
  /-- The messages for which calls of `queue_push` by a thread have returned 0. -/
  pushReturned : Thread → List Message
  /-- What calls of `queue_pop` by a thread have returned, `NULL` left out. -/
  popReturned : Thread → List (Option Message)

/-- The state of the whole program. -/
structure State (Thread : Type v) (Message : Type u) where
  shared : Shared Thread Message
  points : Thread → Point Message

section Definitions

variable {Thread : Type v} {Message : Type u}

/-- The first point of a called function. -/
def Call.entry : Call Message → Point Message
  | .push msg => .queuePush msg .lock
  | .pop => .queuePop .lock
  | .increase => .queueResizeIncrease .lock
  | .decrease => .queueResizeDecrease .lock

/-- Blocked in `pthread_cond_wait` on the condition and not yet notified. -/
def Point.waitsOn : Condition → Point Message → Bool
  | .notFull, .queuePush _ (.wait false) => true
  | .notEmpty, .queuePop (.wait false) => true
  | _, _ => false

/-- The effect of a notification on a thread. -/
def Point.notify : Condition → Point Message → Point Message
  | .notFull, .queuePush msg (.wait _) => .queuePush msg (.wait true)
  | .notEmpty, .queuePop (.wait _) => .queuePop (.wait true)
  | _, point => point

/-- The points at which a thread holds the mutex. -/
def Point.holds : Point Message → Bool
  | .idle => false
  | .queuePush _ .lock | .queuePush _ (.wait _) | .queuePush _ (.relock _) => false
  | .queuePush _ _ => true
  | .queuePop .lock | .queuePop (.wait _) | .queuePop (.relock _) => false
  | .queuePop _ => true
  | .queueResizeIncrease .lock => false
  | .queueResizeIncrease _ => true
  | .queueResizeDecrease .lock => false
  | .queueResizeDecrease _ => true

variable [DecidableEq Thread]

/-- `pthread_mutex_lock`: a thread goes on once no thread holds the mutex. -/
def Shared.lock (shared : Shared Thread Message) (thread : Thread) (point : Point Message) :
    Option (Shared Thread Message × Point Message × Notice) :=
  if shared.mutex = none then some ({ shared with mutex := some thread }, point, .silent)
  else none

/-- `queue_push`. -/
def queuePush (shared : Shared Thread Message) (thread : Thread) (msg : Message) :
    PushStage → Option (Shared Thread Message × Point Message × Notice)
  | .lock => shared.lock thread (.queuePush msg .test)
  | .test =>
      -- `pthread_cond_wait` gives the mutex up and blocks in one step
      if shared.queue.count = shared.queue.capacity ∧ shared.running then
        some ({ shared with mutex := none }, .queuePush msg (.wait false), .silent)
      else some (shared, .queuePush msg .check, .silent)
  | .wait notified => some (shared, .queuePush msg (.relock notified), .silent)
  | .relock _ => shared.lock thread (.queuePush msg .test)
  | .check =>
      if shared.running then some (shared, .queuePush msg .insert, .silent)
      else some (shared, .queuePush msg (.unlock (-1)), .silent)
  | .insert =>
      some ({ shared with
        queue := shared.queue.insert msg
        pushed := shared.pushed ++ [(thread, msg)] }, .queuePush msg .signal, .silent)
  | .signal => some (shared, .queuePush msg (.unlock 0), .signal .notEmpty)
  | .unlock code =>
      some ({ shared with
        mutex := none
        pushReturned := if code = 0 then
            Function.update shared.pushReturned thread (shared.pushReturned thread ++ [msg])
          else shared.pushReturned }, .idle, .silent)

/-- `queue_pop`. -/
def queuePop (shared : Shared Thread Message) (thread : Thread) :
    PopStage Message → Option (Shared Thread Message × Point Message × Notice)
  | .lock => shared.lock thread (.queuePop .test)
  | .test =>
      if shared.queue.count = 0 ∧ shared.running then
        some ({ shared with mutex := none }, .queuePop (.wait false), .silent)
      else some (shared, .queuePop .check, .silent)
  | .wait notified => some (shared, .queuePop (.relock notified), .silent)
  | .relock _ => shared.lock thread (.queuePop .test)
  | .check =>
      if ¬shared.running ∧ shared.queue.count = 0 then
        some (shared, .queuePop (.unlock none), .silent)
      else some (shared, .queuePop .remove, .silent)
  | .remove =>
      some ({ shared with
        queue := shared.queue.remove
        popped := shared.popped ++ [(thread, shared.queue.front)] },
        .queuePop (.signal shared.queue.front), .silent)
  | .signal msg => some (shared, .queuePop (.unlock (some msg)), .signal .notFull)
  | .unlock result =>
      some ({ shared with
        mutex := none
        popReturned := Function.update shared.popReturned thread
          (shared.popReturned thread ++ result.toList) }, .idle, .silent)

/-- `queue_resize_increase`. -/
def queueResizeIncrease (shared : Shared Thread Message) (thread : Thread) :
    IncreaseStage → Option (Shared Thread Message × Point Message × Notice)
  | .lock => shared.lock thread (.queueResizeIncrease .grow)
  | .grow =>
      some ({ shared with queue := shared.queue.resize (shared.queue.capacity + 1) },
        .queueResizeIncrease .broadcast, .silent)
  | .broadcast => some (shared, .queueResizeIncrease .unlock, .broadcast .notFull)
  | .unlock => some ({ shared with mutex := none }, .idle, .silent)

/-- `queue_resize_decrease`. -/
def queueResizeDecrease (shared : Shared Thread Message) (thread : Thread) :
    DecreaseStage → Option (Shared Thread Message × Point Message × Notice)
  | .lock => shared.lock thread (.queueResizeDecrease .test)
  | .test =>
      if shared.queue.capacity ≤ 1 then some (shared, .queueResizeDecrease .unlock, .silent)
      else if shared.queue.capacity - 1 ≤ shared.queue.count then
        some (shared, .queueResizeDecrease .unlock, .silent)
      else some (shared, .queueResizeDecrease .shrink, .silent)
  | .shrink =>
      some ({ shared with queue := shared.queue.resize (shared.queue.capacity - 1) },
        .queueResizeDecrease .broadcast, .silent)
  | .broadcast => some (shared, .queueResizeDecrease .unlock, .broadcast .notFull)
  | .unlock => some ({ shared with mutex := none }, .idle, .silent)

/-- The step of a thread at a point, `none` while it is blocked or has nothing to do. -/
def advance (shared : Shared Thread Message) (thread : Thread) :
    Point Message → Option (Shared Thread Message × Point Message × Notice)
  | .idle => none
  | .queuePush msg stage => queuePush shared thread msg stage
  | .queuePop stage => queuePop shared thread stage
  | .queueResizeIncrease stage => queueResizeIncrease shared thread stage
  | .queueResizeDecrease stage => queueResizeDecrease shared thread stage

/-- Notify the chosen threads. A signal must choose waiting threads, and one at least if any. -/
def deliver [Fintype Thread] (points : Thread → Point Message) (woken : List Thread) :
    Notice → Option (Thread → Point Message)
  | .silent => some points
  | .signal condition =>
      if (∀ thread ∈ woken, (points thread).waitsOn condition) ∧
          (woken = [] → ∀ thread, ¬(points thread).waitsOn condition) then
        some fun thread =>
          if thread ∈ woken then (points thread).notify condition else points thread
      else none
  | .broadcast condition => some fun thread => (points thread).notify condition

/-- What happens next: a thread calls a queue function, a thread steps (choosing whom its
signal wakes), or `running` drops to 0. -/
inductive Action (Thread : Type v) (Message : Type u) where
  | call (thread : Thread) (call : Call Message)
  | step (thread : Thread) (woken : List Thread)
  | stop

/-- The successor of a state. -/
def next [Fintype Thread] (state : State Thread Message) :
    Action Thread Message → Option (State Thread Message)
  | .call thread call =>
      match state.points thread with
      | .idle => some { state with points := Function.update state.points thread call.entry }
      | _ => none
  | .step thread woken => do
      let (shared, point, notice) ← advance state.shared thread (state.points thread)
      let points ← deliver (Function.update state.points thread point) woken notice
      some ⟨shared, points⟩
  | .stop => some { state with shared := { state.shared with running := false } }

/-- After `queue_init`, with no call made yet. -/
def init : State Thread Message where
  shared :=
    { queue := .queueInit
      running := true
      mutex := none
      pushed := []
      popped := []
      pushReturned := fun _ => []
      popReturned := fun _ => [] }
  points := fun _ => .idle

/-- All interleavings of calls of the queue functions by the given threads. -/
def system (Thread : Type v) (Message : Type u) [Fintype Thread] [DecidableEq Thread] :
    System (State Thread Message) (Action Thread Message) where
  initial state := state = init
  next := next

end Definitions

end Osis.Lab05.CondQueue
