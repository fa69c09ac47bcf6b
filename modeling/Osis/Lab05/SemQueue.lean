import Osis.Concurrency.Threads
import Osis.Lab05.Queue

/-!
# The semaphore queue of lab 5 (`5.1/queue.c`)

`sem_empty` counts the free slots not yet claimed, `sem_full` the messages not
yet claimed. A thread claims by `sem_wait` before its mutex section and gives
the claim to the other side by `sem_post` after it, so at any moment claims are
in the hands of threads that are between the two. `queue_resize_decrease` waits
for a free slot while it holds the mutex.

`sem_wait` is the blocking decrement: it goes on only when the value is positive.
-/

namespace Osis.Lab05.SemQueue

open Concurrency

universe u v

/-- Where a thread is inside `queue_push`. -/
inductive PushStage where
  | wait
  | lock
  | body
  | unlock (code : ℤ)
  | post (code : ℤ)

/-- Where a thread is inside `queue_pop`; a result `none` is `NULL`. -/
inductive PopStage (Message : Type u) where
  | wait
  | lock
  | body
  | unlock (result : Option (Option Message))
  | post (result : Option (Option Message))

/-- Where a thread is inside `queue_resize_increase`. -/
inductive IncreaseStage where
  | lock
  | grow
  | unlock
  | post

/-- Where a thread is inside `queue_resize_decrease`. -/
inductive DecreaseStage where
  | lock
  | test
  | wait
  | shrink
  | unlock

/-- Where a thread is. -/
inductive Point (Message : Type u) where
  | idle
  | queuePush (msg : Message) (stage : PushStage)
  | queuePop (stage : PopStage Message)
  | queueResizeIncrease (stage : IncreaseStage)
  | queueResizeDecrease (stage : DecreaseStage)

/-- A call of one of the four queue functions. -/
inductive Call (Message : Type u) where
  | push (msg : Message)
  | pop
  | increase
  | decrease

/-- The state all threads share. -/
structure Shared (Thread : Type v) (Message : Type u) where
  queue : Queue Message
  running : Bool
  mutex : Option Thread
  semEmpty : ℕ
  semFull : ℕ
  /-- The messages put in, in the order of the inserting sections. -/
  pushed : List (Thread × Message)
  /-- The slots taken out, in the order of the removing sections. -/
  popped : List (Thread × Option Message)
  /-- What calls of `queue_pop` have returned, in the order of their returns. -/
  popReturned : List (Thread × Option (Option Message))

/-- The state of the whole program. -/
structure State (Thread : Type v) (Message : Type u) where
  shared : Shared Thread Message
  points : Thread → Point Message

section Definitions

variable {Thread : Type v} {Message : Type u}

/-- The first point of a called function. -/
def Call.entry : Call Message → Point Message
  | .push msg => .queuePush msg .wait
  | .pop => .queuePop .wait
  | .increase => .queueResizeIncrease .lock
  | .decrease => .queueResizeDecrease .lock

/-- `pthread_mutex_lock`: a thread goes on once no thread holds the mutex. -/
def Shared.lock (shared : Shared Thread Message) (thread : Thread) (point : Point Message) :
    Option (Shared Thread Message × Point Message) :=
  if shared.mutex = none then some ({ shared with mutex := some thread }, point) else none

/-- `pthread_mutex_unlock`. -/
def Shared.unlock (shared : Shared Thread Message) (point : Point Message) :
    Option (Shared Thread Message × Point Message) :=
  some ({ shared with mutex := none }, point)

/-- `sem_wait(&q->sem_empty)`. -/
def Shared.waitEmpty (shared : Shared Thread Message) (point : Point Message) :
    Option (Shared Thread Message × Point Message) :=
  if 0 < shared.semEmpty then some ({ shared with semEmpty := shared.semEmpty - 1 }, point)
  else none

/-- `sem_wait(&q->sem_full)`. -/
def Shared.waitFull (shared : Shared Thread Message) (point : Point Message) :
    Option (Shared Thread Message × Point Message) :=
  if 0 < shared.semFull then some ({ shared with semFull := shared.semFull - 1 }, point)
  else none

/-- `sem_post(&q->sem_empty)`. -/
def Shared.postEmpty (shared : Shared Thread Message) : Shared Thread Message :=
  { shared with semEmpty := shared.semEmpty + 1 }

/-- `sem_post(&q->sem_full)`. -/
def Shared.postFull (shared : Shared Thread Message) : Shared Thread Message :=
  { shared with semFull := shared.semFull + 1 }

/-- `queue_push`. -/
def queuePush (shared : Shared Thread Message) (thread : Thread) (msg : Message) :
    PushStage → Option (Shared Thread Message × Point Message)
  | .wait => shared.waitEmpty (.queuePush msg .lock)
  | .lock => shared.lock thread (.queuePush msg .body)
  | .body =>
      if shared.running then
        some ({ shared with
          queue := shared.queue.insert msg
          pushed := shared.pushed ++ [(thread, msg)] }, .queuePush msg (.unlock 0))
      else some (shared, .queuePush msg (.unlock (-1)))
  | .unlock code => shared.unlock (.queuePush msg (.post code))
  | .post code => some (if code = 0 then shared.postFull else shared.postEmpty, .idle)

/-- `queue_pop`. -/
def queuePop (shared : Shared Thread Message) (thread : Thread) :
    PopStage Message → Option (Shared Thread Message × Point Message)
  | .wait => shared.waitFull (.queuePop .lock)
  | .lock => shared.lock thread (.queuePop .body)
  | .body =>
      if ¬shared.running ∧ shared.queue.count = 0 then
        some (shared, .queuePop (.unlock none))
      else
        some ({ shared with
          queue := shared.queue.remove
          popped := shared.popped ++ [(thread, shared.queue.front)] },
          .queuePop (.unlock (some shared.queue.front)))
  | .unlock result => shared.unlock (.queuePop (.post result))
  | .post result =>
      let posted := if result.isSome then shared.postEmpty else shared.postFull
      some ({ posted with popReturned := posted.popReturned ++ [(thread, result)] }, .idle)

/-- `queue_resize_increase`. -/
def queueResizeIncrease (shared : Shared Thread Message) (thread : Thread) :
    IncreaseStage → Option (Shared Thread Message × Point Message)
  | .lock => shared.lock thread (.queueResizeIncrease .grow)
  | .grow =>
      some ({ shared with queue := shared.queue.resize (shared.queue.capacity + 1) },
        .queueResizeIncrease .unlock)
  | .unlock => shared.unlock (.queueResizeIncrease .post)
  | .post => some (shared.postEmpty, .idle)

/-- `queue_resize_decrease`. -/
def queueResizeDecrease (shared : Shared Thread Message) (thread : Thread) :
    DecreaseStage → Option (Shared Thread Message × Point Message)
  | .lock => shared.lock thread (.queueResizeDecrease .test)
  | .test =>
      if shared.queue.capacity ≤ 1 then some (shared, .queueResizeDecrease .unlock)
      else if shared.queue.capacity - 1 ≤ shared.queue.count then
        some (shared, .queueResizeDecrease .unlock)
      else some (shared, .queueResizeDecrease .wait)
  | .wait => shared.waitEmpty (.queueResizeDecrease .shrink)
  | .shrink =>
      some ({ shared with queue := shared.queue.resize (shared.queue.capacity - 1) },
        .queueResizeDecrease .unlock)
  | .unlock => shared.unlock .idle

/-- The step of a thread at a point, `none` while it is blocked or has nothing to do. -/
def advance (shared : Shared Thread Message) (thread : Thread) :
    Point Message → Option (Shared Thread Message × Point Message)
  | .idle => none
  | .queuePush msg stage => queuePush shared thread msg stage
  | .queuePop stage => queuePop shared thread stage
  | .queueResizeIncrease stage => queueResizeIncrease shared thread stage
  | .queueResizeDecrease stage => queueResizeDecrease shared thread stage

/-- What happens next: a thread calls a queue function, a thread steps, or `running` drops. -/
inductive Action (Thread : Type v) (Message : Type u) where
  | call (thread : Thread) (call : Call Message)
  | step (thread : Thread)
  | stop

variable [DecidableEq Thread]

/-- The successor of a state. -/
def next (state : State Thread Message) :
    Action Thread Message → Option (State Thread Message)
  | .call thread call =>
      match state.points thread with
      | .idle => some { state with points := Function.update state.points thread call.entry }
      | _ => none
  | .step thread =>
      (advance state.shared thread (state.points thread)).map fun (shared, point) =>
        ⟨shared, Function.update state.points thread point⟩
  | .stop => some { state with shared := { state.shared with running := false } }

/-- After `queue_init`, with no call made yet. -/
def init : State Thread Message where
  shared :=
    { queue := .queueInit
      running := true
      mutex := none
      semEmpty := initialQueueCapacity
      semFull := 0
      pushed := []
      popped := []
      popReturned := [] }
  points := fun _ => .idle

/-- All interleavings of calls of the queue functions by the given threads. -/
def system (Thread : Type v) (Message : Type u) [DecidableEq Thread] :
    System (State Thread Message) (Action Thread Message) where
  initial state := state = init
  next := next

end Definitions

end Osis.Lab05.SemQueue
