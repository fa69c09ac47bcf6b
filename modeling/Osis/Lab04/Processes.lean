import Osis.Concurrency.Transition
import Osis.Lab04.Queue

/-!
# Producer and consumer processes of lab 4

Any number of processes run `producer_task` or `consumer_task` on one queue. An
array given to `semop` is one step; inside a section the copy of the message and
each update of an index or a counter is a step of its own. A child may be
killed at any moment, and leaves its loop between two iterations once an
interrupt has cleared its `running`.

Besides the queue and the semaphores the state records the messages in the order
in which they were copied into and out of the buffer, which slots hold a message
that has not been copied out, and what the mismatch branch of `consumer_task`
has reported.
-/

namespace Osis.Lab04

open Concurrency

universe u

/-- Where a process is inside `queue_push`. -/
inductive PushStage where
  | lock
  | copy
  | tail
  | added
  | free
  | finish

/-- Where a process is inside `queue_pop`, with `*out_msg` once it is written. -/
inductive PopStage where
  | lock
  | copy
  | head (outMsg : Message)
  | removed (outMsg : Message)
  | free (outMsg : Message)
  | finish (outMsg : Message)

/-- Where a process is. -/
inductive Point where
  | absent
  | producerTask
  | queuePush (msg : Message) (stage : PushStage)
  | consumerTask
  | queuePop (stage : PopStage)
  | checkHash (msg : Message)

/-- The two kinds of child processes. -/
inductive Role where
  | producer
  | consumer

/-- A mismatch reported by `consumer_task`. -/
structure Mismatch (Process : Type u) where
  consumer : Process
  expected : UInt16
  got : UInt16

/-- The state all processes share. -/
structure Shared (Process : Type u) where
  queue : Queue
  semaphores : Semaphores
  /-- The slots that hold a message which has not been copied out. -/
  occupied : ℕ → Bool
  /-- The messages copied into the buffer, oldest first. -/
  pushed : List Message
  /-- The messages copied out of the buffer, oldest first. -/
  popped : List Message
  mismatches : List (Mismatch Process)

/-- The state of the whole program. -/
structure State (Process : Type u) where
  shared : Shared Process
  points : Process → Point

section Definitions

variable {Process : Type u}

/-- The loop a forked child starts. -/
def Role.task : Role → Point
  | .producer => .producerTask
  | .consumer => .consumerTask

/-- A `safe_semop` on the queue's set. -/
def Shared.semop (shared : Shared Process) (ops : List (SemBuf (Fin 3))) (point : Point) :
    Option (Shared Process × Point) :=
  (Concurrency.semop shared.semaphores ops).map fun values =>
    ({ shared with semaphores := values }, point)

/-- A change of the queue alone. -/
def Shared.update (shared : Shared Process) (queue : Queue) (point : Point) :
    Option (Shared Process × Point) :=
  some ({ shared with queue := queue }, point)

/-- `queue_push`. -/
def queuePush (shared : Shared Process) (msg : Message) :
    PushStage → Option (Shared Process × Point)
  | .lock => shared.semop opsPush (.queuePush msg .copy)
  | .copy =>
      some ({ shared with
        queue := { shared.queue with
          buffer := Function.update shared.queue.buffer shared.queue.tail msg }
        occupied := Function.update shared.occupied shared.queue.tail true
        pushed := shared.pushed ++ [msg] }, .queuePush msg .tail)
  | .tail =>
      shared.update { shared.queue with tail := (shared.queue.tail + 1) % maxQueueSize }
        (.queuePush msg .added)
  | .added =>
      shared.update { shared.queue with addedCount := shared.queue.addedCount + 1 }
        (.queuePush msg .free)
  | .free =>
      shared.update { shared.queue with freeSlots := shared.queue.freeSlots - 1 }
        (.queuePush msg .finish)
  | .finish => shared.semop opsPushFinish .producerTask

/-- `queue_pop`. -/
def queuePop (shared : Shared Process) : PopStage → Option (Shared Process × Point)
  | .lock => shared.semop opsPop (.queuePop .copy)
  | .copy =>
      some ({ shared with
        occupied := Function.update shared.occupied shared.queue.head false
        popped := shared.popped ++ [shared.queue.buffer shared.queue.head] },
        .queuePop (.head (shared.queue.buffer shared.queue.head)))
  | .head outMsg =>
      shared.update { shared.queue with head := (shared.queue.head + 1) % maxQueueSize }
        (.queuePop (.removed outMsg))
  | .removed outMsg =>
      shared.update { shared.queue with removedCount := shared.queue.removedCount + 1 }
        (.queuePop (.free outMsg))
  | .free outMsg =>
      shared.update { shared.queue with freeSlots := shared.queue.freeSlots + 1 }
        (.queuePop (.finish outMsg))
  | .finish outMsg => shared.semop opsPopFinish (.checkHash outMsg)

/-- The comparison of `consumer_task` after `queue_pop`. -/
def checkHash (shared : Shared Process) (process : Process) (msg : Message) : Shared Process :=
  if msg.calculateHash = msg.hash then shared
  else { shared with
    mismatches := shared.mismatches ++ [⟨process, msg.calculateHash, msg.hash⟩] }

/-- The step of a process at a point, `none` while it is blocked or has nothing to do. -/
def advance (shared : Shared Process) (process : Process) :
    Point → Option (Shared Process × Point)
  | .absent | .producerTask => none
  | .queuePush msg stage => queuePush shared msg stage
  | .consumerTask => some (shared, .queuePop .lock)
  | .queuePop stage => queuePop shared stage
  | .checkHash msg => some (checkHash shared process msg, .consumerTask)

/-- What happens next. -/
inductive Action (Process : Type u) where
  /-- `create_producer` or `create_consumer`. -/
  | fork (process : Process) (role : Role)
  /-- A producer fills in a message from the values `rand` returns. -/
  | produce (process : Process) (rand : ℕ → ℕ)
  | step (process : Process)
  /-- A child finds `running` cleared. -/
  | leave (process : Process)
  /-- `SIGKILL`. -/
  | kill (process : Process)

variable [DecidableEq Process]

/-- Put one process at another point. -/
def State.move (state : State Process) (process : Process) (point : Point) : State Process :=
  { state with points := Function.update state.points process point }

/-- The successor of a state. -/
def next (state : State Process) : Action Process → Option (State Process)
  | .fork process role =>
      match state.points process with
      | .absent => some (state.move process role.task)
      | _ => none
  | .produce process rand =>
      match state.points process with
      | .producerTask => some (state.move process (.queuePush (.produce rand) .lock))
      | _ => none
  | .step process =>
      (advance state.shared process (state.points process)).map fun (shared, point) =>
        ⟨shared, Function.update state.points process point⟩
  | .leave process =>
      match state.points process with
      | .producerTask | .consumerTask => some (state.move process .absent)
      | _ => none
  | .kill process => some (state.move process .absent)

/-- A `queue_init` that created the set of semaphores has returned, and no child exists. -/
structure Initial (state : State Process) : Prop where
  queueInit : ∃ (ipc ipc' : Ipc) (fails : SystemCall → Bool) (newId : ℤ) (set : SemaphoreSet),
    ipc.semaphores = none ∧ ipc.queueInit fails newId = (ipc', true) ∧
      ipc'.segment = some state.shared.queue ∧ ipc'.semaphores = some set ∧
      set.values = state.shared.semaphores
  occupied : state.shared.occupied = fun _ => false
  pushed : state.shared.pushed = []
  popped : state.shared.popped = []
  mismatches : state.shared.mismatches = []
  points : state.points = fun _ => .absent

/-- All interleavings of the given processes on a fresh queue. -/
def system (Process : Type u) [DecidableEq Process] : System (State Process) (Action Process) where
  initial := Initial
  next := next

end Definitions

end Osis.Lab04
