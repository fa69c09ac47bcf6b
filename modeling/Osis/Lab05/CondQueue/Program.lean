import Osis.Lab05.CondQueue.Wakeups

/-!
# The program around the condition-variable queue (`5.2/main.c`)

`main` reads commands, starts workers in the slots of two arrays and removes the last one
of a kind by a broadcast, `pthread_cancel` and `pthread_join`. A worker runs a loop around
`queue_push` or `queue_pop`. Cancellation is disabled inside these two functions and the
locks and allocations before them are no cancellation points, so a cancelled worker ends
when it prints or sleeps after a call. In a C11 build `signal` installs the handler of `SIGINT`
for one delivery, and a second one ends the whole program where it is.

The number of slots, `MAX_PRODS`, is a parameter.
-/

namespace Osis.Lab05.CondQueue

open Concurrency

universe u

/-- The two kinds of workers. -/
inductive Kind where
  | producer
  | consumer
  deriving DecidableEq

namespace Kind

/-- The condition variable that the workers of a kind wait on. -/
def condition : Kind → Condition
  | .producer => .notFull
  | .consumer => .notEmpty

def other : Kind → Kind
  | .producer => .consumer
  | .consumer => .producer

@[simp]
theorem other_other (kind : Kind) : kind.other.other = kind := by
  cases kind <;> rfl

theorem other_ne (kind : Kind) : kind.other ≠ kind := by
  cases kind <;> simp [other]

end Kind

/-- The threads of the program: `main` and the workers by their slots in the arrays. -/
inductive ThreadId (maxProds : ℕ) where
  | main
  | worker (kind : Kind) (slot : Fin maxProds)
  deriving DecidableEq

instance (maxProds : ℕ) : Fintype (ThreadId maxProds) where
  elems := insert .main
    ((Finset.univ.image (ThreadId.worker .producer)) ∪ Finset.univ.image (.worker .consumer))
  complete thread := by
    cases thread with
    | main => exact Finset.mem_insert_self _ _
    | worker kind slot => cases kind <;> simp

/-- Where a worker is in its task. -/
inductive Task where
  /-- There is no thread in the slot. -/
  | absent
  /-- At the test of `while (running)`. -/
  | test
  /-- Inside `queue_push` or `queue_pop`. -/
  | calling
  /-- Printing and sleeping after a call. -/
  | sleep
  /-- Ended and not yet joined. -/
  | ended
  deriving DecidableEq

/-- Where `remove_last_producer` and `remove_last_consumer` are called from. -/
inductive Caller where
  | command
  | removeAll (final : Bool)

/-- What `main` goes on with after a mutex section of its own. -/
inductive After where
  | printStatus
  | removeLast (kind : Kind) (caller : Caller)
  | removeAll (final : Bool)
  | shutdown

/-- Where `main` is. -/
inductive MainPoint (maxProds : ℕ) where
  /-- At the test of `while (running)`. -/
  | test
  | scan
  /-- Inside one of the resize functions. -/
  | resize
  /-- At the lock of a mutex section that makes the given broadcasts. -/
  | lock (broadcasts : List Condition) (after : After)
  /-- Inside this section, with these broadcasts left. -/
  | locked (broadcasts : List Condition) (after : After)
  | removeLast (kind : Kind) (caller : Caller)
  | cancel (kind : Kind) (caller : Caller)
  | join (kind : Kind) (slot : Fin maxProds) (caller : Caller)
  | removeAll (final : Bool)
  | destroy

/-- The commands of `main`. -/
inductive Command where
  | createProducer
  | createConsumer
  | removeLastProducer
  | removeLastConsumer
  | increase
  | decrease
  | removeAll
  | printStatus
  | quit
  | unknown
  deriving DecidableEq

/-- The state of the program. -/
structure Program (maxProds : ℕ) (Message : Type u) where
  queue : State (ThreadId maxProds) Message
  main : MainPoint maxProds
  tasks : Kind → Fin maxProds → Task
  cancelled : Kind → Fin maxProds → Bool
  /-- `prod_count` and `cons_count`. -/
  count : Kind → ℕ
  /-- The value `running` had when `main` left its loop. -/
  left : Option Bool

/-- What happens next: `scanf` returns a command or fails, `main` or a worker steps (a producer
with the message it makes, a signal with the threads it wakes), or `SIGINT` arrives. -/
inductive Label (maxProds : ℕ) (Message : Type u) where
  | command (command : Command)
  | endOfInput
  | main
  | worker (kind : Kind) (slot : Fin maxProds) (msg : Message)
      (woken : List (ThreadId maxProds))
  | interrupt

namespace Program

variable {maxProds : ℕ} {Message : Type u}

/-- Whether a call that is about to return lets the worker go on, `none` inside the call. -/
def goesOn : Point Message → Option Bool
  | .queuePush _ (.unlock code) => some (code ≠ -1)
  | .queuePop (.unlock result) => some result.join.isSome
  | _ => none

/-- The task of a worker whose call has made a step from the given point. -/
def afterStep (point : Point Message) : Task :=
  match goesOn point with
  | none => .calling
  | some true => .sleep
  | some false => .ended

/-- The call a worker makes. -/
def call (msg : Message) : Kind → Call Message
  | .producer => .push msg
  | .consumer => .pop

/-- A step of a queue function. -/
def queueNext (state : Program maxProds Message) (action : Action (ThreadId maxProds) Message) :
    Option (Program maxProds Message) :=
  (next state.queue action).map fun queue => { state with queue := queue }

def setTask (state : Program maxProds Message) (kind : Kind) (slot : Fin maxProds) (task : Task) :
    Program maxProds Message :=
  { state with
    tasks := Function.update state.tasks kind (Function.update (state.tasks kind) slot task) }

/-- `producer_task` and `consumer_task`. -/
def workerNext (state : Program maxProds Message) (kind : Kind) (slot : Fin maxProds)
    (msg : Message) (woken : List (ThreadId maxProds)) : Option (Program maxProds Message) :=
  match state.tasks kind slot with
  | .absent | .ended => none
  | .test =>
      if state.queue.shared.running then
        (state.queueNext (.call (.worker kind slot) (call msg kind))).map fun state =>
          state.setTask kind slot .calling
      else some (state.setTask kind slot .ended)
  | .calling =>
      (state.queueNext (.step (.worker kind slot) woken)).map fun state' =>
        state'.setTask kind slot (afterStep (state.queue.points (.worker kind slot)))
  | .sleep =>
      -- `sleep` is a cancellation point
      some (state.setTask kind slot (if state.cancelled kind slot then .ended else .test))

/-- `create_producer` and `create_consumer`. -/
def create (state : Program maxProds Message) (kind : Kind) : Program maxProds Message :=
  if room : state.count kind < maxProds then
    let created := state.setTask kind ⟨state.count kind, room⟩ .test
    { created with
      count := Function.update state.count kind (state.count kind + 1)
      main := .test }
  else { state with main := .test }

/-- The two conditions in the order in which `main` broadcasts on them. -/
def bothConditions : List Condition := [.notEmpty, .notFull]

/-- The branches of the `switch`. -/
def execute (state : Program maxProds Message) :
    Command → Option (Program maxProds Message)
  | .createProducer => some (state.create .producer)
  | .createConsumer => some (state.create .consumer)
  | .removeLastProducer => some { state with main := .removeLast .producer .command }
  | .removeLastConsumer => some { state with main := .removeLast .consumer .command }
  | .increase => { state with main := .resize }.queueNext (.call .main .increase)
  | .decrease => { state with main := .resize }.queueNext (.call .main .decrease)
  | .removeAll => some { state with main := .lock bothConditions (.removeAll false) }
  | .printStatus => some { state with main := .lock [] .printStatus }
  | .quit => { state with main := .test }.queueNext .stop
  | .unknown => some { state with main := .test }

def setMutex (state : Program maxProds Message) (mutex : Option (ThreadId maxProds)) :
    Program maxProds Message :=
  { state with queue := { state.queue with shared := { state.queue.shared with mutex := mutex } } }

/-- `pthread_cond_broadcast`. -/
def broadcast (state : Program maxProds Message) (condition : Condition) :
    Program maxProds Message :=
  { state with
    queue := { state.queue with
      points := fun thread => (state.queue.points thread).notify condition } }

/-- Where `main` goes on after a mutex section. -/
def After.target : After → MainPoint maxProds
  | .printStatus => .test
  | .removeLast kind caller => .cancel kind caller
  | .removeAll final => .removeAll final
  | .shutdown => .lock bothConditions (.removeAll true)

/-- Where `main` goes on after the removal of one worker. -/
def Caller.target : Caller → MainPoint maxProds
  | .command => .test
  | .removeAll final => .removeAll final

/-- `pthread_cancel` on the last worker of a kind. -/
def cancel (state : Program maxProds Message) (kind : Kind) (caller : Caller) :
    Option (Program maxProds Message) :=
  if slot_lt : state.count kind - 1 < maxProds then
    let slot : Fin maxProds := ⟨state.count kind - 1, slot_lt⟩
    some { state with
      count := Function.update state.count kind (state.count kind - 1)
      cancelled := Function.update state.cancelled kind
        (Function.update (state.cancelled kind) slot true)
      main := .join kind slot caller }
  else none

/-- `pthread_join`. -/
def join (state : Program maxProds Message) (kind : Kind) (slot : Fin maxProds)
    (caller : Caller) : Option (Program maxProds Message) :=
  if state.tasks kind slot = .ended then
    let joined := state.setTask kind slot .absent
    some { joined with
      cancelled := Function.update state.cancelled kind
        (Function.update (state.cancelled kind) slot false)
      main := Caller.target caller }
  else none

/-- The next step of `main` where it does not wait for a command. -/
def mainNext (state : Program maxProds Message) : Option (Program maxProds Message) :=
  match state.main with
  | .test =>
      if state.queue.shared.running then some { state with main := .scan }
      else some { state with main := .lock bothConditions .shutdown, left := some false }
  | .scan | .destroy => none
  | .resize =>
      match state.queue.points .main with
      | .idle => some { state with main := .test }
      | _ => state.queueNext (.step .main [])
  | .lock broadcasts after =>
      if state.queue.shared.mutex = none then
        some { state.setMutex (some .main) with main := .locked broadcasts after }
      else none
  | .locked (condition :: broadcasts) after =>
      some { state.broadcast condition with main := .locked broadcasts after }
  | .locked [] after => some { state.setMutex none with main := After.target after }
  | .removeLast kind caller =>
      if state.count kind = 0 then some { state with main := Caller.target caller }
      else some { state with main := .lock [kind.condition] (.removeLast kind caller) }
  | .cancel kind caller => state.cancel kind caller
  | .join kind slot caller => state.join kind slot caller
  | .removeAll final =>
      if 0 < state.count .producer then
        some { state with main := .removeLast .producer (.removeAll final) }
      else if 0 < state.count .consumer then
        some { state with main := .removeLast .consumer (.removeAll final) }
      else if final then some { state with main := .destroy }
      else some { state with main := .test }

/-- The successor of a state. -/
def next (state : Program maxProds Message) :
    Label maxProds Message → Option (Program maxProds Message)
  | .command command =>
      match state.main with
      | .scan => state.execute command
      | _ => none
  | .endOfInput =>
      match state.main with
      | .scan => some { state with
          main := .lock bothConditions .shutdown
          left := some state.queue.shared.running }
      | _ => none
  | .main => state.mainNext
  | .worker kind slot msg woken => state.workerNext kind slot msg woken
  | .interrupt => state.queueNext .stop

/-- After `queue_init`. -/
def init : Program maxProds Message where
  queue := CondQueue.init
  main := .test
  tasks := fun _ _ => .absent
  cancelled := fun _ _ => false
  count := fun _ => 0
  left := none

/-- All runs of the program. -/
def system (maxProds : ℕ) (Message : Type u) :
    System (Program maxProds Message) (Label maxProds Message) where
  initial state := state = init
  next := next

end Program

end Osis.Lab05.CondQueue
