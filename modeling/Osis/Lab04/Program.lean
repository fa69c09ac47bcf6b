import Osis.Lab04.Blocking

/-!
# The program around the processes of lab 4 (`main.c`)

`main` reads commands, forks children and keeps their process ids in two arrays, which it
uses as stacks. It removes a child by `SIGKILL` and `waitpid`, and all of them before it
destroys the queue. A child that is interrupted ends by itself; `sigchld_handler` reaps it,
and its entry stays in the array, where the kernel may give the process id to a later child.

`running` is an ordinary variable, of which every child has a copy of its own. `SIGINT` clears
the copy of the process that it reaches. Any wait of `main` may be cut short by a signal.
In a C11 build `signal` installs a handler for one delivery, and a second `SIGINT` would kill
its process: the runs of the program are those in which no process gets a second one.
-/

namespace Osis.Lab04

open Concurrency

universe u

/-- `MAX_PROCS`. -/
def maxProcs : ℕ := 4

/-- Where `remove_last_producer` and `remove_last_consumer` are called from. -/
inductive Caller where
  | command
  | removeAll (final : Bool)

/-- Where `main` is. -/
inductive MainPoint (Process : Type u) where
  /-- At the test of `while (running)`. -/
  | test
  | scan
  /-- Before the `fork` of `create_producer` or `create_consumer`. -/
  | fork (role : Role)
  /-- The child runs and is not yet in its array. -/
  | record (role : Role) (pid : Process)
  | removeLast (role : Role) (caller : Caller)
  | waitpid (pid : Process) (caller : Caller)
  | removeAll (final : Bool)
  /-- At `while (wait(NULL) > 0)`. -/
  | wait
  | destroy

/-- The commands of `main`. -/
inductive Command where
  | createProducer
  | createConsumer
  | removeLastProducer
  | removeLastConsumer
  | removeAll
  | printStatus
  | quit
  | unknown

/-- `main` and its children. -/
structure Program (Process : Type u) where
  processes : State Process
  /-- The children that have not been reaped, alive or not. -/
  children : List Process
  running : Bool
  /-- The copies of `running` in the children. -/
  runs : Process → Bool
  /-- `producers`, of which the first `prod_count` are in use. -/
  producers : List Process
  /-- `consumers`, of which the first `cons_count` are in use. -/
  consumers : List Process
  main : MainPoint Process

/-- What happens next. -/
inductive Label (Process : Type u) where
  | command (command : Command)
  /-- `scanf` reads nothing more, or a signal cuts it short. -/
  | endOfInput
  /-- The result of `fork`. -/
  | fork (result : Option Process)
  /-- `main` goes on. -/
  | main
  /-- A signal cuts a `wait` or `waitpid` of `main` short. -/
  | cutShort
  /-- The `wait` of `main` or the `waitpid` of `sigchld_handler` reaps a child. -/
  | reap (pid : Process)
  | child (action : Action Process)
  /-- `SIGINT` reaches `main`, or a child. -/
  | interrupt (pid : Option Process)

/-- Where `main` goes on after the removal of one child. -/
def Caller.target {Process : Type u} : Caller → MainPoint Process
  | .command => .test
  | .removeAll final => .removeAll final

namespace Program

section Definitions

variable {Process : Type u}

/-- The array of a role. -/
def table (state : Program Process) : Role → List Process
  | .producer => state.producers
  | .consumer => state.consumers

def setTable (state : Program Process) (entries : List Process) : Role → Program Process
  | .producer => { state with producers := entries }
  | .consumer => { state with consumers := entries }

/-- `create_producer` and `create_consumer` up to the `fork`. -/
def create (state : Program Process) (role : Role) : Program Process :=
  if maxProcs ≤ (state.table role).length then { state with main := .test }
  else { state with main := .fork role }

/-- The branches of the `switch`. -/
def execute (state : Program Process) : Command → Program Process
  | .createProducer => state.create .producer
  | .createConsumer => state.create .consumer
  | .removeLastProducer => { state with main := .removeLast .producer .command }
  | .removeLastConsumer => { state with main := .removeLast .consumer .command }
  | .removeAll => { state with main := .removeAll false }
  | .quit => { state with running := false, main := .test }
  | .printStatus | .unknown => { state with main := .test }

variable [DecidableEq Process]

/-- `fork` in `create_producer` and `create_consumer`; a process id is new while no child that
has it is unreaped. -/
def fork (state : Program Process) (role : Role) : Option Process → Option (Program Process)
  | none => some { state with main := .test }
  | some pid =>
      if pid ∈ state.children then none
      else (Lab04.next state.processes (.fork pid role)).map fun processes =>
        { state with
          processes := processes
          children := state.children ++ [pid]
          runs := Function.update state.runs pid state.running
          main := .record role pid }

/-- `remove_last_producer` and `remove_last_consumer` up to the `kill`. -/
def removeLast (state : Program Process) (role : Role) (caller : Caller) : Program Process :=
  match (state.table role).getLast? with
  | none => { state with main := caller.target }
  | some pid =>
      { state.setTable (state.table role).dropLast role with
        processes := state.processes.move pid .absent
        main := .waitpid pid caller }

/-- The child is dead, and its status is fetched. -/
def reap (state : Program Process) (pid : Process) : Option (Program Process) :=
  if pid ∈ state.children then
    match state.processes.points pid with
    | .absent => some { state with children := state.children.erase pid }
    | _ => none
  else none

/-- `waitpid` on one child; it fails if there is no such child. -/
def waitpid (state : Program Process) (pid : Process) (caller : Caller) :
    Option (Program Process) :=
  if pid ∈ state.children then
    (state.reap pid).map fun state => { state with main := caller.target }
  else some { state with main := caller.target }

/-- The next step of `main` where it does not wait for a command, `fork` or `wait`. -/
def mainNext (state : Program Process) : Option (Program Process) :=
  match state.main with
  | .test =>
      if state.running then some { state with main := .scan }
      else some { state with main := .removeAll true }
  | .scan | .fork _ | .destroy => none
  | .record role pid => some { state.setTable (state.table role ++ [pid]) role with main := .test }
  | .removeLast role caller => some (state.removeLast role caller)
  | .waitpid pid caller => state.waitpid pid caller
  | .removeAll final =>
      if state.producers ≠ [] then
        some { state with main := .removeLast .producer (.removeAll final) }
      else if state.consumers ≠ [] then
        some { state with main := .removeLast .consumer (.removeAll final) }
      else if final then some { state with main := .wait }
      else some { state with main := .test }
  | .wait => if state.children = [] then some { state with main := .destroy } else none

/-- A step of a child. -/
def childNext (state : Program Process) (action : Action Process) : Option (Program Process) :=
  match action with
  | .fork _ _ | .kill _ => none
  | .leave pid =>
      if state.runs pid then none
      else (Lab04.next state.processes action).map fun processes =>
        { state with processes := processes }
  | .produce _ _ | .step _ =>
      (Lab04.next state.processes action).map fun processes =>
        { state with processes := processes }

/-- The successor of a state. -/
def next (state : Program Process) : Label Process → Option (Program Process)
  | .command command =>
      match state.main with
      | .scan => some (state.execute command)
      | _ => none
  | .endOfInput =>
      match state.main with
      | .scan => some { state with main := .removeAll true }
      | _ => none
  | .fork result =>
      match state.main with
      | .fork role => state.fork role result
      | _ => none
  | .main => state.mainNext
  | .cutShort =>
      match state.main with
      | .waitpid _ caller => some { state with main := caller.target }
      | .wait => some { state with main := .destroy }
      | _ => none
  | .reap pid => state.reap pid
  | .child action => state.childNext action
  -- `handle_signal`
  | .interrupt none => some { state with running := false }
  | .interrupt (some pid) => some { state with runs := Function.update state.runs pid false }

/-- After `queue_init`. -/
def start (processes : State Process) : Program Process where
  processes := processes
  children := []
  running := true
  runs := fun _ => true
  producers := []
  consumers := []
  main := .test

/-- All runs of `main` and its children on a queue whose semaphores agree with it. -/
def system (Process : Type u) [DecidableEq Process] : System (Program Process) (Label Process) where
  initial state := ∃ processes, Started processes ∧ state = start processes
  next := next

end Definitions

end Program

end Osis.Lab04
