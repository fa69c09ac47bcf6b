import Mathlib.Data.List.Basic
import Mathlib.Logic.Function.Iterate
import Osis.Concurrency.Transition
import Osis.Lab03.Child

/-!
# The parent of lab 3 (`parent.c`) and its children

The parent executes commands and answers every `SIGUSR1` of a child with `SIGUSR2`, the
signal with which `StartChild` starts a child. A command is one step. The handlers block
each other's signals and keep `main` waiting; one takes the step in which its signal is
delivered and the step in which it does its work, and the children may move in between.

The growth of the table and the messages of the parent are left out.
-/

namespace Osis.Lab03

open Concurrency

/-- An entry of the process table. -/
structure ProcessInfo where
  pid : Pid
  name : String
  isRunning : Bool

/-- A line of statistics on `stdout`. -/
structure Printout where
  pid : Pid
  c00 : ℕ
  c01 : ℕ
  c10 : ℕ
  c11 : ℕ

/-- The parent, its children and the signals between them. -/
structure State where
  childProcesses : List ProcessInfo
  pending : Pending Signal Pid
  /-- The signal whose handler runs, with its value. -/
  handling : Option (Signal × Pid)
  /-- The parent has called `exit`. -/
  exited : Bool
  children : Pid → Option Child
  /-- The children that have ended and are not waited for yet. -/
  zombies : List Pid
  stdout : List Printout

/-- The commands, with what `fork` returns in the parent. -/
inductive Command where
  | create (forked : Option Pid)
  | deleteLast
  | list
  | deleteAll
  | stop (index : ℕ)
  | start (index : ℕ)
  | quit
  | invalid
  deriving DecidableEq

inductive Label where
  | command (command : Command)
  /-- A pending signal interrupts the parent. -/
  | interrupt (signal : Signal)
  /-- The handler of the parent does its work. -/
  | resume
  | child (pid : Pid)
  | deliver (pid : Pid) (signal : Signal)
  /-- The alarm of a child goes off. -/
  | ring (pid : Pid)
  /-- A child exits because `execl` has failed. -/
  | execFails (pid : Pid)
  deriving DecidableEq

/-- The state in which `main` of the parent shows its first prompt. -/
def launched : State where
  childProcesses := []
  pending := .empty
  handling := none
  exited := false
  children _ := none
  zombies := []
  stdout := []

/-- The text that `snprintf` makes with the format `C_%02d`. -/
def childName (size : ℕ) : String :=
  "C_" ++ (if size < 10 then "0" else "") ++ toString size

namespace State

/-- The process table holds a child at an index. -/
def At (state : State) (index : ℕ) (pid : Pid) : Prop :=
  (state.childProcesses[index]?).map ProcessInfo.pid = some pid

instance (state : State) (index : ℕ) (pid : Pid) : Decidable (state.At index pid) :=
  inferInstanceAs (Decidable (_ = _))

/-- `sigqueue` and `kill` to a child, which fail when there is none. -/
def signalChild (state : State) (pid : Pid) (signal : Signal) : State :=
  { state with
    children := Function.update state.children pid
      ((state.children pid).map fun child => child.queue signal) }

/-- A signal to the parent, which is gone once it has exited. -/
def signalParent (state : State) (signal : Signal) (value : Pid) : State :=
  if state.exited then state else { state with pending := state.pending.queue signal value }

/-- A child ends. -/
def childEnds (state : State) (pid : Pid) : State :=
  { state with
    children := Function.update state.children pid none
    zombies := state.zombies ++ [pid] }.signalParent .chld 0

def createChild (state : State) (forked : Option Pid) : State :=
  match forked with
  | none => state
  | some pid =>
      { state with
        children := Function.update state.children pid (some .forked)
        childProcesses := state.childProcesses ++
          [⟨pid, childName state.childProcesses.length, false⟩] }

def deleteLastChild (state : State) : State :=
  match state.childProcesses.getLast? with
  | none => state
  | some info =>
      { state.signalChild info.pid .term with
        childProcesses := state.childProcesses.dropLast }

/-- The loop of `DeleteAllChild`. -/
def deleteAllChild (state : State) : State :=
  deleteLastChild^[state.childProcesses.length] state

def setRunning (state : State) (index : ℕ) (isRunning : Bool) : State :=
  { state with
    childProcesses := state.childProcesses.modify index fun info =>
      { info with isRunning := isRunning } }

def startChild (state : State) (index : ℕ) : State :=
  match state.childProcesses[index]? with
  | none => state
  | some info => (state.signalChild info.pid .usr2).setRunning index true

def stopChild (state : State) (index : ℕ) : State :=
  match state.childProcesses[index]? with
  | none => state
  | some info => (state.signalChild info.pid .usr1).setRunning index false

/-- `DeleteAllChild` leaves nothing for `WaitChild` to wait for. -/
def cleanExit (state : State) : State := { state.deleteAllChild with exited := true }

def execute (state : State) : Command → State
  | .create forked => state.createChild forked
  | .deleteLast => state.deleteLastChild
  | .list => state
  | .deleteAll => state.deleteAllChild
  | .stop index => state.stopChild index
  | .start index => state.startChild index
  | .quit => state.cleanExit
  | .invalid => state

/-- `fork` fails or returns a pid that no process and no zombie has. -/
def Possible (state : State) : Command → Prop
  | .create (some pid) => pid ≠ 0 ∧ (state.children pid).isNone ∧ pid ∉ state.zombies
  | _ => True

instance (state : State) : ∀ command, Decidable (state.Possible command)
  | .create (some _) => inferInstanceAs (Decidable (_ ∧ _ ∧ _))
  | .create none | .deleteLast | .list | .deleteAll | .stop _ | .start _ | .quit | .invalid =>
      inferInstanceAs (Decidable True)

/-- The first entry of an exited child leaves the table. -/
def reap (childProcesses : List ProcessInfo) (pid : Pid) : List ProcessInfo :=
  childProcesses.eraseP fun info => info.pid == pid

def handleExitChild (state : State) : State :=
  { state with
    childProcesses := state.zombies.foldl reap state.childProcesses
    zombies := [] }

/-- What the handlers of the parent do. -/
def handleSignal (state : State) (signo : Signal) (childPid : Pid) : State :=
  match signo with
  | .usr1 => state.signalChild childPid .usr2
  | .usr2 => state
  | .chld => state.handleExitChild
  | _ => state

/-- `main` of the parent runs, and no handler. -/
def Idle (state : State) : Prop := state.handling.isNone ∧ state.exited = false

instance (state : State) : Decidable state.Idle := inferInstanceAs (Decidable (_ ∧ _))

/-- A step of a child, with its output and its signals to the parent. -/
def childStep (state : State) (pid : Pid) (child : Child) : State :=
  let moved :=
    { state with
      children := Function.update state.children pid (some child.step)
      stdout :=
        if child.point = .print then
          state.stdout ++ [⟨pid, child.c00, child.c01, child.c10, child.c11⟩]
        else state.stdout }
  match child.point.sends with
  | none => moved
  | some signal => moved.signalParent signal pid

/-- The state after the delivery of a signal to a child. -/
def childDeliver (state : State) (pid : Pid) (child : Child) (signal : Signal) : State :=
  match child.deliver signal with
  | none => state.childEnds pid
  | some handled => { state with children := Function.update state.children pid (some handled) }

end State

open State in
/-- The steps of the parent, of the children and of the kernel between them. -/
def system : System State Label where
  initial state := state = launched
  next state label :=
    match label with
    | .command command =>
        if state.Idle ∧ state.Possible command then some (state.execute command) else none
    | .interrupt signal =>
        if state.Idle then
          (state.pending signal).map fun value =>
            { state with
              pending := state.pending.deliver signal
              handling := some (signal, value) }
        else none
    | .resume =>
        state.handling.map fun (signo, childPid) =>
          { state.handleSignal signo childPid with handling := none }
    | .child pid => (state.children pid).map fun child => state.childStep pid child
    | .deliver pid signal =>
        (state.children pid).bind fun child =>
          if (child.pending signal).isSome then some (state.childDeliver pid child signal)
          else none
    | .ring pid =>
        (state.children pid).bind fun child =>
          if child.alarm then
            some { state with
              children := Function.update state.children pid
                (some { child.queue .alrm with alarm := false }) }
          else none
    | .execFails pid =>
        (state.children pid).bind fun child =>
          if child.point = .fork then some (state.childEnds pid) else none

end Osis.Lab03
