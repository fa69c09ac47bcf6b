import Mathlib.Data.Int.Notation
import Mathlib.Data.Nat.Notation
import Mathlib.Tactic.SplitIfs
import Osis.Concurrency.Signals

/-!
# The child of lab 3 (`child.c`)

A child gathers statistics in rounds of a second. From its seventh round on it asks its
parent with `SIGUSR1` whether it may print them, again and again until some `SIGUSR1` or
`SIGUSR2` arrives, prints if it may, and tells the parent with `SIGUSR2`.

A child has the handlers of its parent until `execl`, and the default actions until
`InitSignalsHandling` has installed its own. The handlers block `SIGUSR1` and `SIGUSR2`, and
`SIGALRM` has no data in common with the other two, so that a handler runs in one step.
-/

namespace Osis.Lab03

open Concurrency

/-- The signals of the two programs. -/
inductive Signal where
  | usr1
  | usr2
  | chld
  | alrm
  | term
  deriving DecidableEq

abbrev Pid := ℕ

structure Pair where
  first : ℤ
  second : ℤ
  deriving DecidableEq

/-- Where a child is, named after the statement that it executes next. -/
inductive Point where
  /-- Between `fork` and `execl`. -/
  | fork
  /-- `sigaction(SIGUSR1, ..)`, after `execl`. -/
  | initUsr1
  | initUsr2
  | initAlrm
  /-- `alarm(rand() % 1 + 1)` in front of the loop. -/
  | init
  | sleep
  /-- The assignment of `UpdateStat` to `occurrence.first`. -/
  | updateFirst
  /-- The rest of `UpdateStat`. -/
  | updateSecond
  | clearReceived
  /-- `if (i >= 6 && can_print)`. -/
  | testCanPrint
  | alarmOff
  /-- `while (!received_signal)`. -/
  | testReceived
  /-- `sigqueue(getppid(), SIGUSR1, info)`. -/
  | request
  /-- `sleep(1)` behind a request. -/
  | await
  | alarmOn
  /-- `if (!can_print)`. -/
  | testDenied
  /-- `can_print = true` in the branch that does not print. -/
  | denied
  | print
  /-- `sigqueue(getppid(), SIGUSR2, info)`. -/
  | finish
  deriving DecidableEq

/-- A process of `child.c` with its pending signals. -/
structure Child where
  point : Point
  i : ℕ
  canPrint : Bool
  receivedSignal : Bool
  /-- The static variable of `UpdateStat`. -/
  counter : ℤ
  occurrence : Pair
  c00 : ℕ
  c01 : ℕ
  c10 : ℕ
  c11 : ℕ
  /-- Whether `alarm` is running. -/
  alarm : Bool
  pending : Pending Signal Pid

namespace Child

/-- A child right after `fork`, with the initial values of `child.c`. -/
def forked : Child where
  point := .fork
  i := 0
  canPrint := false
  receivedSignal := false
  counter := 0
  occurrence := ⟨0, 0⟩
  c00 := 0
  c01 := 0
  c10 := 0
  c11 := 0
  alarm := false
  pending := .empty

/-- The pair that `UpdateStat` writes for a value of its counter. -/
def pattern (counter : ℤ) : Option Pair :=
  if counter = 0 then some ⟨0, 0⟩
  else if counter = 1 then some ⟨1, 0⟩
  else if counter = 2 then some ⟨0, 1⟩
  else if counter = 3 then some ⟨1, 1⟩
  else none

/-- `UpdateStat` up to the first assignment of its case. -/
def updateFirst (child : Child) : Child :=
  match pattern child.counter with
  | some pair => { child with occurrence := ⟨pair.first, child.occurrence.second⟩ }
  | none => { child with counter := -1 }

/-- The rest of `UpdateStat`. -/
def updateSecond (child : Child) : Child :=
  match pattern child.counter with
  | some pair =>
      { child with
        occurrence := ⟨child.occurrence.first, pair.second⟩
        counter := child.counter + 1 }
  | none => { child with counter := child.counter + 1 }

/-- The end of a round: `i++`. -/
def nextRound (child : Child) (i : ℕ) : Child := { child with point := .sleep, i := i + 1 }

/-- One step of `main`. What it queues for the parent is `Point.sends`. -/
def step (child : Child) : Child :=
  match child.point with
  | .fork => { child with point := .initUsr1 }
  | .initUsr1 => { child with point := .initUsr2 }
  | .initUsr2 => { child with point := .initAlrm }
  | .initAlrm => { child with point := .init }
  | .init => { child with point := .sleep, alarm := true }
  | .sleep => { child with point := .updateFirst }
  | .updateFirst => { child.updateFirst with point := .updateSecond }
  | .updateSecond => { child.updateSecond with point := .clearReceived }
  | .clearReceived => { child with point := .testCanPrint, receivedSignal := false }
  | .testCanPrint =>
      if 6 ≤ child.i ∧ child.canPrint then { child with point := .alarmOff }
      else child.nextRound child.i
  | .alarmOff => { child with point := .testReceived, alarm := false }
  | .testReceived =>
      if child.receivedSignal then { child with point := .alarmOn }
      else { child with point := .request }
  | .request => { child with point := .await }
  | .await => { child with point := .testReceived }
  | .alarmOn => { child with point := .testDenied, alarm := true }
  | .testDenied =>
      if child.canPrint then { child with point := .print } else { child with point := .denied }
  | .denied => { child with canPrint := true }.nextRound 0
  | .print => { child with point := .finish, i := 0 }
  | .finish => child.nextRound child.i

def usrSignHandler (child : Child) (signo : Signal) : Child :=
  match signo with
  | .usr1 => { child with canPrint := false, receivedSignal := true }
  | .usr2 => { child with canPrint := true, receivedSignal := true }
  | _ => child

/-- `AlrSignHandler` up to the new alarm. -/
def countOccurrence (child : Child) : Child :=
  if child.occurrence.first = 0 ∧ child.occurrence.second = 0 then
    { child with c00 := child.c00 + 1 }
  else if child.occurrence.first = 1 ∧ child.occurrence.second = 0 then
    { child with c01 := child.c01 + 1 }
  else if child.occurrence.first = 0 ∧ child.occurrence.second = 1 then
    { child with c10 := child.c10 + 1 }
  else if child.occurrence.first = 1 ∧ child.occurrence.second = 1 then
    { child with c11 := child.c11 + 1 }
  else child

def alrSignHandler (child : Child) : Child := { child.countOccurrence with alarm := true }

/-- Queue a signal without a value for a child. -/
def queue (child : Child) (signal : Signal) : Child :=
  { child with pending := child.pending.queue signal 0 }

/-- What a signal that is delivered does, `none` if it ends the child. -/
def handle (child : Child) (signal : Signal) : Option Child :=
  match signal with
  | .usr1 =>
      match child.point with
      -- `HandleSignal` of the parent, which queues `SIGUSR2` for a process 0
      | .fork => some child
      | .initUsr1 => none
      | _ => some (child.usrSignHandler .usr1)
  | .usr2 =>
      match child.point with
      | .fork => some child
      | .initUsr1 | .initUsr2 => none
      | _ => some (child.usrSignHandler .usr2)
  | .alrm =>
      match child.point with
      | .fork | .initUsr1 | .initUsr2 | .initAlrm => none
      | _ => some child.alrSignHandler
  | .chld => some child
  | .term => none

/-- The delivery of a pending signal. -/
def deliver (child : Child) (signal : Signal) : Option Child :=
  handle { child with pending := child.pending.deliver signal } signal

end Child

section Fields

variable (child : Child)

theorem Child.updateFirst_eq : ∃ counter occurrence,
    child.updateFirst = { child with counter := counter, occurrence := occurrence } := by
  unfold updateFirst
  split <;> exact ⟨_, _, rfl⟩

theorem Child.updateSecond_eq : ∃ counter occurrence,
    child.updateSecond = { child with counter := counter, occurrence := occurrence } := by
  unfold updateSecond
  split <;> exact ⟨_, _, rfl⟩

theorem Child.countOccurrence_eq : ∃ c00 c01 c10 c11,
    child.countOccurrence = { child with c00 := c00, c01 := c01, c10 := c10, c11 := c11 } := by
  unfold countOccurrence
  split_ifs <;> exact ⟨_, _, _, _, rfl⟩

/-- The handler of the alarm touches the counts and the alarm only. -/
theorem Child.alrSignHandler_eq : ∃ c00 c01 c10 c11, child.alrSignHandler =
    { child with c00 := c00, c01 := c01, c10 := c10, c11 := c11, alarm := true } := by
  rcases child.countOccurrence_eq with ⟨c00, c01, c10, c11, counted⟩
  exact ⟨c00, c01, c10, c11, by rw [alrSignHandler, counted]⟩

/-- A step does not touch the pending signals. -/
@[simp]
theorem Child.step_pending : child.step.pending = child.pending := by
  rcases child.updateFirst_eq with ⟨_, _, first⟩
  rcases child.updateSecond_eq with ⟨_, _, second⟩
  unfold step
  cases child.point <;> simp only [first, second, nextRound] <;> split <;> rfl

theorem Child.step_canPrint :
    child.step.canPrint = if child.point = .denied then true else child.canPrint := by
  rcases child.updateFirst_eq with ⟨_, _, first⟩
  rcases child.updateSecond_eq with ⟨_, _, second⟩
  unfold step
  cases child.point <;> simp only [first, second, nextRound] <;> simp <;> split <;> rfl

theorem Child.step_receivedSignal :
    child.step.receivedSignal =
      if child.point = .clearReceived then false else child.receivedSignal := by
  rcases child.updateFirst_eq with ⟨_, _, first⟩
  rcases child.updateSecond_eq with ⟨_, _, second⟩
  unfold step
  cases child.point <;> simp only [first, second, nextRound] <;> simp <;> split <;> rfl

/-- A step leads on from `fork`. -/
theorem Child.step_point_ne : child.step.point ≠ .fork := by
  unfold step
  cases child.point <;> simp only [nextRound] <;> try exact Point.noConfusion
  all_goals split <;> exact Point.noConfusion

variable {child} {child' : Child} {signal : Signal}

/-- A child prints because it may. -/
theorem Child.step_print (prints : child.step.point = .print) :
    child.point = .testDenied ∧ child.canPrint = true := by
  unfold step at prints
  cases point : child.point <;> simp only [point, nextRound] at prints <;>
    try cases prints
  all_goals split at prints <;> try cases prints
  next canPrint => exact ⟨rfl, canPrint⟩

/-- What a signal that does not end the child changes. -/
theorem Child.deliver_eq_some (delivered : child.deliver signal = some child') :
    child'.point = child.point ∧ child'.pending = child.pending.deliver signal ∧
      (child'.canPrint = child.canPrint ∧ child'.receivedSignal = child.receivedSignal ∧
          (child.point = .fork ∨ signal ≠ .usr1 ∧ signal ≠ .usr2) ∨
        child'.canPrint = (signal == .usr2) ∧ child'.receivedSignal = true ∧
          child.point ≠ .fork ∧ (signal = .usr1 ∨ signal = .usr2)) := by
  simp only [deliver, handle] at delivered
  cases signal with
  | usr1 =>
      dsimp only at delivered
      split at delivered <;> cases delivered
      · next fork => exact ⟨rfl, rfl, .inl ⟨rfl, rfl, .inl fork⟩⟩
      · next fork _ => exact ⟨rfl, rfl, .inr ⟨rfl, rfl, fork, .inl rfl⟩⟩
  | usr2 =>
      dsimp only at delivered
      split at delivered <;> cases delivered
      · next fork => exact ⟨rfl, rfl, .inl ⟨rfl, rfl, .inl fork⟩⟩
      · next fork _ _ => exact ⟨rfl, rfl, .inr ⟨rfl, rfl, fork, .inr rfl⟩⟩
  | alrm =>
      dsimp only at delivered
      split at delivered <;> cases delivered
      rcases alrSignHandler_eq { child with pending := child.pending.deliver .alrm } with
        ⟨_, _, _, _, handled⟩
      rw [handled]
      exact ⟨rfl, rfl, .inl ⟨rfl, rfl, by simp⟩⟩
  | chld =>
      cases delivered
      exact ⟨rfl, rfl, .inl ⟨rfl, rfl, by simp⟩⟩
  | term => cases delivered

/-- A signal that does not end the child leaves its round. -/
theorem Child.deliver_i (delivered : child.deliver signal = some child') : child'.i = child.i := by
  simp only [deliver, handle] at delivered
  cases signal with
  | alrm =>
      dsimp only at delivered
      split at delivered <;> cases delivered
      rcases alrSignHandler_eq { child with pending := child.pending.deliver .alrm } with
        ⟨_, _, _, _, handled⟩
      rw [handled]
  | usr1 | usr2 =>
      dsimp only at delivered
      split at delivered <;> cases delivered <;> rfl
  | chld =>
      cases delivered
      rfl
  | term => cases delivered

end Fields

/-- What a step of a child queues for the parent, with the pid as its value. -/
def Point.sends : Point → Option Signal
  | .request => some .usr1
  | .finish => some .usr2
  | _ => none

end Osis.Lab03
