import Osis.Lab03.Changes

/-!
# Stopped children

`StopChild` tells a child with `SIGUSR1` to print no more. A child that handles this signal
while it asks takes it for the answer to its request, does not print this time and sets
`can_print` again. A `SIGUSR2` or a request still in flight has the same effect later. A
child that is stopped at any other time stays silent until it is started.
-/

namespace Osis.Lab03

open Concurrency

variable {state successor : State} {label : Label} {pid : Pid}

/-- Between the tests of `can_print`, up to the end of the branch that does not print. -/
def Point.asking : Point → Bool
  | .alarmOff | .testReceived | .request | .await | .alarmOn | .testDenied | .denied => true
  | _ => false

/-- The child has no signal of its handshake in flight, and either does not ask or ends by the
default action of the next `SIGUSR1`. -/
def OutsideHandshake (state : State) (pid : Pid) : Prop :=
  ¬Requested state pid ∧ ∀ child ∈ state.children pid,
    child.point = .initUsr1 ∨ child.point.asking = false ∧ child.pending .usr2 = none

/-- A stop of the child is delivered outside its handshake only. -/
def StopsOutside (pid : Pid) (state : State) (label : Label) : Prop :=
  label = .deliver pid .usr1 → OutsideHandshake state pid

/-- What was in flight when the child was stopped and is not handled yet. -/
structure InFlight where
  stop : Bool
  start : Bool
  request : Bool
  deriving DecidableEq

namespace InFlight

def settled : InFlight := ⟨false, false, false⟩

/-- The signals in flight at the end of `StopChild`. -/
def atStop (state : State) (pid : Pid) : InFlight where
  stop := true
  start := ((state.children pid).bind fun child => child.pending .usr2).isSome
  request := decide (state.pending .usr1 = some pid)

def delivered (inFlight : InFlight) : Signal → InFlight
  | .usr1 => { inFlight with stop := false }
  | .usr2 => { inFlight with start := false }
  | _ => inFlight

/-- What a step leaves in flight, `none` when the child is not stopped. -/
def next (pid : Pid) (state successor : State) (label : Label)
    (watched : Option InFlight) : Option InFlight :=
  match label with
  | .command (.stop index) => if state.At index pid then some (atStop successor pid) else watched
  | .command (.start index) => if state.At index pid then none else watched
  | .deliver other signal =>
      if other = pid then watched.map fun inFlight => inFlight.delivered signal else watched
  | .resume =>
      if state.handling = some (.usr1, pid) then
        watched.map fun inFlight => { inFlight with request := false }
      else watched
  | _ => watched

end InFlight

/-- The system with an observer of the stops of one child. -/
def watchedSystem (pid : Pid) : System (State × Option InFlight) Label where
  initial watched := system.initial watched.1 ∧ watched.2 = none
  next watched label := (system.next watched.1 label).map fun successor =>
    (successor, InFlight.next pid watched.1 successor label watched.2)

/-- The child is at its printout. -/
def AtPrintout (state : State) (pid : Pid) : Prop :=
  ∃ child ∈ state.children pid, child.point = .print

/-- A child that was stopped and has no signal of that time left does not reach its printout. -/
def StaysSilent (pid : Pid) (watched : State × Option InFlight) : Prop :=
  watched.2 = some .settled → ∀ label successor, system.next watched.1 label = some successor →
    AtPrintout successor pid → AtPrintout watched.1 pid

section Quiet

/-- Nothing makes the child ask but a further `SIGUSR2`. -/
structure Child.Quiet (child : Child) : Prop where
  canPrint : child.canPrint = false
  asking : child.point.asking = false
  noStart : child.pending .usr2 = none

variable {child child' : Child} {signal : Signal}

/-- A child that may not print does not begin to ask. -/
theorem Child.step_asking (canPrint : child.canPrint = false)
    (asking : child.point.asking = false) : child.step.point.asking = false := by
  rcases child.updateFirst_eq with ⟨_, _, first⟩
  rcases child.updateSecond_eq with ⟨_, _, second⟩
  unfold step
  cases point : child.point <;> rw [point] at asking <;> simp [canPrint, nextRound] <;>
    first | rfl | cases asking

theorem quiet_forked : Child.forked.Quiet := ⟨rfl, rfl, rfl⟩

theorem Child.Quiet.step (quiet : child.Quiet) : child.step.Quiet where
  canPrint := by
    have asking := quiet.asking
    rw [step_canPrint]
    split
    · next denied =>
        rw [denied] at asking
        cases asking
    · exact quiet.canPrint
  asking := step_asking quiet.canPrint quiet.asking
  noStart := by rw [step_pending, quiet.noStart]

theorem Child.Quiet.queue (quiet : child.Quiet) (not_start : signal ≠ .usr2) :
    (child.queue signal).Quiet :=
  ⟨quiet.canPrint, quiet.asking, (Pending.queue_of_ne not_start.symm).trans quiet.noStart⟩

/-- The handler of `SIGUSR1` makes a child quiet that does not ask. -/
theorem quiet_of_stop (delivered : child.deliver .usr1 = some child')
    (silentFork : child.point = .fork → child.canPrint = false)
    (asking : child.point.asking = false) (noStart : child.pending .usr2 = none) :
    child'.Quiet := by
  rcases Child.deliver_eq_some delivered with ⟨point_eq, pending_eq, effect⟩
  refine ⟨?_, by rw [point_eq, asking], by rw [pending_eq, Pending.deliver_eq_none noStart]⟩
  rcases effect with ⟨canPrint_eq, -, fork | ⟨not_stop, -⟩⟩ | ⟨canPrint_eq, -⟩
  · rw [canPrint_eq, silentFork fork]
  · exact absurd rfl not_stop
  · exact canPrint_eq

theorem Child.Quiet.deliver (quiet : child.Quiet) (pends : (child.pending signal).isSome)
    (delivered : child.deliver signal = some child') : child'.Quiet := by
  rcases Child.deliver_eq_some delivered with ⟨point_eq, pending_eq, effect⟩
  refine ⟨?_, by rw [point_eq, quiet.asking],
    by rw [pending_eq, Pending.deliver_eq_none quiet.noStart]⟩
  rcases effect with ⟨canPrint_eq, -⟩ | ⟨canPrint_eq, -, -, rfl | rfl⟩
  · rw [canPrint_eq, quiet.canPrint]
  · exact canPrint_eq
  · rw [quiet.noStart] at pends
    cases pends

end Quiet

section Runs

/-- Neither the child nor the parent will make the child ask. -/
def Calm (state : State) (pid : Pid) : Prop :=
  ¬Requested state pid ∧ ∀ child ∈ state.children pid, child.Quiet

/-- A child does not print before `execl`. -/
def SilentFork (state : State) (pid : Pid) : Prop :=
  ∀ child ∈ state.children pid, child.point = .fork → child.canPrint = false

theorem silentFork_next (silent : SilentFork state pid)
    (taken : system.next state label = some successor) : SilentFork successor pid := by
  apply (change_next taken pid).keeps silent
  · exact fun _ => rfl
  · exact fun child _ fork => absurd fork child.step_point_ne
  · intro child child' signal _ before _ delivered fork
    rcases Child.deliver_eq_some delivered with ⟨point_eq, -, effect⟩
    rw [point_eq] at fork
    rcases effect with ⟨canPrint_eq, -⟩ | ⟨-, -, not_fork, -⟩
    · rw [canPrint_eq, before fork]
    · exact absurd fork not_fork
  · exact fun child _ _ before => before
  · exact fun child before => before

/-- A calm child stays calm until it is started. -/
theorem Calm.next (calm : Calm state pid) (taken : system.next state label = some successor)
    (not_started : ¬Starts state label pid) : Calm successor pid := by
  constructor
  · intro requested
    rcases requested_next taken requested with before | ⟨-, child, there, asks⟩
    · exact calm.1 before
    · have quiet := (calm.2 child there).asking
      rw [asks] at quiet
      cases quiet
  · apply (change_next taken pid).keeps calm.2 quiet_forked
    · exact fun child quiet => quiet.step
    · exact fun child child' signal _ quiet => quiet.deliver
    · intro child signal starts quiet
      apply quiet.queue
      intro is_start
      rcases starts is_start with ⟨-, handling⟩ | started
      · exact calm.1 (.inr handling)
      · exact not_started started
    · exact fun child quiet => ⟨quiet.canPrint, quiet.asking, quiet.noStart⟩

/-- A stop that is handled outside the handshake makes the child calm. -/
theorem calm_of_stop (silentFork : SilentFork state pid) (outside : OutsideHandshake state pid)
    (taken : system.next state (.deliver pid .usr1) = some successor) : Calm successor pid := by
  constructor
  · intro requested
    rcases requested_next taken requested with before | ⟨other, -⟩
    · exact outside.1 before
    · cases other
  · have change := change_next taken pid
    simp only [system, Option.bind_eq_some_iff, Option.ite_none_right_eq_some,
      Option.some.injEq] at taken
    rcases taken with ⟨child, there, -, rfl⟩
    intro child' there'
    unfold State.childDeliver at there'
    cases delivered : child.deliver .usr1 with
    | none =>
        rw [delivered] at there'
        simp only [State.childEnds, children_signalParent, Function.update_self] at there'
        cases there'
    | some handled =>
        rw [delivered] at there'
        simp only [Function.update_self] at there'
        cases there'
        rcases outside.2 child there with default | ⟨asking, noStart⟩
        · simp [Child.deliver, Child.handle, default] at delivered
        · exact quiet_of_stop delivered (silentFork child there) asking noStart

/-- Once a stop of the child is handled, the child is calm until it is started. -/
structure Watching (pid : Pid) (watched : State × Option InFlight) : Prop where
  silentFork : SilentFork watched.1 pid
  calm : ∀ inFlight ∈ watched.2, inFlight.stop = false → Calm watched.1 pid

/-- A stop that is handled after a step is delivered by it or was handled before. -/
theorem InFlight.next_eq_some {watched : Option InFlight} {left : InFlight}
    (there : InFlight.next pid state successor label watched = some left)
    (handled : left.stop = false) :
    label = .deliver pid .usr1 ∨
      ∃ before ∈ watched, before.stop = false ∧ ¬Starts state label pid := by
  have unstarted (not_start : ∀ index, label ≠ .command (.start index)) :
      ¬Starts state label pid := fun ⟨index, start, _⟩ => not_start index start
  cases label with
  | command command =>
      cases command with
      | stop index =>
          simp only [InFlight.next] at there
          split at there
          · cases there
            cases handled
          · exact .inr ⟨left, there, handled, unstarted (by simp)⟩
      | start index =>
          simp only [InFlight.next] at there
          split at there
          · cases there
          · next elsewhere =>
              refine .inr ⟨left, there, handled, ?_⟩
              rintro ⟨other, same, here⟩
              cases same
              exact elsewhere here
      | create | deleteLast | list | deleteAll | quit | invalid =>
          exact .inr ⟨left, there, handled, unstarted (by simp)⟩
  | deliver other signal =>
      simp only [InFlight.next] at there
      split at there
      · next same =>
          subst same
          rcases Option.map_eq_some_iff.mp there with ⟨before, before_mem, rfl⟩
          cases signal with
          | usr1 => exact .inl rfl
          | usr2 | chld | alrm | term =>
              exact .inr ⟨before, before_mem, handled, unstarted (by simp)⟩
      · exact .inr ⟨left, there, handled, unstarted (by simp)⟩
  | resume =>
      simp only [InFlight.next] at there
      split at there
      · rcases Option.map_eq_some_iff.mp there with ⟨before, before_mem, rfl⟩
        exact .inr ⟨before, before_mem, handled, unstarted (by simp)⟩
      · exact .inr ⟨left, there, handled, unstarted (by simp)⟩
  | interrupt | child | ring | execFails =>
      exact .inr ⟨left, there, handled, unstarted (by simp)⟩

theorem Watching.next {watched successor : State × Option InFlight}
    (watching : Watching pid watched) (permitted : StopsOutside pid watched.1 label)
    (taken : (watchedSystem pid).next watched label = some successor) :
    Watching pid successor := by
  rcases watched with ⟨state, inFlight⟩
  simp only [watchedSystem, Option.map_eq_some_iff] at taken
  rcases taken with ⟨state', taken, rfl⟩
  refine ⟨silentFork_next watching.silentFork taken, ?_⟩
  intro left there handled
  rcases InFlight.next_eq_some there handled with rfl | ⟨before, before_mem, stopped, unstarted⟩
  · exact calm_of_stop watching.silentFork (permitted rfl) taken
  · exact (watching.calm before before_mem stopped).next taken unstarted

/-- A child that is stopped outside its handshake only stays silent when it is stopped. -/
theorem staysSilent_of_reachable {watched : State × Option InFlight}
    (reached : (watchedSystem pid).ReachableUnder
      (fun watched label => StopsOutside pid watched.1 label) watched) :
    StaysSilent pid watched := by
  have watching : Watching pid watched := by
    apply reached.invariant
    · rintro ⟨state, inFlight⟩ ⟨rfl, rfl⟩
      refine ⟨fun child there => ?_, fun inFlight there => ?_⟩
      · cases there
      · cases there
    · exact fun _ _ _ watching permitted taken => watching.next permitted taken
  rintro settled label successor taken ⟨child', there', prints⟩
  have calm := watching.calm _ settled rfl
  have change := change_next taken pid
  rw [there'] at change
  generalize there : watched.1.children pid = before at change
  cases change with
  | kept => exact ⟨child', there, prints⟩
  | born => cases prints
  | @stepped child =>
      have quiet := calm.2 child there
      have canPrint := (Child.step_print prints).2
      rw [quiet.canPrint] at canPrint
      cases canPrint
  | @delivered child _ _ _ _ handled =>
      exact ⟨child, there, (Child.deliver_eq_some handled).1 ▸ prints⟩
  | @queued child => exact ⟨child, there, prints⟩
  | @rang child => exact ⟨child, there, prints⟩

end Runs

instance (state : State) (pid : Pid) : Decidable (Requested state pid) :=
  inferInstanceAs (Decidable (_ ∨ _))

instance (state : State) (pid : Pid) : Decidable (OutsideHandshake state pid) :=
  inferInstanceAs (Decidable (_ ∧ ∀ child ∈ state.children pid, _ ∨ _ ∧ _))

instance (pid : Pid) (state : State) (label : Label) : Decidable (StopsOutside pid state label) :=
  inferInstanceAs (Decidable (_ → _))

/-- A child is started and stopped before it has asked. -/
def stopEarly : List Label :=
  List.flatten [[.command (.create (some 1))], List.replicate 5 (.child 1),
    [.command (.start 0), .deliver 1 .usr2, .child 1, .command (.stop 0), .deliver 1 .usr1]]

theorem staysSilent_stopEarly :
    ∃ watched, ((watchedSystem 1).restrict fun watched label =>
        decide (StopsOutside 1 watched.1 label)).run (launched, none) stopEarly = some watched ∧
      watched.2 = some .settled ∧ StaysSilent 1 watched := by
  have ran : (((watchedSystem 1).restrict fun watched label =>
      decide (StopsOutside 1 watched.1 label)).run (launched, none) stopEarly).map Prod.snd =
        some (some .settled) := by
    decide +kernel
  rcases Option.map_eq_some_iff.mp ran with ⟨watched, ran, settled⟩
  refine ⟨watched, ran, settled, staysSilent_of_reachable ?_⟩
  have start : (watchedSystem 1).initial (launched, none) := ⟨rfl, rfl⟩
  have reached : (watchedSystem 1).ReachableUnder
      (fun watched label => decide (StopsOutside 1 watched.1 label) = true) watched :=
    System.Reachable.of_restrict (System.Reachable.of_run (.start start) ran)
  exact reached.mono fun _ _ _ permitted => of_decide_eq_true permitted

/-- A child is stopped when it is about to ask, and asks again in its seventh round. -/
def stopAsking : List Label :=
  List.flatten [[.command (.create (some 1))], List.replicate 5 (.child 1),
    [.command (.start 0), .deliver 1 .usr2], List.replicate 35 (.child 1),
    [.command (.stop 0), .deliver 1 .usr1], List.replicate 38 (.child 1),
    [.interrupt .usr1, .resume, .deliver 1 .usr2], List.replicate 3 (.child 1)]

theorem not_staysSilent_stopAsking :
    ¬ ∀ pid (watched : State × Option InFlight),
      (watchedSystem pid).Reachable watched → StaysSilent pid watched := by
  intro claimed
  have ran : ((watchedSystem 1).run (launched, none) stopAsking).map (fun watched =>
      (watched.2, (watched.1.children 1).map fun child => (child.point, child.canPrint))) =
        some (some .settled, some (.testDenied, true)) := by
    decide +kernel
  rcases Option.map_eq_some_iff.mp ran with ⟨watched, ran, found⟩
  simp only [Prod.mk.injEq, Option.map_eq_some_iff] at found
  rcases found with ⟨settled, child, there, point⟩
  have start : (watchedSystem 1).initial (launched, none) := ⟨rfl, rfl⟩
  have taken : system.next watched.1 (.child 1) = some (watched.1.childStep 1 child) :=
    congrArg (Option.map _) there
  have silent := claimed 1 watched (System.Reachable.of_run (.start start) ran) settled _ _ taken
  have step : child.step = { child with point := .print } := by
    rw [Child.step, point.1]
    exact if_pos point.2
  have reaches : (watched.1.childStep 1 child).children 1 = some child.step := by
    unfold State.childStep
    cases child.point.sends <;> simp
  rcases silent ⟨child.step, reaches, by rw [step]⟩ with ⟨child', there', prints⟩
  rw [there] at there'
  cases there'
  rw [point.1] at prints
  cases prints

end Osis.Lab03
