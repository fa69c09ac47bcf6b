import Osis.Lab03.Parent

/-!
# What one step does to one child

A step moves one child, or delivers or queues a signal for some of them. `SIGUSR2` is queued
by the parent's answer to a request and by `StartChild` only, and a request in flight comes
from its child.
-/

namespace Osis.Lab03

open Concurrency

variable {state successor : State} {label : Label} {pid : Pid}

/-- The parent answers a request of the child. -/
def Grants (state : State) (label : Label) (pid : Pid) : Prop :=
  label = .resume ∧ state.handling = some (.usr1, pid)

/-- `StartChild` is executed for the child. -/
def Starts (state : State) (label : Label) (pid : Pid) : Prop :=
  ∃ index, label = .command (.start index) ∧ state.At index pid

/-- What a step may make of a child. -/
inductive Change (state : State) (label : Label) (pid : Pid) :
    Option Child → Option Child → Prop where
  | kept {child : Option Child} : Change state label pid child child
  | born (creates : label = .command (.create (some pid))) :
      Change state label pid none (some .forked)
  | stepped {child : Child} (moves : label = .child pid) :
      Change state label pid (some child) (some child.step)
  | delivered {child : Child} {child' : Option Child} {signal : Signal}
      (delivers : label = .deliver pid signal) (pends : (child.pending signal).isSome)
      (handled : child.deliver signal = child') : Change state label pid (some child) child'
  | ended {child : Child} : Change state label pid (some child) none
  | queued {child : Child} {signal : Signal}
      (starts : signal = .usr2 → Grants state label pid ∨ Starts state label pid) :
      Change state label pid (some child) (some (child.queue signal))
  | rang {child : Child} :
      Change state label pid (some child) (some { child.queue .alrm with alarm := false })

section Keeping

variable {before after : Option Child} {holds : Child → Prop}

/-- What holds of a new child and is kept by steps, deliveries and queued signals is kept. -/
theorem Change.keeps (change : Change state label pid before after)
    (held : ∀ child ∈ before, holds child) (born : holds .forked)
    (step : ∀ child, holds child → holds child.step)
    (deliver : ∀ child child' signal, label = .deliver pid signal → holds child →
      (child.pending signal).isSome → child.deliver signal = some child' → holds child')
    (queue : ∀ child signal, (signal = .usr2 → Grants state label pid ∨ Starts state label pid) →
      holds child → holds (child.queue signal))
    (ring : ∀ child, holds child → holds { child with alarm := false }) :
    ∀ child ∈ after, holds child := by
  intro child there
  cases change with
  | kept => exact held child there
  | born =>
      cases there
      exact born
  | @stepped before =>
      cases there
      exact step before (held before rfl)
  | @delivered before after signal delivers pends handled =>
      exact deliver before child signal delivers (held before rfl) pends (handled.trans there)
  | ended => cases there
  | @queued before signal starts =>
      cases there
      exact queue before signal starts (held before rfl)
  | @rang before =>
      cases there
      exact ring _ (queue before .alrm (by simp) (held before rfl))

end Keeping

section Children

/-- A step that updates another child, or this one by a change. -/
theorem change_update {other : Pid} {child child' : Option Child}
    (there : state.children other = child)
    (change : other = pid → Change state label pid child child') :
    Change state label pid (state.children pid)
      (Function.update state.children other child' pid) := by
  by_cases same : pid = other
  · subst same
    rw [Function.update_self, there]
    exact change rfl
  · rw [Function.update_of_ne same]
    exact .kept

theorem change_signalChild {other : Pid} {signal : Signal}
    (starts : signal = .usr2 → other = pid → Grants state label pid ∨ Starts state label pid) :
    Change state label pid (state.children pid)
      ((state.signalChild other signal).children pid) := by
  apply change_update rfl
  intro same
  cases state.children other with
  | none => exact .kept
  | some child => exact .queued fun is_start => starts is_start same

@[simp]
theorem children_signalParent (signal : Signal) (value : Pid) :
    (state.signalParent signal value).children = state.children := by
  unfold State.signalParent
  split <;> rfl

theorem change_childEnds {other : Pid} {child : Child} (there : state.children other = some child) :
    Change state label pid (state.children pid) ((state.childEnds other).children pid) := by
  rw [State.childEnds, children_signalParent]
  exact change_update there fun _ => .ended

theorem Child.queue_queue (child : Child) (signal : Signal) :
    (child.queue signal).queue signal = child.queue signal := by
  simp [Child.queue, Pending.queue_queue]

theorem deleteLastChild_children (state : State) (pid : Pid) :
    state.deleteLastChild.children pid = state.children pid ∨
      state.deleteLastChild.children pid =
        (state.children pid).map fun child => child.queue .term := by
  unfold State.deleteLastChild
  cases state.childProcesses.getLast? with
  | none => exact .inl rfl
  | some info =>
      by_cases same : pid = info.pid
      · subst same
        exact .inr (Function.update_self ..)
      · exact .inl (Function.update_of_ne same ..)

/-- `DeleteAllChild` queues `SIGTERM` for a child or leaves it alone. -/
theorem deleteAllChild_children (state : State) (pid : Pid) :
    state.deleteAllChild.children pid = state.children pid ∨
      state.deleteAllChild.children pid =
        (state.children pid).map fun child => child.queue .term := by
  unfold State.deleteAllChild
  induction state.childProcesses.length generalizing state with
  | zero => exact .inl rfl
  | succ count ih =>
      rw [Function.iterate_succ_apply]
      rcases deleteLastChild_children state pid with first | first <;>
        rcases ih state.deleteLastChild with later | later <;> rw [later, first]
      · exact .inl rfl
      · exact .inr rfl
      · exact .inr rfl
      · right
        cases state.children pid with
        | none => rfl
        | some child => simp [Child.queue_queue]

theorem change_of_terminated {child' : Option Child}
    (terminated : child' = state.children pid ∨
      child' = (state.children pid).map fun child => child.queue .term) :
    Change state label pid (state.children pid) child' := by
  rcases terminated with rfl | rfl
  · exact .kept
  · cases state.children pid with
    | none => exact .kept
    | some child => exact .queued (by simp)

theorem change_execute {command : Command} (label_eq : label = .command command)
    (possible : state.Possible command) :
    Change state label pid (state.children pid) ((state.execute command).children pid) := by
  cases command with
  | create forked =>
      cases forked with
      | none => exact .kept
      | some other =>
          exact change_update (Option.isNone_iff_eq_none.mp possible.2.1) fun same =>
            .born (by rw [label_eq, same])
  | deleteLast => exact change_of_terminated (deleteLastChild_children state pid)
  | list => exact .kept
  | deleteAll => exact change_of_terminated (deleteAllChild_children state pid)
  | stop index =>
      simp only [State.execute, State.stopChild]
      cases state.childProcesses[index]? with
      | none => exact .kept
      | some info => exact change_signalChild (by simp)
  | start index =>
      simp only [State.execute, State.startChild]
      cases entry : state.childProcesses[index]? with
      | none => exact .kept
      | some info =>
          apply change_signalChild
          intro _ same
          refine .inr ⟨index, label_eq, ?_⟩
          rw [State.At, entry, Option.map_some, same]
  | quit => exact change_of_terminated (deleteAllChild_children state pid)
  | invalid => exact .kept

/-- Every step makes one of the changes. -/
theorem change_next (taken : system.next state label = some successor) (pid : Pid) :
    Change state label pid (state.children pid) (successor.children pid) := by
  cases label with
  | command command =>
      simp only [system, Option.ite_none_right_eq_some, Option.some.injEq] at taken
      rcases taken with ⟨⟨-, possible⟩, rfl⟩
      exact change_execute rfl possible
  | interrupt signal =>
      simp only [system, Option.ite_none_right_eq_some, Option.map_eq_some_iff] at taken
      rcases taken with ⟨-, value, -, rfl⟩
      exact .kept
  | resume =>
      simp only [system, Option.map_eq_some_iff] at taken
      rcases taken with ⟨⟨signo, childPid⟩, handling, rfl⟩
      cases signo with
      | usr1 =>
          apply change_signalChild
          intro _ same
          exact .inl ⟨rfl, same ▸ handling⟩
      | usr2 | chld | alrm | term => exact .kept
  | child other =>
      simp only [system, Option.map_eq_some_iff] at taken
      rcases taken with ⟨child, there, rfl⟩
      have moved : Change state (.child other) pid (state.children pid)
          (Function.update state.children other (some child.step) pid) :=
        change_update there fun same => .stepped (by rw [same])
      unfold State.childStep
      cases child.point.sends with
      | none => exact moved
      | some signal =>
          simp only [children_signalParent]
          exact moved
  | deliver other signal =>
      simp only [system, Option.bind_eq_some_iff, Option.ite_none_right_eq_some,
        Option.some.injEq] at taken
      rcases taken with ⟨child, there, pends, rfl⟩
      unfold State.childDeliver
      cases delivered : child.deliver signal with
      | none => exact change_childEnds there
      | some handled =>
          apply change_update there
          intro same
          exact .delivered (by rw [same]) pends delivered
  | ring other =>
      simp only [system, Option.bind_eq_some_iff, Option.ite_none_right_eq_some,
        Option.some.injEq] at taken
      rcases taken with ⟨child, there, -, rfl⟩
      exact change_update there fun _ => .rang
  | execFails other =>
      simp only [system, Option.bind_eq_some_iff, Option.ite_none_right_eq_some,
        Option.some.injEq] at taken
      rcases taken with ⟨child, there, -, rfl⟩
      exact change_childEnds there

/-- A pid has no child before it is created. -/
theorem absent_next (taken : system.next state label = some successor)
    (absent : state.children pid = none) (not_created : label ≠ .command (.create (some pid))) :
    successor.children pid = none := by
  have change := change_next taken pid
  rw [absent] at change
  generalize successor.children pid = after at change
  cases change with
  | kept => rfl
  | born creates => exact absurd creates not_created

end Children

section Requests

/-- A request of the child is pending in the parent, or its handler runs. -/
def Requested (state : State) (pid : Pid) : Prop :=
  state.pending .usr1 = some pid ∨ state.handling = some (.usr1, pid)

theorem deleteLastChild_requested (state : State) :
    Requested state.deleteLastChild pid ↔ Requested state pid := by
  unfold State.deleteLastChild
  cases state.childProcesses.getLast? <;> rfl

theorem deleteAllChild_requested (state : State) :
    Requested state.deleteAllChild pid ↔ Requested state pid := by
  unfold State.deleteAllChild
  induction state.childProcesses.length generalizing state with
  | zero => rfl
  | succ count ih =>
      rw [Function.iterate_succ_apply, ih, deleteLastChild_requested]

theorem execute_requested (state : State) (command : Command) :
    Requested (state.execute command) pid ↔ Requested state pid := by
  cases command with
  | create forked => cases forked <;> rfl
  | deleteLast => exact deleteLastChild_requested state
  | deleteAll => exact deleteAllChild_requested state
  | quit => exact deleteAllChild_requested state
  | list | invalid => rfl
  | stop index =>
      simp only [State.execute, State.stopChild]
      cases state.childProcesses[index]? <;> rfl
  | start index =>
      simp only [State.execute, State.startChild]
      cases state.childProcesses[index]? <;> rfl

/-- A signal to the parent is no request, or that of its sender. -/
theorem signalParent_requested {signal : Signal} {value : Pid}
    (requested : Requested (state.signalParent signal value) pid) :
    Requested state pid ∨ signal = .usr1 ∧ value = pid := by
  unfold State.signalParent at requested
  split at requested
  · exact .inl requested
  · rcases requested with pends | handled
    · rcases Pending.queue_eq_some pends with before | ⟨is_request, is_pid⟩
      · exact .inl (.inl before)
      · exact .inr ⟨is_request.symm, is_pid.symm⟩
    · exact .inl (.inr handled)

theorem childEnds_requested {other : Pid} (requested : Requested (state.childEnds other) pid) :
    Requested state pid := by
  rcases signalParent_requested requested with before | ⟨is_request, -⟩
  · exact before
  · cases is_request

theorem handleSignal_pending (signo : Signal) (value : Pid) :
    (state.handleSignal signo value).pending = state.pending := by
  cases signo <;> rfl

/-- A request in flight was so before, or its child has just sent it. -/
theorem requested_next (taken : system.next state label = some successor)
    (requested : Requested successor pid) :
    Requested state pid ∨
      label = .child pid ∧ ∃ child, state.children pid = some child ∧ child.point = .request := by
  cases label with
  | command command =>
      simp only [system, Option.ite_none_right_eq_some, Option.some.injEq] at taken
      rcases taken with ⟨-, rfl⟩
      exact .inl ((execute_requested state command).mp requested)
  | interrupt signal =>
      simp only [system, Option.ite_none_right_eq_some, Option.map_eq_some_iff] at taken
      rcases taken with ⟨-, value, pends, rfl⟩
      rcases requested with still | handled
      · exact .inl (.inl (Pending.deliver_eq_some still))
      · simp only [Option.some.injEq, Prod.mk.injEq] at handled
        rcases handled with ⟨rfl, rfl⟩
        exact .inl (.inl pends)
  | resume =>
      simp only [system, Option.map_eq_some_iff] at taken
      rcases taken with ⟨⟨signo, childPid⟩, -, rfl⟩
      rcases requested with pends | handled
      · simp only [handleSignal_pending] at pends
        exact .inl (.inl pends)
      · cases handled
  | child other =>
      simp only [system, Option.map_eq_some_iff] at taken
      rcases taken with ⟨child, there, rfl⟩
      unfold State.childStep at requested
      cases sends : child.point.sends with
      | none =>
          rw [sends] at requested
          exact .inl requested
      | some signal =>
          rw [sends] at requested
          rcases signalParent_requested requested with before | ⟨rfl, rfl⟩
          · exact .inl before
          · refine .inr ⟨rfl, child, there, ?_⟩
            cases point : child.point <;> simp [point, Point.sends] at sends ⊢
  | deliver other signal =>
      simp only [system, Option.bind_eq_some_iff, Option.ite_none_right_eq_some,
        Option.some.injEq] at taken
      rcases taken with ⟨child, -, -, rfl⟩
      unfold State.childDeliver at requested
      cases delivered : child.deliver signal with
      | none =>
          rw [delivered] at requested
          exact .inl (childEnds_requested requested)
      | some handled =>
          rw [delivered] at requested
          exact .inl requested
  | ring other =>
      simp only [system, Option.bind_eq_some_iff, Option.ite_none_right_eq_some,
        Option.some.injEq] at taken
      rcases taken with ⟨child, -, -, rfl⟩
      exact .inl requested
  | execFails other =>
      simp only [system, Option.bind_eq_some_iff, Option.ite_none_right_eq_some,
        Option.some.injEq] at taken
      rcases taken with ⟨child, -, -, rfl⟩
      exact .inl (childEnds_requested requested)

end Requests

end Osis.Lab03
