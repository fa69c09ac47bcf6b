import Osis.Lab03.Changes

/-!
# Whose turn it is to print

The parent answers every request at once and only reports the notices with which children
end their output, so that two children that ask at the same time print at the same time. At
most one child has its turn in a run in which a child that asks comes to have a `SIGUSR2` for
its answer only while no other one has its turn or this signal pending for its answer. A
`SIGUSR2` for a child that does not ask, such as the one that starts it, is free.
-/

namespace Osis.Lab03

open Concurrency

variable {state successor : State} {label : Label} {pid : Pid} {child child' : Child}

/-- From the clearing of `received_signal` to the last test. -/
def Point.cleared : Point → Bool
  | .testCanPrint | .alarmOff | .testReceived | .request | .await | .alarmOn | .testDenied => true
  | _ => false

/-- The child takes a signal for the answer to its request: from the seventh round on. -/
def Child.Asks (child : Child) : Prop :=
  child.point.cleared = true ∧ (child.point = .testCanPrint → 6 ≤ child.i)

/-- The child prints without a further signal, or has printed and not sent its notice. -/
def Child.Permitted (child : Child) : Prop :=
  child.point = .print ∨ child.point = .finish ∨
    child.Asks ∧ child.receivedSignal = true ∧ child.canPrint = true

/-- The child has its turn: `SIGUSR2` has let it print, and its notice is not sent. -/
def InTurn (state : State) (pid : Pid) : Prop :=
  ∃ child ∈ state.children pid, child.Permitted ∧ child.point ≠ .testCanPrint

/-- At most one child has its turn. -/
def Serialised (state : State) : Prop :=
  ∀ first second, InTurn state first → InTurn state second → first = second

/-- The child has a grant for its request, received or pending. -/
def HasGrant (state : State) (pid : Pid) : Prop :=
  ∃ child ∈ state.children pid, child.Asks ∧ (child.pending .usr2).isSome ∨ child.Permitted

/-- The parent queues `SIGUSR2` for the child, as an answer or to start it. -/
def Queues (state : State) (label : Label) (pid : Pid) : Prop :=
  Grants state label pid ∨ Starts state label pid

/--
The child comes to have a `SIGUSR2` for its request: one is queued while it asks, or one that
came earlier is still pending when it begins to ask.
-/
def TakesGrant (state : State) (label : Label) (pid : Pid) : Prop :=
  ∃ child ∈ state.children pid,
    child.Asks ∧ Queues state label pid ∨
      label = .child pid ∧ child.point = .clearReceived ∧ 6 ≤ child.i ∧
        (child.pending .usr2).isSome

/-- A child comes to have a grant for its request only while no other one has a grant. -/
def GrantsAlone (state : State) (label : Label) : Prop :=
  ∀ pid, TakesGrant state label pid → ∀ other, HasGrant state other → other = pid

section Asking

/-- A child begins to ask when it clears `received_signal` in its seventh round or later. -/
theorem Child.Asks.of_step (asks : child.step.Asks) :
    child.Asks ∨ child.point = .clearReceived ∧ 6 ≤ child.i := by
  rcases asks with ⟨cleared, late⟩
  unfold step at cleared late
  cases point : child.point <;> simp only [point] at cleared late <;>
    try exact Bool.noConfusion cleared
  case clearReceived => exact .inr ⟨rfl, late trivial⟩
  case testCanPrint =>
    split at cleared
    · next both => exact .inl ⟨by rw [point]; rfl, fun _ => both.1⟩
    · exact Bool.noConfusion cleared
  all_goals exact .inl ⟨by rw [point]; rfl, by rw [point]; exact Point.noConfusion⟩

/-- A signal does not change whether a child asks. -/
theorem Child.asks_of_deliver {signal : Signal} (delivered : child.deliver signal = some child') :
    child'.Asks ↔ child.Asks := by
  unfold Asks
  rw [(Child.deliver_eq_some delivered).1, Child.deliver_i delivered]

end Asking

section Permission

/-- The child leaves its loop of requests with an answer. -/
def Child.Answered (child : Child) : Prop :=
  child.point = .alarmOn ∨ child.point = .testDenied → child.receivedSignal = true

theorem Child.Answered.step (answered : child.Answered) : child.step.Answered := by
  intro past
  rw [step_receivedSignal]
  unfold Child.step at past
  cases point : child.point <;> simp only [point, nextRound] at past <;> try simp at past
  case testCanPrint => split at past <;> simp at past
  case testReceived =>
    split at past
    · next received => simpa using received
    · simp at past
  case alarmOn => simpa using answered (.inl point)
  case testDenied => split at past <;> simp at past

theorem Child.Answered.deliver {signal : Signal} (answered : child.Answered)
    (delivered : child.deliver signal = some child') : child'.Answered := by
  rcases Child.deliver_eq_some delivered with ⟨point_eq, -, effect⟩
  intro past
  rw [point_eq] at past
  rcases effect with ⟨-, received_eq, -⟩ | ⟨-, received, -⟩
  · rw [received_eq, answered past]
  · exact received

/-- Steps do not give a child its turn. -/
theorem Child.Permitted.of_step (permitted : child.step.Permitted) (answered : child.Answered) :
    child.Permitted := by
  rcases permitted with prints | finishes | ⟨asks, received, canPrint⟩
  · rcases Child.step_print prints with ⟨point, canPrint⟩
    have asks : child.Asks := ⟨by rw [point]; rfl, by rw [point]; exact Point.noConfusion⟩
    exact .inr (.inr ⟨asks, answered (.inr point), canPrint⟩)
  · unfold step at finishes
    cases point : child.point <;> simp only [point, nextRound] at finishes <;>
      try exact Point.noConfusion finishes
    case print => exact .inl point
    all_goals split at finishes <;> exact Point.noConfusion finishes
  · rw [step_receivedSignal] at received
    rw [step_canPrint] at canPrint
    rcases asks.of_step with asks | ⟨point, -⟩
    · have not_clearing : child.point ≠ .clearReceived := by
        intro point
        have cleared := asks.1
        rw [point] at cleared
        exact Bool.noConfusion cleared
      have not_denied : child.point ≠ .denied := by
        intro point
        have cleared := asks.1
        rw [point] at cleared
        exact Bool.noConfusion cleared
      rw [if_neg not_clearing] at received
      rw [if_neg not_denied] at canPrint
      exact .inr (.inr ⟨asks, received, canPrint⟩)
    · rw [if_pos point] at received
      cases received

/-- Only a `SIGUSR2` for a child that asks gives it its turn. -/
theorem Child.Permitted.of_deliver {signal : Signal} (permitted : child'.Permitted)
    (delivered : child.deliver signal = some child') :
    signal = .usr2 ∧ child.Asks ∨ child.Permitted := by
  rcases Child.deliver_eq_some delivered with ⟨point_eq, -, effect⟩
  unfold Permitted at permitted ⊢
  rw [point_eq, Child.asks_of_deliver delivered] at permitted
  rcases effect with ⟨canPrint_eq, received_eq, -⟩ | ⟨canPrint_eq, -, -, rfl | rfl⟩
  · rw [canPrint_eq, received_eq] at permitted
    exact .inr permitted
  · rcases permitted with prints | finishes | ⟨-, -, canPrint⟩
    · exact .inr (.inl prints)
    · exact .inr (.inr (.inl finishes))
    · rw [canPrint_eq] at canPrint
      cases canPrint
  · rcases permitted with prints | finishes | ⟨asks, -, -⟩
    · exact .inr (.inl prints)
    · exact .inr (.inr (.inl finishes))
    · exact .inl ⟨rfl, asks⟩

end Permission

section Runs

/-- Every child that is past its loop of requests has had an answer. -/
def AllAnswered (state : State) : Prop := ∀ pid, ∀ child ∈ state.children pid, child.Answered

theorem allAnswered_next (answered : AllAnswered state)
    (taken : system.next state label = some successor) : AllAnswered successor := by
  intro pid
  apply (change_next taken pid).keeps (answered pid)
  · rintro (past | past) <;> cases past
  · exact fun child answered => answered.step
  · exact fun child child' signal _ answered _ delivered => answered.deliver delivered
  · exact fun child signal _ answered => answered
  · exact fun child answered => answered

/-- A grant is had before, or the child comes to have it by the step. -/
theorem hasGrant_next (answered : AllAnswered state)
    (taken : system.next state label = some successor) (granted : HasGrant successor pid) :
    HasGrant state pid ∨ TakesGrant state label pid := by
  rcases granted with ⟨child', there', granted⟩
  have change := change_next taken pid
  rw [there'] at change
  generalize there : state.children pid = before at change
  cases change with
  | kept => exact .inl ⟨child', there, granted⟩
  | born =>
      rcases granted with ⟨asks, -⟩ | prints | finishes | ⟨asks, -⟩
      · cases asks.1
      · cases prints
      · cases finishes
      · cases asks.1
  | @stepped child moves =>
      rcases granted with ⟨asks, pends⟩ | permitted
      · rw [Child.step_pending] at pends
        rcases asks.of_step with asks | ⟨clears, late⟩
        · exact .inl ⟨child, there, .inl ⟨asks, pends⟩⟩
        · exact .inr ⟨child, there, .inr ⟨moves, clears, late, pends⟩⟩
      · exact .inl ⟨child, there, .inr (permitted.of_step (answered pid child there))⟩
  | @delivered child _ signal _ pends delivered =>
      refine .inl ⟨child, there, ?_⟩
      rcases granted with ⟨asks, pends'⟩ | permitted
      · rw [(Child.deliver_eq_some delivered).2.1] at pends'
        rcases Option.isSome_iff_exists.mp pends' with ⟨value, pends'⟩
        have before := Option.isSome_iff_exists.mpr ⟨value, Pending.deliver_eq_some pends'⟩
        exact .inl ⟨(Child.asks_of_deliver delivered).mp asks, before⟩
      · rcases permitted.of_deliver delivered with ⟨rfl, asks⟩ | permitted
        · exact .inl ⟨asks, pends⟩
        · exact .inr permitted
  | @queued child signal starts =>
      rcases granted with ⟨asks, pends⟩ | permitted
      · rcases Option.isSome_iff_exists.mp pends with ⟨value, pends⟩
        rcases Pending.queue_eq_some pends with before | ⟨is_start, -⟩
        · have before := Option.isSome_iff_exists.mpr ⟨value, before⟩
          exact .inl ⟨child, there, .inl ⟨asks, before⟩⟩
        · exact .inr ⟨child, there, .inl ⟨asks, starts is_start.symm⟩⟩
      · exact .inl ⟨child, there, .inr permitted⟩
  | @rang child =>
      refine .inl ⟨child, there, ?_⟩
      rcases granted with ⟨asks, pends⟩ | permitted
      · have not_alarm : Signal.usr2 ≠ .alrm := Signal.noConfusion
        have queued : child.pending.queue .alrm 0 .usr2 = child.pending .usr2 :=
          Pending.queue_of_ne not_alarm
        exact .inl ⟨asks, queued ▸ pends⟩
      · exact .inr permitted

/-- A step queues `SIGUSR2` for one child. -/
theorem queues_unique {first second : Pid} (queues : Queues state label first)
    (queues' : Queues state label second) : first = second := by
  rcases queues with ⟨rfl, handling⟩ | ⟨index, rfl, here⟩
  · rcases queues' with ⟨-, handling'⟩ | ⟨_, start, -⟩
    · rw [handling] at handling'
      cases handling'
      rfl
    · cases start
  · rcases queues' with ⟨resume, -⟩ | ⟨_, start, here'⟩
    · cases resume
    · cases start
      rw [State.At, here] at here'
      cases here'
      rfl

/-- A step of a child queues nothing for a child. -/
theorem not_queues_child {other : Pid} : ¬ Queues state (.child other) pid := by
  rintro (⟨resume, -⟩ | ⟨_, start, -⟩)
  · cases resume
  · cases start

/-- In a step one child at most comes to have a grant. -/
theorem takesGrant_unique {first second : Pid} (takes : TakesGrant state label first)
    (takes' : TakesGrant state label second) : first = second := by
  rcases takes with ⟨_, -, ⟨-, queues⟩ | ⟨rfl, -⟩⟩ <;>
    rcases takes' with ⟨_, -, ⟨-, queues'⟩ | ⟨moves', -⟩⟩
  · exact queues_unique queues queues'
  · subst moves'
    exact absurd queues not_queues_child
  · exact absurd queues' not_queues_child
  · cases moves'
    rfl

/-- One child at most has a grant. -/
structure OneGrant (state : State) : Prop where
  answered : AllAnswered state
  unique : ∀ first second, HasGrant state first → HasGrant state second → first = second

theorem OneGrant.next (oneGrant : OneGrant state) (permitted : GrantsAlone state label)
    (taken : system.next state label = some successor) : OneGrant successor := by
  refine ⟨allAnswered_next oneGrant.answered taken, ?_⟩
  intro first second granted granted'
  rcases hasGrant_next oneGrant.answered taken granted with before | takes
  · rcases hasGrant_next oneGrant.answered taken granted' with before' | takes'
    · exact oneGrant.unique first second before before'
    · exact permitted second takes' first before
  · rcases hasGrant_next oneGrant.answered taken granted' with before' | takes'
    · exact (permitted first takes second before').symm
    · exact takesGrant_unique takes takes'

/-- If no child that asks gets a grant while another has one, one at a time has its turn. -/
theorem serialised_of_reachable (reached : system.ReachableUnder GrantsAlone state) :
    Serialised state := by
  have oneGrant : OneGrant state := by
    apply reached.invariant
    · rintro state rfl
      refine ⟨fun pid child there => ?_, fun first second granted => ?_⟩
      · cases there
      · rcases granted with ⟨child, there, -⟩
        cases there
    · exact fun _ _ _ oneGrant permitted taken => oneGrant.next permitted taken
  rintro first second ⟨child, there, permitted, -⟩ ⟨child', there', permitted', -⟩
  exact oneGrant.unique first second ⟨child, there, .inr permitted⟩
    ⟨child', there', .inr permitted'⟩

end Runs

instance (child : Child) : Decidable child.Asks := inferInstanceAs (Decidable (_ ∧ (_ → _)))

instance (child : Child) : Decidable child.Permitted :=
  inferInstanceAs (Decidable (_ ∨ _ ∨ _ ∧ _ ∧ _))

instance (state : State) (pid : Pid) : Decidable (InTurn state pid) :=
  inferInstanceAs (Decidable (∃ child ∈ state.children pid, _ ∧ _))

instance (state : State) (pid : Pid) : Decidable (HasGrant state pid) :=
  inferInstanceAs (Decidable (∃ child ∈ state.children pid, _ ∧ _ ∨ _))

instance (state : State) (label : Label) (pid : Pid) : Decidable (Grants state label pid) :=
  inferInstanceAs (Decidable (_ ∧ _))

instance (state : State) (pid : Pid) : ∀ label, Decidable (Starts state label pid)
  | .command (.start index) =>
      decidable_of_iff (state.At index pid)
        ⟨fun here => ⟨index, rfl, here⟩, fun ⟨_, start, here⟩ => by cases start; exact here⟩
  | .command (.create _) | .command .deleteLast | .command .list | .command .deleteAll
  | .command (.stop _) | .command .quit | .command .invalid | .interrupt _ | .resume
  | .child _ | .deliver _ _ | .ring _ | .execFails _ =>
      .isFalse fun ⟨_, start, _⟩ => by cases start

instance (state : State) (label : Label) (pid : Pid) : Decidable (Queues state label pid) :=
  inferInstanceAs (Decidable (_ ∨ _))

instance (state : State) (label : Label) (pid : Pid) : Decidable (TakesGrant state label pid) :=
  inferInstanceAs (Decidable (∃ child ∈ state.children pid, _ ∧ _ ∨ _ ∧ _ ∧ _ ∧ _))

section Watching

/-- No child but the given ones is created. -/
def createsAmong (pids : List Pid) : Label → Bool
  | .command (.create (some pid)) => decide (pid ∈ pids)
  | _ => true

/-- The given children are the only ones, and each of them gets its grants alone. -/
def watched (pids : List Pid) (state : State) (label : Label) : Bool :=
  createsAmong pids label &&
    decide (∀ pid ∈ pids, TakesGrant state label pid → ∀ other ∈ pids, HasGrant state other →
      other = pid)

/-- A watched run has no children but the given ones. -/
theorem absent_of_watched {pids : List Pid}
    (reached : system.ReachableUnder (fun state label => watched pids state label = true) state)
    (other : pid ∉ pids) : state.children pid = none := by
  apply reached.invariant
  · rintro state rfl
    rfl
  · intro state label successor absent watches taken
    apply absent_next taken absent
    rintro rfl
    rw [watched, Bool.and_eq_true] at watches
    exact other (of_decide_eq_true watches.1)

theorem grantsAlone_of_watched {pids : List Pid}
    (reached : system.ReachableUnder (fun state label => watched pids state label = true) state)
    (watches : watched pids state label = true) : GrantsAlone state label := by
  have among : ∀ {pid child}, child ∈ state.children pid → pid ∈ pids := by
    intro pid child there
    by_contra other
    rw [absent_of_watched reached other] at there
    cases there
  rw [watched, Bool.and_eq_true] at watches
  rintro pid ⟨child, there, takes⟩ other ⟨child', there', granted⟩
  exact of_decide_eq_true watches.2 pid (among there) ⟨child, there, takes⟩ other (among there')
    ⟨child', there', granted⟩

end Watching

/-- Create a child and start it. -/
def started (pid index : ℕ) : List Label :=
  List.flatten [[.command (.create (some pid))], List.replicate 5 (.child pid),
    [.command (.start index), .deliver pid .usr2]]

/-- A started child goes through its rounds up to its request, and the parent answers. -/
def asked (pid : ℕ) : List Label :=
  List.flatten [List.replicate 38 (.child pid), [.interrupt .usr1, .resume]]

/-- Two children are started before the first one gets its signal. -/
def startedTogether : List Label :=
  List.flatten [[.command (.create (some 1))], List.replicate 5 (.child 1),
    [.command (.create (some 2))], List.replicate 5 (.child 2),
    [.command (.start 0), .command (.start 1), .deliver 1 .usr2, .deliver 2 .usr2]]

/-- Both ask, and the request of the second waits while the first one is answered. -/
def firstAnswered : List Label :=
  List.flatten [List.replicate 38 (.child 1), [.interrupt .usr1], List.replicate 38 (.child 2),
    [.resume, .deliver 1 .usr2]]

/-- The first one prints and sends its notice, and then the second one is answered. -/
def secondAnswered : List Label :=
  List.flatten [List.replicate 6 (.child 1), [.interrupt .usr2, .resume],
    [.interrupt .usr1, .resume, .deliver 2 .usr2]]

theorem serialised_twoChildren :
    ∃ first second,
      (system.restrict (watched [1, 2])).run launched (startedTogether ++ firstAnswered) =
        some first ∧
      (system.restrict (watched [1, 2])).run first secondAnswered = some second ∧
      (InTurn first 1 ∧ Serialised first) ∧ InTurn second 2 ∧ Serialised second := by
  have ran : ((system.restrict (watched [1, 2])).run launched
      (startedTogether ++ firstAnswered)).map (fun state => (decide (InTurn state 1),
        ((system.restrict (watched [1, 2])).run state secondAnswered).map fun state =>
          decide (InTurn state 2))) = some (true, some true) := by
    decide +kernel
  rcases Option.map_eq_some_iff.mp ran with ⟨first, ran, rest⟩
  rw [Prod.mk.injEq, decide_eq_true_eq] at rest
  rcases Option.map_eq_some_iff.mp rest.2 with ⟨second, ran', inTurn'⟩
  have reached := System.Reachable.of_run (.start rfl) ran
  have reached' := System.Reachable.of_run reached ran'
  have serialised : ∀ {state}, (system.restrict (watched [1, 2])).Reachable state →
      Serialised state := by
    intro state reached
    apply serialised_of_reachable
    exact (System.Reachable.of_restrict reached).mono fun _ _ reached watches =>
      grantsAlone_of_watched reached watches
  exact ⟨first, second, ran, ran', ⟨rest.1, serialised reached⟩, of_decide_eq_true inTurn',
    serialised reached'⟩

theorem not_serialised_twoChildren :
    ¬ ∀ state, system.Reachable state → Serialised state := by
  intro claimed
  have ran : (system.run launched (started 1 0 ++ started 2 1 ++ asked 1 ++ asked 2 ++
      [.deliver 1 .usr2, .deliver 2 .usr2])).map (fun state =>
        (decide (InTurn state 1), decide (InTurn state 2))) = some (true, true) := by
    decide +kernel
  rcases Option.map_eq_some_iff.mp ran with ⟨state, ran, inTurn⟩
  rw [Prod.mk.injEq, decide_eq_true_eq, decide_eq_true_eq] at inTurn
  have same := claimed state (System.Reachable.of_run (.start rfl) ran) 1 2 inTurn.1 inTurn.2
  exact absurd same (by decide)

end Osis.Lab03
