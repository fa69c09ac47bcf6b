import Osis.Lab05.CondQueue.ProgramSteps

/-!
# The end of the program

Once `running` has dropped, nobody starts waiting any more, so each broadcast of `main`
leaves nobody blocked on its condition for good.
-/

namespace Osis.Lab05.CondQueue

open Concurrency

universe u v

section Advance

variable {Thread : Type v} {Message : Type u} [DecidableEq Thread]
  {shared shared' : Shared Thread Message} {thread : Thread} {point point' : Point Message}
  {notice : Notice} {condition : Condition}

/-- A thread only starts to wait while `running` is set. -/
theorem running_of_waitsOn (taken : advance shared thread point = some (shared', point', notice))
    (waits : point'.waitsOn condition = true) : shared.running = true := by
  cases advances_of_advance taken with
  | pushWaits msg full running => exact running
  | popWaits empty running => exact running
  | lock free locks => cases locks <;> cases condition <;> exact absurd waits Bool.false_ne_true
  | _ => cases condition <;> exact absurd waits Bool.false_ne_true

/-- Without `running`, nobody starts to wait, and `running` does not come back. -/
theorem stopped_next [Fintype Thread] {state successor : State Thread Message}
    {action : Action Thread Message} (stopped : state.shared.running = false)
    (taken : next state action = some successor) :
    successor.shared.running = false ∧ ∀ condition thread,
      (successor.points thread).waitsOn condition = true →
        (state.points thread).waitsOn condition = true := by
  cases action with
  | call thread call =>
      rcases called_of_next taken with ⟨-, rfl⟩
      refine ⟨stopped, fun condition waiting waits => ?_⟩
      by_cases same : waiting = thread
      · subst same
        simp only [Function.update_self] at waits
        cases call <;> cases condition <;> exact absurd waits Bool.false_ne_true
      · simpa [same] using waits
  | step thread woken =>
      rcases stepped_of_next taken with
        ⟨shared, point, notice, points, advanced, delivered, rfl⟩
      refine ⟨(outcome_advance advanced).running_eq.trans stopped,
        fun condition waiting waits => ?_⟩
      have waits_before := waitsOn_of_deliver delivered waits
      by_cases same : waiting = thread
      · subst same
        rw [Function.update_self] at waits_before
        have running := running_of_waitsOn advanced waits_before
        rw [stopped] at running
        exact absurd running Bool.false_ne_true
      · simpa [same] using waits_before
  | stop =>
      simp only [next, Option.some.injEq] at taken
      subst taken
      exact ⟨rfl, fun _ _ waits => waits⟩

end Advance

/-- A broadcast that `main` has yet to make on its way out. -/
def MainPoint.due {maxProds : ℕ} (condition : Condition) : MainPoint maxProds → Bool
  | .lock broadcasts .shutdown | .locked broadcasts .shutdown => condition ∈ broadcasts
  | _ => false

namespace Program

variable {maxProds : ℕ} {Message : Type u} {state successor : Program maxProds Message}

/-- What a step does to the queue, broadcasts of `main` apart. -/
inductive QueueEffect (state successor : Program maxProds Message) : Prop where
  | same (queue_eq : successor.queue = state.queue)
  | mutex (mutex : Option (ThreadId maxProds))
      (queue_eq : successor.queue = (state.setMutex mutex).queue)
  | action (action : Action (ThreadId maxProds) Message)
      (taken : CondQueue.next state.queue action = some successor.queue)

theorem queueEffect_queueNext (state : Program maxProds Message)
    {action : Action (ThreadId maxProds) Message} {other : Program maxProds Message}
    (taken : other.queueNext action = some successor)
    (queue_eq : other.queue = state.queue) :
    QueueEffect state successor ∧ successor.main = other.main ∧ successor.left = other.left := by
  simp only [queueNext, Option.map_eq_some_iff] at taken
  rcases taken with ⟨queue, taken, rfl⟩
  exact ⟨.action action (queue_eq ▸ taken), rfl, rfl⟩

/-- The shutdown of `main`: it has left its loop, or what is due stays due. -/
def ShutdownEffect (state successor : Program maxProds Message) : Prop :=
  (successor.queue = state.queue ∧ successor.left = some state.queue.shared.running ∧
    ∀ condition, successor.main.due condition = true) ∨
  (successor.left = state.left ∧
    ∀ condition, state.main.due condition = true → successor.main.due condition = true)

theorem due_bothConditions (condition : Condition) :
    (.lock bothConditions .shutdown : MainPoint maxProds).due condition = true := by
  cases condition <;> rfl

theorem shutdownEffect_of_main_eq (main_eq : successor.main = state.main)
    (left_eq : successor.left = state.left) : ShutdownEffect state successor :=
  Or.inr ⟨left_eq, fun _ due => main_eq ▸ due⟩

theorem shutdownEffect_of_not_due {point : MainPoint maxProds} (at_main : state.main = point)
    (nothing_due : ∀ condition, point.due condition = false)
    (left_eq : successor.left = state.left) : ShutdownEffect state successor :=
  Or.inr ⟨left_eq, fun condition due => absurd due (by simp [at_main, nothing_due condition])⟩

theorem effect_worker {kind : Kind} {slot : Fin maxProds} {msg : Message}
    {woken : List (ThreadId maxProds)}
    (taken : state.workerNext kind slot msg woken = some successor) :
    QueueEffect state successor ∧ ShutdownEffect state successor := by
  cases workerAdvances_of_workerNext taken with
  | calls _ _ _ called => exact ⟨.action _ called, shutdownEffect_of_main_eq rfl rfl⟩
  | steps _ _ stepped => exact ⟨.action _ stepped, shutdownEffect_of_main_eq rfl rfl⟩
  | leaves | wakes => exact ⟨.same rfl, shutdownEffect_of_main_eq rfl rfl⟩

theorem effect_execute {command : Command} (scanning : state.main = .scan)
    (taken : state.execute command = some successor) :
    QueueEffect state successor ∧ ShutdownEffect state successor := by
  cases command with
  | createProducer | createConsumer =>
      simp only [execute, create, Option.some.injEq] at taken
      split at taken
      all_goals
        subst taken
        exact ⟨.same rfl, shutdownEffect_of_not_due scanning (fun _ => rfl) rfl⟩
  | removeLastProducer | removeLastConsumer | removeAll | printStatus | unknown =>
      simp only [execute, Option.some.injEq] at taken
      subst taken
      exact ⟨.same rfl, shutdownEffect_of_not_due scanning (fun _ => rfl) rfl⟩
  | increase | decrease | quit =>
      unfold execute at taken
      rcases queueEffect_queueNext state taken rfl with ⟨effect, -, left_eq⟩
      exact ⟨effect, shutdownEffect_of_not_due scanning (fun _ => rfl) left_eq⟩

theorem effect_main (taken : state.mainNext = some successor) :
    (∃ condition broadcasts after, state.main = .locked (condition :: broadcasts) after ∧
      successor = { state.broadcast condition with main := .locked broadcasts after }) ∨
    (QueueEffect state successor ∧ ShutdownEffect state successor) := by
  cases mainAdvances_of_mainNext taken with
  | scans at_main | resized at_main =>
      exact Or.inr ⟨.same rfl, shutdownEffect_of_not_due at_main (fun _ => rfl) rfl⟩
  | leaves at_main stopped =>
      exact Or.inr ⟨.same rfl, Or.inl ⟨rfl, by rw [stopped], due_bothConditions⟩⟩
  | resizes at_main stepped =>
      exact Or.inr ⟨.action _ stepped, shutdownEffect_of_not_due at_main (fun _ => rfl) rfl⟩
  | @locks broadcasts after at_main free =>
      refine Or.inr ⟨.mutex (some .main) rfl, Or.inr ⟨rfl, fun condition due => ?_⟩⟩
      rw [at_main] at due
      cases after with
      | shutdown => exact due
      | printStatus | removeLast | removeAll => exact absurd due Bool.false_ne_true
  | @broadcasts condition broadcasts after at_main =>
      exact Or.inl ⟨condition, broadcasts, after, at_main, rfl⟩
  | @unlocks after at_main =>
      refine Or.inr ⟨.mutex none rfl, shutdownEffect_of_not_due at_main (fun condition => ?_) rfl⟩
      cases after <;> rfl
  | nobodyLeft at_main | removes at_main =>
      exact Or.inr ⟨.same rfl, shutdownEffect_of_not_due at_main (fun _ => rfl) rfl⟩
  | cancels at_main taken =>
      simp only [cancel, Option.dite_none_right_eq_some, Option.some.injEq] at taken
      rcases taken with ⟨-, rfl⟩
      exact Or.inr ⟨.same rfl, shutdownEffect_of_not_due at_main (fun _ => rfl) rfl⟩
  | joins at_main taken =>
      simp only [join, Option.ite_none_right_eq_some, Option.some.injEq] at taken
      rcases taken with ⟨-, rfl⟩
      exact Or.inr ⟨.same rfl, shutdownEffect_of_not_due at_main (fun _ => rfl) rfl⟩
  | removesNext at_main | removedAll at_main =>
      exact Or.inr ⟨.same rfl, shutdownEffect_of_not_due at_main (fun _ => rfl) rfl⟩

theorem effect_next {label : Label maxProds Message} (taken : state.next label = some successor) :
    (∃ condition broadcasts after, state.main = .locked (condition :: broadcasts) after ∧
      successor = { state.broadcast condition with main := .locked broadcasts after }) ∨
    (QueueEffect state successor ∧ ShutdownEffect state successor) := by
  cases label with
  | command command =>
      simp only [next] at taken
      split at taken
      · next scanning => exact Or.inr (effect_execute scanning taken)
      · simp at taken
  | endOfInput =>
      simp only [next] at taken
      split at taken
      · simp only [Option.some.injEq] at taken
        subst taken
        exact Or.inr ⟨.same rfl, Or.inl ⟨rfl, rfl, due_bothConditions⟩⟩
      · simp at taken
  | main => exact effect_main taken
  | worker kind slot msg woken => exact Or.inr (effect_worker taken)
  | interrupt =>
      rcases queueEffect_queueNext state taken rfl with ⟨effect, main_eq, left_eq⟩
      exact Or.inr ⟨effect, shutdownEffect_of_main_eq main_eq left_eq⟩

/-- What has been broadcast after the end of `running` leaves nobody blocked. -/
structure Quiet (state : Program maxProds Message) : Prop where
  stopped : state.left = some false → state.queue.shared.running = false
  nobody_waits : state.left = some false → ∀ condition, state.main.due condition = false →
    ∀ thread, (state.queue.points thread).waitsOn condition = false

/-- Without `running` no effect on the queue makes a thread wait. -/
theorem QueueEffect.stopped (effect : QueueEffect state successor)
    (stopped : state.queue.shared.running = false) :
    successor.queue.shared.running = false ∧ ∀ condition thread,
      (successor.queue.points thread).waitsOn condition = true →
        (state.queue.points thread).waitsOn condition = true := by
  cases effect with
  | same queue_eq =>
      rw [queue_eq]
      exact ⟨stopped, fun _ _ waits => waits⟩
  | mutex mutex queue_eq =>
      rw [queue_eq]
      exact ⟨stopped, fun _ _ waits => waits⟩
  | action action taken => exact stopped_next stopped taken

theorem quiet_next {label : Label maxProds Message} (quiet : Quiet state)
    (taken : state.next label = some successor) : Quiet successor := by
  rcases effect_next taken with ⟨condition, broadcasts, after, main_eq, rfl⟩ | ⟨effect, shutdown⟩
  · refine ⟨quiet.stopped, fun left other not_due thread => ?_⟩
    by_contra waits
    rw [Bool.not_eq_false] at waits
    rcases Point.waitsOn_of_notify waits with ⟨waits_before, different⟩
    have not_due_before : state.main.due other = false := by
      rw [main_eq]
      cases after with
      | shutdown => simpa [MainPoint.due, different.symm] using not_due
      | printStatus | removeLast | removeAll => rfl
    rw [quiet.nobody_waits left other not_due_before thread] at waits_before
    exact absurd waits_before Bool.false_ne_true
  · rcases shutdown with ⟨queue_eq, left_eq, all_due⟩ | ⟨left_eq, stays_due⟩
    · refine ⟨fun left => ?_, fun _ condition not_due => ?_⟩
      · rw [queue_eq]
        exact Option.some.inj (left_eq.symm.trans left)
      · rw [all_due condition] at not_due
        exact absurd not_due.symm Bool.false_ne_true
    · refine ⟨fun left => (effect.stopped (quiet.stopped (left_eq ▸ left))).1,
        fun left condition not_due thread => ?_⟩
      rw [left_eq] at left
      by_contra waits
      rw [Bool.not_eq_false] at waits
      have waits_before := (effect.stopped (quiet.stopped left)).2 condition thread waits
      have not_due_before : state.main.due condition = false := by
        by_contra due
        rw [Bool.not_eq_false] at due
        rw [stays_due condition due] at not_due
        exact absurd not_due.symm Bool.false_ne_true
      rw [quiet.nobody_waits left condition not_due_before thread] at waits_before
      exact absurd waits_before Bool.false_ne_true

theorem quiet_of_reachable (reached : (system maxProds Message).Reachable state) : Quiet state := by
  apply reached.invariant
  · rintro _ rfl
    exact ⟨fun left => absurd left (by simp [init]), fun left => absurd left (by simp [init])⟩
  · intro state label successor quiet _ taken
    exact quiet_next quiet taken

end Program

/-- No wake-up is lost: while `running`, what blocked threads wait for is spoken for, by notified
threads or by the one inside its section; and after the shutdown nobody is left blocked. -/
theorem noLostWakeup (Thread : Type v) [Fintype Thread] [DecidableEq Thread] (Message : Type u)
    (maxProds : ℕ) :
    (∀ state, (system Thread Message).Reachable state → state.shared.running = true →
      ∀ condition thread, (state.points thread).waitsOn condition = true →
        condition.available state.shared.queue ≤
          notifiedCount condition state.points + owedCount condition state) ∧
    (∀ state, (Program.system maxProds Message).Reachable state → state.left = some false →
      (∀ condition, state.main.due condition = false) →
        ∀ condition thread, (state.queue.points thread).waitsOn condition = false) := by
  constructor
  · intro state reached running condition thread waits
    exact noLostWakeup_of_reachable reached running waits
  · intro state reached left nothing_due condition thread
    exact (Program.quiet_of_reachable reached).nobody_waits left condition
      (nothing_due condition) thread

/-- A full queue blocks a thread, and another one takes a message out but has not signalled. -/
def takeFromFull : List (Action Bool ℕ) :=
  (List.replicate 4 (.call false (.push 7) :: List.replicate 6 (.step false []))).flatten ++
    .call false (.push 7) :: List.replicate 2 (.step false []) ++
    .call true .pop :: List.replicate 4 (.step true [])

/-- A worker blocks on the empty queue, and the command to quit wakes it up. -/
def quitWhileWaiting : List (Label 1 ℕ) :=
  [.main, .command .createConsumer, .worker .consumer 0 0 [], .worker .consumer 0 0 [],
    .worker .consumer 0 0 [], .main, .command .quit, .main, .main, .main, .main]

/-- A state of the queue in which a slot is spoken for by the thread about to signal, and one of
the program after its broadcasts. -/
theorem noLostWakeup_takeFromFull :
    (∃ state, (system Bool ℕ).run init takeFromFull = some state ∧
      (state.points false).waitsOn .notFull = true ∧
      Condition.notFull.available state.shared.queue ≤
        notifiedCount .notFull state.points + owedCount .notFull state) ∧
    ∃ state, (Program.system 1 ℕ).run Program.init quitWhileWaiting = some state ∧
      ∀ condition thread, (state.queue.points thread).waitsOn condition = false := by
  constructor
  · have ran : ((system Bool ℕ).run init takeFromFull).map (fun state =>
        (state.shared.running, (state.points false).waitsOn .notFull)) = some (true, true) := by
      decide +kernel
    rcases Option.map_eq_some_iff.mp ran with ⟨state, ran, found⟩
    rw [Prod.mk.injEq] at found
    have reached : (system Bool ℕ).Reachable state := System.Reachable.of_run (.start rfl) ran
    exact ⟨state, ran, found.2,
      (noLostWakeup Bool ℕ 1).1 state reached found.1 .notFull false found.2⟩
  · have ran : ((Program.system 1 ℕ).run Program.init quitWhileWaiting).map (fun state =>
        (state.left, state.main.due .notFull, state.main.due .notEmpty)) =
          some (some false, false, false) := by
      decide +kernel
    rcases Option.map_eq_some_iff.mp ran with ⟨state, ran, found⟩
    simp only [Prod.mk.injEq] at found
    have reached : (Program.system 1 ℕ).Reachable state :=
      System.Reachable.of_run (.start rfl) ran
    have nothing_due : ∀ condition, state.main.due condition = false := by
      intro condition
      cases condition
      · exact found.2.1
      · exact found.2.2
    exact ⟨state, ran, (noLostWakeup Bool ℕ 1).2 state reached found.1 nothing_due⟩

/-- Between a removal and its signal a slot is free and nobody has been notified. -/
theorem not_available_le_notifiedCount :
    ∃ state, (system Bool ℕ).Reachable state ∧ state.shared.running = true ∧
      (state.points false).waitsOn .notFull = true ∧
      ¬Condition.notFull.available state.shared.queue ≤ notifiedCount .notFull state.points := by
  have ran : ((system Bool ℕ).run init takeFromFull).map (fun state =>
      (state.shared.running, (state.points false).waitsOn .notFull,
        Condition.notFull.available state.shared.queue,
        notifiedCount .notFull state.points)) = some (true, true, 1, 0) := by
    decide +kernel
  rcases Option.map_eq_some_iff.mp ran with ⟨state, ran, found⟩
  simp only [Prod.mk.injEq] at found
  refine ⟨state, System.Reachable.of_run (.start rfl) ran, found.1, found.2.1, ?_⟩
  rw [found.2.2.1, found.2.2.2]
  decide

end Osis.Lab05.CondQueue
