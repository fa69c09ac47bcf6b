import Osis.Lab05.CondQueue

/-!
# The steps of a thread through the queue functions

`Advances` has one constructor for each way in which a thread goes on, with what has been
tested on that way. Whatever the development shows of a step, it shows by cases on these.
-/

namespace Osis.Lab05.CondQueue

universe u v

variable {Thread : Type v} {Message : Type u}

/-- Where a thread comes to with the mutex, from the start of a function or behind a wait. -/
inductive Locks : Point Message → Point Message → Prop where
  | push (msg : Message) : Locks (.queuePush msg .lock) (.queuePush msg .test)
  | pushAgain (msg : Message) (notified : Bool) :
      Locks (.queuePush msg (.relock notified)) (.queuePush msg .test)
  | pop : Locks (.queuePop .lock) (.queuePop .test)
  | popAgain (notified : Bool) : Locks (.queuePop (.relock notified)) (.queuePop .test)
  | increase : Locks (.queueResizeIncrease .lock) (.queueResizeIncrease .grow)
  | decrease : Locks (.queueResizeDecrease .lock) (.queueResizeDecrease .test)

variable [DecidableEq Thread]

/-- A step of a thread, with the point it comes to and what it notifies. -/
inductive Advances (shared : Shared Thread Message) (thread : Thread) :
    Point Message → Shared Thread Message → Point Message → Notice → Prop where
  | lock {point target : Point Message} (free : shared.mutex = none) (locks : Locks point target) :
      Advances shared thread point { shared with mutex := some thread } target .silent
  | pushWaits (msg : Message) (full : shared.queue.count = shared.queue.capacity)
      (running : shared.running = true) :
      Advances shared thread (.queuePush msg .test) { shared with mutex := none }
        (.queuePush msg (.wait false)) .silent
  | pushWakes (msg : Message) (notified : Bool) :
      Advances shared thread (.queuePush msg (.wait notified)) shared
        (.queuePush msg (.relock notified)) .silent
  | pushLeaves (msg : Message)
      (leaves : ¬(shared.queue.count = shared.queue.capacity ∧ shared.running = true)) :
      Advances shared thread (.queuePush msg .test) shared (.queuePush msg .check) .silent
  | pushGoesOn (msg : Message) (running : shared.running = true) :
      Advances shared thread (.queuePush msg .check) shared (.queuePush msg .insert) .silent
  | pushFails (msg : Message) (stopped : shared.running = false) :
      Advances shared thread (.queuePush msg .check) shared (.queuePush msg (.unlock (-1))) .silent
  | insert (msg : Message) :
      Advances shared thread (.queuePush msg .insert)
        { shared with
          queue := shared.queue.insert msg
          pushed := shared.pushed ++ [(thread, msg)] } (.queuePush msg .signal) .silent
  | pushSignals (msg : Message) :
      Advances shared thread (.queuePush msg .signal) shared (.queuePush msg (.unlock 0))
        (.signal .notEmpty)
  | pushReturns (msg : Message) (code : ℤ) :
      Advances shared thread (.queuePush msg (.unlock code))
        { shared with
          mutex := none
          pushReturned := if code = 0 then
              Function.update shared.pushReturned thread (shared.pushReturned thread ++ [msg])
            else shared.pushReturned } .idle .silent
  | popWaits (empty : shared.queue.count = 0) (running : shared.running = true) :
      Advances shared thread (.queuePop .test) { shared with mutex := none }
        (.queuePop (.wait false)) .silent
  | popWakes (notified : Bool) :
      Advances shared thread (.queuePop (.wait notified)) shared (.queuePop (.relock notified))
        .silent
  | popLeaves (leaves : ¬(shared.queue.count = 0 ∧ shared.running = true)) :
      Advances shared thread (.queuePop .test) shared (.queuePop .check) .silent
  | popGoesOn (leaves : ¬(¬shared.running = true ∧ shared.queue.count = 0)) :
      Advances shared thread (.queuePop .check) shared (.queuePop .remove) .silent
  | popFails (stopped : ¬shared.running = true) (empty : shared.queue.count = 0) :
      Advances shared thread (.queuePop .check) shared (.queuePop (.unlock none)) .silent
  | remove :
      Advances shared thread (.queuePop .remove)
        { shared with
          queue := shared.queue.remove
          popped := shared.popped ++ [(thread, shared.queue.front)] }
        (.queuePop (.signal shared.queue.front)) .silent
  | popSignals (msg : Option Message) :
      Advances shared thread (.queuePop (.signal msg)) shared (.queuePop (.unlock (some msg)))
        (.signal .notFull)
  | popReturns (result : Option (Option Message)) :
      Advances shared thread (.queuePop (.unlock result))
        { shared with
          mutex := none
          popReturned := Function.update shared.popReturned thread
            (shared.popReturned thread ++ result.toList) } .idle .silent
  | grow :
      Advances shared thread (.queueResizeIncrease .grow)
        { shared with queue := shared.queue.resize (shared.queue.capacity + 1) }
        (.queueResizeIncrease .broadcast) .silent
  | increaseNotifies :
      Advances shared thread (.queueResizeIncrease .broadcast) shared
        (.queueResizeIncrease .unlock) (.broadcast .notFull)
  | increaseReturns :
      Advances shared thread (.queueResizeIncrease .unlock) { shared with mutex := none } .idle
        .silent
  | decreaseFails :
      Advances shared thread (.queueResizeDecrease .test) shared (.queueResizeDecrease .unlock)
        .silent
  | decreaseGoesOn (room : shared.queue.count < shared.queue.capacity - 1) :
      Advances shared thread (.queueResizeDecrease .test) shared (.queueResizeDecrease .shrink)
        .silent
  | shrink :
      Advances shared thread (.queueResizeDecrease .shrink)
        { shared with queue := shared.queue.resize (shared.queue.capacity - 1) }
        (.queueResizeDecrease .broadcast) .silent
  | decreaseNotifies :
      Advances shared thread (.queueResizeDecrease .broadcast) shared
        (.queueResizeDecrease .unlock) (.broadcast .notFull)
  | decreaseReturns :
      Advances shared thread (.queueResizeDecrease .unlock) { shared with mutex := none } .idle
        .silent

variable {shared shared' : Shared Thread Message} {thread : Thread} {point point' : Point Message}
  {notice : Notice}

theorem advances_lock {target : Point Message}
    (taken : shared.lock thread target = some (shared', point', notice))
    (locks : Locks point target) : Advances shared thread point shared' point' notice := by
  simp only [Shared.lock, Option.ite_none_right_eq_some, Option.some.injEq, Prod.mk.injEq] at taken
  rcases taken with ⟨free, rfl, rfl, rfl⟩
  exact .lock free locks

theorem advances_queuePush {msg : Message} {stage : PushStage}
    (taken : queuePush shared thread msg stage = some (shared', point', notice)) :
    Advances shared thread (.queuePush msg stage) shared' point' notice := by
  cases stage with
  | lock => exact advances_lock taken (.push msg)
  | relock notified => exact advances_lock taken (.pushAgain msg notified)
  | test =>
      simp only [queuePush] at taken
      split at taken
      · next full =>
          cases taken
          exact .pushWaits msg full.1 full.2
      · next leaves =>
          cases taken
          exact .pushLeaves msg leaves
  | check =>
      simp only [queuePush] at taken
      split at taken
      · next running =>
          cases taken
          exact .pushGoesOn msg running
      · next stopped =>
          cases taken
          exact .pushFails msg (Bool.not_eq_true _ ▸ stopped)
  | wait notified =>
      cases taken
      exact .pushWakes msg notified
  | insert =>
      cases taken
      exact .insert msg
  | signal =>
      cases taken
      exact .pushSignals msg
  | unlock code =>
      cases taken
      exact .pushReturns msg code

theorem advances_queuePop {stage : PopStage Message}
    (taken : queuePop shared thread stage = some (shared', point', notice)) :
    Advances shared thread (.queuePop stage) shared' point' notice := by
  cases stage with
  | lock => exact advances_lock taken .pop
  | relock notified => exact advances_lock taken (.popAgain notified)
  | test =>
      simp only [queuePop] at taken
      split at taken
      · next empty =>
          cases taken
          exact .popWaits empty.1 empty.2
      · next leaves =>
          cases taken
          exact .popLeaves leaves
  | check =>
      simp only [queuePop] at taken
      split at taken
      · next drained =>
          cases taken
          exact .popFails drained.1 drained.2
      · next leaves =>
          cases taken
          exact .popGoesOn leaves
  | wait notified =>
      cases taken
      exact .popWakes notified
  | remove =>
      cases taken
      exact .remove
  | signal msg =>
      cases taken
      exact .popSignals msg
  | unlock result =>
      cases taken
      exact .popReturns result

theorem advances_queueResizeIncrease {stage : IncreaseStage}
    (taken : queueResizeIncrease shared thread stage = some (shared', point', notice)) :
    Advances shared thread (.queueResizeIncrease stage) shared' point' notice := by
  cases stage with
  | lock => exact advances_lock taken .increase
  | grow =>
      cases taken
      exact .grow
  | broadcast =>
      cases taken
      exact .increaseNotifies
  | unlock =>
      cases taken
      exact .increaseReturns

theorem advances_queueResizeDecrease {stage : DecreaseStage}
    (taken : queueResizeDecrease shared thread stage = some (shared', point', notice)) :
    Advances shared thread (.queueResizeDecrease stage) shared' point' notice := by
  cases stage with
  | lock => exact advances_lock taken .decrease
  | test =>
      simp only [queueResizeDecrease] at taken
      split at taken
      · cases taken
        exact .decreaseFails
      · split at taken
        · cases taken
          exact .decreaseFails
        · next fits =>
            cases taken
            exact .decreaseGoesOn (Nat.lt_of_not_le fits)
  | shrink =>
      cases taken
      exact .shrink
  | broadcast =>
      cases taken
      exact .decreaseNotifies
  | unlock =>
      cases taken
      exact .decreaseReturns

theorem advances_of_advance
    (taken : advance shared thread point = some (shared', point', notice)) :
    Advances shared thread point shared' point' notice := by
  cases point with
  | idle => cases taken
  | queuePush msg stage => exact advances_queuePush taken
  | queuePop stage => exact advances_queuePop taken
  | queueResizeIncrease stage => exact advances_queueResizeIncrease taken
  | queueResizeDecrease stage => exact advances_queueResizeDecrease taken

section Next

variable [Fintype Thread] {state successor : State Thread Message}

/-- A call enters the function, for a thread that is in none. -/
theorem called_of_next {call : Call Message}
    (taken : next state (.call thread call) = some successor) :
    state.points thread = .idle ∧
      successor = { state with points := Function.update state.points thread call.entry } := by
  simp only [next] at taken
  split at taken
  · next idle => exact ⟨idle, (Option.some.inj taken).symm⟩
  · cases taken

/-- A step of a thread notifies others after it has moved the thread on. -/
theorem stepped_of_next {woken : List Thread}
    (taken : next state (.step thread woken) = some successor) :
    ∃ shared point notice points,
      advance state.shared thread (state.points thread) = some (shared, point, notice) ∧
        deliver (Function.update state.points thread point) woken notice = some points ∧
        successor = ⟨shared, points⟩ := by
  simp only [next, Option.bind_eq_bind, Option.bind_eq_some_iff, Prod.exists,
    Option.some.injEq] at taken
  rcases taken with ⟨shared, point, notice, advanced, points, delivered, rfl⟩
  exact ⟨shared, point, notice, points, advanced, delivered, rfl⟩

end Next

end Osis.Lab05.CondQueue
