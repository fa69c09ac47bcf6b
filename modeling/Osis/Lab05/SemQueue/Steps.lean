import Osis.Lab05.SemQueue

/-!
# The steps of a thread through the semaphore queue

`Advances` has one constructor for each way in which a thread goes on, with what has been
tested on that way. What is shown of a step is shown by cases on these.
-/

namespace Osis.Lab05.SemQueue

universe u v

variable {Thread : Type v} {Message : Type u}

/-- Where a thread comes to with the mutex. -/
inductive Locks : Point Message → Point Message → Prop where
  | push (msg : Message) : Locks (.queuePush msg .lock) (.queuePush msg .body)
  | pop : Locks (.queuePop .lock) (.queuePop .body)
  | increase : Locks (.queueResizeIncrease .lock) (.queueResizeIncrease .grow)
  | decrease : Locks (.queueResizeDecrease .lock) (.queueResizeDecrease .test)

/-- Where a thread goes on without the mutex. -/
inductive Unlocks : Point Message → Point Message → Prop where
  | push (msg : Message) (code : ℤ) :
      Unlocks (.queuePush msg (.unlock code)) (.queuePush msg (.post code))
  | pop (result : Option (Option Message)) :
      Unlocks (.queuePop (.unlock result)) (.queuePop (.post result))
  | increase : Unlocks (.queueResizeIncrease .unlock) (.queueResizeIncrease .post)
  | decrease : Unlocks (.queueResizeDecrease .unlock) .idle

/-- Where a thread comes to with a free slot. -/
inductive Claims : Point Message → Point Message → Prop where
  | push (msg : Message) : Claims (.queuePush msg .wait) (.queuePush msg .lock)
  | decrease : Claims (.queueResizeDecrease .wait) (.queueResizeDecrease .shrink)

/-- A step of a thread, with the point it comes to. -/
inductive Advances (shared : Shared Thread Message) (thread : Thread) :
    Point Message → Shared Thread Message → Point Message → Prop where
  | lock {point target : Point Message} (free : shared.mutex = none) (locks : Locks point target) :
      Advances shared thread point { shared with mutex := some thread } target
  | unlock {point target : Point Message} (unlocks : Unlocks point target) :
      Advances shared thread point { shared with mutex := none } target
  | claim {point target : Point Message} (slots : 0 < shared.semEmpty)
      (claims : Claims point target) :
      Advances shared thread point { shared with semEmpty := shared.semEmpty - 1 } target
  | insert (msg : Message) :
      Advances shared thread (.queuePush msg .body)
        { shared with
          queue := shared.queue.insert msg
          pushed := shared.pushed ++ [(thread, msg)] } (.queuePush msg (.unlock 0))
  | pushFails (msg : Message) (stopped : ¬shared.running = true) :
      Advances shared thread (.queuePush msg .body) shared (.queuePush msg (.unlock (-1)))
  | pushPosts (msg : Message) (code : ℤ) :
      Advances shared thread (.queuePush msg (.post code))
        (if code = 0 then shared.postFull else shared.postEmpty) .idle
  | popClaims (messages : 0 < shared.semFull) :
      Advances shared thread (.queuePop .wait) { shared with semFull := shared.semFull - 1 }
        (.queuePop .lock)
  | popFails (stopped : ¬shared.running = true) (empty : shared.queue.count = 0) :
      Advances shared thread (.queuePop .body) shared (.queuePop (.unlock none))
  | remove (goesOn : ¬(¬shared.running = true ∧ shared.queue.count = 0)) :
      Advances shared thread (.queuePop .body)
        { shared with
          queue := shared.queue.remove
          popped := shared.popped ++ [(thread, shared.queue.front)] }
        (.queuePop (.unlock (some shared.queue.front)))
  | popPosts (result : Option (Option Message)) :
      Advances shared thread (.queuePop (.post result))
        { (if result.isSome then shared.postEmpty else shared.postFull) with
          popReturned := shared.popReturned ++ [(thread, result)] } .idle
  | grow :
      Advances shared thread (.queueResizeIncrease .grow)
        { shared with queue := shared.queue.resize (shared.queue.capacity + 1) }
        (.queueResizeIncrease .unlock)
  | increasePosts :
      Advances shared thread (.queueResizeIncrease .post) shared.postEmpty .idle
  | decreaseFails :
      Advances shared thread (.queueResizeDecrease .test) shared (.queueResizeDecrease .unlock)
  | decreaseGoesOn (large : 1 < shared.queue.capacity)
      (room : shared.queue.count < shared.queue.capacity - 1) :
      Advances shared thread (.queueResizeDecrease .test) shared (.queueResizeDecrease .wait)
  | shrink :
      Advances shared thread (.queueResizeDecrease .shrink)
        { shared with queue := shared.queue.resize (shared.queue.capacity - 1) }
        (.queueResizeDecrease .unlock)

variable {shared shared' : Shared Thread Message} {thread : Thread} {point point' : Point Message}

theorem advances_lock {target : Point Message}
    (taken : shared.lock thread target = some (shared', point')) (locks : Locks point target) :
    Advances shared thread point shared' point' := by
  simp only [Shared.lock, Option.ite_none_right_eq_some, Option.some.injEq, Prod.mk.injEq] at taken
  rcases taken with ⟨free, rfl, rfl⟩
  exact .lock free locks

theorem advances_unlock {target : Point Message}
    (taken : shared.unlock target = some (shared', point')) (unlocks : Unlocks point target) :
    Advances shared thread point shared' point' := by
  cases taken
  exact .unlock unlocks

theorem advances_waitEmpty {target : Point Message}
    (taken : shared.waitEmpty target = some (shared', point')) (claims : Claims point target) :
    Advances shared thread point shared' point' := by
  simp only [Shared.waitEmpty, Option.ite_none_right_eq_some, Option.some.injEq,
    Prod.mk.injEq] at taken
  rcases taken with ⟨slots, rfl, rfl⟩
  exact .claim slots claims

theorem advances_queuePush {msg : Message} {stage : PushStage}
    (taken : queuePush shared thread msg stage = some (shared', point')) :
    Advances shared thread (.queuePush msg stage) shared' point' := by
  cases stage with
  | wait => exact advances_waitEmpty taken (.push msg)
  | lock => exact advances_lock taken (.push msg)
  | body =>
      simp only [queuePush] at taken
      split at taken
      · cases taken
        exact .insert msg
      · next stopped =>
          cases taken
          exact .pushFails msg stopped
  | unlock code => exact advances_unlock taken (.push msg code)
  | post code =>
      cases taken
      exact .pushPosts msg code

theorem advances_queuePop {stage : PopStage Message}
    (taken : queuePop shared thread stage = some (shared', point')) :
    Advances shared thread (.queuePop stage) shared' point' := by
  cases stage with
  | wait =>
      simp only [queuePop, Shared.waitFull, Option.ite_none_right_eq_some, Option.some.injEq,
        Prod.mk.injEq] at taken
      rcases taken with ⟨messages, rfl, rfl⟩
      exact .popClaims messages
  | lock => exact advances_lock taken .pop
  | body =>
      simp only [queuePop] at taken
      split at taken
      · next drained =>
          cases taken
          exact .popFails drained.1 drained.2
      · next goesOn =>
          cases taken
          exact .remove goesOn
  | unlock result => exact advances_unlock taken (.pop result)
  | post result =>
      have same : (if result.isSome then shared.postEmpty else shared.postFull).popReturned =
          shared.popReturned := by
        split <;> rfl
      simp only [queuePop, same] at taken
      cases taken
      exact .popPosts result

theorem advances_queueResizeIncrease {stage : IncreaseStage}
    (taken : queueResizeIncrease shared thread stage = some (shared', point')) :
    Advances shared thread (.queueResizeIncrease stage) shared' point' := by
  cases stage with
  | lock => exact advances_lock taken .increase
  | grow =>
      cases taken
      exact .grow
  | unlock => exact advances_unlock taken .increase
  | post =>
      cases taken
      exact .increasePosts

theorem advances_queueResizeDecrease {stage : DecreaseStage}
    (taken : queueResizeDecrease shared thread stage = some (shared', point')) :
    Advances shared thread (.queueResizeDecrease stage) shared' point' := by
  cases stage with
  | lock => exact advances_lock taken .decrease
  | test =>
      simp only [queueResizeDecrease] at taken
      split at taken
      · cases taken
        exact .decreaseFails
      · next large =>
          split at taken
          · cases taken
            exact .decreaseFails
          · next room =>
              cases taken
              exact .decreaseGoesOn (Nat.lt_of_not_le large) (Nat.lt_of_not_le room)
  | wait => exact advances_waitEmpty taken .decrease
  | shrink =>
      cases taken
      exact .shrink
  | unlock => exact advances_unlock taken .decrease

theorem advances_of_advance (taken : advance shared thread point = some (shared', point')) :
    Advances shared thread point shared' point' := by
  cases point with
  | idle => cases taken
  | queuePush msg stage => exact advances_queuePush taken
  | queuePop stage => exact advances_queuePop taken
  | queueResizeIncrease stage => exact advances_queueResizeIncrease taken
  | queueResizeDecrease stage => exact advances_queueResizeDecrease taken

end Osis.Lab05.SemQueue
