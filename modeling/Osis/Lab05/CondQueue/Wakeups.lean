import Osis.Lab05.CondQueue.Refinement

/-!
# No lost wake-up in the condition-variable queue

While a thread is blocked and has not been notified, what it waits for is spoken for:
each free slot (or message) belongs to a thread that has been notified and is about to
lock the mutex, or to the one that is inside its section and is about to take it or to
announce it. The threads' credits count these, and every step keeps them sufficient.
-/

namespace Osis.Lab05.CondQueue

open Concurrency

universe u v

variable {Thread : Type v} {Message : Type u}

/-- What the threads blocked on a condition wait for: free slots or messages. -/
def Condition.available : Condition → Queue Message → ℕ
  | .notFull, queue => queue.capacity - queue.count
  | .notEmpty, queue => queue.count

/-- Notified and not yet past the lock at the end of `pthread_cond_wait`. -/
def Point.notified : Condition → Point Message → Bool
  | .notFull, .queuePush _ (.wait notified) => notified
  | .notFull, .queuePush _ (.relock notified) => notified
  | .notEmpty, .queuePop (.wait notified) => notified
  | .notEmpty, .queuePop (.relock notified) => notified
  | _, _ => false

/-- Inside a section, about to take what the others wait for or to announce it. -/
def Point.owes : Condition → Point Message → Bool
  | .notFull, .queuePush _ .test | .notFull, .queuePush _ .check => true
  | .notFull, .queuePush _ .insert | .notFull, .queuePop (.signal _) => true
  | .notFull, .queueResizeIncrease .broadcast => true
  | .notEmpty, .queuePop .test | .notEmpty, .queuePop .check => true
  | .notEmpty, .queuePop .remove | .notEmpty, .queuePush _ .signal => true
  | _, _ => false

/-- Whether one unit of what others wait for is spoken for by a thread at this point. -/
def Point.credit (condition : Condition) (point : Point Message) : ℕ :=
  if point.notified condition || point.owes condition then 1 else 0

/-- Whether a notice passes what is available on to a waiting thread. -/
def Notice.passes (condition : Condition) : Notice → ℕ
  | .signal other => if other = condition then 1 else 0
  | _ => 0

/-- The threads that have been notified and have yet to lock the mutex. -/
def notifiedCount [Fintype Thread] (condition : Condition) (points : Thread → Point Message) : ℕ :=
  (Finset.univ.filter fun thread => (points thread).notified condition).card

/-- Whether the thread inside its section is about to take or to announce one. -/
def owedCount (condition : Condition) (state : State Thread Message) : ℕ :=
  match state.shared.mutex with
  | none => 0
  | some holder => if (state.points holder).owes condition then 1 else 0

/-- Whoever waits un-notified waits for what is spoken for. -/
def Covered [Fintype Thread] (state : State Thread Message) : Prop :=
  ∀ condition thread, (state.points thread).waitsOn condition = true →
    condition.available state.shared.queue ≤ total (Point.credit condition) state.points

section Points

variable {condition other : Condition} {point : Point Message}

@[simp]
theorem Point.credit_idle : (Point.idle : Point Message).credit condition = 0 := by
  cases condition <;> rfl

theorem Point.credit_le_one : point.credit condition ≤ 1 := by
  unfold Point.credit
  split <;> decide

theorem Point.credit_of_waitsOn (waits : point.waitsOn condition = true) :
    point.credit condition = 0 := by
  unfold Point.waitsOn at waits
  split at waits
  · rfl
  · rfl
  · exact absurd waits Bool.false_ne_true

theorem Point.credit_notify_of_waitsOn (waits : point.waitsOn condition = true) :
    (point.notify condition).credit condition = 1 := by
  unfold Point.waitsOn at waits
  split at waits
  · rfl
  · rfl
  · exact absurd waits Bool.false_ne_true

theorem Point.credit_le_notify :
    point.credit condition ≤ (point.notify other).credit condition := by
  unfold Point.notify
  split
  · cases condition
    · exact Point.credit_le_one
    · exact Nat.le_refl _
  · cases condition
    · exact Nat.le_refl _
    · exact Point.credit_le_one
  · exact Nat.le_refl _

/-- Nobody starts waiting by being notified. -/
theorem Point.waitsOn_of_notify (waits : (point.notify other).waitsOn condition = true) :
    point.waitsOn condition = true ∧ other ≠ condition := by
  unfold Point.notify at waits
  split at waits
  · cases condition <;> exact absurd waits Bool.false_ne_true
  · cases condition <;> exact absurd waits Bool.false_ne_true
  · next untouched untouched' =>
      refine ⟨waits, ?_⟩
      rintro rfl
      unfold Point.waitsOn at waits
      split at waits
      · exact untouched _ _ rfl rfl
      · exact untouched' _ rfl rfl
      · exact absurd waits Bool.false_ne_true

theorem holds_of_owes (owes : point.owes condition = true) : point.holds = true := by
  unfold Point.owes at owes
  split at owes
  all_goals first | rfl | exact absurd owes Bool.false_ne_true

end Points

section Advance

variable {shared shared' : Shared Thread Message} {thread : Thread}
  {point point' : Point Message} {notice : Notice}

/-- What a step does to the balance of a condition: nothing is left to wait for, all are notified,
or the credit of the thread makes up for the change, up to a signal it sends. -/
def Balanced (condition : Condition) (queue queue' : Queue Message) (point point' : Point Message)
    (notice : Notice) : Prop :=
  condition.available queue' = 0 ∨ notice = .broadcast condition ∨
    (point'.waitsOn condition = false ∧
      condition.available queue' + point.credit condition ≤
        condition.available queue + point'.credit condition + notice.passes condition)

/-- A step that leaves the queue alone and keeps or raises the credit. -/
theorem balanced_of_credit_le {condition : Condition} {queue : Queue Message}
    (moves : point'.waitsOn condition = false)
    (raises : point.credit condition ≤ point'.credit condition) :
    Balanced condition queue queue point point' notice :=
  Or.inr (Or.inr ⟨moves, by omega⟩)

variable [DecidableEq Thread]

theorem balanced_advance
    (taken : advance shared thread point = some (shared', point', notice))
    (running : shared.running = true) (condition : Condition) :
    Balanced condition shared.queue shared'.queue point point' notice := by
  cases advances_of_advance taken with
  | lock free locks =>
      cases locks with
      | push | pushAgain =>
          cases condition with
          | notFull => exact balanced_of_credit_le rfl Point.credit_le_one
          | notEmpty => exact balanced_of_credit_le rfl (Nat.le_refl 0)
      | pop | popAgain =>
          cases condition with
          | notFull => exact balanced_of_credit_le rfl (Nat.le_refl 0)
          | notEmpty => exact balanced_of_credit_le rfl Point.credit_le_one
      | increase | decrease => cases condition <;> exact balanced_of_credit_le rfl (Nat.le_refl 0)
  | pushWakes | pushLeaves | pushGoesOn | pushReturns | popWakes | popLeaves | popGoesOn
  | popReturns | increaseReturns | decreaseFails | decreaseGoesOn | decreaseReturns =>
      cases condition <;> exact balanced_of_credit_le rfl (Nat.le_refl _)
  | pushFails msg stopped => exact absurd (running.symm.trans stopped) (by decide)
  | popFails stopped => exact absurd running stopped
  | pushWaits msg full =>
      cases condition with
      | notFull => exact Or.inl (Nat.sub_eq_zero_of_le full.ge)
      | notEmpty => exact balanced_of_credit_le rfl (Nat.le_refl _)
  | popWaits empty =>
      cases condition with
      | notFull => exact balanced_of_credit_le rfl (Nat.le_refl _)
      | notEmpty => exact Or.inl empty
  | insert msg =>
      cases condition with
      | notFull =>
          by_cases room : shared.queue.count < shared.queue.capacity
          · refine Or.inr (Or.inr ⟨rfl, ?_⟩)
            have left : Condition.notFull.available (shared.queue.insert msg) + 1 =
                Condition.notFull.available shared.queue := by
              simp only [Condition.available, Queue.insert]
              omega
            exact Nat.le_of_eq left
          · refine Or.inl (Nat.sub_eq_zero_of_le ?_)
            simp only [Queue.insert]
            omega
      | notEmpty => exact Or.inr (Or.inr ⟨rfl, Nat.le_refl _⟩)
  | pushSignals =>
      cases condition with
      | notFull => exact balanced_of_credit_le rfl (Nat.le_refl _)
      | notEmpty => exact Or.inr (Or.inr ⟨rfl, Nat.le_refl _⟩)
  | remove =>
      cases condition with
      | notFull =>
          refine Or.inr (Or.inr ⟨rfl, ?_⟩)
          have left : Condition.notFull.available shared.queue.remove ≤
              Condition.notFull.available shared.queue + 1 := by
            simp only [Condition.available, Queue.remove]
            omega
          exact left
      | notEmpty =>
          by_cases empty : shared.queue.count = 0
          · refine Or.inl ?_
            simp only [Condition.available, Queue.remove, empty]
          · refine Or.inr (Or.inr ⟨rfl, ?_⟩)
            have left : Condition.notEmpty.available shared.queue.remove + 1 =
                Condition.notEmpty.available shared.queue := by
              simp only [Condition.available, Queue.remove]
              omega
            exact Nat.le_of_eq left
  | popSignals =>
      cases condition with
      | notFull => exact Or.inr (Or.inr ⟨rfl, Nat.le_refl _⟩)
      | notEmpty => exact balanced_of_credit_le rfl (Nat.le_refl _)
  | grow =>
      cases condition with
      | notFull =>
          refine Or.inr (Or.inr ⟨rfl, ?_⟩)
          have grown : Condition.notFull.available
              (shared.queue.resize (shared.queue.capacity + 1)) ≤
                Condition.notFull.available shared.queue + 1 := by
            simp only [Condition.available, Queue.resize]
            omega
          exact grown
      | notEmpty => exact Or.inr (Or.inr ⟨rfl, Nat.le_refl _⟩)
  | shrink =>
      cases condition with
      | notFull =>
          refine Or.inr (Or.inr ⟨rfl, ?_⟩)
          have shrunk : Condition.notFull.available
              (shared.queue.resize (shared.queue.capacity - 1)) ≤
                Condition.notFull.available shared.queue := by
            simp only [Condition.available, Queue.resize]
            omega
          exact shrunk
      | notEmpty => exact Or.inr (Or.inr ⟨rfl, Nat.le_refl _⟩)
  | increaseNotifies | decreaseNotifies =>
      cases condition with
      | notFull => exact Or.inr (Or.inl rfl)
      | notEmpty => exact balanced_of_credit_le rfl (Nat.le_refl _)

end Advance

section Deliver

variable [Fintype Thread] [DecidableEq Thread] {points points' : Thread → Point Message}
  {woken : List Thread} {notice : Notice} {condition : Condition} {thread : Thread}

/-- A notice makes nobody wait. -/
theorem waitsOn_of_deliver (delivered : deliver points woken notice = some points')
    (waits : (points' thread).waitsOn condition = true) :
    (points thread).waitsOn condition = true := by
  rcases deliver_cases delivered thread with same | ⟨other, notified⟩
  · exact same ▸ waits
  · rw [notified] at waits
    exact (Point.waitsOn_of_notify waits).1

theorem not_waitsOn_of_broadcast
    (delivered : deliver points woken (.broadcast condition) = some points') :
    (points' thread).waitsOn condition = false := by
  simp only [deliver, Option.some.injEq] at delivered
  rw [← delivered]
  by_contra waits
  exact (Point.waitsOn_of_notify (by simpa using waits)).2 rfl

/-- As long as a thread waits, a signal has raised the credit of another one. -/
theorem total_credit_deliver (delivered : deliver points woken notice = some points')
    (waits : (points thread).waitsOn condition = true) :
    total (Point.credit condition) points + notice.passes condition ≤
      total (Point.credit condition) points' := by
  have raised : ∀ other, (points other).credit condition ≤ (points' other).credit condition := by
    intro other
    rcases deliver_cases delivered other with same | ⟨notifying, notified⟩
    · exact Nat.le_of_eq (same ▸ rfl)
    · exact notified ▸ Point.credit_le_notify
  by_cases passes : notice = .signal condition
  · subst passes
    simp only [deliver, Option.ite_none_right_eq_some, Option.some.injEq] at delivered
    rcases delivered with ⟨⟨all_wait, some_if_any⟩, rfl⟩
    cases woken with
    | nil => exact absurd waits (some_if_any rfl thread)
    | cons first rest =>
        have first_waits := all_wait first List.mem_cons_self
        simp only [Notice.passes, if_true]
        apply Finset.sum_lt_sum (fun other _ => raised other)
        refine ⟨first, Finset.mem_univ _, ?_⟩
        simp only [List.mem_cons, true_or, if_true]
        rw [Point.credit_of_waitsOn first_waits, Point.credit_notify_of_waitsOn first_waits]
        exact Nat.zero_lt_one
  · have passes_nothing : notice.passes condition = 0 := by
      cases notice with
      | silent | broadcast => rfl
      | signal other =>
          simp only [Notice.passes, ite_eq_right_iff]
          rintro rfl
          exact absurd rfl passes
    rw [passes_nothing, Nat.add_zero]
    exact Finset.sum_le_sum fun other _ => raised other

end Deliver

section Next

variable [Fintype Thread] [DecidableEq Thread] {state successor : State Thread Message}

/-- A step of a thread keeps what others wait for spoken for. -/
theorem covered_step {thread : Thread} {woken : List Thread} {shared : Shared Thread Message}
    {point : Point Message} {points : Thread → Point Message} {notice : Notice}
    (covered : Covered state) (running : state.shared.running = true)
    (advanced : advance state.shared thread (state.points thread) = some (shared, point, notice))
    (delivered : deliver (Function.update state.points thread point) woken notice = some points) :
    Covered ⟨shared, points⟩ := by
  intro condition waiting waits
  rcases balanced_advance advanced running condition with nothing | notifies | ⟨moves, balance⟩
  · exact nothing ▸ Nat.zero_le _
  · subst notifies
    exact absurd waits (by simp [not_waitsOn_of_broadcast delivered])
  · have waits_before := waitsOn_of_deliver delivered waits
    have other : waiting ≠ thread := by
      rintro rfl
      rw [Function.update_self, moves] at waits_before
      exact absurd waits_before Bool.false_ne_true
    have bounded := covered condition waiting (by simpa [other] using waits_before)
    have moved := total_update (Point.credit condition) state.points thread point
    have passed := total_credit_deliver delivered waits_before
    simp only
    omega

theorem covered_next {action : Action Thread Message}
    (covered : state.shared.running = true → Covered state)
    (taken : next state action = some successor) :
    successor.shared.running = true → Covered successor := by
  intro running
  cases action with
  | call thread call =>
      rcases called_of_next taken with ⟨idle, rfl⟩
      intro condition waiting waits
      have moved := total_update (Point.credit condition) state.points thread call.entry
      have no_credit : call.entry.credit condition = 0 := by
        cases call <;> cases condition <;> rfl
      rw [idle, Point.credit_idle, no_credit] at moved
      have other : waiting ≠ thread := by
        rintro rfl
        simp only [Function.update_self] at waits
        cases call <;> cases condition <;> exact absurd waits Bool.false_ne_true
      have bounded := covered running condition waiting (by simpa [other] using waits)
      simp only at moved ⊢
      omega
  | step thread woken =>
      rcases stepped_of_next taken with
        ⟨shared, point, notice, points, advanced, delivered, rfl⟩
      have running_before : state.shared.running = true :=
        (outcome_advance advanced).running_eq.symm.trans running
      exact covered_step (covered running_before) running_before advanced delivered
  | stop =>
      simp only [next, Option.some.injEq] at taken
      subst taken
      exact absurd running Bool.false_ne_true

omit [DecidableEq Thread] in
/-- The thread inside its section is the only one that owes. -/
theorem total_credit_le (locked : ∀ thread,
      Holds state.shared.mutex thread (state.points thread).holds) (condition : Condition) :
    total (Point.credit condition) state.points ≤
      notifiedCount condition state.points + owedCount condition state := by
  classical
  have split : ∀ thread, (state.points thread).credit condition ≤
      (if (state.points thread).notified condition then 1 else 0) +
        if (state.points thread).owes condition then 1 else 0 := by
    intro thread
    unfold Point.credit
    cases (state.points thread).notified condition <;>
      cases (state.points thread).owes condition <;> decide
  have owed : ∑ thread, (if (state.points thread).owes condition then 1 else 0) ≤
      owedCount condition state := by
    unfold owedCount
    cases holder_eq : state.shared.mutex with
    | none =>
        refine Nat.le_of_eq (Finset.sum_eq_zero fun thread _ => if_neg fun owes => ?_)
        have inside := (locked thread).mp (holds_of_owes owes)
        simp [holder_eq] at inside
    | some holder =>
        refine Nat.le_of_eq (Finset.sum_eq_single holder (fun thread _ other => ?_) (by simp))
        refine if_neg fun owes => other ?_
        have inside := (locked thread).mp (holds_of_owes owes)
        rw [holder_eq] at inside
        exact (Option.some.inj inside).symm
  calc total (Point.credit condition) state.points
      ≤ ∑ thread, ((if (state.points thread).notified condition then 1 else 0) +
          if (state.points thread).owes condition then 1 else 0) :=
        Finset.sum_le_sum fun thread _ => split thread
    _ = notifiedCount condition state.points +
          ∑ thread, (if (state.points thread).owes condition then 1 else 0) := by
        rw [Finset.sum_add_distrib, notifiedCount, Finset.card_filter]
    _ ≤ notifiedCount condition state.points + owedCount condition state :=
        Nat.add_le_add_left owed _

theorem covered_of_reachable (reached : (system Thread Message).Reachable state) :
    state.shared.running = true → Covered state := by
  apply reached.invariant
  · rintro _ rfl - condition thread waits
    cases condition <;> exact absurd waits Bool.false_ne_true
  · intro state action successor covered _ taken
    exact covered_next covered taken

/-- In every interleaving, what blocked threads wait for is spoken for. -/
theorem noLostWakeup_of_reachable (reached : (system Thread Message).Reachable state)
    (running : state.shared.running = true) {condition : Condition} {thread : Thread}
    (waits : (state.points thread).waitsOn condition = true) :
    condition.available state.shared.queue ≤
      notifiedCount condition state.points + owedCount condition state := by
  rcases refines_of_reachable reached with ⟨fifo, -, refines⟩
  exact (covered_of_reachable reached running condition thread waits).trans
    (total_credit_le (fun other => (refines.consistent other).locked) condition)

end Next

end Osis.Lab05.CondQueue
