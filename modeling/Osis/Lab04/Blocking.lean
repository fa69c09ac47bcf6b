import Osis.Lab04.Killing

/-!
# When the processes of lab 4 stand still

`semop` takes a slot and the mutex in one step, so that nobody holds one while it waits for
the other. Unless a child has been killed between its two calls, all processes stand still
only as producers before a full buffer or as consumers before an empty one. After such a
kill nothing is put in or taken out any more, whatever is forked or killed later.
-/

namespace Osis.Lab04

open Concurrency

universe u

variable {Process : Type u}

/-- The mutex is taken, and nobody is there to give it back. -/
structure Jammed (state : State Process) : Prop where
  mutex : state.shared.semaphores 2 = 0
  outside : ∀ process, (state.points process).inside = false

/-- In front of the first `semop` of a call. -/
inductive AtLock : Point → Prop where
  | push (msg : Message) : AtLock (.queuePush msg .lock)
  | pop : AtLock (.queuePop .lock)

/-- Producers wait before a full buffer. -/
structure AllPushing (state : State Process) : Prop where
  full : state.shared.pushed.length = state.shared.popped.length + maxQueueSize
  others : ∀ process, state.points process = .absent ∨
    ∃ msg, state.points process = .queuePush msg .lock

/-- Consumers wait before an empty buffer. -/
structure AllPopping (state : State Process) : Prop where
  empty : state.shared.popped = state.shared.pushed
  others : ∀ process, state.points process = .absent ∨ state.points process = .queuePop .lock

section Steps

variable {shared : Shared Process} {process : Process} {point : Point}

theorem AtLock.outside (waits : AtLock point) : point.inside = false := by
  cases waits <;> rfl

/-- A call is only held up at its first `semop`, where the mutex or what it takes is lacking. -/
theorem advance_eq_none_iff : advance shared process point = none ↔
    point = .absent ∨ point = .producerTask ∨
      (∃ msg, point = .queuePush msg .lock ∧
        (shared.semaphores 0 = 0 ∨ shared.semaphores 2 = 0)) ∨
      (point = .queuePop .lock ∧ (shared.semaphores 1 = 0 ∨ shared.semaphores 2 = 0)) := by
  have take : ∀ (first : Fin 3) (target : Point), (2 : Fin 3) ≠ first →
      (shared.semop [⟨first, -1⟩, ⟨2, -1⟩] target = none ↔
        shared.semaphores first = 0 ∨ shared.semaphores 2 = 0) := by
    intro first target different
    simp only [Shared.semop, Option.map_eq_none_iff]
    constructor
    · intro stays
      by_contra both
      rw [not_or] at both
      have goes := (semop_take_eq_some different).mpr
        ⟨Nat.pos_of_ne_zero both.1, Nat.pos_of_ne_zero both.2, rfl⟩
      rw [stays] at goes
      cases goes
    · intro lacks
      by_contra goes
      rcases Option.ne_none_iff_exists'.mp goes with ⟨values, done⟩
      have both := (semop_take_eq_some different).mp done
      omega
  cases point with
  | absent | producerTask => simp [advance]
  | consumerTask | checkHash => simp [advance]
  | queuePush msg stage =>
      cases stage with
      | lock => simpa [advance, queuePush, opsPush] using take 0 _ (by decide)
      | copy | tail | added | free => simp [advance, queuePush, Shared.update]
      | finish =>
          simp [advance, queuePush, Shared.semop, opsPushFinish, semop_give]
  | queuePop stage =>
      cases stage with
      | lock => simpa [advance, queuePop, opsPop] using take 1 _ (by decide)
      | copy | head | removed | free => simp [advance, queuePop, Shared.update]
      | finish =>
          simp [advance, queuePop, Shared.semop, opsPopFinish, semop_give]

end Steps

section Runs

variable [DecidableEq Process] {state successor : State Process}

/-- Some process is alive, and none goes on by itself. -/
structure Stuck (state : State Process) : Prop where
  some_lives : ∃ process, state.points process ≠ .absent
  steps : ∀ process, next state (.step process) = none
  produces : ∀ process rand, next state (.produce process rand) = none

/-- A killed holder of the mutex stays the last to have been inside. -/
theorem jammed_next {action : Action Process} (jammed : Jammed state)
    (intact : ∀ process, (state.points process).Intact)
    (taken : next state action = some successor) :
    Jammed successor ∧ (∀ process, (successor.points process).Intact) ∧
      successor.shared = state.shared := by
  have moved : ∀ (process : Process) (point : Point), point.inside = false → point.Intact →
      Jammed (state.move process point) ∧
        (∀ other, ((state.move process point).points other).Intact) ∧
        (state.move process point).shared = state.shared := by
    intro process point outside unharmed
    refine ⟨⟨jammed.mutex, fun other => ?_⟩, fun other => ?_, rfl⟩
    · by_cases same : other = process
      · subst same
        simpa [State.move] using outside
      · simpa [State.move, same] using jammed.outside other
    · by_cases same : other = process
      · subst same
        simpa [State.move] using unharmed
      · simpa [State.move, same] using intact other
  cases action with
  | fork process role =>
      simp only [next] at taken
      split at taken <;> cases taken
      exact moved process role.task (by cases role <;> rfl) (by cases role <;> trivial)
  | produce process rand =>
      simp only [next] at taken
      split at taken <;> cases taken
      exact moved process _ rfl (Message.calculateHash_produce rand)
  | leave process =>
      simp only [next] at taken
      split at taken <;> cases taken
      · exact moved process .absent rfl trivial
      · exact moved process .absent rfl trivial
  | kill process =>
      cases taken
      exact moved process .absent rfl trivial
  | step process =>
      simp only [next, Option.map_eq_some_iff, Prod.exists] at taken
      rcases taken with ⟨shared, point, advanced, rfl⟩
      rcases advance_outside (jammed.outside process) (intact process) advanced with
        ⟨outside, unharmed, rfl⟩ | ⟨-, free⟩
      · exact moved process point outside unharmed
      · exact absurd jammed.mutex free.ne'

/-- Every kill leaves the processes consistent or jams them. -/
theorem consistent_or_jammed (reached : (startedSystem Process).Reachable state) :
    (∃ holder, Consistent state holder) ∨
      Jammed state ∧ ∀ process, (state.points process).Intact := by
  apply reached.invariant
  · intro state started
    exact .inl ⟨none, started.consistent⟩
  · rintro state action successor (⟨holder, consistent⟩ | ⟨jammed, intact⟩) - taken
    · by_cases permitted : KillsOutside state action
      · exact .inl (consistent.next permitted taken)
      · right
        simp only [KillsOutside, not_forall] at permitted
        rcases permitted with ⟨process, rfl, inside⟩
        rw [Bool.not_eq_false] at inside
        simp only [startedSystem, next, Option.some.injEq] at taken
        subst taken
        have holder_eq : holder = some process := (inside ▸ consistent.holds process).mp rfl
        have mutex := consistent.follows.mutex
        rw [holder_eq] at mutex
        simp only [State.lagOf, Option.elim_some, locked_of_inside inside] at mutex
        refine ⟨⟨by simp only [State.move]; omega, fun other => ?_⟩, fun other => ?_⟩
        · by_cases same : other = process
          · subst same
            simp [State.move, Point.inside]
          · have elsewhere := (consistent.holds other).exclusive
              (inside ▸ consistent.holds process) (Ne.symm same)
            simpa [State.move, same] using elsewhere
        · by_cases same : other = process
          · subst same
            simp [State.move, Point.Intact]
          · simpa [State.move, same] using consistent.intact other
    · rcases jammed_next jammed intact taken with ⟨jammed', intact', -⟩
      exact .inr ⟨jammed', intact'⟩

theorem jammed_run {actions : List (Action Process)} {final : State Process}
    (jammed : Jammed state) (intact : ∀ process, (state.points process).Intact)
    (ran : (startedSystem Process).run state actions = some final) :
    Jammed final ∧ final.shared = state.shared := by
  induction actions generalizing state with
  | nil =>
      cases ran
      exact ⟨jammed, rfl⟩
  | cons action actions ih =>
      rw [System.run_cons, Option.bind_eq_some_iff] at ran
      rcases ran with ⟨successor, taken, ran⟩
      rcases jammed_next jammed intact taken with ⟨jammed', intact', shared_eq⟩
      rcases ih jammed' intact' ran with ⟨jammed_finally, shared_eq'⟩
      exact ⟨jammed_finally, shared_eq'.trans shared_eq⟩

/-- A process that stands still is at a `semop` that lacks the mutex or what it takes. -/
theorem Stuck.stands (stuck : Stuck state) (process : Process) :
    state.points process = .absent ∨
      (∃ msg, state.points process = .queuePush msg .lock ∧
        (state.shared.semaphores 0 = 0 ∨ state.shared.semaphores 2 = 0)) ∨
      (state.points process = .queuePop .lock ∧
        (state.shared.semaphores 1 = 0 ∨ state.shared.semaphores 2 = 0)) := by
  have stays := stuck.steps process
  simp only [next, Option.map_eq_none_iff] at stays
  rcases advance_eq_none_iff.mp stays with absent | producing | waits
  · exact .inl absent
  · have produces := stuck.produces process id
    simp [next, producing] at produces
  · exact .inr waits

theorem Stuck.atLock (stuck : Stuck state) (process : Process) :
    state.points process = .absent ∨ AtLock (state.points process) := by
  rcases stuck.stands process with absent | ⟨msg, pushes, -⟩ | ⟨pops, -⟩
  · exact .inl absent
  · exact .inr (pushes ▸ .push msg)
  · exact .inr (pops ▸ .pop)

theorem outside_of_atLock {point : Point} (stands : point = .absent ∨ AtLock point) :
    point.inside = false := by
  rcases stands with rfl | waits
  · rfl
  · exact waits.outside

theorem stuck_of_advance (some_lives : ∃ process, state.points process ≠ .absent)
    (blocked : ∀ process, advance state.shared process (state.points process) = none)
    (stands : ∀ process, state.points process = .absent ∨ AtLock (state.points process)) :
    Stuck state := by
  refine ⟨some_lives, fun process => ?_, fun process rand => ?_⟩
  · simp [next, blocked]
  · have at_lock := stands process
    simp only [next]
    generalize state.points process = point at at_lock
    rcases at_lock with rfl | waits
    · rfl
    · cases waits <;> rfl

omit [DecidableEq Process] in
/-- With nobody inside, consistent semaphores count what is in the buffer. -/
theorem Consistent.follows_of_outside {holder : Option Process}
    (consistent : Consistent state holder)
    (outside : ∀ process, (state.points process).inside = false) : Follows {} state.shared := by
  have follows := consistent.follows
  cases holder with
  | none => exact follows
  | some process =>
      rw [State.lagOf, Option.elim_some, lag_of_outside (outside process)] at follows
      exact follows

theorem allPushing_or_allPopping (follows : Follows {} state.shared) (stuck : Stuck state) :
    AllPushing state ∨ AllPopping state := by
  have mutex := follows.mutex
  have empty := follows.empty
  have full := follows.full
  simp only [maxQueueSize] at mutex empty full
  by_cases some_pushes : ∃ process msg, state.points process = .queuePush msg .lock
  · rcases some_pushes with ⟨pusher, msg, pushes⟩
    have taken : state.shared.semaphores 0 = 0 := by
      rcases stuck.stands pusher with absent | ⟨-, -, lacks⟩ | ⟨pops, -⟩
      · cases pushes.symm.trans absent
      · omega
      · cases pushes.symm.trans pops
    refine .inl ⟨by simp only [maxQueueSize]; omega, fun process => ?_⟩
    rcases stuck.stands process with absent | ⟨other, also_pushes, -⟩ | ⟨-, lacks⟩
    · exact .inl absent
    · exact .inr ⟨other, also_pushes⟩
    · omega
  · have none_pushes : ∀ process, state.points process = .absent ∨
        state.points process = .queuePop .lock ∧ state.shared.semaphores 1 = 0 := by
      intro process
      rcases stuck.stands process with absent | ⟨msg, pushes, -⟩ | ⟨pops, lacks⟩
      · exact .inl absent
      · exact absurd ⟨process, msg, pushes⟩ some_pushes
      · exact .inr ⟨pops, by omega⟩
    rcases stuck.some_lives with ⟨process, lives⟩
    have drained := ((none_pushes process).resolve_left lives).2
    exact .inr ⟨follows.inOrder.eq_of_length (by omega), fun process =>
      (none_pushes process).imp_right And.left⟩

/-- The processes stand still exactly before a full or an empty buffer, or where a kill has jammed
them; and what is jammed stays as it is in every run. -/
theorem standstill_iff (reached : (startedSystem Process).Reachable state) :
    (Stuck state ↔ (∃ process, state.points process ≠ .absent) ∧
      (Jammed state ∧ (∀ process, state.points process = .absent ∨ AtLock (state.points process)) ∨
        AllPushing state ∨ AllPopping state)) ∧
    (Jammed state → ∀ actions final, (startedSystem Process).run state actions = some final →
      Jammed final ∧ final.shared = state.shared) := by
  constructor
  · constructor
    · intro stuck
      refine ⟨stuck.some_lives, ?_⟩
      rcases consistent_or_jammed reached with ⟨holder, consistent⟩ | ⟨jammed, -⟩
      · exact .inr (allPushing_or_allPopping (consistent.follows_of_outside fun process =>
          outside_of_atLock (stuck.atLock process)) stuck)
      · exact .inl ⟨jammed, stuck.atLock⟩
    · rintro ⟨some_lives, standing⟩
      have stands : ∀ process, state.points process = .absent ∨ AtLock (state.points process) := by
        rcases standing with ⟨-, stands⟩ | pushing | popping
        · exact stands
        · intro process
          rcases pushing.others process with absent | ⟨msg, pushes⟩
          · exact .inl absent
          · exact .inr (pushes ▸ .push msg)
        · intro process
          rcases popping.others process with absent | pops
          · exact .inl absent
          · exact .inr (pops ▸ .pop)
      refine stuck_of_advance some_lives (fun process => advance_eq_none_iff.mpr ?_) stands
      rcases consistent_or_jammed reached with ⟨holder, consistent⟩ | ⟨jammed, -⟩
      · have follows := consistent.follows_of_outside fun process =>
          outside_of_atLock (stands process)
        have mutex := follows.mutex
        have empty := follows.empty
        have full := follows.full
        simp only at mutex empty full
        rcases standing with ⟨jammed, -⟩ | pushing | popping
        · have taken := jammed.mutex
          omega
        · rcases pushing.others process with absent | ⟨msg, pushes⟩
          · exact .inl absent
          · have filled := pushing.full
            exact .inr (.inr (.inl ⟨msg, pushes, .inl (by omega)⟩))
        · rcases popping.others process with absent | pops
          · exact .inl absent
          · have drained := congrArg List.length popping.empty
            exact .inr (.inr (.inr ⟨pops, .inl (by omega)⟩))
      · have at_lock := stands process
        generalize state.points process = point at at_lock
        rcases at_lock with rfl | waits
        · exact .inl rfl
        · cases waits with
          | push msg => exact .inr (.inr (.inl ⟨msg, rfl, .inr jammed.mutex⟩))
          | pop => exact .inr (.inr (.inr ⟨rfl, .inr jammed.mutex⟩))
  · intro jammed actions final ran
    rcases consistent_or_jammed reached with ⟨holder, consistent⟩ | ⟨-, intact⟩
    · exact jammed_run jammed consistent.intact ran
    · exact jammed_run jammed intact ran

end Runs

/-- A consumer comes to wait for a mutex that a killed producer has taken along. -/
def waitForKilled : List (Action (Fin 2)) :=
  killedInside ++ [.fork (.last 1) .consumer, .step (.last 1)]

theorem standstill_iff_waitForKilled :
    ∃ state, (startedSystem (Fin 2)).run freshState waitForKilled = some state ∧ Stuck state := by
  have waits : ∃ state, (startedSystem (Fin 2)).run freshState waitForKilled = some state ∧
      state.shared.semaphores 2 = 0 ∧ state.points 0 = .absent ∧
      state.points 1 = .queuePop .lock := ⟨_, rfl, rfl, rfl, rfl⟩
  rcases waits with ⟨state, ran, mutex, absent, pops⟩
  have stands : ∀ process, state.points process = .absent ∨ AtLock (state.points process) :=
    Fin.forall_fin_two.mpr ⟨.inl absent, .inr (pops ▸ .pop)⟩
  have jammed : Jammed state := ⟨mutex, fun process => outside_of_atLock (stands process)⟩
  have reached := System.Reachable.of_run (.start started_freshState) ran
  exact ⟨state, ran, (standstill_iff reached).1.mpr ⟨⟨1, by simp [pops]⟩, .inl ⟨jammed, stands⟩⟩⟩

end Osis.Lab04
