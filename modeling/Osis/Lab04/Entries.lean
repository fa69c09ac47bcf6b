import Osis.Lab04.Children

/-!
# The arrays of lab 4 while nobody is interrupted

A child ends by itself only after a `SIGINT`. Where none arrives, the arrays list exactly the
children that are alive, each once and in the order of their creation, so that `main` only kills
children of its own, of the role it has been told to, and the youngest first.
-/

namespace Osis.Lab04

open Concurrency

universe u

namespace Program

section Entries

variable {Process : Type u} {state successor : Program Process}

/-- The entries are children alive, and nobody has been told to end. -/
structure Exact (state : Program Process) : Prop where
  running : state.main = .scan ∨ (∃ role, state.main = .fork role) → state.running = true
  runs : ∀ pid, state.processes.points pid ≠ .absent → state.runs pid = true
  nodup : ∀ role, (state.table role).Nodup
  works : ∀ role, ∀ pid ∈ state.table role, (state.processes.points pid).role = some role
  fresh : ∀ role pid, state.main = .record role pid →
    (state.processes.points pid).role = some role ∧ pid ∉ state.table role

/-- `main` goes on to where it neither forks nor records. -/
theorem Exact.mainAt (exact : Exact state) {main : MainPoint Process} {running : Bool}
    (goes_on : main = .scan ∨ (∃ role, main = .fork role) → running = true)
    (elsewhere : ∀ role pid, main ≠ .record role pid) :
    Exact { state with running := running, main := main } where
  running := goes_on
  runs := exact.runs
  nodup := exact.nodup
  works := exact.works
  fresh role pid recording := absurd recording (elsewhere role pid)

theorem exact_create {role : Role} (exact : Exact state) (scanning : state.main = .scan) :
    Exact (state.create role) := by
  unfold create
  split
  · exact exact.mainAt (by simp) (by simp)
  · exact exact.mainAt (fun _ => exact.running (.inl scanning)) (by simp)

theorem exact_execute {command : Command} (exact : Exact state) (scanning : state.main = .scan) :
    Exact (state.execute command) := by
  cases command with
  | createProducer | createConsumer => exact exact_create exact scanning
  | removeLastProducer | removeLastConsumer | removeAll | printStatus | quit | unknown =>
      exact exact.mainAt (by simp) (by simp)

@[simp]
theorem runs_setTable (state : Program Process) (entries : List Process) (role : Role) :
    (state.setTable entries role).runs = state.runs := by
  cases role <;> rfl

theorem exact_record {role : Role} {pid : Process} (exact : Exact state)
    (recording : state.main = .record role pid) :
    Exact { state.setTable (state.table role ++ [pid]) role with main := .test } := by
  rcases exact.fresh role pid recording with ⟨alive, missing⟩
  refine ⟨by simp, fun other lives => ?_, fun role' => ?_, fun role' other listed => ?_, by simp⟩
  · simp only [processes_setTable, runs_setTable] at lives ⊢
    exact exact.runs other lives
  · change ((state.setTable _ role).table role').Nodup
    rcases table_changed state (state.table role ++ [pid]) role role' with
      ⟨rfl, table_eq⟩ | ⟨-, table_eq⟩
    · rw [table_eq]
      refine List.nodup_append.mpr ⟨exact.nodup role', List.pairwise_singleton _ pid, ?_⟩
      rintro other listed _ last rfl
      exact missing (List.mem_singleton.mp last ▸ listed)
    · rw [table_eq]
      exact exact.nodup role'
  · change other ∈ (state.setTable _ role).table role' at listed
    simp only [processes_setTable]
    rcases table_changed state (state.table role ++ [pid]) role role' with
      ⟨rfl, table_eq⟩ | ⟨-, table_eq⟩
    · rw [table_eq, List.mem_append, List.mem_singleton] at listed
      rcases listed with listed | rfl
      · exact exact.works role' other listed
      · exact alive
    · rw [table_eq] at listed
      exact exact.works role' other listed

variable [DecidableEq Process]

theorem exact_child {action : Action Process} (exact : Exact state)
    (taken : state.childNext action = some successor) : Exact successor := by
  rcases childNext_cases taken with ⟨processes, -, rfl, same | ⟨gone, interrupted, alive, -⟩⟩
  · refine ⟨exact.running, fun pid lives => exact.runs pid fun dead => lives ?_, exact.nodup,
      fun role pid listed => (same pid).trans (exact.works role pid listed),
      fun role pid recording => ?_⟩
    · apply Point.role_eq_none.mp
      rw [same pid, dead]
      rfl
    · rcases exact.fresh role pid recording with ⟨works, missing⟩
      exact ⟨(same pid).trans works, missing⟩
  · rw [exact.runs gone alive] at interrupted
    cases interrupted

theorem exact_reap {pid : Process} (exact : Exact state) (taken : state.reap pid = some successor) :
    Exact successor := by
  rcases reap_eq_some.mp taken with ⟨-, -, rfl⟩
  exact ⟨exact.running, exact.runs, exact.nodup, exact.works, exact.fresh⟩

theorem exact_waitpid {pid : Process} {caller : Caller} (exact : Exact state)
    (taken : state.waitpid pid caller = some successor) : Exact successor := by
  have elsewhere : ∀ role other, (caller.target : MainPoint Process) ≠ .record role other := by
    cases caller <;> simp [Caller.target]
  have stays : (caller.target : MainPoint Process) = .scan ∨
      (∃ role, (caller.target : MainPoint Process) = .fork role) → state.running = true := by
    cases caller <;> simp [Caller.target]
  unfold waitpid at taken
  split at taken
  · rcases Option.map_eq_some_iff.mp taken with ⟨reaped, done, rfl⟩
    have exact' := exact_reap exact done
    rcases reap_eq_some.mp done with ⟨-, -, rfl⟩
    exact exact'.mainAt stays elsewhere
  · cases taken
    exact exact.mainAt stays elsewhere

theorem exact_fork {role : Role} {result : Option Process} (exact : Exact state)
    (forking : state.main = .fork role) (taken : state.fork role result = some successor) :
    Exact successor := by
  cases result with
  | none =>
      cases taken
      exact exact.mainAt (by simp) (by simp)
  | some pid =>
      rcases fork_eq_some.mp taken with ⟨-, free, rfl⟩
      have unlisted : ∀ role', pid ∉ state.table role' := by
        intro role' listed
        exact Point.ne_absent_of_role (exact.works role' pid listed) free
      refine ⟨by simp, fun other lives => ?_, exact.nodup, fun role' other listed => ?_,
        fun role' other recording => ?_⟩
      · by_cases same : other = pid
        · subst same
          simpa using exact.running (.inr ⟨role, forking⟩)
        · have lives' : state.processes.points other ≠ .absent := by
            simpa [State.move, same] using lives
          simpa [same] using exact.runs other lives'
      · have different : other ≠ pid := by
          rintro rfl
          exact unlisted role' listed
        simpa [State.move, different] using exact.works role' other listed
      · cases recording
        exact ⟨by simp [State.move], unlisted role⟩

theorem exact_removeLast {role : Role} {caller : Caller} (exact : Exact state) :
    Exact (state.removeLast role caller) := by
  unfold removeLast
  split
  · refine exact.mainAt ?_ ?_
    · cases caller <;> simp [Caller.target]
    · cases caller <;> simp [Caller.target]
  · next pid last =>
      have split := List.dropLast_append_getLast? pid last
      have distinct := exact.nodup role
      rw [← split] at distinct
      have listed_before : ∀ role', ∀ other ∈ (state.setTable (state.table role).dropLast
          role).table role', other ≠ pid ∧ other ∈ state.table role' := by
        intro role' other listed
        rcases table_changed state (state.table role).dropLast role role' with
          ⟨rfl, table_eq⟩ | ⟨different, table_eq⟩
        · rw [table_eq] at listed
          refine ⟨?_, (List.dropLast_sublist _).subset listed⟩
          rintro rfl
          exact (List.nodup_append.mp distinct).2.2 _ listed _ (List.mem_singleton.mpr rfl) rfl
        · rw [table_eq] at listed
          refine ⟨?_, listed⟩
          rintro rfl
          have there : other ∈ state.table role :=
            split ▸ List.mem_append_right _ List.mem_cons_self
          have both := (exact.works role' other listed).symm.trans (exact.works role other there)
          exact different (Option.some.inj both)
      refine ⟨by simp, fun other lives => ?_, fun role' => ?_, fun role' other listed => ?_,
        by simp⟩
      · have different : other ≠ pid := by
          rintro rfl
          simp [State.move] at lives
        simp only [runs_setTable]
        exact exact.runs other (by simpa [State.move, different] using lives)
      · change ((state.setTable _ role).table role').Nodup
        rcases table_changed state (state.table role).dropLast role role' with
          ⟨rfl, table_eq⟩ | ⟨-, table_eq⟩
        · rw [table_eq]
          exact (exact.nodup role').sublist (List.dropLast_sublist _)
        · rw [table_eq]
          exact exact.nodup role'
      · rcases listed_before role' other listed with ⟨different, before⟩
        simpa [State.move, different] using exact.works role' other before

theorem exact_main (exact : Exact state) (taken : state.mainNext = some successor) :
    Exact successor := by
  unfold mainNext at taken
  split at taken
  · split at taken
    · next goes_on =>
        cases taken
        exact exact.mainAt (fun _ => goes_on) (by simp)
    · cases taken
      exact exact.mainAt (by simp) (by simp)
  · cases taken
  · cases taken
  · cases taken
  · next role pid recording =>
      cases taken
      exact exact_record exact recording
  · cases taken
    exact exact_removeLast exact
  · exact exact_waitpid exact taken
  · split at taken
    · cases taken
      exact exact.mainAt (by simp) (by simp)
    · split at taken
      · cases taken
        exact exact.mainAt (by simp) (by simp)
      · split at taken <;> cases taken <;> exact exact.mainAt (by simp) (by simp)
  · simp only [Option.ite_none_right_eq_some, Option.some.injEq] at taken
    rcases taken with ⟨-, rfl⟩
    exact exact.mainAt (by simp) (by simp)

theorem exact_next {label : Label Process} (exact : Exact state)
    (uninterrupted : ∀ pid, label ≠ .interrupt pid)
    (taken : state.next label = some successor) : Exact successor := by
  cases label with
  | command command =>
      simp only [next] at taken
      split at taken
      · next scanning =>
          cases taken
          exact exact_execute exact scanning
      · cases taken
  | endOfInput =>
      simp only [next] at taken
      split at taken
      · cases taken
        exact exact.mainAt (by simp) (by simp)
      · cases taken
  | fork result =>
      simp only [next] at taken
      split at taken
      · next role forking => exact exact_fork exact forking taken
      · cases taken
  | main => exact exact_main exact taken
  | cutShort =>
      simp only [next] at taken
      split at taken
      · next pid caller _ =>
          cases taken
          refine exact.mainAt ?_ ?_
          · cases caller <;> simp [Caller.target]
          · cases caller <;> simp [Caller.target]
      · cases taken
        exact exact.mainAt (by simp) (by simp)
      · cases taken
  | reap pid => exact exact_reap exact taken
  | child action => exact exact_child exact taken
  | interrupt pid => exact absurd rfl (uninterrupted pid)

theorem exact_of_reachable
    (reached : (system Process).ReachableUnder (fun _ label => ∀ pid, label ≠ .interrupt pid)
      state) : Exact state := by
  apply reached.invariant
  · rintro _ ⟨processes, started, rfl⟩
    have absent : ∀ pid, processes.points pid = .absent := fun pid => congrFun started.points pid
    refine ⟨fun _ => rfl, fun pid alive => absurd (absent pid) alive, fun role => ?_,
      fun role pid listed => ?_, by simp [start]⟩
    · cases role <;> exact List.nodup_nil
    · cases role <;> cases listed
  · intro state label successor exact uninterrupted taken
    exact exact_next exact uninterrupted taken

/-- While no `SIGINT` arrives, the arrays list exactly the children that are alive, each once. -/
theorem entries_of_uninterrupted
    (reached : (system Process).ReachableUnder (fun _ label => ∀ pid, label ≠ .interrupt pid)
      state) :
    (∀ role, (state.table role).Nodup) ∧
      ∀ role pid, (state.processes.points pid).role = some role ↔
        pid ∈ state.table role ∨ state.main = .record role pid := by
  have exact' := exact_of_reachable reached
  have tracked := tracked_of_reachable (reached.mono fun _ _ _ _ => trivial)
  refine ⟨exact'.nodup, fun role pid => ⟨tracked.listed pid role, fun listed => ?_⟩⟩
  rcases listed with listed | recording
  · exact exact'.works role pid listed
  · exact (exact'.fresh role pid recording).1

end Entries

/-- A producer comes and goes, and a consumer gets its process id. -/
def replacedProducer : List (Label (Fin 2)) :=
  [.main, .command .createProducer, .fork (some (.last 1)), .main, .main,
    .command .removeLastProducer, .main, .main, .main,
    .command .createConsumer, .fork (some (.last 1)), .main]

theorem entries_replacedProducer :
    ∃ state, (system (Fin 2)).run (start freshState) replacedProducer = some state ∧
      state.producers = [] ∧ .last 1 ∈ state.consumers := by
  have ran : ∃ state, (system (Fin 2)).run (start freshState) replacedProducer = some state ∧
      state.producers = [] ∧ state.main = .test ∧
      (state.processes.points 1).role = some .consumer := ⟨_, rfl, rfl, rfl, rfl⟩
  rcases ran with ⟨state, ran, no_producers, testing, works⟩
  have started : (system (Fin 2)).initial (start freshState) :=
    ⟨freshState, started_freshState, rfl⟩
  have reached : (system (Fin 2)).ReachableUnder (fun _ label => ∀ pid, label ≠ .interrupt pid)
      state := System.ReachableUnder.of_run (.start started) (by simp [replacedProducer]) ran
  have listed := ((entries_of_uninterrupted reached).2 .consumer (.last 1)).mp works
  exact ⟨state, ran, no_producers, listed.resolve_right (by simp [testing])⟩

end Program

end Osis.Lab04
