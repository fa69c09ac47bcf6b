import Mathlib.Data.List.Basic
import Mathlib.Data.List.Perm.Subperm
import Osis.Lab04.Program

/-!
# The children of lab 4

Entries of dead children stay in the arrays, and their process ids may come back. Still every
child alive is in the array of its role, since an entry leaves it only when it is killed. So
there are never more children than entries, and none is left when `main` destroys the queue.
-/

namespace Osis.Lab04

open Concurrency

universe u

/-- The role of a child. -/
def Point.role : Point → Option Role
  | .absent => none
  | .producerTask | .queuePush _ _ => some .producer
  | .consumerTask | .queuePop _ | .checkHash _ => some .consumer

@[simp]
theorem Point.role_absent : Point.absent.role = none := rfl

@[simp]
theorem Point.role_task (role : Role) : role.task.role = some role := by
  cases role <;> rfl

theorem Point.role_eq_none {point : Point} : point.role = none ↔ point = .absent := by
  cases point <;> simp [role]

theorem Point.ne_absent_of_role {point : Point} {role : Role} (works : point.role = some role) :
    point ≠ .absent := by
  rintro rfl
  cases works

section Roles

variable {Process : Type u} {shared shared' : Shared Process} {process : Process}
  {point point' : Point}

/-- A child keeps its role. -/
theorem role_advance (goes : advance shared process point = some (shared', point')) :
    point'.role = point.role := by
  have update : ∀ {queue : Queue} {target : Point},
      shared.update queue target = some (shared', point') → target = point' := by
    intro queue target done
    cases done
    rfl
  have semop : ∀ {ops : List (SemBuf (Fin 3))} {target : Point},
      shared.semop ops target = some (shared', point') → target = point' := by
    intro ops target done
    rcases Option.map_eq_some_iff.mp done with ⟨_, -, same⟩
    cases same
    rfl
  cases point with
  | absent | producerTask => cases goes
  | consumerTask | checkHash msg =>
      cases goes
      rfl
  | queuePush msg stage =>
      cases stage with
      | copy =>
          cases goes
          rfl
      | lock => exact semop goes ▸ rfl
      | finish => exact @semop opsPushFinish .producerTask goes ▸ rfl
      | tail | added | free => exact update goes ▸ rfl
  | queuePop stage =>
      cases stage with
      | copy =>
          cases goes
          rfl
      | lock => exact semop goes ▸ rfl
      | finish outMsg => exact @semop opsPopFinish (.checkHash outMsg) goes ▸ rfl
      | head | removed | free => exact update goes ▸ rfl

end Roles

namespace MainPoint

variable {Process : Type u}

/-- The role for which `main` is about to add an entry. -/
def reserves : MainPoint Process → Option Role
  | .fork role | .record role _ => some role
  | _ => none

/-- Whether both arrays have been emptied for good. -/
def emptied : MainPoint Process → Bool
  | .wait | .destroy => true
  | _ => false

end MainPoint

namespace Program

section Tracking

variable {Process : Type u} {state successor : Program Process}

@[simp]
theorem table_setTable_self (state : Program Process) (entries : List Process) (role : Role) :
    (state.setTable entries role).table role = entries := by
  cases role <;> rfl

theorem table_setTable_of_ne (state : Program Process) (entries : List Process)
    {role other : Role} (different : other ≠ role) :
    (state.setTable entries role).table other = state.table other := by
  cases role <;> cases other <;> first | rfl | exact absurd rfl different

/-- Every child alive is in its array or about to be put there. -/
structure Tracked (state : Program Process) : Prop where
  listed : ∀ pid role, (state.processes.points pid).role = some role →
    pid ∈ state.table role ∨ state.main = .record role pid
  unreaped : ∀ pid, state.processes.points pid ≠ .absent → pid ∈ state.children
  length_le : ∀ role, (state.table role).length ≤ maxProcs
  room : ∀ role, state.main.reserves = some role → (state.table role).length < maxProcs
  empty : state.main.emptied = true → ∀ role, state.table role = []

/-- Children end, or are reaped once they are dead. -/
theorem Tracked.fewer (tracked : Tracked state) {processes : State Process}
    {children : List Process} {running : Bool} {runs : Process → Bool}
    (kept : ∀ pid role, (processes.points pid).role = some role →
      (state.processes.points pid).role = some role)
    (unreaped : ∀ pid, processes.points pid ≠ .absent → pid ∈ children) :
    Tracked { state with
      processes := processes, children := children, running := running, runs := runs } where
  listed pid role works := tracked.listed pid role (kept pid role works)
  unreaped := unreaped
  length_le := tracked.length_le
  room := tracked.room
  empty := tracked.empty

/-- `main` goes on from one point to another. -/
theorem Tracked.mainAt (tracked : Tracked state) {main : MainPoint Process} {running : Bool}
    (recorded : ∀ role pid, state.main ≠ .record role pid)
    (room : ∀ role, main.reserves = some role → (state.table role).length < maxProcs)
    (empty : main.emptied = true → ∀ role, state.table role = []) :
    Tracked { state with running := running, main := main } where
  listed pid role works :=
    .inl ((tracked.listed pid role works).resolve_right (recorded role pid))
  unreaped := tracked.unreaped
  length_le := tracked.length_le
  room := room
  empty := empty

/-- `main` goes on without an entry to add and without having emptied the arrays. -/
theorem Tracked.mainFree (tracked : Tracked state) {main : MainPoint Process} {running : Bool}
    (recorded : ∀ role pid, state.main ≠ .record role pid) (reserves : main.reserves = none)
    (emptied : main.emptied = false) : Tracked { state with running := running, main := main } :=
  tracked.mainAt recorded
    (fun _ reserved => absurd (reserves.symm.trans reserved) (Option.some_ne_none _).symm)
    (fun empty => absurd (emptied.symm.trans empty) Bool.false_ne_true)

theorem reserves_target (caller : Caller) :
    (caller.target : MainPoint Process).reserves = none := by
  cases caller <;> rfl

theorem emptied_target (caller : Caller) :
    (caller.target : MainPoint Process).emptied = false := by
  cases caller <;> rfl

@[simp]
theorem processes_setTable (state : Program Process) (entries : List Process) (role : Role) :
    (state.setTable entries role).processes = state.processes := by
  cases role <;> rfl

@[simp]
theorem children_setTable (state : Program Process) (entries : List Process) (role : Role) :
    (state.setTable entries role).children = state.children := by
  cases role <;> rfl

/-- The point after an entry of a child removed or recorded keeps the other array. -/
theorem table_changed (state : Program Process) (entries : List Process) (role other : Role) :
    other = role ∧ (state.setTable entries role).table other = entries ∨
      other ≠ role ∧ (state.setTable entries role).table other = state.table other := by
  by_cases same : other = role
  · subst same
    exact .inl ⟨rfl, table_setTable_self state entries other⟩
  · exact .inr ⟨same, table_setTable_of_ne state entries same⟩

/-- The new entry. -/
theorem tracked_record {role : Role} {pid : Process} (tracked : Tracked state)
    (recording : state.main = .record role pid) :
    Tracked { state.setTable (state.table role ++ [pid]) role with main := .test } := by
  have room := tracked.room role (by rw [recording]; rfl)
  refine ⟨fun other role' works => .inl ?_, fun other alive => ?_, fun role' => ?_,
    fun _ reserved => absurd reserved.symm (Option.some_ne_none _),
    fun emptied => absurd emptied Bool.false_ne_true⟩
  · change other ∈ (state.setTable _ role).table role'
    simp only [processes_setTable] at works
    rcases table_changed state (state.table role ++ [pid]) role role' with
      ⟨rfl, table_eq⟩ | ⟨different, table_eq⟩
    · rw [table_eq, List.mem_append, List.mem_singleton]
      refine (tracked.listed other role' works).imp_right fun recorded => ?_
      rw [recording] at recorded
      cases recorded
      rfl
    · rw [table_eq]
      refine (tracked.listed other role' works).resolve_right fun recorded => ?_
      rw [recording] at recorded
      cases recorded
      exact different rfl
  · simp only [processes_setTable, children_setTable] at alive ⊢
    exact tracked.unreaped other alive
  · change ((state.setTable _ role).table role').length ≤ maxProcs
    rcases table_changed state (state.table role ++ [pid]) role role' with
      ⟨rfl, table_eq⟩ | ⟨-, table_eq⟩
    · rw [table_eq, List.length_append]
      exact room
    · rw [table_eq]
      exact tracked.length_le role'

theorem tracked_create {role : Role} (tracked : Tracked state) (scanning : state.main = .scan) :
    Tracked (state.create role) := by
  unfold create
  split
  · exact tracked.mainFree (by simp [scanning]) rfl rfl
  · next room =>
      refine tracked.mainAt (by simp [scanning]) (fun role' reserved => ?_)
        (by simp [MainPoint.emptied])
      cases reserved
      exact Nat.lt_of_not_le room

theorem tracked_execute {command : Command} (tracked : Tracked state)
    (scanning : state.main = .scan) : Tracked (state.execute command) := by
  cases command with
  | createProducer | createConsumer => exact tracked_create tracked scanning
  | removeLastProducer | removeLastConsumer | removeAll | printStatus | quit | unknown =>
      exact tracked.mainFree (by simp [scanning]) rfl rfl

/-- At most four children of a role are alive, whatever entries the dead ones have left. -/
theorem Tracked.few (tracked : Tracked state) {role : Role} {pids : List Process}
    (distinct : pids.Nodup) (alive : ∀ pid ∈ pids, (state.processes.points pid).role = some role) :
    pids.length ≤ maxProcs := by
  by_cases recording : ∃ pid, state.main = .record role pid
  · rcases recording with ⟨pid, recording⟩
    have room := tracked.room role (by rw [recording]; rfl)
    have inside : pids ⊆ state.table role ++ [pid] := by
      intro other other_mem
      rw [List.mem_append, List.mem_singleton]
      refine (tracked.listed other role (alive other other_mem)).imp_right fun recorded => ?_
      rw [recording] at recorded
      cases recorded
      rfl
    have bound := (List.subperm_of_subset distinct inside).length_le
    rw [List.length_append, List.length_singleton] at bound
    omega
  · have inside : pids ⊆ state.table role := fun other other_mem =>
      (tracked.listed other role (alive other other_mem)).resolve_right fun recorded =>
        recording ⟨other, recorded⟩
    exact (List.subperm_of_subset distinct inside).length_le.trans (tracked.length_le role)

/-- Nobody is left once both arrays have been emptied. -/
theorem Tracked.alone (tracked : Tracked state) (emptied : state.main.emptied = true)
    (pid : Process) : state.processes.points pid = .absent := by
  by_contra alive
  rcases Option.ne_none_iff_exists'.mp (mt Point.role_eq_none.mp alive) with ⟨role, works⟩
  rcases tracked.listed pid role works with listed | recording
  · rw [tracked.empty emptied role] at listed
    exact absurd listed List.not_mem_nil
  · rw [recording] at emptied
    exact absurd emptied Bool.false_ne_true

variable [DecidableEq Process]

theorem role_move {processes : State Process} {process : Process} {point : Point}
    (stays : point.role = (processes.points process).role) (pid : Process) :
    ((processes.move process point).points pid).role = (processes.points pid).role := by
  by_cases same : pid = process
  · subst same
    simpa [State.move] using stays
  · simp [State.move, same]

/-- A child goes on in its role, or it leaves because it has been interrupted. -/
theorem childNext_cases {action : Action Process}
    (taken : state.childNext action = some successor) :
    ∃ processes, Lab04.next state.processes action = some processes ∧
      successor = { state with processes := processes } ∧
      ((∀ pid, (processes.points pid).role = (state.processes.points pid).role) ∨
        ∃ pid, state.runs pid = false ∧ state.processes.points pid ≠ .absent ∧
          processes = state.processes.move pid .absent) := by
  cases action with
  | fork pid role | kill pid => cases taken
  | leave pid =>
      simp only [childNext, Option.ite_none_left_eq_some, Option.map_eq_some_iff] at taken
      rcases taken with ⟨interrupted, processes, taken, rfl⟩
      refine ⟨processes, taken, rfl, .inr ⟨pid, Bool.eq_false_iff.mpr interrupted, ?_⟩⟩
      simp only [Lab04.next] at taken
      split at taken
      · next at_loop => exact ⟨by simp [at_loop], (Option.some.inj taken).symm⟩
      · next at_loop => exact ⟨by simp [at_loop], (Option.some.inj taken).symm⟩
      · cases taken
  | produce pid rand =>
      simp only [childNext, Option.map_eq_some_iff] at taken
      rcases taken with ⟨processes, taken, rfl⟩
      refine ⟨processes, taken, rfl, .inl ?_⟩
      simp only [Lab04.next] at taken
      split at taken
      · next at_loop =>
          cases taken
          exact role_move (at_loop ▸ rfl)
      · cases taken
  | step pid =>
      simp only [childNext, Option.map_eq_some_iff] at taken
      rcases taken with ⟨processes, taken, rfl⟩
      refine ⟨processes, taken, rfl, .inl ?_⟩
      rcases Option.map_eq_some_iff.mp taken with ⟨⟨shared, point⟩, goes, rfl⟩
      exact @role_move _ _ state.processes pid point (role_advance goes)

theorem tracked_child {action : Action Process} (tracked : Tracked state)
    (taken : state.childNext action = some successor) : Tracked successor := by
  rcases childNext_cases taken with ⟨processes, -, rfl, moved⟩
  have kept : ∀ pid role, (processes.points pid).role = some role →
      (state.processes.points pid).role = some role := by
    intro pid role works
    rcases moved with same | ⟨gone, -, -, rfl⟩
    · exact same pid ▸ works
    · by_cases same : pid = gone
      · subst same
        simp [State.move] at works
      · simpa [State.move, same] using works
  refine tracked.fewer kept fun pid alive => tracked.unreaped pid fun dead => alive ?_
  by_contra works
  rcases Option.ne_none_iff_exists'.mp (mt Point.role_eq_none.mp works) with ⟨role, works⟩
  have before := kept pid role works
  rw [dead] at before
  cases before

theorem reap_eq_some {pid : Process} : state.reap pid = some successor ↔
    pid ∈ state.children ∧ state.processes.points pid = .absent ∧
      { state with children := state.children.erase pid } = successor := by
  unfold reap
  split
  · next there =>
      split
      · next dead => simp [there, dead]
      · next alive =>
          have alive' : state.processes.points pid ≠ .absent := alive
          simp [alive']
  · next missing => simp [missing]

theorem tracked_reap {pid : Process} (tracked : Tracked state)
    (taken : state.reap pid = some successor) : Tracked successor := by
  rcases reap_eq_some.mp taken with ⟨-, dead, rfl⟩
  refine tracked.fewer (fun _ _ works => works) fun other alive => ?_
  have different : other ≠ pid := by
    rintro rfl
    exact alive dead
  exact (List.mem_erase_of_ne different).mpr (tracked.unreaped other alive)

theorem tracked_waitpid {pid : Process} {caller : Caller} (tracked : Tracked state)
    (waiting : state.main = .waitpid pid caller)
    (taken : state.waitpid pid caller = some successor) : Tracked successor := by
  unfold waitpid at taken
  split at taken
  · rcases Option.map_eq_some_iff.mp taken with ⟨reaped, done, rfl⟩
    have tracked' := tracked_reap tracked done
    rcases reap_eq_some.mp done with ⟨-, -, rfl⟩
    exact tracked'.mainFree (by simp [waiting]) (reserves_target caller) (emptied_target caller)
  · cases taken
    exact tracked.mainFree (by simp [waiting]) (reserves_target caller) (emptied_target caller)

theorem fork_eq_some {role : Role} {pid : Process} :
    state.fork role (some pid) = some successor ↔
      pid ∉ state.children ∧ state.processes.points pid = .absent ∧
        { state with
          processes := state.processes.move pid role.task
          children := state.children ++ [pid]
          runs := Function.update state.runs pid state.running
          main := .record role pid } = successor := by
  simp only [fork, Option.ite_none_left_eq_some, Option.map_eq_some_iff, Lab04.next]
  refine and_congr_right fun _ => ?_
  split
  · next free => simp [free]
  · next busy =>
      have busy' : state.processes.points pid ≠ .absent := busy
      simp [busy']

theorem tracked_fork {role : Role} {result : Option Process} (tracked : Tracked state)
    (forking : state.main = .fork role) (taken : state.fork role result = some successor) :
    Tracked successor := by
  have room := tracked.room role (by rw [forking]; rfl)
  cases result with
  | none =>
      cases taken
      exact tracked.mainFree (by simp [forking]) rfl rfl
  | some pid =>
      rcases fork_eq_some.mp taken with ⟨-, -, rfl⟩
      refine ⟨fun other role' works => ?_, fun other alive => ?_, tracked.length_le,
        fun role' reserved => ?_, fun emptied => absurd emptied Bool.false_ne_true⟩
      · by_cases same : other = pid
        · subst same
          have role_eq : role = role' := by simpa [State.move] using works
          exact .inr (role_eq ▸ rfl)
        · have works' : (state.processes.points other).role = some role' := by
            simpa [State.move, same] using works
          exact .inl ((tracked.listed other role' works').resolve_right (by simp [forking]))
      · by_cases same : other = pid
        · exact List.mem_append_right _ (List.mem_singleton.mpr same)
        · have alive' : state.processes.points other ≠ .absent := by
            simpa [State.move, same] using alive
          exact List.mem_append_left _ (tracked.unreaped other alive')
      · cases reserved
        exact room

/-- An entry leaves the array when its child is killed. -/
theorem tracked_removeLast {role : Role} {caller : Caller} (tracked : Tracked state)
    (removing : state.main = .removeLast role caller) : Tracked (state.removeLast role caller) := by
  unfold removeLast
  split
  · exact tracked.mainFree (by simp [removing]) (reserves_target caller) (emptied_target caller)
  · next pid last =>
      have split := List.dropLast_append_getLast? pid last
      refine ⟨fun other role' works => .inl ?_, fun other alive => ?_, fun role' => ?_,
        fun _ reserved => absurd reserved.symm (Option.some_ne_none _),
        fun emptied => absurd emptied Bool.false_ne_true⟩
      · have different : other ≠ pid := by
          rintro rfl
          simp [State.move] at works
        have works' : (state.processes.points other).role = some role' := by
          simpa [State.move, different] using works
        have there := (tracked.listed other role' works').resolve_right (by simp [removing])
        change other ∈ (state.setTable _ role).table role'
        rcases table_changed state (state.table role).dropLast role role' with
          ⟨rfl, table_eq⟩ | ⟨-, table_eq⟩
        · rw [table_eq]
          rw [← split, List.mem_append, List.mem_singleton] at there
          exact there.resolve_right different
        · rw [table_eq]
          exact there
      · have different : other ≠ pid := by
          rintro rfl
          simp [State.move] at alive
        simp only [children_setTable]
        exact tracked.unreaped other (by simpa [State.move, different] using alive)
      · change ((state.setTable _ role).table role').length ≤ maxProcs
        have before := tracked.length_le role'
        rcases table_changed state (state.table role).dropLast role role' with
          ⟨rfl, table_eq⟩ | ⟨-, table_eq⟩
        · rw [table_eq, List.length_dropLast]
          omega
        · rw [table_eq]
          exact before

theorem tracked_main (tracked : Tracked state) (taken : state.mainNext = some successor) :
    Tracked successor := by
  unfold mainNext at taken
  split at taken
  · next testing =>
      split at taken
      · cases taken
        exact tracked.mainFree (by simp [testing]) rfl rfl
      · cases taken
        exact tracked.mainFree (by simp [testing]) rfl rfl
  · cases taken
  · cases taken
  · cases taken
  · next role pid recording =>
      cases taken
      exact tracked_record tracked recording
  · next role caller removing =>
      cases taken
      exact tracked_removeLast tracked removing
  · next pid caller waiting => exact tracked_waitpid tracked waiting taken
  · next final removing =>
      split at taken
      · cases taken
        exact tracked.mainFree (by simp [removing]) rfl rfl
      · next no_producers =>
          split at taken
          · cases taken
            exact tracked.mainFree (by simp [removing]) rfl rfl
          · next no_consumers =>
              have empty : ∀ role, state.table role = [] := by
                intro role
                cases role with
                | producer => exact not_not.mp no_producers
                | consumer => exact not_not.mp no_consumers
              split at taken
              · cases taken
                exact tracked.mainAt (by simp [removing]) (by simp [MainPoint.reserves])
                  fun _ => empty
              · cases taken
                exact tracked.mainAt (by simp [removing]) (by simp [MainPoint.reserves])
                  fun _ => empty
  · next waiting =>
      simp only [Option.ite_none_right_eq_some, Option.some.injEq] at taken
      rcases taken with ⟨-, rfl⟩
      exact tracked.mainAt (by simp [waiting]) (by simp [MainPoint.reserves])
        fun _ => tracked.empty (by rw [waiting]; rfl)

theorem tracked_next {label : Label Process} (tracked : Tracked state)
    (taken : state.next label = some successor) : Tracked successor := by
  cases label with
  | command command =>
      simp only [next] at taken
      split at taken
      · next scanning =>
          cases taken
          exact tracked_execute tracked scanning
      · cases taken
  | endOfInput =>
      simp only [next] at taken
      split at taken
      · next scanning =>
          cases taken
          exact tracked.mainFree (by simp [scanning]) rfl rfl
      · cases taken
  | fork result =>
      simp only [next] at taken
      split at taken
      · next role forking => exact tracked_fork tracked forking taken
      · cases taken
  | main => exact tracked_main tracked taken
  | cutShort =>
      simp only [next] at taken
      split at taken
      · next pid caller waiting =>
          cases taken
          exact tracked.mainFree (by simp [waiting]) (reserves_target caller)
            (emptied_target caller)
      · next waiting =>
          cases taken
          exact tracked.mainAt (by simp [waiting]) (by simp [MainPoint.reserves])
            fun _ => tracked.empty (by rw [waiting]; rfl)
      · cases taken
  | reap pid => exact tracked_reap tracked taken
  | child action => exact tracked_child tracked taken
  | interrupt pid =>
      cases pid with
      | none | some _ =>
          cases taken
          exact tracked.fewer (fun _ _ works => works) tracked.unreaped

theorem tracked_of_reachable (reached : (system Process).Reachable state) : Tracked state := by
  apply reached.invariant
  · rintro _ ⟨processes, started, rfl⟩
    have absent : ∀ pid, processes.points pid = .absent := fun pid => congrFun started.points pid
    refine ⟨fun pid role works => ?_, fun pid alive => absurd (absent pid) alive, fun role => ?_,
      fun _ reserved => absurd reserved.symm (Option.some_ne_none _),
      fun emptied => absurd emptied Bool.false_ne_true⟩
    · exact absurd (absent pid) (Point.ne_absent_of_role works)
    · cases role <;> exact Nat.zero_le _
  · intro state label successor tracked _ taken
    exact tracked_next tracked taken

/-- What a step does to the children is a step of theirs, or nothing. -/
theorem processes_next {label : Label Process} (taken : state.next label = some successor) :
    successor.processes = state.processes ∨
      ∃ action, Lab04.next state.processes action = some successor.processes := by
  cases label with
  | command command =>
      simp only [next] at taken
      split at taken
      · cases taken
        left
        cases command with
        | createProducer | createConsumer =>
            simp only [execute, create]
            split <;> rfl
        | _ => rfl
      · cases taken
  | endOfInput =>
      simp only [next] at taken
      split at taken <;> cases taken
      exact .inl rfl
  | fork result =>
      simp only [next] at taken
      split at taken
      · next role _ =>
          cases result with
          | none =>
              cases taken
              exact .inl rfl
          | some pid =>
              rcases fork_eq_some.mp taken with ⟨-, free, rfl⟩
              exact .inr ⟨.fork pid role, by simp [Lab04.next, free]⟩
      · cases taken
  | main =>
      simp only [next, mainNext] at taken
      split at taken
      · split at taken <;> cases taken <;> exact .inl rfl
      · cases taken
      · cases taken
      · cases taken
      · cases taken
        exact .inl (processes_setTable _ _ _)
      · next role caller _ =>
          cases taken
          unfold removeLast
          split
          · exact .inl rfl
          · next pid _ => exact .inr ⟨.kill pid, by simp [Lab04.next]⟩
      · unfold waitpid at taken
        split at taken
        · rcases Option.map_eq_some_iff.mp taken with ⟨reaped, done, rfl⟩
          rcases reap_eq_some.mp done with ⟨-, -, rfl⟩
          exact .inl rfl
        · cases taken
          exact .inl rfl
      · split at taken
        · cases taken
          exact .inl rfl
        · split at taken
          · cases taken
            exact .inl rfl
          · split at taken <;> cases taken <;> exact .inl rfl
      · simp only [Option.ite_none_right_eq_some, Option.some.injEq] at taken
        rcases taken with ⟨-, rfl⟩
        exact .inl rfl
  | cutShort =>
      simp only [next] at taken
      split at taken <;> cases taken <;> exact .inl rfl
  | reap pid =>
      rcases reap_eq_some.mp taken with ⟨-, -, rfl⟩
      exact .inl rfl
  | child action =>
      rcases childNext_cases taken with ⟨processes, stepped, rfl, -⟩
      exact .inr ⟨action, stepped⟩
  | interrupt pid =>
      cases pid with
      | none | some _ =>
          cases taken
          exact .inl rfl

/-- Every run of the program is one of its processes. -/
theorem processes_of_reachable (reached : (system Process).Reachable state) :
    (startedSystem Process).Reachable state.processes := by
  apply reached.invariant
  · rintro _ ⟨processes, started, rfl⟩
    exact .start started
  · intro state label successor before _ taken
    rcases processes_next taken with same | ⟨action, stepped⟩
    · exact same ▸ before
    · exact before.step trivial stepped

/-- In every run at most four children of a role are alive, and none when `main` destroys the
queue. -/
theorem alone_of_reachable (reached : (system Process).Reachable state) :
    (startedSystem Process).Reachable state.processes ∧
      (∀ role (pids : List Process), pids.Nodup →
        (∀ pid ∈ pids, (state.processes.points pid).role = some role) →
          pids.length ≤ maxProcs) ∧
      (state.main = .destroy → ∀ pid, state.processes.points pid = .absent) := by
  have tracked := tracked_of_reachable reached
  exact ⟨processes_of_reachable reached, fun _ _ distinct alive => tracked.few distinct alive,
    fun destroys => tracked.alone (by rw [destroys]; rfl)⟩

end Tracking

/-- A producer is interrupted and reaped, its process id comes back as that of a consumer, and the
command to remove the producer's entry kills the consumer. -/
def reusedPid : List (Label (Fin 2)) :=
  [.main, .command .createProducer, .fork (some (.last 1)), .main, .main,
    .interrupt (some (.last 1)), .child (.leave (.last 1)), .reap (.last 1),
    .command .createConsumer, .fork (some (.last 1)), .main, .main, .endOfInput] ++
    List.replicate 8 .main

theorem alone_reusedPid :
    ∃ state, (system (Fin 2)).run (start freshState) reusedPid = some state ∧
      state.main = .destroy ∧ ∀ pid, state.processes.points pid = .absent := by
  have ran : ∃ state, (system (Fin 2)).run (start freshState) reusedPid = some state ∧
      state.main = .destroy := ⟨_, rfl, rfl⟩
  rcases ran with ⟨state, ran, destroys⟩
  have started : (system (Fin 2)).initial (start freshState) :=
    ⟨freshState, started_freshState, rfl⟩
  have reached := System.Reachable.of_run (.start started) ran
  exact ⟨state, ran, destroys, (alone_of_reachable reached).2.2 destroys⟩

end Program

end Osis.Lab04
