import Osis.Lab03.Changes
import Osis.Lab03.Compacting

/-!
# The children when the parent exits

`CleanExit` deletes the children of the table and does not wait for them: `WaitChild` finds
the table empty. It still leaves no child behind that goes on, since every child that has not
ended is in the table or has `SIGTERM` pending, at every point of every run.
-/

namespace Osis.Lab03

open Concurrency

variable {state successor : State} {label : Label} {pid : Pid}

/-- The pids in the table. -/
def State.tablePids (state : State) : List Pid := state.childProcesses.map ProcessInfo.pid

/-- The table has every child that is not about to be terminated, each once. -/
structure Watched (state : State) : Prop where
  distinct : state.tablePids.Nodup
  unreaped : ∀ pid ∈ state.tablePids, (state.children pid).isSome = true ∨ pid ∈ state.zombies
  dead : ∀ pid ∈ state.zombies, state.children pid = none
  watched : ∀ pid, ∀ child ∈ state.children pid,
    pid ∈ state.tablePids ∨ (child.pending .term).isSome = true
  empty : state.exited = true → state.tablePids = []

/-- No child is born or ends, and no `SIGTERM` that is pending gets lost. -/
structure Keeps (state successor : State) : Prop where
  tablePids : successor.tablePids = state.tablePids
  zombies : successor.zombies = state.zombies
  exited : successor.exited = state.exited
  alive : ∀ pid, (successor.children pid).isSome = (state.children pid).isSome
  term : ∀ pid, ∀ child ∈ state.children pid, ∀ child' ∈ successor.children pid,
    (child.pending .term).isSome = true → (child'.pending .term).isSome = true

theorem Watched.keeps (watched : Watched state) (keeps : Keeps state successor) :
    Watched successor := by
  refine ⟨?_, fun pid inside => ?_, fun pid zombie => ?_, fun pid child' there => ?_,
    fun exits => ?_⟩
  · rw [keeps.tablePids]
    exact watched.distinct
  · rw [keeps.alive, keeps.zombies]
    rw [keeps.tablePids] at inside
    exact watched.unreaped pid inside
  · rw [keeps.zombies] at zombie
    have absent := keeps.alive pid
    rw [watched.dead pid zombie] at absent
    exact Option.isNone_iff_eq_none.mp (by simpa using absent)
  · have alive := keeps.alive pid
    rw [Option.mem_def.mp there, Option.isSome_some] at alive
    rcases Option.isSome_iff_exists.mp alive.symm with ⟨child, before⟩
    rw [keeps.tablePids]
    exact (watched.watched pid child before).imp_right (keeps.term pid child before child' there)
  · rw [keeps.exited] at exits
    rw [keeps.tablePids]
    exact watched.empty exits

section Quiet

theorem isSome_queue_term (child : Child) (signal : Signal)
    (pends : (child.pending .term).isSome = true) :
    ((child.queue signal).pending .term).isSome = true := by
  by_cases same : signal = .term
  · subst same
    simp [Child.queue, Pending.queue]
  · have other : child.pending.queue signal 0 .term = child.pending .term :=
      Pending.queue_of_ne (Ne.symm same)
    change (child.pending.queue signal 0 .term).isSome = true
    rw [other]
    exact pends

/-- A child moves on to one with the same `SIGTERM` pending. -/
theorem keeps_update {child child' : Child} {stdout : List Printout}
    (there : state.children pid = some child)
    (term : (child.pending .term).isSome = true → (child'.pending .term).isSome = true) :
    Keeps state { state with
      children := Function.update state.children pid (some child'), stdout := stdout } := by
  refine ⟨rfl, rfl, rfl, fun other => ?_, fun other before before_there after after_there => ?_⟩
  · by_cases same : other = pid
    · subst same
      simp [there]
    · simp [same]
  · by_cases same : other = pid
    · subst same
      simp only [Function.update_self, Option.mem_def, Option.some.injEq] at after_there
      rw [there, Option.mem_def, Option.some.injEq] at before_there
      rw [← before_there, ← after_there]
      exact term
    · simp only [Function.update_of_ne same] at after_there
      cases Option.mem_unique before_there after_there
      exact id

theorem Keeps.refl (state : State) : Keeps state state :=
  ⟨rfl, rfl, rfl, fun _ => rfl, fun _ _ there _ there' => Option.mem_unique there there' ▸ id⟩

theorem Keeps.trans {middle : State} (first : Keeps state middle)
    (second : Keeps middle successor) : Keeps state successor := by
  refine ⟨second.tablePids.trans first.tablePids, second.zombies.trans first.zombies,
    second.exited.trans first.exited, fun pid => (second.alive pid).trans (first.alive pid),
    fun pid child there child' there' pends => ?_⟩
  have alive := first.alive pid
  rw [Option.mem_def.mp there, Option.isSome_some] at alive
  rcases Option.isSome_iff_exists.mp alive with ⟨between, between_there⟩
  exact second.term pid between between_there child' there'
    (first.term pid child there between between_there pends)

theorem keeps_signalChild (state : State) (pid : Pid) (signal : Signal) :
    Keeps state (state.signalChild pid signal) := by
  cases there : state.children pid with
  | none =>
      have same : state.signalChild pid signal = state := by
        unfold State.signalChild
        rw [there, Option.map_none, ← there, Function.update_eq_self]
      rw [same]
      exact .refl state
  | some child =>
      have updated : state.signalChild pid signal = { state with
          children := Function.update state.children pid (some (child.queue signal)),
          stdout := state.stdout } := by
        unfold State.signalChild
        rw [there, Option.map_some]
      rw [updated]
      exact keeps_update there (isSome_queue_term child signal)

theorem keeps_setRunning (state : State) (index : ℕ) (isRunning : Bool) :
    Keeps state (state.setRunning index isRunning) := by
  refine ⟨?_, rfl, rfl, fun _ => rfl,
    fun _ _ there _ there' => Option.mem_unique there there' ▸ id⟩
  apply List.ext_getElem?
  intro slot
  simp only [State.tablePids, State.setRunning, List.getElem?_map, List.getElem?_modify]
  cases state.childProcesses[slot]? <;> split <;> rfl

theorem keeps_signalParent (state : State) (signal : Signal) (value : Pid) :
    Keeps state (state.signalParent signal value) := by
  unfold State.signalParent
  split
  · exact .refl state
  · exact ⟨rfl, rfl, rfl, fun _ => rfl,
      fun _ _ there _ there' => Option.mem_unique there there' ▸ id⟩

end Quiet

section Changing

/-- A child that ends stays in the table as a process to wait for. -/
theorem Watched.childEnds (watched : Watched state) (pid : Pid) :
    Watched (state.childEnds pid) := by
  refine Watched.keeps ?_ (keeps_signalParent _ .chld 0)
  refine ⟨watched.distinct, fun other inside => ?_, fun other zombie => ?_,
    fun other child' there' => ?_, watched.empty⟩
  · by_cases same : other = pid
    · exact .inr (List.mem_append_right _ (List.mem_singleton.mpr same))
    · refine (watched.unreaped other inside).imp (fun alive => ?_) (List.mem_append_left _)
      change (Function.update state.children pid none other).isSome = true
      rw [Function.update_of_ne same]
      exact alive
  · change Function.update state.children pid none other = none
    by_cases same : other = pid
    · rw [same, Function.update_self]
    · rw [Function.update_of_ne same]
      exact watched.dead other ((List.mem_append.mp zombie).resolve_right
        fun last => same (List.mem_singleton.mp last))
  · change Function.update state.children pid none other = some child' at there'
    by_cases same : other = pid
    · rw [same, Function.update_self] at there'
      cases there'
    · rw [Function.update_of_ne same] at there'
      exact watched.watched other child' there'

/-- A pid that `fork` returns is in the table only once. -/
theorem Watched.createChild (watched : Watched state) (alive : state.exited = false)
    (absent : state.children pid = none) (reaped : pid ∉ state.zombies) :
    Watched (state.createChild (some pid)) := by
  have pids_eq : (state.createChild (some pid)).tablePids = state.tablePids ++ [pid] := by
    simp [State.createChild, State.tablePids]
  have unused : pid ∉ state.tablePids := by
    intro inside
    rcases watched.unreaped pid inside with living | zombie
    · simp [absent] at living
    · exact reaped zombie
  refine ⟨?_, fun other inside => ?_, fun other zombie => ?_, fun other child there => ?_,
    fun exits => ?_⟩
  · rw [pids_eq, List.nodup_append]
    refine ⟨watched.distinct, List.nodup_singleton pid, fun other inside last last_mem => ?_⟩
    rw [List.mem_singleton.mp last_mem]
    exact fun same => unused (same ▸ inside)
  · change (Function.update state.children pid (some .forked) other).isSome = true ∨ _
    by_cases same : other = pid
    · exact .inl (by rw [same, Function.update_self]; rfl)
    · rw [pids_eq, List.mem_append, List.mem_singleton] at inside
      rw [Function.update_of_ne same]
      exact watched.unreaped other (inside.resolve_right same)
  · change Function.update state.children pid (some .forked) other = none
    have different : other ≠ pid := by
      rintro rfl
      exact reaped zombie
    rw [Function.update_of_ne different]
    exact watched.dead other zombie
  · change Function.update state.children pid (some .forked) other = some child at there
    rw [pids_eq, List.mem_append, List.mem_singleton]
    by_cases same : other = pid
    · exact .inl (.inr same)
    · rw [Function.update_of_ne same] at there
      exact (watched.watched other child there).imp_left .inl
  · exact absurd (alive.symm.trans exits) Bool.false_ne_true

/-- A child that leaves the table has `SIGTERM` pending. -/
theorem Watched.deleteLastChild (watched : Watched state) : Watched state.deleteLastChild := by
  unfold State.deleteLastChild
  cases last : state.childProcesses.getLast? with
  | none => exact watched
  | some info =>
      rcases List.getLast?_eq_some_iff.mp last with ⟨front, processes_eq⟩
      have signalled := watched.keeps (keeps_signalChild state info.pid .term)
      have pids_eq : state.tablePids = front.map ProcessInfo.pid ++ [info.pid] := by
        simp [State.tablePids, processes_eq]
      have dropped : state.childProcesses.dropLast = front := by
        rw [processes_eq, List.dropLast_concat]
      rw [dropped]
      have distinct := watched.distinct
      rw [pids_eq, List.nodup_append] at distinct
      have fewer : ∀ pid ∈ front.map ProcessInfo.pid, pid ∈ state.tablePids := by
        intro pid inside
        rw [pids_eq]
        exact List.mem_append_left _ inside
      refine ⟨distinct.1, fun pid inside => signalled.unreaped pid (fewer pid inside),
        signalled.dead, fun pid child there => ?_, fun exits => ?_⟩
      · have before := signalled.watched pid child there
        change pid ∈ state.tablePids ∨ _ at before
        rw [pids_eq, List.mem_append, List.mem_singleton] at before
        rcases before with (inside | rfl) | pends
        · exact .inl inside
        · right
          change Function.update state.children info.pid _ info.pid = some child at there
          rw [Function.update_self, Option.map_eq_some_iff] at there
          rcases there with ⟨old, -, rfl⟩
          simp [Child.queue, Pending.queue]
        · exact .inr pends
      · have nothing := watched.empty exits
        rw [pids_eq] at nothing
        simp at nothing

theorem length_deleteLastChild (state : State) :
    state.deleteLastChild.childProcesses.length = state.childProcesses.length - 1 := by
  unfold State.deleteLastChild
  cases last : state.childProcesses.getLast? with
  | none => simp [List.getLast?_eq_none_iff.mp last]
  | some info => exact List.length_dropLast

/-- The loop of `DeleteAllChild` empties the table. -/
theorem Watched.deleteAllChild (watched : Watched state) :
    Watched state.deleteAllChild ∧ state.deleteAllChild.tablePids = [] := by
  unfold State.deleteAllChild
  generalize count_eq : state.childProcesses.length = count
  induction count generalizing state with
  | zero =>
      refine ⟨watched, ?_⟩
      rw [Function.iterate_zero, id_eq, State.tablePids, List.length_eq_zero_iff.mp count_eq]
      rfl
  | succ count ih =>
      rw [Function.iterate_succ_apply]
      apply ih watched.deleteLastChild
      rw [length_deleteLastChild, count_eq, Nat.add_sub_cancel]

/-- The handler of `SIGCHLD` takes those out of the table that have ended. -/
theorem Watched.handleExitChild (watched : Watched state) : Watched state.handleExitChild := by
  have pids_eq : ∀ pid, pid ∈ state.handleExitChild.tablePids ↔
      pid ∈ state.tablePids ∧ pid ∉ state.zombies := by
    intro pid
    simp only [State.tablePids, State.handleExitChild, foldl_reap_eq_filter watched.distinct,
      List.mem_map, List.mem_filter, decide_eq_true_eq]
    constructor
    · rintro ⟨info, ⟨inside, spared⟩, rfl⟩
      exact ⟨⟨info, inside, rfl⟩, spared⟩
    · rintro ⟨⟨info, inside, rfl⟩, spared⟩
      exact ⟨info, ⟨inside, spared⟩, rfl⟩
  refine ⟨?_, fun pid inside => ?_, fun pid zombie => absurd zombie List.not_mem_nil,
    fun pid child there => ?_, fun exits => ?_⟩
  · exact watched.distinct.sublist ((foldl_reap_sublist _ _).map ProcessInfo.pid)
  · rcases (pids_eq pid).mp inside with ⟨before, spared⟩
    exact .inl ((watched.unreaped pid before).resolve_right spared)
  · rw [pids_eq]
    have spared : pid ∉ state.zombies := by
      intro zombie
      have absent := watched.dead pid zombie
      change state.children pid = some child at there
      rw [there] at absent
      cases absent
    exact (watched.watched pid child there).imp_left fun inside => ⟨inside, spared⟩
  · apply List.eq_nil_iff_forall_not_mem.mpr
    intro pid inside
    rw [pids_eq, watched.empty exits] at inside
    exact absurd inside.1 List.not_mem_nil

end Changing

theorem watched_execute {command : Command} (watched : Watched state)
    (alive : state.exited = false) (possible : state.Possible command) :
    Watched (state.execute command) := by
  cases command with
  | create forked =>
      cases forked with
      | none => exact watched
      | some pid =>
          rcases possible with ⟨-, absent, reaped⟩
          exact watched.createChild alive (Option.isNone_iff_eq_none.mp absent) reaped
  | deleteLast => exact watched.deleteLastChild
  | deleteAll => exact watched.deleteAllChild.1
  | list | invalid => exact watched
  | start index =>
      simp only [State.execute, State.startChild]
      split
      · exact watched
      · apply watched.keeps
        exact (keeps_signalChild state _ .usr2).trans (keeps_setRunning _ index true)
  | stop index =>
      simp only [State.execute, State.stopChild]
      split
      · exact watched
      · exact watched.keeps ((keeps_signalChild state _ .usr1).trans
          (keeps_setRunning _ index false))
  | quit =>
      rcases watched.deleteAllChild with ⟨deleted, nothing⟩
      exact ⟨deleted.distinct, deleted.unreaped, deleted.dead, deleted.watched, fun _ => nothing⟩

theorem watched_next (watched : Watched state) (taken : system.next state label = some successor) :
    Watched successor := by
  cases label with
  | command command =>
      simp only [system, Option.ite_none_right_eq_some, Option.some.injEq] at taken
      rcases taken with ⟨⟨idle, possible⟩, rfl⟩
      exact watched_execute watched idle.2 possible
  | interrupt signal =>
      simp only [system, Option.ite_none_right_eq_some, Option.map_eq_some_iff] at taken
      rcases taken with ⟨-, value, -, rfl⟩
      exact ⟨watched.distinct, watched.unreaped, watched.dead, watched.watched, watched.empty⟩
  | resume =>
      simp only [system, Option.map_eq_some_iff] at taken
      rcases taken with ⟨⟨signo, childPid⟩, -, rfl⟩
      have handled : Watched (state.handleSignal signo childPid) := by
        cases signo with
        | usr1 => exact watched.keeps (keeps_signalChild state childPid .usr2)
        | chld => exact watched.handleExitChild
        | usr2 | alrm | term => exact watched
      exact ⟨handled.distinct, handled.unreaped, handled.dead, handled.watched, handled.empty⟩
  | child pid =>
      simp only [system, Option.map_eq_some_iff] at taken
      rcases taken with ⟨child, there, rfl⟩
      unfold State.childStep
      have moved : Keeps state { state with
          children := Function.update state.children pid (some child.step)
          stdout :=
            if child.point = .print then
              state.stdout ++ [⟨pid, child.c00, child.c01, child.c10, child.c11⟩]
            else state.stdout } :=
        keeps_update there (by rw [Child.step_pending]; exact id)
      cases child.point.sends with
      | none => exact watched.keeps moved
      | some signal => exact watched.keeps (moved.trans (keeps_signalParent _ signal pid))
  | deliver pid signal =>
      simp only [system, Option.bind_eq_some_iff, Option.ite_none_right_eq_some,
        Option.some.injEq] at taken
      rcases taken with ⟨child, there, -, rfl⟩
      unfold State.childDeliver
      cases delivered : child.deliver signal with
      | none => exact watched.childEnds pid
      | some handled =>
          have other_signal : signal ≠ .term := by
            rintro rfl
            cases delivered
          have pending_eq := (Child.deliver_eq_some delivered).2.1
          have moved : Keeps state { state with
              children := Function.update state.children pid (some handled)
              stdout := state.stdout } := by
            apply keeps_update there
            rw [pending_eq, Pending.deliver_of_ne other_signal.symm]
            exact id
          exact watched.keeps moved
  | ring pid =>
      simp only [system, Option.bind_eq_some_iff, Option.ite_none_right_eq_some,
        Option.some.injEq] at taken
      rcases taken with ⟨child, there, -, rfl⟩
      have moved : Keeps state { state with
          children := Function.update state.children pid
            (some { child.queue .alrm with alarm := false })
          stdout := state.stdout } :=
        keeps_update there (isSome_queue_term child .alrm)
      exact watched.keeps moved
  | execFails pid =>
      simp only [system, Option.bind_eq_some_iff, Option.ite_none_right_eq_some,
        Option.some.injEq] at taken
      rcases taken with ⟨child, -, -, rfl⟩
      exact watched.childEnds pid

theorem watched_of_reachable (reached : system.Reachable state) : Watched state := by
  apply reached.invariant
  · rintro _ rfl
    exact ⟨List.nodup_nil, fun _ inside => absurd inside List.not_mem_nil,
      fun _ zombie => absurd zombie List.not_mem_nil, (fun _ _ there => nomatch there),
      fun _ => rfl⟩
  · intro state label successor watched _ taken
    exact watched_next watched taken

/-- The next `SIGTERM` ends the child. -/
def Doomed (state : State) (pid : Pid) : Prop :=
  ∃ successor, system.next state (.deliver pid .term) = some successor ∧
    successor.children pid = none

theorem doomed_of_pending {child : Child} (there : state.children pid = some child)
    (pends : (child.pending .term).isSome = true) : Doomed state pid := by
  refine ⟨state.childEnds pid, ?_, ?_⟩
  · simp only [system, there, Option.bind_some, pends, if_true, Option.some.injEq]
    rfl
  · rw [State.childEnds, children_signalParent]
    exact Function.update_self ..

/-- In every run the table has each child once that no `SIGTERM` is about to end, so that the exit
of the parent leaves none but those. -/
theorem doomed_of_reachable (reached : system.Reachable state) :
    state.tablePids.Nodup ∧
      (∀ pid, ∀ child ∈ state.children pid, pid ∉ state.tablePids → Doomed state pid) ∧
      (state.exited = true → ∀ pid, ∀ child ∈ state.children pid, Doomed state pid) := by
  have watched := watched_of_reachable reached
  refine ⟨watched.distinct, fun pid child there outside => ?_, fun exits pid child there => ?_⟩
  · exact doomed_of_pending there ((watched.watched pid child there).resolve_left outside)
  · have outside : pid ∉ state.tablePids := by
      rw [watched.empty exits]
      exact List.not_mem_nil
    exact doomed_of_pending there ((watched.watched pid child there).resolve_left outside)

/-- Two children, one of which ends and is replaced, when the parent exits. -/
def exitWithChildren : List Label :=
  [.command (.create (some 5)), .command (.create (some 6)), .execFails 5, .interrupt .chld,
    .resume, .command (.create (some 5)), .child 6, .command .quit]

theorem doomed_exitWithChildren :
    ∃ state, system.run launched exitWithChildren = some state ∧ Doomed state 5 ∧
      Doomed state 6 := by
  have ran : (system.run launched exitWithChildren).map (fun state =>
      (state.exited, (state.children 5).isSome, (state.children 6).isSome)) =
        some (true, true, true) := by
    decide +kernel
  rcases Option.map_eq_some_iff.mp ran with ⟨state, ran, found⟩
  simp only [Prod.mk.injEq, Option.isSome_iff_exists] at found
  rcases found with ⟨exits, ⟨first, first_there⟩, second, second_there⟩
  rcases doomed_of_reachable (System.Reachable.of_run (.start rfl) ran) with ⟨-, -, doomed⟩
  exact ⟨state, ran, doomed exits 5 first first_there, doomed exits 6 second second_there⟩

end Osis.Lab03
