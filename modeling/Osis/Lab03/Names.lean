import Osis.Lab03.Deleting

/-!
# The names of the children

`CreateChild` names a child after the size of the table, and `HandleExitChild` moves the
entries behind a child that has exited to the front without naming them anew. As long as
the table gets shorter at its end only, its children have the names `C_00`, `C_01` and so
on. Once a child before the last one has left, the size is the number of a child that the
table still holds.
-/

namespace Osis.Lab03

open Concurrency

/-- The number in a name. -/
def numberIn (name : String) : ℕ := Nat.ofDigitChars 10 (name.toList.drop 2) 0

theorem numberIn_childName (size : ℕ) : numberIn (childName size) = size := by
  by_cases small : size < 10
  · have padded : (childName size).toList.drop 2 = '0' :: Nat.toDigits 10 size := by
      simp [childName, small]
    rw [numberIn, padded, Nat.ofDigitChars_cons]
    exact Nat.ofDigitChars_ten_toDigits
  · have bare : (childName size).toList.drop 2 = Nat.toDigits 10 size := by
      simp [childName, small]
    rw [numberIn, bare]
    exact Nat.ofDigitChars_ten_toDigits

theorem childName_injective : Function.Injective childName :=
  Function.LeftInverse.injective numberIn_childName

namespace State

/-- The names in the process table. -/
def names (state : State) : List String := state.childProcesses.map ProcessInfo.name

theorem length_names (state : State) : state.names.length = state.childProcesses.length :=
  List.length_map _

/-- The running flag of an entry leaves its name. -/
theorem names_setRunning (state : State) (index : ℕ) (isRunning : Bool) :
    (state.setRunning index isRunning).names = state.names := by
  apply List.ext_getElem?
  intro slot
  simp only [names, setRunning, List.getElem?_map, List.getElem?_modify]
  cases state.childProcesses[slot]? <;> split <;> rfl

theorem names_signalParent (state : State) (signal : Signal) (value : Pid) :
    (state.signalParent signal value).names = state.names := by
  unfold signalParent
  split <;> rfl

theorem names_childStep (state : State) (pid : Pid) (child : Child) :
    (state.childStep pid child).names = state.names := by
  unfold childStep
  cases child.point.sends with
  | none => rfl
  | some signal => exact names_signalParent _ signal pid

theorem names_childDeliver (state : State) (pid : Pid) (child : Child) (signal : Signal) :
    (state.childDeliver pid child signal).names = state.names := by
  unfold childDeliver
  cases child.deliver signal with
  | none => exact names_signalParent _ .chld 0
  | some handled => rfl

theorem names_deleteLastChild (state : State) :
    state.deleteLastChild.names <+: state.names := by
  unfold deleteLastChild
  cases state.childProcesses.getLast? with
  | none => exact List.prefix_refl _
  | some info => exact (List.dropLast_prefix _).map _

theorem names_deleteAllChild (state : State) : state.deleteAllChild.names <+: state.names := by
  unfold deleteAllChild
  generalize state.childProcesses.length = count
  induction count generalizing state with
  | zero => exact List.prefix_refl _
  | succ count ih =>
      rw [Function.iterate_succ_apply]
      exact (ih state.deleteLastChild).trans (names_deleteLastChild state)

theorem names_createChild (state : State) (pid : Pid) :
    (state.createChild (some pid)).names =
      state.names ++ [childName state.childProcesses.length] := by
  simp [createChild, names]

/-- A command appends a name that is made of the size, or takes names from the end. -/
theorem names_execute (state : State) (command : Command) :
    (∃ pid, command = .create (some pid) ∧
        (state.execute command).names = state.names ++ [childName state.childProcesses.length]) ∨
      (state.execute command).names <+: state.names := by
  cases command with
  | create forked =>
      cases forked with
      | none => exact Or.inr (List.prefix_refl _)
      | some pid => exact Or.inl ⟨pid, rfl, names_createChild state pid⟩
  | deleteLast => exact Or.inr (names_deleteLastChild state)
  | list => exact Or.inr (List.prefix_refl _)
  | deleteAll => exact Or.inr (names_deleteAllChild state)
  | stop index =>
      right
      simp only [execute, stopChild]
      cases state.childProcesses[index]? with
      | none => exact List.prefix_refl _
      | some info =>
          rw [names_setRunning]
          exact List.prefix_refl _
  | start index =>
      right
      simp only [execute, startChild]
      cases state.childProcesses[index]? with
      | none => exact List.prefix_refl _
      | some info =>
          rw [names_setRunning]
          exact List.prefix_refl _
  | quit => exact Or.inr (names_deleteAllChild state)
  | invalid => exact Or.inr (List.prefix_refl _)

end State

variable {state successor : State} {label : Label}

/-- What a step does to the names: a creation appends one, the handler of `SIGCHLD` takes out
those of children that have exited, and all other steps take names from the end or none. -/
theorem names_next (taken : system.next state label = some successor) :
    (∃ pid, label = .command (.create (some pid)) ∧
        successor.names = state.names ++ [childName state.childProcesses.length]) ∨
      ((∃ value, state.handling = some (.chld, value)) ∧ label = .resume ∧
        successor.childProcesses = state.zombies.foldl State.reap state.childProcesses) ∨
      successor.names <+: state.names := by
  cases label with
  | command command =>
      simp only [system, Option.ite_none_right_eq_some, Option.some.injEq] at taken
      rcases taken with ⟨_, rfl⟩
      rcases state.names_execute command with ⟨pid, rfl, appended⟩ | shorter
      · exact Or.inl ⟨pid, rfl, appended⟩
      · exact Or.inr (Or.inr shorter)
  | interrupt signal =>
      simp only [system, Option.ite_none_right_eq_some, Option.map_eq_some_iff] at taken
      rcases taken with ⟨_, value, _, rfl⟩
      exact Or.inr (Or.inr (List.prefix_refl _))
  | resume =>
      simp only [system, Option.map_eq_some_iff, Prod.exists] at taken
      rcases taken with ⟨signo, value, handles, rfl⟩
      cases signo with
      | chld => exact Or.inr (Or.inl ⟨⟨value, handles⟩, rfl, rfl⟩)
      | _ => exact Or.inr (Or.inr (List.prefix_refl _))
  | child pid =>
      simp only [system, Option.map_eq_some_iff] at taken
      rcases taken with ⟨child, _, rfl⟩
      have same := state.names_childStep pid child
      exact Or.inr (Or.inr (same ▸ List.prefix_refl _))
  | deliver pid signal =>
      simp only [system, Option.bind_eq_some_iff, Option.ite_none_right_eq_some,
        Option.some.injEq] at taken
      rcases taken with ⟨child, _, _, rfl⟩
      have same := state.names_childDeliver pid child signal
      exact Or.inr (Or.inr (same ▸ List.prefix_refl _))
  | ring pid =>
      simp only [system, Option.bind_eq_some_iff, Option.ite_none_right_eq_some,
        Option.some.injEq] at taken
      rcases taken with ⟨child, _, _, rfl⟩
      exact Or.inr (Or.inr (List.prefix_refl _))
  | execFails pid =>
      simp only [system, Option.bind_eq_some_iff, Option.ite_none_right_eq_some,
        Option.some.injEq] at taken
      rcases taken with ⟨child, _, _, rfl⟩
      have same : (state.childEnds pid).names = state.names :=
        State.names_signalParent _ .chld 0
      exact Or.inr (Or.inr (same ▸ List.prefix_refl _))

/-- A child is created only while no child of the table has the size as its number. -/
def NumbersUnused (state : State) : Label → Prop
  | .command (.create (some _)) =>
      ∀ info ∈ state.childProcesses, info.name ≠ childName state.childProcesses.length
  | _ => True

instance (state : State) : ∀ label, Decidable (NumbersUnused state label)
  | .command (.create (some _)) => inferInstanceAs (Decidable (∀ info ∈ _, _))
  | .command (.create none) | .command .deleteLast | .command .list | .command .deleteAll
  | .command (.stop _) | .command (.start _) | .command .quit | .command .invalid
  | .interrupt _ | .resume | .child _ | .deliver _ _ | .ring _ | .execFails _ =>
      inferInstanceAs (Decidable True)

/-- `HandleExitChild` takes entries from the end of the table only. -/
def LeavesLast (state : State) (label : Label) : Prop :=
  label = .resume → (∃ value, state.handling = some (.chld, value)) →
    state.zombies.foldl State.reap state.childProcesses <+: state.childProcesses

/-- After a creation the names are distinct exactly if they were and the size was no number of
a child in the table. -/
theorem nodup_names_createChild_iff (state : State) (pid : Pid) :
    (state.createChild (some pid)).names.Nodup ↔
      state.names.Nodup ∧ NumbersUnused state (.command (.create (some pid))) := by
  rw [State.names_createChild, ← List.concat_eq_append, List.nodup_concat, and_comm]
  apply and_congr_right
  intro _
  simp [NumbersUnused, State.names]

/-- If children leave from the end only, they are numbered as they stand in the table. -/
theorem names_of_reachable (reached : system.ReachableUnder LeavesLast state) :
    state.names = (List.range state.childProcesses.length).map childName := by
  rw [← state.length_names]
  apply reached.invariant
  · rintro state rfl
    rfl
  · intro state label successor numbered permitted taken
    have shorter : successor.names <+: state.names →
        successor.names = (List.range successor.names.length).map childName := by
      intro is_start
      have length_le := is_start.length_le
      rw [numbered, List.prefix_iff_eq_take, ← List.map_take, List.take_range] at is_start
      rwa [Nat.min_eq_left length_le] at is_start
    rcases names_next taken with ⟨pid, _, appended⟩ | ⟨handles, resumes, reaped⟩ | is_start
    · rw [appended, List.length_append, List.length_singleton, List.range_succ, List.map_append,
        ← numbered, ← state.length_names]
      rfl
    · apply shorter
      rw [State.names, reaped]
      exact (permitted resumes handles).map _
    · exact shorter is_start

/-- Children that leave from the end do not leave a number behind. -/
theorem numbersUnused_of_reachable {pid : Pid} (reached : system.ReachableUnder LeavesLast state) :
    NumbersUnused state (.command (.create (some pid))) := by
  intro info info_mem same
  have name_mem : info.name ∈ state.names := List.mem_map_of_mem info_mem
  rw [names_of_reachable reached, same] at name_mem
  rcases List.mem_map.mp name_mem with ⟨number, number_mem, name_eq⟩
  rw [childName_injective name_eq] at number_mem
  exact absurd (List.mem_range.mp number_mem) (Nat.lt_irrefl _)

/-- The names are distinct as long as no child is created at a size that is the number of a
child in the table. -/
theorem nodup_names_of_reachable (reached : system.ReachableUnder NumbersUnused state) :
    state.names.Nodup := by
  apply reached.invariant
  · rintro state rfl
    exact List.nodup_nil
  · intro state label successor nodup permitted taken
    rcases names_next taken with ⟨pid, rfl, appended⟩ | ⟨_, _, reaped⟩ | is_start
    · rw [appended, ← State.names_createChild state pid]
      exact (nodup_names_createChild_iff state pid).mpr ⟨nodup, permitted⟩
    · have sublist := foldl_reap_sublist state.childProcesses state.zombies
      rw [State.names, reaped]
      exact nodup.sublist (sublist.map ProcessInfo.name)
    · exact nodup.sublist is_start.sublist

/-- Two children, of which one exits and is reaped before another one is created. -/
def leavesBetween (gone : Pid) : List Label :=
  [.command (.create (some 1)), .command (.create (some 2)), .execFails gone, .interrupt .chld,
    .resume, .command (.create (some 3))]

theorem nodup_names_leavesBetween :
    ∃ state, (system.restrict fun state label => NumbersUnused state label).run launched
        (leavesBetween 2) = some state ∧
      state.names = ["C_00", "C_01"] ∧ state.names.Nodup := by
  have ran : ((system.restrict fun state label => NumbersUnused state label).run launched
      (leavesBetween 2)).map State.names = some ["C_00", "C_01"] := by
    decide +kernel
  rcases Option.map_eq_some_iff.mp ran with ⟨state, ran, names_eq⟩
  refine ⟨state, ran, names_eq, nodup_names_of_reachable ?_⟩
  have reached : system.ReachableUnder
      (fun state label => decide (NumbersUnused state label) = true) state :=
    System.Reachable.of_restrict (System.Reachable.of_run (.start rfl) ran)
  exact reached.mono fun _ _ _ unused => of_decide_eq_true unused

/-- The second child and the one created after it both have the name `C_01`. -/
theorem not_nodup_names : ¬∀ state, system.Reachable state → state.names.Nodup := by
  intro distinct
  have ran : (system.run launched (leavesBetween 1)).map State.names = some ["C_01", "C_01"] := by
    decide +kernel
  rcases Option.map_eq_some_iff.mp ran with ⟨state, ran, names_eq⟩
  have nodup := distinct state (System.Reachable.of_run (.start rfl) ran)
  rw [names_eq] at nodup
  exact absurd nodup (by decide)

end Osis.Lab03
