import Osis.Lab03.Deleting

/-!
# The three loops of the handler (`HandleExitChild`)

For each child that has exited the handler searches its entry from the front, moves the
entries behind it by one slot and decrements the size. Here the loops stand as in the
source, with the slots that they read and write, and are tied to the model that finds an
entry and closes its gap.
-/

namespace Osis.Lab03

open Memory

/-- The table in the hands of the handler, with the slots read or written so far. -/
structure Handling where
  table : Table
  touched : List ℕ

namespace Handling

/-- `child_processes[j] = child_processes[j + 1]`. -/
def move (handling : Handling) (j : ℕ) : Handling :=
  { table :=
      { handling.table with
        childProcesses := Function.update handling.table.childProcesses j
          (handling.table.childProcesses (j + 1)) }
    touched := handling.touched ++ [j + 1, j] }

/-- The loop over `j`; its bound is computed without a sign. -/
def moves (handling : Handling) (j : ℕ) : Handling :=
  if j < (handling.table.size - 1).toNat then (handling.move j).moves (j + 1) else handling
termination_by (handling.table.size - 1).toNat - j
decreasing_by
  change (handling.table.size - 1).toNat - (j + 1) < (handling.table.size - 1).toNat - j
  omega

/-- A read of the pid of an entry. -/
def readPid (handling : Handling) (i : ℕ) : Handling :=
  { handling with touched := handling.touched ++ [i] }

/-- `child_processes_size--`. -/
def decrement (handling : Handling) : Handling :=
  { handling with table := { handling.table with size := handling.table.size - 1 } }

/-- The loop over `i`, for a pid that `waitpid` has returned. -/
def remove (handling : Handling) (pid : Pid) (i : ℕ) : Handling :=
  if i < handling.table.size.toNat then
    if (handling.table.childProcesses i).pid = pid then ((handling.readPid i).moves i).decrement
    else (handling.readPid i).remove pid (i + 1)
  else handling
termination_by handling.table.size.toNat - i
decreasing_by
  change handling.table.size.toNat - (i + 1) < handling.table.size.toNat - i
  omega

/-- The loop over the children that `waitpid` returns, without an interruption. -/
def handleExitChild (table : Table) (reaped : List Pid) : Handling :=
  reaped.foldl (fun handling pid => handling.remove pid 0) ⟨table, []⟩

variable {handling : Handling} {pid : Pid} {i j : ℕ}

/-- The loop over `j` is the one that closes a gap, and stays in front of the last slot. -/
theorem moves_spec (handling : Handling) (j : ℕ) :
    (handling.moves j).table =
        { handling.table with
          childProcesses := (List.range' j ((handling.table.size - 1).toNat - j)).foldl
            (fun slots slot => Function.update slots slot (slots (slot + 1)))
            handling.table.childProcesses } ∧
      ∀ slot ∈ (handling.moves j).touched,
        slot ∈ handling.touched ∨ slot ≤ (handling.table.size - 1).toNat := by
  induction handling, j using moves.induct with
  | case1 handling j more ih =>
      rw [moves, if_pos more]
      rcases ih with ⟨table_eq, touched⟩
      constructor
      · have count_eq : (handling.table.size - 1).toNat - j =
            (handling.table.size - 1).toNat - (j + 1) + 1 := by omega
        rw [table_eq, count_eq, List.range'_succ, List.foldl_cons]
        rfl
      · intro slot slot_mem
        rcases touched slot slot_mem with before | inside
        · rcases List.mem_append.mp before with earlier | now
          · exact Or.inl earlier
          · simp only [List.mem_cons, List.not_mem_nil, or_false] at now
            rcases now with rfl | rfl
            · exact Or.inr more
            · exact Or.inr (Nat.le_of_lt more)
        · exact Or.inr inside
  | case2 handling j done =>
      have nothing : (handling.table.size - 1).toNat - j = 0 := by omega
      rw [moves, if_neg done, nothing]
      exact ⟨rfl, fun slot slot_mem => Or.inl slot_mem⟩

/-- The gap that the loop over `j` closes is at the index that it starts from. -/
theorem table_moves (inside : j < handling.table.size.toNat) :
    (handling.moves j).table =
      { handling.table with
        childProcesses := closeGap handling.table.childProcesses j handling.table.size.toNat } := by
  rw [(moves_spec handling j).1, Table.toNat_pred (Nat.zero_lt_of_lt inside)]
  rfl

/-- The loop over `i` takes out the entry that is found in the table, if it starts in front of
that entry. -/
theorem table_remove (passed : ∀ slot < i, (handling.table.childProcesses slot).pid ≠ pid) :
    (handling.remove pid i).table = handling.table.reapChild pid := by
  induction handling, i using remove.induct pid with
  | case1 handling i more found =>
      have first : handling.table.entries.findIdx? (fun info => info.pid == pid) = some i := by
        apply List.findIdx?_eq_some_iff_getElem.mpr
        refine ⟨by rwa [Table.length_entries], ?_, ?_⟩
        · simpa [Table.entries, slice] using found
        · intro slot before
          simpa [Table.entries, slice] using passed slot before
      rw [remove, if_pos more, if_pos found, Table.reapChild, first]
      have moved : ((handling.readPid i).moves i).table = _ := table_moves more
      rw [decrement, moved]
      rfl
  | case2 handling i more other ih =>
      rw [remove, if_pos more, if_neg other]
      apply ih
      intro slot before
      rcases Nat.lt_succ_iff_lt_or_eq.mp before with earlier | rfl
      · exact passed slot earlier
      · exact other
  | case3 handling i done =>
      have missing : handling.table.entries.findIdx? (fun info => info.pid == pid) = none := by
        apply List.findIdx?_eq_none_iff.mpr
        intro info info_mem
        rcases mem_slice.mp info_mem with ⟨slot, slot_lt, rfl⟩
        rw [Nat.zero_add]
        exact beq_eq_false_iff_ne.mpr (passed slot (by omega))
      rw [remove, if_neg done, Table.reapChild, missing]

theorem touched_readPid (more : i < handling.table.size.toNat) :
    ∀ slot ∈ (handling.readPid i).touched,
      slot ∈ handling.touched ∨ slot < handling.table.size.toNat := by
  intro slot slot_mem
  rcases List.mem_append.mp slot_mem with earlier | now
  · exact Or.inl earlier
  · rw [List.mem_singleton.mp now]
    exact Or.inr more

/-- No slot behind the entries is touched. -/
theorem touched_remove (handling : Handling) (pid : Pid) (i : ℕ) :
    ∀ slot ∈ (handling.remove pid i).touched,
      slot ∈ handling.touched ∨ slot < handling.table.size.toNat := by
  induction handling, i using remove.induct pid with
  | case1 handling i more found =>
      rw [remove, if_pos more, if_pos found]
      intro slot slot_mem
      rcases ((handling.readPid i).moves_spec i).2 slot slot_mem with before | inside
      · exact touched_readPid more slot before
      · have size_eq := Table.toNat_pred (Nat.zero_lt_of_lt more)
        change slot ≤ (handling.table.size - 1).toNat at inside
        exact Or.inr (by omega)
  | case2 handling i more other ih =>
      rw [remove, if_pos more, if_neg other]
      intro slot slot_mem
      rcases ih slot slot_mem with before | inside
      · exact touched_readPid more slot before
      · exact Or.inr inside
  | case3 handling i done =>
      rw [remove, if_neg done]
      intro slot slot_mem
      exact Or.inl slot_mem

/-- The loops do what the model of the handler does, and stay inside the entries in use. -/
theorem foldl_remove_spec (handling : Handling) (reaped : List Pid) :
    (reaped.foldl (fun handling pid => handling.remove pid 0) handling).table =
        handling.table.handleExitChild reaped ∧
      ∀ slot ∈ (reaped.foldl (fun handling pid => handling.remove pid 0) handling).touched,
        slot ∈ handling.touched ∨ slot < handling.table.size.toNat := by
  induction reaped generalizing handling with
  | nil => exact ⟨rfl, fun slot slot_mem => Or.inl slot_mem⟩
  | cons pid reaped ih =>
      have nothing_passed : ∀ slot < 0, (handling.table.childProcesses slot).pid ≠ pid :=
        fun slot before => absurd before (Nat.not_lt_zero slot)
      have table_eq := table_remove nothing_passed
      rcases ih (handling.remove pid 0) with ⟨rest_eq, rest_touched⟩
      rw [table_eq] at rest_eq rest_touched
      refine ⟨rest_eq, ?_⟩
      intro slot slot_mem
      rcases rest_touched slot slot_mem with before | inside
      · exact touched_remove handling pid 0 slot before
      · have shorter : (handling.table.reapChild pid).size.toNat ≤ handling.table.size.toNat := by
          rw [← Table.length_entries, ← Table.length_entries, Table.entries_reapChild]
          exact List.length_eraseP_le
        exact Or.inr (Nat.lt_of_lt_of_le inside shorter)

end Handling

/-- With different pids, what is left are the entries of the children that were not reaped. -/
theorem foldl_reap_eq_filter {entries : List ProcessInfo}
    (distinct : (entries.map ProcessInfo.pid).Nodup) (reaped : List Pid) :
    reaped.foldl State.reap entries = entries.filter fun info => info.pid ∉ reaped := by
  have dropped : ∀ info : ProcessInfo, info.pid ∈ reaped → decide (info.pid ∉ reaped) = false := by
    intro info gone
    simpa using gone
  rw [← filter_foldl_reap dropped]
  apply (List.filter_eq_self.mpr _).symm
  intro info info_mem
  have pid_mem := List.mem_map_of_mem (f := ProcessInfo.pid) info_mem
  rw [map_pid_foldl_reap, List.Nodup.mem_sdiff_iff distinct] at pid_mem
  exact decide_eq_true pid_mem.2

/-- `HandleExitChild` compacts the table: the entries of the children that were not reaped are
left in their order, the size is their number, and only slots of old entries are touched. -/
theorem handleExitChild_compacts (table : Table) (reaped : List Pid)
    (distinct : (table.entries.map ProcessInfo.pid).Nodup) :
    let handled := Handling.handleExitChild table reaped
    handled.table.entries = table.entries.filter (fun info => info.pid ∉ reaped) ∧
      handled.table.size.toNat =
        (table.entries.filter fun info => info.pid ∉ reaped).length ∧
      ∀ slot ∈ handled.touched, slot < table.size.toNat := by
  rcases Handling.foldl_remove_spec ⟨table, []⟩ reaped with ⟨table_eq, touched⟩
  have entries_eq : (Handling.handleExitChild table reaped).table.entries =
      table.entries.filter fun info => info.pid ∉ reaped := by
    rw [Handling.handleExitChild, table_eq, Table.entries_handleExitChild,
      foldl_reap_eq_filter distinct]
  refine ⟨entries_eq, ?_, ?_⟩
  · rw [← entries_eq, Table.length_entries]
  · intro slot slot_mem
    exact (touched slot slot_mem).resolve_left List.not_mem_nil

/-- Three children, of which the last and the first exit besides an unknown one. -/
theorem handleExitChild_compacts_three :
    let table : Table := ⟨fun slot => ⟨slot + 5, childName slot, true⟩, 3⟩
    let handled := Handling.handleExitChild table [7, 9, 5]
    handled.table.entries = table.entries.filter (fun info => info.pid ∉ [7, 9, 5]) ∧
      handled.table.size.toNat =
        (table.entries.filter fun info => info.pid ∉ [7, 9, 5]).length ∧
      ∀ slot ∈ handled.touched, slot < table.size.toNat :=
  handleExitChild_compacts ⟨fun slot => ⟨slot + 5, childName slot, true⟩, 3⟩ [7, 9, 5] (by decide)

end Osis.Lab03
