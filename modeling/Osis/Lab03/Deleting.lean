import Mathlib.Data.List.Nodup
import Osis.Lab03.Parent
import Osis.Memory.Gap

/-!
# A deletion that is interrupted

`DeleteLastChild` reads the size of the process table four times and writes it once. The
command `-` runs it with `SIGCHLD` open, so that `HandleExitChild` can take entries out of
the table between any two of these accesses. `DeleteAllChild` blocks the signal.

The table is the array of the source with the memory around it: an index that has wrapped
reads what happens to stand there.
-/

namespace Osis.Lab03

open Memory

/-- The array `child_processes` with `child_processes_size`. -/
structure Table where
  childProcesses : ℕ → ProcessInfo
  size : UInt64

namespace Table

/-- The entries in use. -/
def entries (table : Table) : List ProcessInfo :=
  slice table.childProcesses 0 table.size.toNat

/-- A round of the loop of `HandleExitChild`, for a child that `waitpid` has returned. -/
def reapChild (table : Table) (pid : Pid) : Table :=
  match table.entries.findIdx? fun info => info.pid == pid with
  | none => table
  | some index =>
      { childProcesses := closeGap table.childProcesses index table.size.toNat
        size := table.size - 1 }

def handleExitChild (table : Table) (reaped : List Pid) : Table := reaped.foldl reapChild table

end Table

/-- The moments of `DeleteLastChild` at which handlers run, named after what comes next. -/
inductive Moment where
  /-- The size is compared with zero. -/
  | check
  /-- The size is read for the index of the last entry. -/
  | index
  /-- The pid is read from the entry. -/
  | pid
  | kill
  | print
  /-- The size is read to be decremented. -/
  | load
  /-- The decremented size is written. -/
  | store
  deriving DecidableEq

/-- The moments in their order. -/
def moments : List Moment := [.check, .index, .pid, .kill, .print, .load, .store]

/-- What a deletion has done when it returns. -/
structure Deletion where
  killed : Option Pid
  /-- The children that the handlers have waited for. -/
  reaped : List Pid
  table : Table

/-- `DeleteLastChild`, with the children that handlers wait for at each moment. -/
def deleteLastChild (reaps : Moment → List Pid) (table : Table) : Deletion :=
  let checked := table.handleExitChild (reaps .check)
  if checked.size = 0 then ⟨none, reaps .check, checked⟩
  else
    let indexed := checked.handleExitChild (reaps .index)
    let read := indexed.handleExitChild (reaps .pid)
    let pid := (read.childProcesses (indexed.size - 1).toNat).pid
    let loaded := ((read.handleExitChild (reaps .kill)).handleExitChild
      (reaps .print)).handleExitChild (reaps .load)
    let stored := loaded.handleExitChild (reaps .store)
    { killed := some pid
      reaped := moments.flatMap reaps
      table := { stored with size := loaded.size - 1 } }

/-- The child of an entry is neither the killed one nor a reaped one. -/
def Deletion.Keeps (deletion : Deletion) (info : ProcessInfo) : Prop :=
  some info.pid ≠ deletion.killed ∧ info.pid ∉ deletion.reaped

instance (deletion : Deletion) : DecidablePred deletion.Keeps := fun _ =>
  inferInstanceAs (Decidable (_ ∧ _))

/-- The deletion takes out the child that it kills and those that were reaped, and no other,
and the size does not wrap. -/
def DeletesExactly (reaps : Moment → List Pid) (table : Table) : Prop :=
  let deletion := deleteLastChild reaps table
  deletion.table.entries = table.entries.filter (fun info => deletion.Keeps info) ∧
    deletion.table.size ≤ table.size

section Reaping

variable {entries : List ProcessInfo} {reaped : List Pid}

theorem reap_of_forall_not {pid : Pid} (absent : ∀ info ∈ entries, info.pid ≠ pid) :
    State.reap entries pid = entries :=
  List.eraseP_of_forall_not fun info info_mem => by simpa using absent info info_mem

theorem foldl_reap_sublist (entries : List ProcessInfo) (reaped : List Pid) :
    (reaped.foldl State.reap entries).Sublist entries := by
  induction reaped generalizing entries with
  | nil => exact List.Sublist.refl entries
  | cons pid reaped ih => exact (ih (State.reap entries pid)).trans List.eraseP_sublist

/-- An entry of a reaped child makes the table shorter. -/
theorem length_foldl_reap_lt {info : ProcessInfo} (info_mem : info ∈ entries)
    (gone : info.pid ∈ reaped) : (reaped.foldl State.reap entries).length < entries.length := by
  induction reaped with
  | nil => exact absurd gone List.not_mem_nil
  | cons pid reaped ih =>
      rw [List.foldl_cons]
      by_cases present : ∃ info ∈ entries, info.pid = pid
      · rcases present with ⟨found, found_mem, found_pid⟩
        have shorter : (State.reap entries pid).length = entries.length - 1 :=
          List.length_eraseP_of_mem found_mem (by simpa using found_pid)
        have rest := (foldl_reap_sublist (State.reap entries pid) reaped).length_le
        have positive := List.length_pos_of_mem found_mem
        omega
      · push Not at present
        rw [reap_of_forall_not present]
        exact ih ((List.mem_cons.mp gone).resolve_left (present info info_mem))

theorem foldl_reap_concat {last : ProcessInfo} (spared : last.pid ∉ reaped)
    (entries : List ProcessInfo) :
    reaped.foldl State.reap (entries ++ [last]) = reaped.foldl State.reap entries ++ [last] := by
  induction reaped generalizing entries with
  | nil => exact Eq.refl _
  | cons pid reaped ih =>
      have other : (last.pid == pid) = false :=
        beq_eq_false_iff_ne.mpr (List.ne_of_not_mem_cons spared)
      have first : State.reap (entries ++ [last]) pid = State.reap entries pid ++ [last] := by
        simp only [State.reap]
        by_cases present : ∃ info ∈ entries, (info.pid == pid) = true
        · rcases present with ⟨info, info_mem, found⟩
          exact List.eraseP_append_left (p := fun info => info.pid == pid) found _ info_mem
        · have absent : ∀ info ∈ entries, ¬(info.pid == pid) = true :=
            fun info info_mem found => present ⟨info, info_mem, found⟩
          rw [List.eraseP_append_right _ absent, List.eraseP_of_forall_not absent]
          simp [other]
      rw [List.foldl_cons, first]
      exact ih (List.not_mem_of_not_mem_cons spared) (State.reap entries pid)

/-- The pids that are left are those of a difference of lists. -/
theorem map_pid_foldl_reap (entries : List ProcessInfo) (reaped : List Pid) :
    (reaped.foldl State.reap entries).map ProcessInfo.pid =
      (entries.map ProcessInfo.pid).diff reaped := by
  induction reaped generalizing entries with
  | nil => exact Eq.refl _
  | cons pid reaped ih =>
      rw [List.foldl_cons, ih, List.diff_cons, State.reap, List.erase_eq_eraseP', List.eraseP_map]
      exact Eq.refl _

/-- What is kept of the entries does not depend on when the others are taken out. -/
theorem filter_foldl_reap {keep : ProcessInfo → Bool}
    (dropped : ∀ info, info.pid ∈ reaped → keep info = false) (entries : List ProcessInfo) :
    (reaped.foldl State.reap entries).filter keep = entries.filter keep := by
  induction reaped generalizing entries with
  | nil => exact congrArg _ List.foldl_nil
  | cons pid reaped ih =>
      rw [List.foldl_cons, ih fun info info_mem => dropped info (List.mem_cons_of_mem pid info_mem)]
      rcases List.exists_or_eq_self_of_eraseP (fun info => info.pid == pid) entries with
        same | ⟨info, before, behind, _, found, split, erased⟩
      · exact congrArg _ same
      · have out : keep info = false := by
          apply dropped info
          rw [eq_of_beq found]
          exact List.mem_cons_self
        have kept : State.reap entries pid = before ++ behind := erased
        rw [kept, split]
        simp [out]

end Reaping

namespace Table

variable {table : Table} {reaped : List Pid}

@[simp]
theorem length_entries (table : Table) : table.entries.length = table.size.toNat :=
  length_slice _ _ _

theorem toNat_pred (positive : 0 < table.size.toNat) :
    (table.size - 1).toNat = table.size.toNat - 1 := by
  have least : 1 ≤ table.size := UInt64.le_iff_toNat_le.mpr positive
  exact UInt64.toNat_sub_of_le _ _ least

theorem entries_eq_concat (positive : 0 < table.size.toNat) :
    table.entries = slice table.childProcesses 0 (table.size - 1).toNat ++
      [table.childProcesses (table.size - 1).toNat] := by
  have whole : table.size.toNat = (table.size - 1).toNat + 1 := by
    rw [toNat_pred positive]
    omega
  have concat := slice_concat table.childProcesses 0 (table.size - 1).toNat
  rw [Nat.zero_add, ← whole] at concat
  exact concat

theorem entries_reapChild (table : Table) (pid : Pid) :
    (table.reapChild pid).entries = State.reap table.entries pid := by
  rw [State.reap, List.eraseP_eq_eraseIdx, reapChild]
  split
  · rename_i missing
    simp only [missing]
  · rename_i index found
    have inside : index < table.size.toNat := by
      rw [← length_entries]
      exact (List.findIdx?_eq_some_iff_getElem.mp found).1
    simp only [found]
    calc slice (closeGap table.childProcesses index table.size.toNat) 0 (table.size - 1).toNat
        = slice (closeGap table.childProcesses index table.size.toNat) 0
            (table.size.toNat - 1) := by rw [toNat_pred (by omega)]
      _ = table.entries.eraseIdx index := slice_closeGap inside

/-- The handler takes the exited children out of the table, as its model in one step does. -/
theorem entries_handleExitChild (table : Table) (reaped : List Pid) :
    (table.handleExitChild reaped).entries = reaped.foldl State.reap table.entries := by
  induction reaped generalizing table with
  | nil => exact List.foldl_nil.symm
  | cons pid reaped ih =>
      rw [List.foldl_cons, ← entries_reapChild]
      exact ih (table.reapChild pid)

/-- Closing gaps does not write the last slot in use. -/
theorem reapChild_behind {slot : ℕ} {pid : Pid} (behind : table.size.toNat ≤ slot + 1) :
    (table.reapChild pid).childProcesses slot = table.childProcesses slot := by
  rw [reapChild]
  split
  · exact Eq.refl _
  · exact closeGap_behind behind

theorem handleExitChild_behind {slot : ℕ} (behind : table.size.toNat ≤ slot + 1) :
    (table.handleExitChild reaped).childProcesses slot = table.childProcesses slot := by
  induction reaped generalizing table with
  | nil => exact Eq.refl _
  | cons pid reaped ih =>
      have shorter : (table.reapChild pid).size.toNat ≤ table.size.toNat := by
        rw [← length_entries, ← length_entries, entries_reapChild]
        exact List.length_eraseP_le
      calc ((table.reapChild pid).handleExitChild reaped).childProcesses slot
          = (table.reapChild pid).childProcesses slot := ih (shorter.trans behind)
        _ = table.childProcesses slot := reapChild_behind behind

theorem handleExitChild_of_forall_not (absent : ∀ info ∈ table.entries, info.pid ∉ reaped) :
    table.handleExitChild reaped = table := by
  induction reaped with
  | nil => exact Eq.refl _
  | cons pid reaped ih =>
      have missing : table.entries.findIdx? (fun info => info.pid == pid) = none := by
        rw [List.findIdx?_eq_none_iff]
        intro info info_mem
        exact beq_eq_false_iff_ne.mpr (List.ne_of_not_mem_cons (absent info info_mem))
      have same : table.reapChild pid = table := by
        rw [reapChild, missing]
      calc (table.reapChild pid).handleExitChild reaped = table.handleExitChild reaped := by
            rw [same]
        _ = table := ih fun info info_mem => List.not_mem_of_not_mem_cons (absent info info_mem)

end Table

section Decrement

/-- The last of the entries is the only one that is not kept exactly if the rest is kept. -/
theorem filter_concat_eq_iff {keep : ProcessInfo → Bool} {entries : List ProcessInfo}
    {last : ProcessInfo} (one : (entries ++ [last]).countP (fun info => !keep info) = 1) :
    (entries ++ [last]).filter keep = entries ↔ keep last = false := by
  constructor
  · intro same
    by_contra kept
    have last_kept : keep last = true := by simpa using kept
    have positive : 0 < entries.countP (fun info => !keep info) := by
      simp [List.countP_append, last_kept] at one
      omega
    rcases List.countP_pos_iff.mp positive with ⟨info, info_mem, out⟩
    rw [← same] at info_mem
    simp [(List.mem_filter.mp info_mem).2] at out
  · intro out
    have none_out : entries.countP (fun info => !keep info) = 0 := by
      simpa [List.countP_append, out] using one
    have all_kept : ∀ info ∈ entries, keep info = true := by
      intro info info_mem
      simpa using List.countP_eq_zero.mp none_out info info_mem
    rw [List.filter_append, List.filter_eq_self.mpr all_kept]
    simp [out]

theorem length_filter_add_countP (keep : ProcessInfo → Bool) (entries : List ProcessInfo) :
    (entries.filter keep).length + entries.countP (fun info => !keep info) = entries.length := by
  have both : entries.length = (entries.filter keep).length +
      (entries.filter fun info => !keep info).length := List.length_eq_length_filter_add keep
  rw [List.countP_eq_length_filter]
  omega

variable {table : Table} {reaped : List Pid} {keep : ProcessInfo → Bool}

/-- The decrement, with handlers between its read and its write, keeps exactly what has to be
kept if one entry has to go, which is taken out by these handlers or is the last. -/
theorem entries_decrement_iff (dropped : ∀ info, info.pid ∈ reaped → keep info = false) :
    ({ table.handleExitChild reaped with size := table.size - 1 } : Table).entries =
        table.entries.filter keep ↔
      table.entries.countP (fun info => !keep info) = 1 ∧
        ((∃ info ∈ table.entries, info.pid ∈ reaped) ∨
          ∃ info ∈ table.entries.getLast?, keep info = false) := by
  have lengths := length_filter_add_countP keep table.entries
  have total := table.length_entries
  rcases Nat.eq_zero_or_pos table.size.toNat with empty | positive
  · -- the size wraps
    have zero : table.size = 0 := UInt64.toNat_inj.mp empty
    simp [Table.entries, zero, slice]
  · have size_eq := Table.toNat_pred positive
    rcases Classical.em (∃ info ∈ table.entries, info.pid ∈ reaped) with
      ⟨info, info_mem, gone⟩ | absent
    · have stored := table.entries_handleExitChild reaped
      have shorter := length_foldl_reap_lt info_mem gone
      have filtered := filter_foldl_reap dropped table.entries
      rw [← stored] at shorter filtered
      have fewer := List.length_filter_le keep (table.handleExitChild reaped).entries
      rw [filtered] at fewer
      have left := (table.handleExitChild reaped).length_entries
      constructor
      · intro same
        have length_eq := congrArg List.length same
        rw [Table.length_entries, size_eq] at length_eq
        exact ⟨by omega, Or.inl ⟨info, info_mem, gone⟩⟩
      · rintro ⟨one, _⟩
        have same_size : (table.size - 1).toNat = (table.handleExitChild reaped).size.toNat := by
          omega
        calc slice (table.handleExitChild reaped).childProcesses 0 (table.size - 1).toNat
            = (table.handleExitChild reaped).entries := by rw [same_size, Table.entries]
          _ = (table.handleExitChild reaped).entries.filter keep := by
              refine (List.Sublist.eq_of_length List.filter_sublist ?_).symm
              rw [filtered]
              omega
          _ = table.entries.filter keep := filtered
    · have unchanged : table.handleExitChild reaped = table :=
        Table.handleExitChild_of_forall_not fun info info_mem gone => absent ⟨info, info_mem, gone⟩
      have split := Table.entries_eq_concat positive
      have decremented : ({ table with size := table.size - 1 } : Table).entries =
          slice table.childProcesses 0 (table.size - 1).toNat := Eq.refl _
      rw [unchanged, decremented]
      generalize slice table.childProcesses 0 (table.size - 1).toNat = rest at split
      generalize table.childProcesses (table.size - 1).toNat = last at split
      rw [split] at absent lengths ⊢
      rw [List.getLast?_concat]
      simp only [Option.mem_some_iff, exists_eq_left', absent, false_or]
      rw [List.length_append, List.length_singleton] at lengths
      constructor
      · intro same
        have length_eq := congrArg List.length same
        have one : (rest ++ [last]).countP (fun info => !keep info) = 1 := by omega
        exact ⟨one, (filter_concat_eq_iff one).mp same.symm⟩
      · rintro ⟨one, out⟩
        exact ((filter_concat_eq_iff one).mpr out).symm

end Decrement

section Exactly

variable (reaps : Moment → List Pid) (table : Table)

/-- The entries that are left when the size is compared with zero. -/
def atCheck : List ProcessInfo := (reaps .check).foldl State.reap table.entries

/-- The entries that are left when the last of them is chosen. -/
def atIndex : List ProcessInfo := (reaps .index).foldl State.reap (atCheck reaps table)

/-- The entries that are left when the size is read to be decremented. -/
def atLoad : List ProcessInfo :=
  [Moment.pid, .kill, .print, .load].foldl
    (fun entries moment => (reaps moment).foldl State.reap entries) (atIndex reaps table)

/-- The child of an entry is the last when one is chosen, or it is reaped. -/
def HasToGo (info : ProcessInfo) : Prop :=
  (atIndex reaps table).getLast?.map ProcessInfo.pid = some info.pid ∨
    info.pid ∈ moments.flatMap reaps

instance : DecidablePred (HasToGo reaps table) := fun _ => inferInstanceAs (Decidable (_ ∨ _))

/-- There is no child to delete, or one entry has to go when the size is read to be
decremented, and this is the last entry or one that goes before the size is written. -/
def OneGoes : Prop :=
  atCheck reaps table = [] ∨
    (atLoad reaps table).countP (fun info => HasToGo reaps table info) = 1 ∧
      ((∃ info ∈ atLoad reaps table, info.pid ∈ reaps .store) ∨
        ∃ info ∈ (atLoad reaps table).getLast?, HasToGo reaps table info)

variable {reaps : Moment → List Pid} {table : Table}

theorem filter_atCheck {keep : ProcessInfo → Bool}
    (dropped : ∀ moment, ∀ info, info.pid ∈ reaps moment → keep info = false) :
    (atCheck reaps table).filter keep = table.entries.filter keep :=
  filter_foldl_reap (dropped .check) table.entries

theorem filter_atLoad {keep : ProcessInfo → Bool}
    (dropped : ∀ moment, ∀ info, info.pid ∈ reaps moment → keep info = false) :
    (atLoad reaps table).filter keep = table.entries.filter keep := by
  simp only [atLoad, List.foldl_cons, List.foldl_nil]
  rw [filter_foldl_reap (dropped .load), filter_foldl_reap (dropped .print),
    filter_foldl_reap (dropped .kill), filter_foldl_reap (dropped .pid), atIndex,
    filter_foldl_reap (dropped .index), filter_atCheck dropped]

theorem atLoad_eq : atLoad reaps table =
    ([Moment.pid, .kill, .print, .load].flatMap reaps).foldl State.reap (atIndex reaps table) := by
  simp [atLoad]

theorem atLoad_eq_of_entries : atLoad reaps table =
    (moments.dropLast.flatMap reaps).foldl State.reap table.entries := by
  simp [atLoad, atIndex, atCheck, moments]

theorem mem_moments (moment : Moment) : moment ∈ moments := by
  cases moment <;> simp [moments]

/-- A deletion that leaves the right entries has not wrapped the size. -/
theorem deletesExactly_iff_entries : DeletesExactly reaps table ↔
    (deleteLastChild reaps table).table.entries =
      table.entries.filter (fun info => (deleteLastChild reaps table).Keeps info) := by
  constructor
  · intro exact
    exact exact.1
  · intro same
    refine ⟨same, UInt64.le_iff_toNat_le.mpr ?_⟩
    rw [← Table.length_entries, ← Table.length_entries, same]
    exact List.length_filter_le _ _

/-- The entry of which the pid is read is the last of the entries at the choice, whatever the
handlers take out before the pid is read. -/
theorem pid_chosen {indexed : Table} (reaped : List Pid) (present : indexed.entries ≠ []) :
    indexed.entries.getLast?.map ProcessInfo.pid =
      some ((indexed.handleExitChild reaped).childProcesses (indexed.size - 1).toNat).pid := by
  have positive : 0 < indexed.size.toNat := by
    rw [← Table.length_entries]
    exact List.length_pos_iff.mpr present
  have behind : indexed.size.toNat ≤ (indexed.size - 1).toNat + 1 := by
    rw [Table.toNat_pred positive]
    omega
  rw [Table.handleExitChild_behind behind, Table.entries_eq_concat positive,
    List.getLast?_concat, Option.map_some]

theorem entries_checked :
    (table.handleExitChild (reaps .check)).entries = atCheck reaps table :=
  table.entries_handleExitChild (reaps .check)

theorem atCheck_eq_nil_iff :
    atCheck reaps table = [] ↔ (table.handleExitChild (reaps .check)).size = 0 := by
  rw [← entries_checked, ← List.length_eq_zero_iff, Table.length_entries]
  exact UInt64.toNat_inj (b := 0)

theorem entries_indexed :
    ((table.handleExitChild (reaps .check)).handleExitChild (reaps .index)).entries =
      atIndex reaps table := by
  rw [Table.entries_handleExitChild, entries_checked, atIndex]

/-- The table when the size is read to be decremented. -/
def loadedTable (reaps : Moment → List Pid) (table : Table) : Table :=
  moments.dropLast.foldl (fun table moment => table.handleExitChild (reaps moment)) table

theorem entries_loadedTable : (loadedTable reaps table).entries = atLoad reaps table := by
  simp [loadedTable, moments, Table.entries_handleExitChild, atLoad, atIndex, atCheck]

theorem atIndex_ne_nil {info : ProcessInfo} (info_mem : info ∈ atLoad reaps table) :
    atIndex reaps table ≠ [] := by
  intro empty
  simp only [atLoad, List.foldl_cons, List.foldl_nil, empty] at info_mem
  have nothing := (((foldl_reap_sublist _ (reaps .load)).trans
    (foldl_reap_sublist _ (reaps .print))).trans (foldl_reap_sublist _ (reaps .kill))).trans
    (foldl_reap_sublist [] (reaps .pid))
  exact List.not_mem_nil (nothing.subset info_mem)

/-- What a deletion that finds a child has done. -/
theorem deleteLastChild_of_found (found : atCheck reaps table ≠ []) : ∃ pid,
    deleteLastChild reaps table =
        { killed := some pid
          reaped := moments.flatMap reaps
          table := { (loadedTable reaps table).handleExitChild (reaps .store) with
            size := (loadedTable reaps table).size - 1 } } ∧
      (atIndex reaps table ≠ [] →
        (atIndex reaps table).getLast?.map ProcessInfo.pid = some pid) := by
  have positive := mt atCheck_eq_nil_iff.mpr found
  let indexed := (table.handleExitChild (reaps .check)).handleExitChild (reaps .index)
  refine ⟨((indexed.handleExitChild (reaps .pid)).childProcesses (indexed.size - 1).toNat).pid,
    ?_, ?_⟩
  · rw [deleteLastChild, if_neg positive]
    rfl
  · intro present
    rw [← entries_indexed] at present ⊢
    exact pid_chosen (reaps .pid) present

/-- A deletion that finds a child keeps what it has to keep exactly if one entry goes. -/
theorem entries_deleteLastChild_iff (found : atCheck reaps table ≠ []) :
    (deleteLastChild reaps table).table.entries =
        table.entries.filter (fun info => (deleteLastChild reaps table).Keeps info) ↔
      (atLoad reaps table).countP (fun info => HasToGo reaps table info) = 1 ∧
        ((∃ info ∈ atLoad reaps table, info.pid ∈ reaps .store) ∨
          ∃ info ∈ (atLoad reaps table).getLast?, HasToGo reaps table info) := by
  rcases deleteLastChild_of_found found with ⟨pid, deleted, chosen⟩
  have dropped : ∀ moment, ∀ info, info.pid ∈ reaps moment →
      decide ((deleteLastChild reaps table).Keeps info) = false := by
    intro moment info gone
    have ever : info.pid ∈ (deleteLastChild reaps table).reaped := by
      rw [deleted]
      exact List.mem_flatMap.mpr ⟨moment, mem_moments moment, gone⟩
    exact decide_eq_false fun keeps => keeps.2 ever
  have goes : ∀ info ∈ atLoad reaps table,
      (decide ((deleteLastChild reaps table).Keeps info) = false ↔ HasToGo reaps table info) := by
    intro info info_mem
    rw [decide_eq_false_iff_not, deleted, Deletion.Keeps, HasToGo,
      chosen (atIndex_ne_nil info_mem), not_and_or, not_not, not_not, eq_comm]
  have stored : (deleteLastChild reaps table).table =
      { (loadedTable reaps table).handleExitChild (reaps .store) with
        size := (loadedTable reaps table).size - 1 } := by
    rw [deleted]
  have counted : (atLoad reaps table).countP
      (fun info => !decide ((deleteLastChild reaps table).Keeps info)) =
        (atLoad reaps table).countP (fun info => HasToGo reaps table info) := by
    apply List.countP_congr
    intro info info_mem
    rw [Bool.not_eq_true', goes info info_mem, decide_eq_true_iff]
  rw [← filter_atLoad dropped, stored, ← entries_loadedTable,
    entries_decrement_iff (dropped .store), entries_loadedTable, counted]
  have last : (∃ info ∈ (atLoad reaps table).getLast?,
      decide ((deleteLastChild reaps table).Keeps info) = false) ↔
        ∃ info ∈ (atLoad reaps table).getLast?, HasToGo reaps table info := by
    apply exists_congr
    intro info
    apply and_congr_right
    intro info_mem
    exact goes info (List.mem_of_mem_getLast? info_mem)
  rw [last]

/-- `-` deletes exactly the last child if and only if one entry has to go when the size is
read to be decremented. -/
theorem deletesExactly_iff (reaps : Moment → List Pid) (table : Table) :
    DeletesExactly reaps table ↔ OneGoes reaps table := by
  rw [deletesExactly_iff_entries]
  by_cases empty : atCheck reaps table = []
  · have returned : deleteLastChild reaps table =
        ⟨none, reaps .check, table.handleExitChild (reaps .check)⟩ := by
      rw [deleteLastChild, if_pos (atCheck_eq_nil_iff.mp empty)]
    have dropped : ∀ info, info.pid ∈ reaps .check →
        decide ((deleteLastChild reaps table).Keeps info) = false := by
      intro info gone
      rw [returned]
      exact decide_eq_false fun keeps => keeps.2 gone
    have kept :
        table.entries.filter (fun info => (deleteLastChild reaps table).Keeps info) = [] := by
      rw [← filter_foldl_reap dropped]
      exact congrArg _ empty
    rw [kept, returned, entries_checked]
    exact iff_of_true empty (Or.inl empty)
  · rw [entries_deleteLastChild_iff empty, OneGoes, or_iff_right empty]

/-- Children with different pids are deleted exactly when handlers come early and leave the
last child alone, whatever others they take out. -/
theorem oneGoes_of_spared {last : ProcessInfo}
    (distinct : (table.entries.map ProcessInfo.pid).Nodup)
    (chosen : (atIndex reaps table).getLast? = some last)
    (spared : ∀ moment, last.pid ∉ reaps moment) (quiet : reaps .store = []) :
    OneGoes reaps table := by
  rcases List.getLast?_eq_some_iff.mp chosen with ⟨rest, split⟩
  have late : last.pid ∉ [Moment.pid, .kill, .print, .load].flatMap reaps := by
    intro gone
    rcases List.mem_flatMap.mp gone with ⟨moment, _, gone⟩
    exact spared moment gone
  have left := foldl_reap_concat late rest
  rw [← split, ← atLoad_eq] at left
  have pids := map_pid_foldl_reap table.entries (moments.dropLast.flatMap reaps)
  rw [← atLoad_eq_of_entries] at pids
  have goes : ∀ info ∈ atLoad reaps table,
      (HasToGo reaps table info ↔ info.pid = last.pid) := by
    intro info info_mem
    have pid_mem := List.mem_map_of_mem (f := ProcessInfo.pid) info_mem
    rw [pids, List.Nodup.mem_sdiff_iff distinct] at pid_mem
    have never : info.pid ∉ moments.flatMap reaps := by
      simpa [moments, quiet] using pid_mem.2
    rw [HasToGo, or_iff_left never, chosen, Option.map_some, Option.some_inj, eq_comm]
  have last_mem : last ∈ atLoad reaps table := by
    rw [left]
    exact List.mem_concat_self
  refine Or.inr ⟨?_, Or.inr ⟨last, ?_, (goes last last_mem).mpr (Eq.refl _)⟩⟩
  · have once : ((atLoad reaps table).map ProcessInfo.pid).count last.pid = 1 := by
      apply List.count_eq_one_of_mem
      · rw [pids]
        exact distinct.diff
      · exact List.mem_map_of_mem last_mem
    rw [← once, List.count, List.countP_map]
    apply List.countP_congr
    intro info info_mem
    simp [goes info info_mem]
  · rw [left]
    exact List.getLast?_concat

/-- With the signal blocked, as in `DeleteAllChild`, exactly the last child is deleted. -/
theorem oneGoes_blocked (distinct : (table.entries.map ProcessInfo.pid).Nodup) :
    OneGoes (fun _ => []) table := by
  cases last_eq : table.entries.getLast? with
  | none => exact Or.inl (List.getLast?_eq_none_iff.mp last_eq)
  | some last => exact oneGoes_of_spared distinct last_eq (fun _ => List.not_mem_nil) (Eq.refl _)

/-- With the signal blocked, the command does what its model in one step does. -/
theorem entries_deleteLastChild_blocked {state : State}
    (same : state.childProcesses = table.entries) :
    (deleteLastChild (fun _ => []) table).table.entries = state.deleteLastChild.childProcesses := by
  rcases Nat.eq_zero_or_pos table.size.toNat with empty | positive
  · have zero : table.size = 0 := UInt64.toNat_inj.mp empty
    have nothing : state.childProcesses = [] := by
      rw [same]
      exact List.length_eq_zero_iff.mp (table.length_entries.trans empty)
    have returned : (deleteLastChild (fun _ => []) table).table = table :=
      congrArg Deletion.table (if_pos zero)
    have left : state.deleteLastChild.childProcesses = state.childProcesses := by
      simp [State.deleteLastChild, nothing]
    rw [returned, left, same]
  · have used : ¬table.size = 0 := by
      intro zero
      exact absurd (congrArg UInt64.toNat zero) positive.ne'
    have returned : (deleteLastChild (fun _ => []) table).table =
        { table with size := table.size - 1 } :=
      congrArg Deletion.table (if_neg used)
    have split := Table.entries_eq_concat positive
    have left : state.deleteLastChild.childProcesses = state.childProcesses.dropLast := by
      simp [State.deleteLastChild, same, split]
    rw [returned, left, same, split, List.dropLast_concat]
    exact Eq.refl _

/-- A table of two running children. -/
def pairTable : Table := ⟨fun slot => ⟨slot + 1, childName slot, true⟩, 2⟩

/-- A handler that reaps the killed child before the size is decremented takes the entry of
the last child out, and the decrement takes out the entry of the other one. -/
theorem not_deletesExactly_reaped :
    ¬DeletesExactly (fun moment => if moment = .print then [2] else []) pairTable := by
  intro exact
  have lengths := congrArg List.length exact.1
  revert lengths
  decide

end Exactly

end Osis.Lab03
