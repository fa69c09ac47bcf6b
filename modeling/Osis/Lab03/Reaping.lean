import Osis.Lab03.Deleting

/-!
# Children that exit while a command runs

`HandleExitChild` runs whenever a child has exited, also inside a command: only
`DeleteAllChild` blocks the signal. `CreateChild` registers a child some statements after
`fork`, and reads the size of the table anew in each of them. A handler in between does not
find the new child, and what it takes out of the table is put back in part by the statements
that go on with the old size.

A turn is a command with the children that handlers wait for at each of its moments. `q` is left
out, since it does not lead back to the prompt. `realloc` is taken to succeed.
-/

namespace Osis.Lab03

open Memory Concurrency

/-- The moments of `CreateChild` after `fork` at which handlers run, named after what comes
next. -/
inductive CreateMoment where
  /-- The size is compared with the capacity. -/
  | check
  /-- `realloc` copies the table. -/
  | grow
  /-- `child_processes` is set to the copy. -/
  | assign
  /-- The size is read for the name. -/
  | name
  | nameStore
  /-- The size is read for the pid. -/
  | pid
  | pidStore
  /-- The size is read for `is_running`. -/
  | running
  | runningStore
  /-- The size is read to be incremented. -/
  | load
  | store
  deriving DecidableEq

/-- What a creation has done when it returns. -/
structure Creation where
  /-- The children that the handlers have waited for. -/
  reaped : List Pid
  table : Table
  capacity : UInt64

/-- An assignment to a field of an entry. -/
def Table.put (table : Table) (slot : ℕ) (assign : ProcessInfo → ProcessInfo) : Table :=
  { table with
    childProcesses :=
      Function.update table.childProcesses slot (assign (table.childProcesses slot)) }

section CreateChild

variable (reaps : CreateMoment → List Pid) (moved : Bool)

/-- The table after the test of the capacity. A handler between `realloc` and the assignment
works on the old array, which is lost if the new one is elsewhere. -/
def grownTable (capacity : UInt64) (table : Table) : Table :=
  let checked := table.handleExitChild (reaps .check)
  if capacity ≤ checked.size then
    let copied := checked.handleExitChild (reaps .grow)
    let assigned := copied.handleExitChild (reaps .assign)
    if moved then { assigned with childProcesses := copied.childProcesses } else assigned
  else checked

/-- The table when the size is read for the pid. -/
def indexedTable (capacity : UInt64) (table : Table) : Table :=
  let named := (grownTable reaps moved capacity table).handleExitChild (reaps .name)
  ((named.handleExitChild (reaps .nameStore)).put named.size.toNat fun info =>
    { info with name := childName named.size.toNat }).handleExitChild (reaps .pid)

/-- The table when the size is read to be incremented. -/
def filledTable (forked : Pid) (indexed : Table) : Table :=
  let stored := (indexed.handleExitChild (reaps .pidStore)).put indexed.size.toNat fun info =>
    { info with pid := forked }
  let running := stored.handleExitChild (reaps .running)
  ((running.handleExitChild (reaps .runningStore)).put running.size.toNat fun info =>
    { info with isRunning := false }).handleExitChild (reaps .load)

/-- The moments that `CreateChild` goes through. -/
def createMoments (capacity : UInt64) (table : Table) : List CreateMoment :=
  (if capacity ≤ (table.handleExitChild (reaps .check)).size then [.check, .grow, .assign]
    else [.check]) ++
      [.name, .nameStore, .pid, .pidStore, .running, .runningStore, .load, .store]

/-- `CreateChild` in the parent, with the pid that `fork` has returned, the children that
handlers wait for at each moment, and whether `realloc` moves the table. -/
def createChild (forked : Pid) (capacity : UInt64) (table : Table) : Creation :=
  let full := capacity ≤ (table.handleExitChild (reaps .check)).size
  let loaded := filledTable reaps forked (indexedTable reaps moved capacity table)
  { reaped := (createMoments reaps capacity table).flatMap reaps
    table := { loaded.handleExitChild (reaps .store) with size := loaded.size + 1 }
    capacity := if full then capacity * 2 else capacity }

end CreateChild

/-- The moments of `StartChild` and `StopChild` at which handlers run. -/
inductive MarkMoment where
  | check
  | pid
  | sigqueue
  /-- `is_running` is written. -/
  | store
  deriving DecidableEq

/-- `DeleteAllChild` between the blocking of the signal and its return. -/
def deleteAllChild (table : Table) : Table :=
  (fun table => (deleteLastChild (fun _ => []) table).table)^[table.size.toNat] table

/-- The parent at its prompt. -/
structure Prompted where
  table : Table
  capacity : UInt64
  /-- The children that are forked and not waited for. -/
  unreaped : List Pid

/-- A turn of the loop of `main`, with the children for which handlers wait. -/
inductive Turn where
  /-- `+`, when `fork` succeeds. -/
  | create (forked : Pid) (moved : Bool) (reaps : CreateMoment → List Pid)
  | deleteLast (reaps : Moment → List Pid)
  | deleteAll (before behind : List Pid)
  /-- `s` and `g` with an index. -/
  | mark (index : UInt64) (isRunning : Bool) (reaps : MarkMoment → List Pid)
  /-- Another input, or none yet. -/
  | idle (reaped : List Pid)

/-- `waitpid` returns children of the process, and each of them once. -/
def Waited (unreaped reaped : List Pid) : Prop := reaped.Nodup ∧ reaped ⊆ unreaped

instance (unreaped reaped : List Pid) : Decidable (Waited unreaped reaped) :=
  inferInstanceAs (Decidable (_ ∧ _))

/-- The table and the children that handlers wait for when `is_running` of an entry is set. -/
def markChild (index : UInt64) (isRunning : Bool) (reaps : MarkMoment → List Pid)
    (table : Table) : Table × List Pid :=
  let checked := table.handleExitChild (reaps .check)
  if checked.size ≤ index then (checked, reaps .check)
  else
    ((((checked.handleExitChild (reaps .pid)).handleExitChild (reaps .sigqueue)).handleExitChild
      (reaps .store)).put index.toNat fun info => { info with isRunning := isRunning },
      [MarkMoment.check, .pid, .sigqueue, .store].flatMap reaps)

namespace Prompted

/-- The parent with another table, its handlers having waited for children. -/
def waits (state : Prompted) (table : Table) (reaped : List Pid) : Option Prompted :=
  if Waited state.unreaped reaped then
    some { state with table, unreaped := state.unreaped.diff reaped }
  else none

def take (state : Prompted) : Turn → Option Prompted
  | .create forked moved reaps =>
      let creation := createChild reaps moved forked state.capacity state.table
      if forked ∈ state.unreaped then none
      else
        waits ⟨state.table, creation.capacity, forked :: state.unreaped⟩ creation.table
          creation.reaped
  | .deleteLast reaps =>
      let deletion := deleteLastChild reaps state.table
      state.waits deletion.table deletion.reaped
  | .deleteAll before behind =>
      state.waits
        ((deleteAllChild (state.table.handleExitChild before)).handleExitChild behind)
        (before ++ behind)
  | .mark index isRunning reaps =>
      let marked := markChild index isRunning reaps state.table
      state.waits marked.1 marked.2
  | .idle reaped => state.waits (state.table.handleExitChild reaped) reaped

/-- No entry of the table is of a child that has been waited for. -/
def TableUnreaped (state : Prompted) : Prop :=
  ∀ info ∈ state.table.entries, info.pid ∈ state.unreaped

/-- Handlers wait for the new child only when it is registered, and for no registered child where
a command goes on with a size or an array that it has read before. -/
def Spares (state : Prompted) : Turn → Prop
  | .create forked moved reaps =>
      (∀ moment ∈ createMoments reaps state.capacity state.table, forked ∉ reaps moment) ∧
        (∀ moment ∈ [CreateMoment.pidStore, .running, .runningStore, .load, .store],
          ∀ info ∈ state.table.entries, info.pid ∉ reaps moment) ∧
        (state.capacity ≤ (state.table.handleExitChild (reaps .check)).size → moved = true →
          ∀ info ∈ state.table.entries, info.pid ∉ reaps .assign)
  | .deleteLast reaps =>
      atCheck reaps state.table = [] ∨
        atLoad reaps state.table ≠ [] ∧
          (atLoad reaps state.table).countP (fun info => info.pid ∈ reaps .store) ≤ 1
  | _ => True

end Prompted

/-- The parent with its table as `calloc` leaves it, in any memory around it. -/
def prompting : System Prompted Turn where
  initial state := state.table.size = 0 ∧ state.capacity = 8 ∧ state.unreaped = []
  next := Prompted.take

namespace Table

variable {table : Table} {reaped : List Pid} {slot : ℕ} {assign : ProcessInfo → ProcessInfo}

/-- The pids of the entries in use. -/
def pids (table : Table) : List Pid := table.entries.map ProcessInfo.pid

theorem pids_handleExitChild (table : Table) (reaped : List Pid) :
    (table.handleExitChild reaped).pids = table.pids.diff reaped := by
  rw [pids, entries_handleExitChild, map_pid_foldl_reap, pids]

/-- A handler that waits for no registered child leaves the table. -/
theorem handleExitChild_of_pids (absent : ∀ pid ∈ table.pids, pid ∉ reaped) :
    table.handleExitChild reaped = table :=
  handleExitChild_of_forall_not fun info info_mem =>
    absent info.pid (List.mem_map_of_mem info_mem)

@[simp]
theorem size_put : (table.put slot assign).size = table.size := Eq.refl _

theorem put_put (assign' : ProcessInfo → ProcessInfo) :
    (table.put slot assign).put slot assign' = table.put slot (assign' ∘ assign) := by
  simp [put]

theorem toNat_succ (room : table.size.toNat + 1 < UInt64.size) :
    (table.size + 1).toNat = table.size.toNat + 1 := by
  rw [UInt64.toNat_add]
  exact Nat.mod_eq_of_lt room

/-- Writing behind the entries in use leaves them. -/
theorem entries_put (behind : table.size.toNat ≤ slot) :
    (table.put slot assign).entries = table.entries := by
  apply slice_congr
  intro offset inside
  rw [size_put] at inside
  have other : 0 + offset ≠ slot := by omega
  exact Function.update_of_ne other _ _

theorem pids_put_of_behind (behind : table.size.toNat ≤ slot) :
    (table.put slot assign).pids = table.pids := by
  rw [pids, entries_put behind, pids]

/-- Writing anything else than a pid leaves the pids. -/
theorem pids_put (same : ∀ info, (assign info).pid = info.pid) :
    (table.put slot assign).pids = table.pids := by
  simp only [pids, entries, slice, List.map_map]
  apply List.map_congr_left
  intro offset _
  simp only [Function.comp_apply, put, Function.update_apply]
  split
  · rename_i here
    rw [same, here]
  · rfl

end Table

/-- The pids of the table are of different children, none of which has been waited for. -/
structure Registered (pids unreaped : List Pid) : Prop where
  nodup : pids.Nodup
  waiting : pids ⊆ unreaped

/-- A part of a command leaves some of the pids, and none that has been waited for in it. -/
structure Clears (before after reaped : List Pid) : Prop where
  fewer : after.Sublist before
  spared : ∀ pid ∈ after, pid ∉ reaped

namespace Clears

variable {first second third reaped reaped' unreaped : List Pid} {table : Table}

theorem trans (clears : Clears first second reaped) (then_clears : Clears second third reaped') :
    Clears first third (reaped ++ reaped') where
  fewer := then_clears.fewer.trans clears.fewer
  spared := by
    intro pid pid_mem gone
    rcases List.mem_append.mp gone with early | late
    · exact clears.spared pid (then_clears.fewer.subset pid_mem) early
    · exact then_clears.spared pid pid_mem late

/-- Where no registered child is waited for, nothing is to be cleared. -/
theorem refl (absent : ∀ pid ∈ first, pid ∉ reaped) : Clears first first reaped :=
  ⟨List.Sublist.refl first, absent⟩

/-- A handler takes the children it waits for out of the table. -/
theorem handle (nodup : table.pids.Nodup) (reaped : List Pid) :
    Clears table.pids (table.handleExitChild reaped).pids reaped := by
  rw [Table.pids_handleExitChild]
  refine ⟨List.diff_sublist _ _, ?_⟩
  intro pid pid_mem
  exact ((List.Nodup.mem_sdiff_iff nodup).mp pid_mem).2

theorem nodup (clears : Clears first second reaped) (nodup : first.Nodup) : second.Nodup :=
  nodup.sublist clears.fewer

/-- The pids that are left are of children that still are to be waited for. -/
theorem registered (clears : Clears first second reaped) (registered : Registered first unreaped) :
    Registered second (unreaped.diff reaped) := by
  refine ⟨clears.nodup registered.nodup, ?_⟩
  intro pid pid_mem
  exact List.mem_diff_of_mem (registered.waiting (clears.fewer.subset pid_mem))
    (clears.spared pid pid_mem)

end Clears

theorem Registered.concat {pids unreaped : List Pid} {forked : Pid}
    (registered : Registered pids unreaped) (new : forked ∉ pids) (waiting : forked ∈ unreaped) :
    Registered (pids ++ [forked]) unreaped := by
  refine ⟨?_, ?_⟩
  · rw [List.nodup_append_comm]
    exact List.nodup_cons.mpr ⟨new, registered.nodup⟩
  · intro pid pid_mem
    rcases List.mem_append.mp pid_mem with old | last
    · exact registered.waiting old
    · rwa [List.mem_singleton.mp last]

section Creating

variable {reaps : CreateMoment → List Pid} {moved : Bool} {forked : Pid} {capacity : UInt64}
  {table : Table}

/-- The growth of the table. -/
theorem clears_grownTable (nodup : table.pids.Nodup)
    (kept : capacity ≤ (table.handleExitChild (reaps .check)).size → moved = true →
      ∀ pid ∈ table.pids, pid ∉ reaps .assign) :
    Clears table.pids (grownTable reaps moved capacity table).pids
      ((if capacity ≤ (table.handleExitChild (reaps .check)).size then
        [CreateMoment.check, .grow, .assign] else [.check]).flatMap reaps) := by
  have checked := Clears.handle nodup (reaps .check)
  unfold grownTable
  by_cases full : capacity ≤ (table.handleExitChild (reaps .check)).size
  · have copied := Clears.handle (checked.nodup nodup) (reaps .grow)
    have both := checked.trans copied
    have assigned := both.trans (Clears.handle (both.nodup nodup) (reaps .assign))
    simp only [if_pos full]
    simp only [List.flatMap_cons, List.flatMap_nil, List.append_nil, ← List.append_assoc]
    cases moved with
    | false => exact assigned
    | true =>
        -- the handler has left the old array as it was
        have same : ((table.handleExitChild (reaps .check)).handleExitChild
            (reaps .grow)).handleExitChild (reaps .assign) =
              (table.handleExitChild (reaps .check)).handleExitChild (reaps .grow) := by
          apply Table.handleExitChild_of_pids
          intro pid pid_mem
          exact kept full (Eq.refl _) pid (both.fewer.subset pid_mem)
        simp only [if_true]
        rw [same] at assigned ⊢
        exact assigned
  · simp only [if_neg full, List.flatMap_cons, List.flatMap_nil, List.append_nil]
    exact checked

/-- The statements up to the one that reads the size for the pid. -/
theorem clears_indexedTable (nodup : (grownTable reaps moved capacity table).pids.Nodup) :
    Clears (grownTable reaps moved capacity table).pids
      (indexedTable reaps moved capacity table).pids
      ([CreateMoment.name, .nameStore, .pid].flatMap reaps) := by
  unfold indexedTable
  generalize grownTable reaps moved capacity table = grown at nodup ⊢
  have named := Clears.handle nodup (reaps .name)
  have stored := named.trans (Clears.handle (named.nodup nodup) (reaps .nameStore))
  have put : (((grown.handleExitChild (reaps .name)).handleExitChild (reaps .nameStore)).put
      (grown.handleExitChild (reaps .name)).size.toNat fun info =>
        { info with name := childName (grown.handleExitChild (reaps .name)).size.toNat }).pids =
      ((grown.handleExitChild (reaps .name)).handleExitChild (reaps .nameStore)).pids :=
    Table.pids_put fun _ => Eq.refl _
  rw [← put] at stored
  have indexed := stored.trans (Clears.handle (stored.nodup nodup) (reaps .pid))
  simpa only [List.flatMap_cons, List.flatMap_nil, List.append_nil, List.append_assoc] using indexed

/-- Behind the entries the new one is filled in, if no handler changes the table meanwhile. -/
theorem filledTable_eq {indexed : Table}
    (absent : ∀ moment ∈ [CreateMoment.pidStore, .running, .runningStore, .load],
      ∀ pid ∈ indexed.pids, pid ∉ reaps moment) :
    filledTable reaps forked indexed = indexed.put indexed.size.toNat fun info =>
      { info with pid := forked, isRunning := false } := by
  have unchanged {moment : CreateMoment}
      (moment_mem : moment ∈ [CreateMoment.pidStore, .running, .runningStore, .load])
      {filled : Table} (same : filled.pids = indexed.pids) :
      filled.handleExitChild (reaps moment) = filled := by
    apply Table.handleExitChild_of_pids
    rw [same]
    exact absent moment moment_mem
  have behind (assign : ProcessInfo → ProcessInfo) :
      (indexed.put indexed.size.toNat assign).pids = indexed.pids :=
    Table.pids_put_of_behind (Nat.le_refl _)
  unfold filledTable
  simp only [@unchanged .pidStore (by simp) indexed rfl, @unchanged .running (by simp) _ (behind _),
    @unchanged .runningStore (by simp) _ (behind _), Table.size_put, Table.put_put]
  exact @unchanged .load (by simp) _ (behind _)

/-- The new child is registered behind the others, unless the size wraps. -/
theorem pids_createChild
    (absent : ∀ moment ∈ [CreateMoment.pidStore, .running, .runningStore, .load, .store],
      ∀ pid ∈ (indexedTable reaps moved capacity table).pids, pid ∉ reaps moment) :
    (createChild reaps moved forked capacity table).table.pids = [] ∨
      (createChild reaps moved forked capacity table).table.pids =
        (indexedTable reaps moved capacity table).pids ++ [forked] := by
  unfold createChild
  generalize indexedTable reaps moved capacity table = indexed at absent ⊢
  have filled : filledTable reaps forked indexed = indexed.put indexed.size.toNat fun info =>
      { info with pid := forked, isRunning := false } := by
    apply filledTable_eq
    intro moment moment_mem
    have more : [CreateMoment.pidStore, .running, .runningStore, .load] ⊆
        [CreateMoment.pidStore, .running, .runningStore, .load, .store] := by simp
    exact absent moment (more moment_mem)
  have entries_eq : (filledTable reaps forked indexed).entries = indexed.entries := by
    rw [filled]
    exact Table.entries_put (Nat.le_refl _)
  have size_eq : (filledTable reaps forked indexed).size = indexed.size := by
    rw [filled, Table.size_put]
  have stored : (filledTable reaps forked indexed).handleExitChild (reaps .store) =
      filledTable reaps forked indexed := by
    apply Table.handleExitChild_of_pids
    rw [Table.pids, entries_eq]
    exact absent .store (by simp)
  have new_pid : ((filledTable reaps forked indexed).childProcesses indexed.size.toNat).pid =
      forked := by
    rw [filled]
    simp [Table.put]
  simp only [stored, size_eq]
  rcases Nat.lt_or_ge (indexed.size.toNat + 1) UInt64.size with room | full
  · right
    have old : slice (filledTable reaps forked indexed).childProcesses 0 indexed.size.toNat =
        indexed.entries := by
      rw [← entries_eq, Table.entries, size_eq]
    rw [Table.pids, Table.entries, Table.toNat_succ room, slice_concat, old, List.map_append,
      Nat.zero_add, List.map_singleton, new_pid, Table.pids]
  · left
    have wrapped : (indexed.size + 1).toNat = 0 := by
      have bound := indexed.size.toNat_lt_size
      have whole : indexed.size.toNat + (1 : UInt64).toNat = UInt64.size :=
        Nat.le_antisymm bound full
      rw [UInt64.toNat_add, whole]
      exact Nat.mod_self _
    rw [Table.pids, Table.entries, wrapped]
    exact Eq.refl _

/-- A creation clears what it leaves of the old pids. -/
theorem clears_createChild (nodup : table.pids.Nodup)
    (late : ∀ moment ∈ [CreateMoment.pidStore, .running, .runningStore, .load, .store],
      ∀ pid ∈ table.pids, pid ∉ reaps moment)
    (kept : capacity ≤ (table.handleExitChild (reaps .check)).size → moved = true →
      ∀ pid ∈ table.pids, pid ∉ reaps .assign) :
    Clears table.pids (indexedTable reaps moved capacity table).pids
      (createChild reaps moved forked capacity table).reaped := by
  have grown := clears_grownTable nodup kept
  have indexed := grown.trans (clears_indexedTable (grown.nodup nodup))
  have window : Clears (indexedTable reaps moved capacity table).pids
      (indexedTable reaps moved capacity table).pids
      ([CreateMoment.pidStore, .running, .runningStore, .load, .store].flatMap reaps) := by
    apply Clears.refl
    intro pid pid_mem gone
    rcases List.mem_flatMap.mp gone with ⟨moment, moment_mem, gone⟩
    exact late moment moment_mem pid (indexed.fewer.subset pid_mem) gone
  have whole := indexed.trans window
  rw [List.append_assoc, ← List.flatMap_append, ← List.flatMap_append] at whole
  exact whole

/-- Without handlers in between, the command does what its model in one step does. -/
theorem entries_createChild_blocked {state : State} (same : state.childProcesses = table.entries)
    (room : table.size.toNat + 1 < UInt64.size) :
    (createChild (fun _ => []) moved forked capacity table).table.entries =
      (state.createChild (some forked)).childProcesses := by
  have grown : grownTable (fun _ => []) moved capacity table = table := by
    unfold grownTable
    cases moved <;> exact ite_self _
  have indexed : indexedTable (fun _ => []) moved capacity table =
      table.put table.size.toNat fun info => { info with name := childName table.size.toNat } := by
    rw [indexedTable, grown]
    exact Eq.refl _
  have filled : filledTable (fun _ => []) forked (indexedTable (fun _ => []) moved capacity table) =
      table.put table.size.toNat fun _ => ⟨forked, childName table.size.toNat, false⟩ := by
    rw [indexed]
    simp [filledTable, Table.handleExitChild, Table.put]
  have old : slice (table.put table.size.toNat fun _ =>
      ⟨forked, childName table.size.toNat, false⟩).childProcesses 0 table.size.toNat =
        table.entries := Table.entries_put (Nat.le_refl _)
  have new : (table.put table.size.toNat fun _ =>
      ⟨forked, childName table.size.toNat, false⟩).childProcesses table.size.toNat =
        ⟨forked, childName table.size.toNat, false⟩ := Function.update_self _ _ _
  have registered : (state.createChild (some forked)).childProcesses = table.entries ++
      [⟨forked, childName table.size.toNat, false⟩] := by
    simp only [State.createChild, same, Table.length_entries]
  rw [registered, createChild]
  simp only [filled, Table.handleExitChild, List.foldl_nil]
  rw [Table.entries, Table.size_put, Table.toNat_succ room, slice_concat, old, Nat.zero_add, new]

end Creating

section Deleting

variable {reaps : Moment → List Pid} {table : Table} {reaped : List Pid}

/-- The decrement, with handlers between its read and its write that wait for one registered child
at most. -/
theorem clears_decrement (nodup : table.pids.Nodup) (positive : 0 < table.size.toNat)
    (one : table.entries.countP (fun info => info.pid ∈ reaped) ≤ 1) :
    Clears table.pids
      ({ table.handleExitChild reaped with size := table.size - 1 } : Table).pids reaped := by
  have size_eq := Table.toNat_pred positive
  rcases Nat.eq_zero_or_pos (table.entries.countP fun info => info.pid ∈ reaped) with
    none_gone | some_gone
  · have absent : ∀ info ∈ table.entries, info.pid ∉ reaped := by
      intro info info_mem
      simpa using List.countP_eq_zero.mp none_gone info info_mem
    have spared : ∀ pid ∈ table.pids, pid ∉ reaped := by
      intro pid pid_mem
      rcases List.mem_map.mp pid_mem with ⟨info, info_mem, rfl⟩
      exact absent info info_mem
    have split := Table.entries_eq_concat positive
    have fewer : (slice table.childProcesses 0 (table.size - 1).toNat).Sublist table.entries := by
      rw [split]
      exact List.sublist_append_left _ _
    rw [Table.handleExitChild_of_forall_not absent]
    exact ⟨fewer.map ProcessInfo.pid, fun pid pid_mem =>
      spared pid ((fewer.map ProcessInfo.pid).subset pid_mem)⟩
  · have stored := Clears.handle nodup reaped
    have left_length : (table.handleExitChild reaped).size.toNat = (table.size - 1).toNat := by
      have pids_eq := congrArg List.length (Table.pids_handleExitChild table reaped)
      rw [List.Nodup.sdiff_eq_filter nodup, Table.pids, Table.pids, List.length_map,
        Table.length_entries, List.filter_map, List.length_map] at pids_eq
      have total := length_filter_add_countP (fun info => !decide (info.pid ∈ reaped)) table.entries
      rw [Table.length_entries] at total
      simp only [Bool.not_not] at total
      have kept : (table.entries.filter fun info => !decide (info.pid ∈ reaped)).length =
          (table.entries.filter ((fun pid => decide (pid ∉ reaped)) ∘ ProcessInfo.pid)).length := by
        congr 2
        funext info
        simp
      omega
    have entries_eq : ({ table.handleExitChild reaped with size := table.size - 1 } : Table).pids =
        (table.handleExitChild reaped).pids := by
      rw [Table.pids, Table.pids, Table.entries, Table.entries, left_length]
    rw [entries_eq]
    exact stored

theorem pids_loadedTable (reaps : Moment → List Pid) (table : Table) :
    (loadedTable reaps table).pids = table.pids.diff (moments.dropLast.flatMap reaps) := by
  rw [Table.pids, entries_loadedTable, atLoad_eq_of_entries, map_pid_foldl_reap, Table.pids]

theorem clears_deleteLastChild (nodup : table.pids.Nodup)
    (spares : atCheck reaps table = [] ∨ atLoad reaps table ≠ [] ∧
      (atLoad reaps table).countP (fun info => info.pid ∈ reaps .store) ≤ 1) :
    Clears table.pids (deleteLastChild reaps table).table.pids
      (deleteLastChild reaps table).reaped := by
  by_cases empty : atCheck reaps table = []
  · rw [deleteLastChild, if_pos (atCheck_eq_nil_iff.mp empty)]
    exact Clears.handle nodup (reaps .check)
  · rcases spares.resolve_left empty with ⟨present, one⟩
    rcases deleteLastChild_of_found empty with ⟨pid, deleted, -⟩
    have loaded : Clears table.pids (loadedTable reaps table).pids
        (moments.dropLast.flatMap reaps) := by
      rw [pids_loadedTable]
      refine ⟨List.diff_sublist _ _, ?_⟩
      intro pid pid_mem
      exact ((List.Nodup.mem_sdiff_iff nodup).mp pid_mem).2
    rw [← entries_loadedTable] at present one
    have positive : 0 < (loadedTable reaps table).size.toNat := by
      rw [← Table.length_entries]
      exact List.length_pos_iff.mpr present
    have stored := loaded.trans (clears_decrement (loaded.nodup nodup) positive one)
    rw [deleted]
    simpa [moments] using stored

/-- With the signal blocked, deletions end with an empty table. -/
theorem pids_deleteAllChild (table : Table) : (deleteAllChild table).pids = [] := by
  have ends (count : ℕ) (table : Table) (size_eq : table.size.toNat = count) :
      ((fun table => (deleteLastChild (fun _ => []) table).table)^[count] table).size = 0 := by
    induction count generalizing table with
    | zero => exact UInt64.toNat_inj.mp size_eq
    | succ count ih =>
        have used : ¬table.size = 0 := by
          intro zero
          rw [zero] at size_eq
          exact absurd size_eq (Nat.succ_ne_zero count).symm
        have returned : (deleteLastChild (fun _ => []) table).table =
            { table with size := table.size - 1 } :=
          congrArg Deletion.table (if_neg used)
        rw [Function.iterate_succ_apply, returned]
        apply ih
        rw [Table.toNat_pred (by omega), size_eq, Nat.add_sub_cancel]
  have none_left := ends table.size.toNat table (Eq.refl _)
  rw [Table.pids, Table.entries, deleteAllChild, none_left]
  exact Eq.refl _

theorem clears_markChild {index : UInt64} {isRunning : Bool} {reaps : MarkMoment → List Pid}
    (nodup : table.pids.Nodup) :
    Clears table.pids (markChild index isRunning reaps table).1.pids
      (markChild index isRunning reaps table).2 := by
  have checked := Clears.handle nodup (reaps .check)
  by_cases outside : (table.handleExitChild (reaps .check)).size ≤ index
  · simp only [markChild, if_pos outside]
    exact checked
  · simp only [markChild, if_neg outside]
    have read := checked.trans (Clears.handle (checked.nodup nodup) (reaps .pid))
    have sent := read.trans (Clears.handle (read.nodup nodup) (reaps .sigqueue))
    have stored := sent.trans (Clears.handle (sent.nodup nodup) (reaps .store))
    have put : (((((table.handleExitChild (reaps .check)).handleExitChild
        (reaps .pid)).handleExitChild (reaps .sigqueue)).handleExitChild (reaps .store)).put
          index.toNat fun info => { info with isRunning := isRunning }).pids =
        ((((table.handleExitChild (reaps .check)).handleExitChild
          (reaps .pid)).handleExitChild (reaps .sigqueue)).handleExitChild (reaps .store)).pids :=
      Table.pids_put fun _ => Eq.refl _
    rw [← put] at stored
    simpa only [List.flatMap_cons, List.flatMap_nil, List.append_nil, List.append_assoc] using
      stored

end Deleting

section Turns

variable {state successor : Prompted} {turn : Turn}

theorem registered_waits {table : Table} {capacity : UInt64} {unreaped reaped : List Pid}
    {old : Table} (registered : Registered old.pids unreaped)
    (clears : Clears old.pids table.pids reaped)
    (taken : Prompted.waits ⟨old, capacity, unreaped⟩ table reaped = some successor) :
    Registered successor.table.pids successor.unreaped := by
  simp only [Prompted.waits, Option.ite_none_right_eq_some, Option.some.injEq] at taken
  rcases taken with ⟨-, rfl⟩
  exact clears.registered registered

theorem registered_take (registered : Registered state.table.pids state.unreaped)
    (spares : state.Spares turn) (taken : state.take turn = some successor) :
    Registered successor.table.pids successor.unreaped := by
  have nodup := registered.nodup
  cases turn with
  | create forked moved reaps =>
      rcases spares with ⟨new_spared, late_spared, assign_spared⟩
      simp only [Prompted.take] at taken
      split at taken
      · cases taken
      · rename_i new
        have spared {reaped : List Pid} (absent : ∀ info ∈ state.table.entries, info.pid ∉ reaped) :
            ∀ pid ∈ state.table.pids, pid ∉ reaped := by
          intro pid pid_mem
          rcases List.mem_map.mp pid_mem with ⟨info, info_mem, rfl⟩
          exact absent info info_mem
        have cleared : Clears state.table.pids
            (indexedTable reaps moved state.capacity state.table).pids
            (createChild reaps moved forked state.capacity state.table).reaped := by
          apply clears_createChild nodup
          · intro moment moment_mem
            exact spared (late_spared moment moment_mem)
          · intro full isMoved
            exact spared (assign_spared full isMoved)
        have wider : Registered state.table.pids (forked :: state.unreaped) :=
          ⟨nodup, List.subset_cons_of_subset forked registered.waiting⟩
        have left := cleared.registered wider
        simp only [Prompted.waits, Option.ite_none_right_eq_some, Option.some.injEq] at taken
        rcases taken with ⟨-, rfl⟩
        have window : ∀ moment ∈ [CreateMoment.pidStore, .running, .runningStore, .load, .store],
            ∀ pid ∈ (indexedTable reaps moved state.capacity state.table).pids,
              pid ∉ reaps moment := by
          intro moment moment_mem pid pid_mem
          exact spared (late_spared moment moment_mem) pid (cleared.fewer.subset pid_mem)
        rcases @pids_createChild reaps moved forked _ _ window with wrapped | registers
        · rw [wrapped]
          exact ⟨List.nodup_nil, List.nil_subset _⟩
        · rw [registers]
          apply left.concat
          · intro already
            exact new (registered.waiting (cleared.fewer.subset already))
          · apply List.mem_diff_of_mem List.mem_cons_self
            intro gone
            rcases List.mem_flatMap.mp gone with ⟨moment, moment_mem, gone⟩
            exact new_spared moment moment_mem gone
  | deleteLast reaps =>
      exact registered_waits registered (clears_deleteLastChild nodup spares) taken
  | deleteAll before behind =>
      apply registered_waits registered _ taken
      have none_left : ((deleteAllChild (state.table.handleExitChild before)).handleExitChild
          behind).pids = [] := by
        rw [Table.pids_handleExitChild, pids_deleteAllChild, List.nil_diff]
      rw [none_left]
      exact ⟨List.nil_sublist _, fun pid pid_mem => absurd pid_mem List.not_mem_nil⟩
  | mark index isRunning reaps =>
      exact registered_waits registered (clears_markChild nodup) taken
  | idle reaped =>
      exact registered_waits registered (Clears.handle nodup reaped) taken

/-- The table is empty when `main` comes to its prompt for the first time. -/
theorem registered_of_initial (started : prompting.initial state) :
    Registered state.table.pids state.unreaped := by
  have no_pids : state.table.pids = [] := by
    rw [Table.pids, Table.entries, started.1]
    exact Eq.refl _
  rw [no_pids]
  exact ⟨List.nodup_nil, List.nil_subset _⟩

/-- Whenever `main` is back at its prompt, every child in the table is still to be waited for. -/
theorem tableUnreaped_of_reachable
    (reached : prompting.ReachableUnder Prompted.Spares state) : state.TableUnreaped := by
  have registered : Registered state.table.pids state.unreaped := by
    apply System.ReachableUnder.invariant reached
    · intro state started
      exact registered_of_initial started
    · intro state turn successor registered spares taken
      exact registered_take registered spares taken
  intro info info_mem
  exact registered.waiting (List.mem_map_of_mem info_mem)

/-- An array of entries that have not been written. -/
def zeroed : Prompted := ⟨⟨fun _ => ⟨0, childName 0, false⟩, 0⟩, 8, []⟩

instance (state : Prompted) : ∀ turn, Decidable (state.Spares turn)
  | .create _ _ _ => inferInstanceAs (Decidable (_ ∧ _ ∧ (_ → _ → _)))
  | .deleteLast _ => inferInstanceAs (Decidable (_ ∨ _ ≠ _ ∧ _))
  | .deleteAll _ _ | .mark _ _ _ | .idle _ => inferInstanceAs (Decidable True)

/-- Children are reaped while `+` names a new one, between the read and the write of the size in
`-`, while `g` looks for its entry, and between the commands. -/
def reapingTurns : List Turn :=
  [.create 1 false fun _ => [], .create 2 false fun _ => [],
    .create 3 false fun moment => if moment = .name then [1] else [],
    .create 4 false fun _ => [],
    .deleteLast fun moment => if moment = .store then [2] else [],
    .idle [4],
    .create 5 false fun _ => [],
    .mark 1 true fun moment => if moment = .pid then [3] else []]

theorem tableUnreaped_reaping :
    ∃ state, (prompting.restrict fun state turn => decide (state.Spares turn)).run zeroed
        reapingTurns = some state ∧
      state.table.pids = [5] ∧ state.unreaped = [5] ∧ state.TableUnreaped := by
  have ran : ((prompting.restrict fun state turn => decide (state.Spares turn)).run zeroed
      reapingTurns).map (fun state => (state.table.pids, state.unreaped)) = some ([5], [5]) := by
    decide +kernel
  rcases Option.map_eq_some_iff.mp ran with ⟨state, ran, left⟩
  rcases Prod.mk.inj left with ⟨pids_eq, unreaped_eq⟩
  have started : (prompting.restrict fun state turn => decide (state.Spares turn)).Reachable
      zeroed := .start ⟨rfl, rfl, rfl⟩
  have reached := System.Reachable.of_restrict (System.Reachable.of_run started ran)
  refine ⟨state, ran, pids_eq, unreaped_eq, tableUnreaped_of_reachable ?_⟩
  exact reached.mono fun _ _ _ spares => of_decide_eq_true spares

/-- The first child exits at once, and a handler waits for it before it is registered. -/
theorem not_tableUnreaped_exitsAtOnce :
    ¬∀ state, prompting.Reachable state → state.TableUnreaped := by
  intro claimed
  have left : (prompting.next zeroed (.create 1 false fun moment =>
      if moment = .check then [1] else [])).map (fun state =>
        (state.table.pids, state.unreaped)) = some ([1], []) := by decide
  rcases Option.map_eq_some_iff.mp left with ⟨created, taken, left⟩
  rcases Prod.mk.inj left with ⟨pids_eq, none_left⟩
  have started : prompting.Reachable zeroed := .start ⟨rfl, rfl, rfl⟩
  have reached : prompting.Reachable created := started.step trivial taken
  have registered : 1 ∈ created.table.pids := by
    rw [pids_eq]
    exact List.mem_singleton_self 1
  rcases List.mem_map.mp registered with ⟨info, info_mem, pid_eq⟩
  have unreaped := claimed created reached info info_mem
  rw [none_left] at unreaped
  exact List.not_mem_nil unreaped

end Turns

end Osis.Lab03
