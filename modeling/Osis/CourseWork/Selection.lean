import Mathlib.Data.List.Perm.Subperm
import Osis.CourseWork.TakingOut

/-!
# The selected item of the browser

No key looks at the number of items after its command. Only a successful purge moves the
selection up; restoring, deleting in a directory and a purge that fails half way leave
it behind the last item if they take this one out of the list. Otherwise the selection stays
on an item.
-/

namespace Osis.CourseWork

open Posix Concurrency

/-- The selection is on an item, unless there is none. -/
def SelectionValid (proc : Location) (base : Bytes) (state : Browse) : Prop :=
  0 ≤ state.highlight ∧
    (itemsCount proc base state ≠ 0 → state.highlight < itemsCount proc base state)

/-- The answers are those of the files. -/
structure KeyAnswers.Fit (answers : KeyAnswers) (proc : Location) (base : Bytes)
    (state : Browse) : Prop where
  readdir : ∀ names ∈ opendir state.files proc state.cwd,
    answers.readdir.Perm (dot :: dotDot :: names)
  trash : Enumerates state.files proc base answers.trashNames
  rearranges : ∀ entries, (answers.qsort entries).Perm entries

/-- `cmd_restore` comes to its `rename`, and this succeeds. -/
def Restores (proc : Location) (base : Bytes) (answers : KeyAnswers) (state : Browse)
    (id : Bytes) : Prop :=
  ∃ original moved, Renames answers.restore state.files proc base id original moved

/-- The selected entry of the trash is the only one, or not the last. -/
def NotLast (proc : Location) (base : Bytes) (state : Browse) : Prop :=
  state.highlight = 0 ∨ state.highlight + 1 < trashCount proc base state.files

/-- Del is not pressed on the last item, r is pressed on the last of several only if nothing comes
of it, and d only if the file stays or its record goes with it. The commands of r and d reach no
other file than the selected one. -/
def CarefulIn (proc : Location) (base : Bytes) (state : Browse) (answers : KeyAnswers) :
    Key → BrowseMode → Prop
  | .delete, .fs =>
      ∀ name ∈ selectedName proc answers state,
        granted answers.unlink (state.files.unlink proc (itemPath state.cwd name)) = none ∨
          state.highlight + 1 < fsCount proc state.files state.cwd
  | .restore, .trash =>
      ∀ entries ∈ trashEntries proc base answers state, ∀ id ∈ selectedId state entries,
        Restores proc base answers state id →
          (Separate state.files proc base id ∧ GoesAside state.files proc base id) ∧
            NotLast proc base state
  | .purge, .trash =>
      ∀ entries ∈ trashEntries proc base answers state, ∀ id ∈ selectedId state entries,
        Separate state.files proc base id ∧
          (HalfPurges state.files proc (answers.removal id) base id → NotLast proc base state)
  | _, _ => True

/-- A key that does not leave the selection behind the last item. -/
def Careful (proc : Location) (base : Bytes) (state : Browse) (step : Key × KeyAnswers) : Prop :=
  CarefulIn proc base state step.2 step.1 state.mode

variable {proc : Location} {base : Bytes} {state successor : Browse} {answers : KeyAnswers}
  {fs fs' : FileSystem} {path : Bytes} {names : List Name} {name : Name}

section Counts

theorem fsCount_nonneg : 0 ≤ fsCount proc fs path := by
  unfold fsCount
  split <;> omega

theorem trashCount_nonneg : 0 ≤ trashCount proc base fs := by
  unfold trashCount
  split <;> omega

theorem itemsCount_nonneg : 0 ≤ itemsCount proc base state := by
  unfold itemsCount
  split
  · exact fsCount_nonneg
  · exact trashCount_nonneg

theorem item_eq_some {α : Type} {array : List α} {index : ℤ} {a : α}
    (found : item array index = some a) : 0 ≤ index ∧ index < array.length := by
  unfold item at found
  split at found
  · next nonneg =>
      have inside := (List.getElem?_eq_some_iff.mp found).1
      omega
  · cases found

/-- `unlink` takes at most one name out of a directory, unless the directory is no longer found. -/
theorem fsCount_unlink (removed : fs.unlink proc path = some fs') (cwd : Bytes) :
    fsCount proc fs' cwd = 0 ∨ fsCount proc fs cwd ≤ fsCount proc fs' cwd + 1 := by
  rcases FileSystem.unlink_eq_some.mp removed with ⟨name, above, -, -, leaf, -, fs'_eq⟩
  have without : ∀ entry,
      fs'.tree entry = if entry = name :: above then none else fs.tree entry := by
    intro entry
    rw [fs'_eq, FileSystem.tree_remove_leaf leaf]
  cases opened' : opendir fs' proc cwd with
  | none =>
      left
      simp only [fsCount, opened']
  | some names' =>
      right
      rcases opendir_eq_some.mp opened' with ⟨place', found', directory', rfl⟩
      cases opened : opendir fs proc cwd with
      | none =>
          simp only [fsCount, opened, opened']
          omega
      | some names =>
          rcases opendir_eq_some.mp opened with ⟨place, found, directory, rfl⟩
          have agree : fs.Agree fs' := by
            intro entry _ stays
            rw [without] at stays ⊢
            split
            · next here => exact absurd (if_pos here) stays
            · rfl
          have same_place : place = place' :=
            FileSystem.walk_agree agree (FileSystem.resolve_eq_some.mp found).2.2
              (FileSystem.resolve_eq_some.mp found').2.2
          subst same_place
          have kept : fs.names place ⊆ name :: fs'.names place := by
            intro other other_mem
            by_cases same : other = name
            · exact same ▸ List.mem_cons_self
            · apply List.mem_cons_of_mem
              rw [FileSystem.mem_names, without, if_neg]
              · exact FileSystem.mem_names.mp other_mem
              · intro here
                exact same (List.cons.inj here).1
          have shorter := (FileSystem.nodup_names.subperm kept).length_le
          rw [List.length_cons] at shorter
          simp only [fsCount, opened, opened']
          omega

/-- What a command on one entry takes out of the trash. -/
theorem trashCount_of_takesOnly {id : Name} {gone : Prop}
    (takes : TakesOnly proc base fs fs' id gone) :
    trashCount proc base fs' = 0 ∨
      trashCount proc base fs ≤ trashCount proc base fs' + 1 ∧
        (¬gone → trashCount proc base fs ≤ trashCount proc base fs') := by
  have nonneg' := @trashCount_nonneg proc base fs'
  cases opened' : opendir fs' proc (trashFiles base) with
  | none =>
      left
      simp only [trashCount, opened']
  | some names' =>
      right
      cases opened : opendir fs proc (trashFiles base) with
      | none =>
          have empty : trashCount proc base fs = 0 := by
            simp only [trashCount, opened]
          omega
      | some names =>
          have kept := takes names opened names' opened'
          have nodup : names.Nodup := by
            rcases opendir_eq_some.mp opened with ⟨place, -, -, rfl⟩
            exact FileSystem.nodup_names
          have one_gone : names ⊆ id :: names' := by
            intro name name_mem
            rcases kept name name_mem with stays | ⟨rfl, -⟩
            · exact List.mem_cons_of_mem id stays
            · exact List.mem_cons_self
          have shorter := (nodup.subperm one_gone).length_le
          rw [List.length_cons] at shorter
          simp only [trashCount, opened, opened']
          refine ⟨by omega, ?_⟩
          intro not_gone
          have none_gone : names ⊆ names' := by
            intro name name_mem
            exact (kept name name_mem).resolve_right fun out => not_gone out.2
          have no_shorter := (nodup.subperm none_gone).length_le
          omega

/-- The selected name of a directory is one of its items. -/
theorem lt_fsCount_of_selected (fit : answers.Fit proc base state)
    (selected : selectedName proc answers state = some name) :
    0 ≤ state.highlight ∧ state.highlight < fsCount proc state.files state.cwd := by
  unfold selectedName at selected
  split at selected
  · cases selected
  · next names opened =>
      have inside := item_eq_some selected
      have length_eq := (fit.readdir names opened).length_eq
      simp only [List.length_cons] at length_eq
      simp only [fsCount, opened]
      omega

theorem length_mapM {α β : Type} {f : α → Option β} {list : List α} {results : List β}
    (mapped : list.mapM f = some results) : results.length = list.length := by
  induction list generalizing results with
  | nil =>
      cases mapped
      rfl
  | cons a list ih =>
      rw [List.mapM_cons] at mapped
      rcases Option.bind_eq_some_iff.mp mapped with ⟨b, -, mapped⟩
      rcases Option.bind_eq_some_iff.mp mapped with ⟨rest, rest_eq, mapped⟩
      cases mapped
      rw [List.length_cons, List.length_cons, ih rest_eq]

theorem mem_of_mapM {α β : Type} {f : α → Option β} {list : List α} {results : List β} {b : β}
    (mapped : list.mapM f = some results) (b_mem : b ∈ results) : ∃ a ∈ list, f a = some b := by
  induction list generalizing results with
  | nil =>
      cases mapped
      cases b_mem
  | cons a list ih =>
      rw [List.mapM_cons] at mapped
      rcases Option.bind_eq_some_iff.mp mapped with ⟨first, first_eq, mapped⟩
      rcases Option.bind_eq_some_iff.mp mapped with ⟨rest, rest_eq, mapped⟩
      cases mapped
      rcases List.mem_cons.mp b_mem with rfl | in_rest
      · exact ⟨a, List.mem_cons_self, first_eq⟩
      · rcases ih rest_eq in_rest with ⟨other, other_mem, other_eq⟩
        exact ⟨other, List.mem_cons_of_mem a other_mem, other_eq⟩

/-- The id of an entry of the view is a name in the directory of the files. -/
theorem mem_names_of_selected {entries : List BrowserEntry} {id : Bytes}
    (fit : answers.Fit proc base state)
    (built : trashEntries proc base answers state = some entries)
    (selected : selectedId state entries = some id) :
    ∃ files, state.files.resolve proc (trashFiles base) = some files ∧
      id ∈ state.files.names files := by
  rcases Option.map_eq_some_iff.mp selected with ⟨entry, found, rfl⟩
  have entry_mem : entry ∈ entries := by
    unfold item at found
    split at found
    · exact List.mem_of_getElem? found
    · cases found
  unfold trashEntries buildTrashEntries at built
  split at built
  · next directory =>
      rcases Option.bind_eq_some_iff.mp directory with ⟨files, files_at, -⟩
      rcases Option.map_eq_some_iff.mp built with ⟨unsorted, mapped, rfl⟩
      rw [(fit.rearranges unsorted).mem_iff] at entry_mem
      rcases mem_of_mapM mapped entry_mem with ⟨name, listed, shown⟩
      rcases Option.map_eq_some_iff.mp shown with ⟨disp, -, rfl⟩
      rw [(names_of_enumerates fit.trash files_at).mem_iff] at listed
      have valid := state.files.named (FileSystem.mem_names.mp listed)
      refine ⟨files, files_at, ?_⟩
      rwa [List.take_of_length_le valid.short]
  · cases built
    cases entry_mem

/-- The array of a key has as many entries as the view has items. -/
theorem length_trashEntries {entries : List BrowserEntry} (fit : answers.Fit proc base state)
    (built : trashEntries proc base answers state = some entries) :
    (entries.length : ℤ) = trashCount proc base state.files := by
  unfold trashEntries buildTrashEntries at built
  unfold trashCount
  split at built
  · next directory =>
      rcases Option.bind_eq_some_iff.mp directory with ⟨files, found, files_directory⟩
      have opened := opendir_eq_some.mpr ⟨files, found, files_directory, rfl⟩
      rcases Option.map_eq_some_iff.mp built with ⟨unsorted, mapped, rfl⟩
      rw [opened, (fit.rearranges unsorted).length_eq, length_mapM mapped,
        (names_of_enumerates fit.trash found).length_eq]
  · next no_directory =>
      cases built
      cases opened : opendir state.files proc (trashFiles base) with
      | none => rfl
      | some names =>
          rcases opendir_eq_some.mp opened with ⟨files, found, directory, -⟩
          exact absurd (Option.bind_eq_some_iff.mpr ⟨files, found, directory⟩) no_directory

theorem lt_trashCount_of_selected {entries : List BrowserEntry} {id : Bytes}
    (fit : answers.Fit proc base state)
    (built : trashEntries proc base answers state = some entries)
    (selected : selectedId state entries = some id) :
    0 ≤ state.highlight ∧ state.highlight < trashCount proc base state.files := by
  rcases Option.map_eq_some_iff.mp selected with ⟨entry, found, -⟩
  rw [← length_trashEntries fit built]
  exact item_eq_some found

end Counts

section Keys

theorem selectionValid_drawList :
    SelectionValid proc base (drawList proc base state) ↔ SelectionValid proc base state := by
  unfold SelectionValid
  rw [drawList_highlight, itemsCount_drawList]

/-- The first item is selected. -/
theorem selectionValid_of_first (first : state.highlight = 0) :
    SelectionValid proc base state := by
  have := @itemsCount_nonneg proc base state
  refine ⟨Int.le_of_eq first.symm, ?_⟩
  intro some_item
  omega

/-- The selection stays where it was, and of the items that are taken out it is not the last of
several. -/
theorem selectionValid_of_spared {highlight count left : ℤ} (nonneg : 0 ≤ highlight)
    (inside : highlight < count)
    (spared : left = 0 ∨ count ≤ left ∨ count ≤ left + 1 ∧ (highlight = 0 ∨ highlight + 1 < count))
    (counted : itemsCount proc base successor = left) (kept : successor.highlight = highlight) :
    SelectionValid proc base successor := by
  have left_nonneg := @itemsCount_nonneg proc base successor
  refine ⟨by omega, ?_⟩
  intro some_item
  rcases spared with empty | none_gone | ⟨one_gone, first | not_last⟩ <;> omega

theorem selectionValid_delete (valid : SelectionValid proc base state)
    (fit : answers.Fit proc base state) (careful : Careful proc base state (.delete, answers)) :
    SelectionValid proc base (pressDelete proc answers state) := by
  unfold pressDelete
  split
  · next name inFs selected =>
      simp only [Careful, CarefulIn, inFs] at careful
      have inside := lt_fsCount_of_selected fit selected
      have counted : itemsCount proc base
          { state with files := unlinked proc answers state name } =
            fsCount proc (unlinked proc answers state name) state.cwd := by
        simp only [itemsCount, inFs]
      apply selectionValid_of_spared inside.1 inside.2 _ counted rfl
      unfold unlinked
      cases result : granted answers.unlink
          (state.files.unlink proc (itemPath state.cwd name)) with
      | none => exact Or.inr (Or.inl (Int.le_refl _))
      | some left =>
          have removed := (granted_eq_some.mp result).2
          rcases careful name selected with failed | not_last
          · rw [result] at failed
            cases failed
          · rcases fsCount_unlink removed state.cwd with empty | one_gone
            · exact Or.inl empty
            · exact Or.inr (Or.inr ⟨one_gone, Or.inr not_last⟩)
  · exact valid

theorem selectionValid_restore (valid : SelectionValid proc base state)
    (fit : answers.Fit proc base state) (careful : Careful proc base state (.restore, answers))
    (pressed : pressRestore proc base answers state = some successor) :
    SelectionValid proc base successor := by
  unfold pressRestore at pressed
  split at pressed
  · cases pressed
    exact valid
  · next inTrash =>
      rcases Option.map_eq_some_iff.mp pressed with ⟨entries, built, rfl⟩
      rw [selectionValid_drawList]
      split
      · exact valid
      · next id selected =>
          simp only [Careful, CarefulIn, inTrash] at careful
          have careful := careful entries built id selected
          rcases mem_names_of_selected fit built selected with ⟨files, found, id_mem⟩
          have takes : TakesOnly proc base state.files (restored proc base answers state id) id
              (Restores proc base answers state id) :=
            takesOnly_cmdRestore (fun restores => (careful restores).1) found id_mem
          have inside := lt_trashCount_of_selected fit built selected
          have counted : itemsCount proc base
              { state with files := restored proc base answers state id } =
                trashCount proc base (restored proc base answers state id) := by
            simp only [itemsCount, inTrash]
          apply selectionValid_of_spared inside.1 inside.2 _ counted rfl
          rcases trashCount_of_takesOnly takes with empty | ⟨one_gone, none_gone⟩
          · exact Or.inl empty
          · by_cases restores : Restores proc base answers state id
            · exact Or.inr (Or.inr ⟨one_gone, (careful restores).2⟩)
            · exact Or.inr (Or.inl (none_gone restores))

theorem selectionValid_purge (valid : SelectionValid proc base state)
    (fit : answers.Fit proc base state) (careful : Careful proc base state (.purge, answers))
    (pressed : pressPurge proc base answers state = some successor) :
    SelectionValid proc base successor := by
  unfold pressPurge at pressed
  split at pressed
  · cases pressed
    exact valid
  · next inTrash =>
      rcases Option.map_eq_some_iff.mp pressed with ⟨entries, built, rfl⟩
      rw [selectionValid_drawList]
      split
      · exact valid
      · next id selected =>
          simp only [Careful, CarefulIn, inTrash] at careful
          rcases careful entries built id selected with ⟨separate, not_last⟩
          rcases mem_names_of_selected fit built selected with ⟨files, found, id_mem⟩
          have inside := lt_trashCount_of_selected fit built selected
          have halfPurged : ∀ failed : (purged proc base answers state id).1 ≠ 0, _ :=
            halfPurges_of_failed separate found id_mem
          have counts : _ ∨ trashCount proc base state.files ≤
              trashCount proc base (purged proc base answers state id).2 + 1 ∧ _ :=
            trashCount_of_takesOnly (takesOnly_cmdPurge separate found id_mem)
          generalize purged proc base answers state id = result at counts halfPurged ⊢
          rcases result with ⟨status, left⟩
          simp only at counts halfPurged ⊢
          split
          · -- the selection goes up by one, but not above the first item
            constructor
            · simp only
              split <;> omega
            · have left_nonneg := @trashCount_nonneg proc base left
              simp only [itemsCount, inTrash]
              intro some_item
              split <;> rcases counts with empty | ⟨one_gone, -⟩ <;> omega
          · next failed =>
              have counted : itemsCount proc base { state with files := left } =
                  trashCount proc base left := by
                simp only [itemsCount, inTrash]
              apply selectionValid_of_spared inside.1 inside.2 _ counted rfl
              rcases counts with empty | ⟨one_gone, none_gone⟩
              · exact Or.inl empty
              · by_cases removes :
                    (purgeFile state.files proc (answers.removal id) base id).1 = true
                · exact Or.inr (Or.inr ⟨one_gone, not_last (halfPurged failed removes)⟩)
                · exact Or.inr (Or.inl (none_gone removes))

/-- One careful key. -/
theorem selectionValid_press {key : Key} (valid : SelectionValid proc base state)
    (fit : answers.Fit proc base state) (careful : Careful proc base state (key, answers))
    (pressed : press proc base answers state key = some successor) :
    SelectionValid proc base successor := by
  rcases Option.map_eq_some_iff.mp pressed with ⟨handled, handles, rfl⟩
  rw [selectionValid_drawList]
  rcases valid with ⟨nonneg, inside⟩
  cases key with
  | toggle =>
      cases handles
      exact selectionValid_of_first rfl
  | up =>
      cases handles
      split
      · refine ⟨by simp only; omega, ?_⟩
        intro some_item
        have := inside some_item
        simp only [itemsCount] at this ⊢
        omega
      · exact ⟨nonneg, inside⟩
  | down =>
      cases handles
      split
      · next room =>
          refine ⟨by simp only; omega, ?_⟩
          intro some_item
          simp only [itemsCount] at room ⊢
          omega
      · exact ⟨nonneg, inside⟩
  | enter =>
      cases handles
      unfold pressEnter
      split
      · split
        · exact selectionValid_of_first rfl
        · exact ⟨nonneg, inside⟩
      · exact ⟨nonneg, inside⟩
  | backspace =>
      cases handles
      unfold pressBackspace
      split
      · exact selectionValid_of_first rfl
      · exact ⟨nonneg, inside⟩
  | delete =>
      cases handles
      exact selectionValid_delete ⟨nonneg, inside⟩ fit careful
  | restore => exact selectionValid_restore ⟨nonneg, inside⟩ fit careful handles
  | purge => exact selectionValid_purge ⟨nonneg, inside⟩ fit careful handles
  | purgeAll =>
      simp only [handle, pressPurgeAll] at handles
      split at handles
      · cases handles
        exact ⟨nonneg, inside⟩
      · rcases Option.map_eq_some_iff.mp handles with ⟨result, -, rfl⟩
        exact selectionValid_of_first rfl
  | resize rows =>
      cases handles
      exact ⟨nonneg, inside⟩
  | other =>
      cases handles
      exact ⟨nonneg, inside⟩

end Keys

/-- As long as all keys are careful the selection stays on an item. -/
theorem selectionValid_of_reachable {startDir : Bytes}
    (reached : (browsing proc base startDir).ReachableUnder
      (fun state step => step.2.Fit proc base state ∧ Careful proc base state step) state) :
    SelectionValid proc base state := by
  apply reached.invariant
  · intro state initial
    exact selectionValid_of_first initial.2.1
  · intro state step successor valid allowed pressed
    exact selectionValid_press valid allowed.1 allowed.2 pressed

section Examples

theorem oneFile_free : FileSystem.bare.tree [ascii "a"] = none := FileSystem.bare_free _ _

/-- A root directory with one file `a`. -/
def oneFile : FileSystem :=
  FileSystem.bare.create (ascii "a") [] oneFile_free FileSystem.bare.root validName_a

/-- The browser in this directory. -/
def oneFileAt (highlight : ℤ) : Browse := ⟨oneFile, .fs, highlight, 0, 24, ascii "/"⟩

def oneFileAnswers : KeyAnswers :=
  ⟨[dot, dotDot, ascii "a"], [], [], fun _ => 0, id, false, noRefusals,
    fun _ => ⟨fun _ => false, false, false, []⟩⟩

theorem initial_oneFile : (browsing [] (ascii ".") (ascii "/")).initial (oneFileAt 0) :=
  ⟨rfl, rfl, rfl, by decide⟩

theorem fit_oneFile (highlight : ℤ) :
    oneFileAnswers.Fit [] (ascii ".") (oneFileAt highlight) := by
  have opened : opendir oneFile [] (ascii "/") = some [ascii "a"] := by decide +kernel
  have no_trash : oneFile.resolve [] (trashFiles (ascii ".")) = none := by decide +kernel
  refine ⟨?_, ?_, fun entries => List.Perm.refl entries⟩
  · intro names names_mem
    rw [Option.mem_unique names_mem opened]
    exact List.Perm.refl _
  · intro files files_mem
    have found : oneFile.resolve [] (trashFiles (ascii ".")) = some files := files_mem
    rw [no_trash] at found
    cases found

/-- Down is pressed above the last item. -/
theorem press_down_oneFile {highlight : ℤ} (above : highlight < 2) :
    (browsing [] (ascii ".") (ascii "/")).next (oneFileAt highlight) (.down, oneFileAnswers) =
      some (oneFileAt (highlight + 1)) := by
  have count : fsCount [] oneFile (ascii "/") = 3 := by decide +kernel
  have room : highlight < fsCount [] oneFile (ascii "/") - 1 := by omega
  simp only [browsing, press, handle, oneFileAt, itemsCount, room, if_true, Option.map_some]
  rfl

instance (proc : Location) (base : Bytes) (answers : KeyAnswers) (state : Browse) (id : Bytes) :
    Decidable (Restores proc base answers state id) :=
  decidable_of_iff ((cmdRestoreWith answers.restore state.files proc base id).1 = 0) (by
    rcases cmdRestoreWith_cases answers.restore state.files proc base id with
      ⟨nothing, never⟩ | ⟨original, moved, renames, result⟩
    · rw [nothing]
      exact iff_of_false (by simp) fun ⟨original, moved, renames⟩ => never original moved renames
    · rw [result]
      exact iff_of_true rfl ⟨original, moved, renames⟩)

instance (proc : Location) (base : Bytes) (state : Browse) : Decidable (NotLast proc base state) :=
  inferInstanceAs (Decidable (_ ∨ _))

instance (proc : Location) (base : Bytes) (state : Browse) (answers : KeyAnswers) :
    ∀ key mode, Decidable (CarefulIn proc base state answers key mode)
  | .delete, .fs => inferInstanceAs (Decidable (∀ name ∈ selectedName proc answers state,
      granted answers.unlink (state.files.unlink proc (itemPath state.cwd name)) = none ∨ _ < _))
  | .restore, .trash => inferInstanceAs (Decidable (
      ∀ entries ∈ trashEntries proc base answers state, ∀ id ∈ selectedId state entries,
        Restores proc base answers state id → (_ ∧ _) ∧ _))
  | .purge, .trash => inferInstanceAs (Decidable (∀ entries ∈ trashEntries proc base answers state,
      ∀ id ∈ selectedId state entries, Separate state.files proc base id ∧ (_ → _)))
  | .delete, .trash | .restore, .fs | .purge, .fs | .toggle, _ | .up, _ | .down, _ | .enter, _
  | .backspace, _ | .purgeAll, _ | .resize _, _ | .other, _ => inferInstanceAs (Decidable True)

/-- The key is careful, and its answers from `readdir` are those of the files. -/
def allowedKey (proc : Location) (base : Bytes) (state : Browse) (step : Key × KeyAnswers) : Bool :=
  decide (∀ names ∈ opendir state.files proc state.cwd,
    step.2.readdir.Perm (dot :: dotDot :: names)) &&
  decide (∀ files ∈ state.files.resolve proc (trashFiles base),
    step.2.trashNames.Perm (dot :: dotDot :: state.files.names files)) &&
  decide (CarefulIn proc base state step.2 step.1 state.mode)

/-- A key with the names in the directory and in the trash, in some order and not sorted. -/
def pressing (key : Key) (readdir trashNames : List Name) : Key × KeyAnswers :=
  (key, { oneFileAnswers with
    readdir := dot :: dotDot :: readdir, trashNames := dot :: dotDot :: trashNames })

/-- In the trash with two files the first is restored and the other purged, and then the restored
one is deleted. -/
def carefulKeys : List (Key × KeyAnswers) :=
  let trash := ascii ".trash"
  [pressing .toggle [trash, ascii "l"] [firstId, ascii "2_00000"],
    pressing .restore [trash, ascii "l"] [firstId, ascii "2_00000"],
    pressing .purge [trash, ascii "l", ascii "a"] [ascii "2_00000"],
    pressing .toggle [trash, ascii "l", ascii "a"] [],
    pressing .down [ascii "a", ascii "l", trash] [],
    pressing .down [ascii "a", ascii "l", trash] [],
    pressing .delete [ascii "a", ascii "l", trash] []]

/-- The browser in the root directory, with two files in the trash. -/
def twoInTrash : Browse := ⟨twiceDeleted, .fs, 0, 0, 24, ascii "/"⟩

/-- A file is restored, one is purged and one deleted. -/
theorem selectionValid_careful :
    ∃ state, (browsing [] (ascii ".") (ascii "/")).run twoInTrash carefulKeys = some state ∧
      state.highlight = 2 ∧ itemsCount [] (ascii ".") state = 4 ∧
      SelectionValid [] (ascii ".") state := by
  have ran : (((browsing [] (ascii ".") (ascii "/")).restrict (allowedKey [] (ascii "."))).run
      twoInTrash carefulKeys).map (fun state =>
        (state.highlight, itemsCount [] (ascii ".") state)) = some (2, 4) := by
    decide +kernel
  rcases Option.map_eq_some_iff.mp ran with ⟨state, ran, seen⟩
  rcases Prod.mk.inj seen with ⟨highlight, count⟩
  have initial : (browsing [] (ascii ".") (ascii "/")).initial twoInTrash :=
    ⟨rfl, rfl, rfl, by decide⟩
  refine ⟨state, System.run_of_restrict ran, highlight, count, ?_⟩
  apply selectionValid_of_reachable
  apply System.ReachableUnder.of_checked (.start initial) _ ran
  intro step step_mem state allowed
  simp only [allowedKey, Bool.and_eq_true, decide_eq_true_eq] at allowed
  have unsorted : step.2.qsort = id := by
    simp only [carefulKeys, List.mem_cons, List.not_mem_nil, or_false] at step_mem
    rcases step_mem with rfl | rfl | rfl | rfl | rfl | rfl | rfl <;> rfl
  refine ⟨⟨allowed.1.1, allowed.1.2, fun entries => ?_⟩, allowed.2⟩
  rw [unsorted]
  exact List.Perm.refl entries

/-- Deleting the last item leaves the selection behind the others. -/
theorem not_selectionValid_delete :
    ¬ ∀ (proc : Location) (base startDir : Bytes) (state : Browse),
      (browsing proc base startDir).ReachableUnder
        (fun state step => step.2.Fit proc base state) state →
      SelectionValid proc base state := by
  intro claimed
  have last : (browsing [] (ascii ".") (ascii "/")).ReachableUnder
      (fun state step => step.2.Fit [] (ascii ".") state) (oneFileAt 2) :=
    .step (.step (.start initial_oneFile) (fit_oneFile 0) (press_down_oneFile (by decide)))
      (fit_oneFile 1) (press_down_oneFile (by decide))
  have pressed : (browsing [] (ascii ".") (ascii "/")).next (oneFileAt 2)
      (.delete, oneFileAnswers) =
        some (drawList [] (ascii ".") (pressDelete [] oneFileAnswers (oneFileAt 2))) := rfl
  have valid := claimed [] (ascii ".") (ascii "/") _ (.step last (fit_oneFile 2) pressed)
  rw [selectionValid_drawList] at valid
  have highlight : (pressDelete [] oneFileAnswers (oneFileAt 2)).highlight = 2 := by
    decide +kernel
  have count : itemsCount [] (ascii ".") (pressDelete [] oneFileAnswers (oneFileAt 2)) = 2 := by
    decide +kernel
  have inside := valid.2 (by rw [count]; decide)
  rw [highlight, count] at inside
  exact absurd inside (by decide)

end Examples

end Osis.CourseWork
