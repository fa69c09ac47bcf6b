import Osis.CourseWork.Purging

/-!
# What a purge reaches

The id is put into the two paths as it is. If it is one name then they lead to its own
entries, and only these are removed. An empty id leads to the directory of all files, a
slash in it to any other place, and a path that is cut to another name.
-/

namespace Osis.CourseWork

open Posix Posix.FileSystem

/-- The entries of an id: its file with all that is in it, and its record. -/
def OwnEntry (fs : FileSystem) (cwd : Location) (base id : Bytes) (entry : Location) : Prop :=
  (∃ files, fs.resolve cwd (base ++ ascii "/.trash/files") = some files ∧ id :: files <:+ entry) ∨
    ∃ info, fs.resolve cwd (base ++ ascii "/.trash/info") = some info ∧
      entry = (id ++ ascii ".info") :: info

/-- Whatever calls are refused, a purge changes only the entries of its id. -/
def PurgesOnly (fs : FileSystem) (cwd : Location) (base id : Bytes) : Prop :=
  ∀ removal, (cmdPurge fs cwd removal base id).2.data = fs.data ∧
    ∀ entry, (cmdPurge fs cwd removal base id).2.tree entry ≠ fs.tree entry →
      OwnEntry fs cwd base id entry

/-- The entries that the two paths of an id lead to. -/
inductive Reached (fs : FileSystem) (cwd : Location) (base id : Bytes) : Location → Prop
  | file {name : Name} {place : Location} (stated : fs.stat cwd (filePath base id) ≠ none)
      (named : fs.entryOf cwd (stripSlashes (filePath base id)) = some (name, place))
      (exists_entry : fs.tree (name :: place) ≠ none) : Reached fs cwd base id (name :: place)
  | inside {top entry : Location} (stated : fs.stat cwd (filePath base id) ≠ none)
      (directory : fs.lstat cwd (stripSlashes (filePath base id)) = some .directory)
      (resolved : fs.resolve cwd (stripSlashes (filePath base id)) = some top)
      (below : top <:+ entry) (different : entry ≠ top) (exists_entry : fs.tree entry ≠ none) :
      Reached fs cwd base id entry
  | record {name : Name} {place : Location}
      (named : fs.entryOf cwd (infoPath base id) = some (name, place))
      (exists_entry : fs.tree (name :: place) ≠ none)
      (leaf : fs.tree (name :: place) ≠ some .directory)
      (unslashed : endsInSlash (infoPath base id) = false) : Reached fs cwd base id (name :: place)

variable {fs : FileSystem} {cwd : Location} {removal : Removal} {base id path : Bytes}

/-- A path that is found and without its slashes names a directory leads to it. -/
theorem stat_of_lstat_stripSlashes (stated : fs.stat cwd path ≠ none)
    (directory : fs.lstat cwd (stripSlashes path) = some .directory) :
    fs.stat cwd path = some .directory := by
  rcases Option.ne_none_iff_exists'.mp stated with ⟨node, stated⟩
  cases slashed : endsInSlash path with
  | true =>
      rcases Option.bind_eq_some_iff.mp stated with ⟨found, resolved, found_node⟩
      rw [stat, resolved, Option.bind_some, directory_of_endsInSlash resolved slashed]
  | false =>
      rw [stripSlashes_of_not_endsInSlash slashed, lstat] at directory
      split at directory
      · exact directory
      · next name place named =>
          rw [slashed, if_neg Bool.false_ne_true] at directory
          rw [stat, resolve_of_entryOf named (.inl directory) slashed, Option.bind_some, directory]

section Changed

/-- Whatever the first half of a purge changes is reached. -/
theorem reached_of_purgeFile {entry : Location}
    (changed : (purgeFile fs cwd removal base id).2.tree entry ≠ fs.tree entry) :
    Reached fs cwd base id entry := by
  have stated : fs.stat cwd (filePath base id) ≠ none := by
    intro absent
    simp [purgeFile, absent] at changed
  rcases purgeFile_spec fs cwd removal base id with
    ⟨-, -, name, place, named, exists_file, without⟩ | ⟨-, done, inside, without⟩
  · rcases without.of_ne changed with ⟨below, absent⟩
    have exists_entry : fs.tree entry ≠ none := by
      intro missing
      exact changed (absent.trans missing.symm)
    by_cases itself : entry = name :: place
    · rw [itself]
      exact .file stated named exists_file
    · have directory := tree_above exists_entry below (Ne.symm itself)
      apply Reached.inside stated _ (resolve_of_entryOf named (.inl directory)
        (entryOf_unslashed named)) below itself exists_entry
      rw [lstat_of_named named, directory]
  · rcases without.of_ne changed with ⟨listed, -⟩
    rcases inside entry listed with ⟨top, directory, resolved, below⟩
    rcases mem_below.mp below with ⟨-, below, different, exists_entry⟩
    exact .inside stated directory resolved below different exists_entry

/-- The first half of a purge only takes entries out. -/
theorem purgeFile_without (fs : FileSystem) (cwd : Location) (removal : Removal)
    (base id : Bytes) : ∃ gone, fs.Without (purgeFile fs cwd removal base id).2 gone := by
  rcases purgeFile_spec fs cwd removal base id with
    ⟨-, -, name, place, -, -, without⟩ | ⟨-, done, -, without⟩
  · exact ⟨_, without⟩
  · exact ⟨_, without⟩

/-- The two halves of a purge. -/
theorem cmdPurge_snd : (cmdPurge fs cwd removal base id).2 =
    (attempt (purgeFile fs cwd removal base id).2 (granted removal.record
      ((purgeFile fs cwd removal base id).2.unlink cwd (infoPath base id)))).2 := rfl

/-- Whatever a purge changes is reached. -/
theorem reached_of_cmdPurge {entry : Location}
    (changed : (cmdPurge fs cwd removal base id).2.tree entry ≠ fs.tree entry) :
    Reached fs cwd base id entry := by
  by_cases changed_file : (purgeFile fs cwd removal base id).2.tree entry = fs.tree entry
  · rcases purgeFile_without fs cwd removal base id with ⟨gone, without⟩
    rw [cmdPurge_snd, ← changed_file] at changed
    generalize (purgeFile fs cwd removal base id).2 = left at *
    rcases attempt_unlink left cwd removal.record (infoPath base id) with
      ⟨-, -, unslashed, name, place, named, exists_record, leaf, without'⟩ | ⟨-, same⟩
    · rcases without'.of_ne changed with ⟨below, absent⟩
      have exists_entry : left.tree entry ≠ none := by
        intro missing
        exact changed (absent.trans missing.symm)
      have itself := eq_of_suffix leaf exists_entry below
      have kept := without.extended _ exists_record
      rw [← itself]
      rw [← kept] at exists_record leaf
      exact .record (entryOf_kept without.extended.keeps named) exists_record leaf unslashed
    · rw [same] at changed
      exact absurd rfl changed
  · exact reached_of_purgeFile changed_file

theorem data_cmdPurge : (cmdPurge fs cwd removal base id).2.data = fs.data := by
  rcases purgeFile_without fs cwd removal base id with ⟨gone, without⟩
  rw [cmdPurge_snd, ← without.data]
  generalize (purgeFile fs cwd removal base id).2 = left
  rcases attempt_unlink left cwd removal.record (infoPath base id) with
    ⟨-, -, -, name, place, -, -, -, without'⟩ | ⟨-, same⟩
  · exact without'.data
  · rw [same]

end Changed

section Reaching

/-- Every call on the file is granted, and none on the record. -/
def fileOnly (fs : FileSystem) : Removal := ⟨fun _ => false, false, true, fs.byDepth⟩

/-- Every call on the record is granted, and none on the file. -/
def recordOnly : Removal := ⟨fun _ => true, true, false, []⟩

/-- A refused record is left, and so is what the first half of the purge has left. -/
theorem cmdPurge_of_refused (refused : removal.record = true) :
    (cmdPurge fs cwd removal base id).2 = (purgeFile fs cwd removal base id).2 := by
  rw [cmdPurge_snd, refused]
  rfl

/-- The entry that the path of a file leads to can be removed. -/
theorem removes_file {name : Name} {place : Location}
    (stated : fs.stat cwd (filePath base id) ≠ none)
    (named : fs.entryOf cwd (stripSlashes (filePath base id)) = some (name, place))
    (exists_entry : fs.tree (name :: place) ≠ none) :
    (cmdPurge fs cwd (fileOnly fs) base id).2.tree (name :: place) = none := by
  have postorder := postorder_byDepth (fileOnly fs) (Eq.refl fs.byDepth) (name :: place)
  have removed := (purgeFile_iff named exists_entry postorder).mpr
    ⟨stated, rfl, fun _ _ => rfl⟩
  rw [cmdPurge_of_refused rfl]
  rcases purgeFile_spec fs cwd (fileOnly fs) base id with
    ⟨-, -, name', place', named', -, without⟩ | ⟨failed, -⟩
  · rw [named, Option.some.injEq, Prod.mk.injEq] at named'
    rcases named' with ⟨rfl, rfl⟩
    exact without.absent _ (List.suffix_refl _)
  · rw [failed] at removed
    cases removed

/-- What is inside the directory that the path of a file leads to can be removed. -/
theorem removes_inside {top entry : Location} (stated : fs.stat cwd (filePath base id) ≠ none)
    (directory : fs.lstat cwd (stripSlashes (filePath base id)) = some .directory)
    (resolved : fs.resolve cwd (stripSlashes (filePath base id)) = some top)
    (below : top <:+ entry) (different : entry ≠ top) (exists_entry : fs.tree entry ≠ none) :
    (cmdPurge fs cwd (fileOnly fs) base id).2.tree entry = none := by
  have postorder := postorder_byDepth (fileOnly fs) (Eq.refl fs.byDepth) top
  have listed := (postorder.mem entry).mpr ⟨below, different, exists_entry⟩
  have whole : (fs.removeEach (fileOnly fs).entries ((fileOnly fs).below fs top)).1 = true :=
    postorder.removeEach_of_granted fun _ _ => rfl
  rcases removeEach_spec (fileOnly fs).entries ((fileOnly fs).below fs top) fs with
    ⟨done, -, without, complete⟩
  rcases complete whole with ⟨rfl, -⟩
  rw [cmdPurge_of_refused rfl, purgeFile, stat_of_lstat_stripSlashes stated directory]
  simp only [removeTree, directory, resolved]
  generalize fs.removeEach (fileOnly fs).entries ((fileOnly fs).below fs top) = result at *
  rcases result with ⟨emptied, left⟩
  have absent : left.tree entry = none := without.absent entry listed
  split
  · next name place emptied_eq named =>
      cases removed : left.removeAt (name :: place) with
      | none => exact absent
      | some gone =>
          change gone.tree entry = none
          by_contra still
          rw [(removeAt_eq_some removed).2.2.extended entry still] at absent
          exact still absent
  · exact absent

/-- The entry that the path of a record leads to can be removed. -/
theorem removes_record {name : Name} {place : Location}
    (named : fs.entryOf cwd (infoPath base id) = some (name, place))
    (exists_entry : fs.tree (name :: place) ≠ none)
    (leaf : fs.tree (name :: place) ≠ some .directory)
    (unslashed : endsInSlash (infoPath base id) = false) :
    (cmdPurge fs cwd recordOnly base id).2.tree (name :: place) = none := by
  have stays : (purgeFile fs cwd recordOnly base id).2 = fs := by
    unfold purgeFile removeTree
    split
    · rfl
    · split
      · rfl
      · split
        · rfl
        · simp only [Removal.below, recordOnly, List.filter_nil, removeEach]
          split <;> rfl
      · rfl
    · rfl
  have removed := unlink_eq_some.mpr ⟨name, place, named, exists_entry, leaf, unslashed, rfl⟩
  rw [cmdPurge_snd, stays, removed]
  exact if_pos (List.suffix_refl _)

/-- Whatever is reached can be removed. -/
theorem exists_removal {entry : Location} (reached : Reached fs cwd base id entry) :
    ∃ removal, (cmdPurge fs cwd removal base id).2.tree entry ≠ fs.tree entry := by
  cases reached with
  | file stated named exists_entry =>
      refine ⟨fileOnly fs, ?_⟩
      rw [removes_file stated named exists_entry]
      exact exists_entry.symm
  | inside stated directory resolved below different exists_entry =>
      refine ⟨fileOnly fs, ?_⟩
      rw [removes_inside stated directory resolved below different exists_entry]
      exact exists_entry.symm
  | record named exists_entry leaf unslashed =>
      refine ⟨recordOnly, ?_⟩
      rw [removes_record named exists_entry leaf unslashed]
      exact exists_entry.symm

end Reaching

theorem purgesOnly_of_reached
    (own : ∀ entry, Reached fs cwd base id entry → OwnEntry fs cwd base id entry) :
    PurgesOnly fs cwd base id :=
  fun _ => ⟨data_cmdPurge, fun entry changed => own entry (reached_of_cmdPurge changed)⟩

/-- A purge changes only the entries of its id if and only if its paths reach only these. -/
theorem purgesOnly_iff :
    PurgesOnly fs cwd base id ↔
      ∀ entry, Reached fs cwd base id entry → OwnEntry fs cwd base id entry := by
  constructor
  · intro only entry reached
    rcases exists_removal reached with ⟨removal, changed⟩
    exact (only removal).2 entry changed
  · exact purgesOnly_of_reached

section Names

/-- What the path of an id that is one name names is in the directory of the files. -/
theorem file_of_name (some_id : id ≠ []) (no_slash : slash ∉ id) (fits : Fits base id)
    {name : Name} {place : Location}
    (named : fs.entryOf cwd (filePath base id) = some (name, place)) :
    name = id ∧ fs.resolve cwd (base ++ ascii "/.trash/files") = some place := by
  rw [filePath_of_fits fits] at named
  exact entryOf_child_eq_some (by simp [ascii]) (endsInSlash_append (by decide) (by decide))
    some_id no_slash named

/-- What the path of a record names is in the directory of the records. -/
theorem record_of_name (no_slash : slash ∉ id) (fits : Fits base id) {name : Name}
    {place : Location} (named : fs.entryOf cwd (infoPath base id) = some (name, place)) :
    name = id ++ ascii ".info" ∧ fs.resolve cwd (base ++ ascii "/.trash/info") = some place := by
  rw [infoPath_of_fits fits] at named
  have suffix_unslashed : slash ∉ ascii ".info" := by decide
  exact entryOf_child_eq_some (by simp [ascii]) (endsInSlash_append (by decide) (by decide))
    (by simp [ascii]) (by simp [no_slash, suffix_unslashed]) named

/-- An id that is one name reaches its own entries only, if its paths are not cut. -/
theorem own_of_name (valid : ValidName id) (fits : Fits base id) {entry : Location}
    (reached : Reached fs cwd base id entry) : OwnEntry fs cwd base id entry := by
  have unslashed := filePath_unslashed valid.ne_nil valid.no_slash fits
  have stripped := stripSlashes_of_not_endsInSlash unslashed
  cases reached with
  | file stated named exists_entry =>
      rw [stripped] at named
      rcases file_of_name valid.ne_nil valid.no_slash fits named with ⟨rfl, resolved⟩
      exact .inl ⟨_, resolved, List.suffix_refl _⟩
  | inside stated directory resolved below different exists_entry =>
      rw [stripped] at directory resolved
      -- the directory is the entry that the path names
      have split_eq : components (filePath base id) =
          components (base ++ ascii "/.trash/files") ++ [id] := by
        rw [filePath_of_fits fits, components_append_name valid.ne_nil valid.no_slash]
      rcases entryOf_of_prefix resolved (List.prefix_refl _) unslashed split_eq valid.ne_dot
        valid.ne_dotDot with ⟨place, named⟩
      rw [lstat_of_entryOf named unslashed] at directory
      rw [resolve_of_entryOf named (.inl directory) unslashed, Option.some.injEq] at resolved
      rw [← resolved] at below
      exact .inl ⟨place, (file_of_name valid.ne_nil valid.no_slash fits named).2, below⟩
  | record named exists_entry leaf unslashed =>
      rcases record_of_name valid.no_slash fits named with ⟨rfl, resolved⟩
      exact .inr ⟨_, resolved, rfl⟩

/-- An id that is one name is purged alone, if its paths are not cut. -/
theorem purgesOnly_of_name (valid : ValidName id) (fits : Fits base id) :
    PurgesOnly fs cwd base id :=
  purgesOnly_of_reached fun _ => own_of_name valid fits

theorem Reached.exists_entry {entry : Location} (reached : Reached fs cwd base id entry) :
    fs.tree entry ≠ none := by
  cases reached with
  | file _ _ exists_entry => exact exists_entry
  | inside _ _ _ _ _ exists_entry => exact exists_entry
  | record _ exists_entry _ _ => exact exists_entry

/-- With a slash in its id a purge has nothing to remove that is its own. -/
theorem purgesOnly_of_slash (slashed : slash ∈ id) :
    PurgesOnly fs cwd base id ↔ ∀ entry, ¬Reached fs cwd base id entry := by
  constructor
  · intro only entry reached
    have valid := validName_of_mem reached.exists_entry
    rcases exists_removal reached with ⟨removal, changed⟩
    rcases (only removal).2 entry changed with ⟨files, -, below⟩ | ⟨info, -, rfl⟩
    · exact (valid id (below.subset List.mem_cons_self)).no_slash slashed
    · exact (valid _ List.mem_cons_self).no_slash (List.mem_append_left _ slashed)
  · intro nothing
    exact purgesOnly_of_reached fun entry reached => absurd reached (nothing entry)

end Names

section Examples

/-- The removal of the one file that is in the trash, and of its directory. -/
def wholeRemoval : Removal := ⟨fun _ => false, false, false, [firstId :: filesPlace]⟩

/-- The empty id takes the directory of all files. -/
theorem not_purgesOnly_empty :
    ¬ ∀ (fs : FileSystem) (cwd : Location) (base id : Bytes), id ≠ ascii "--all" →
      PurgesOnly fs cwd base id := by
  intro claimed
  have only := claimed (deletion (ascii "/a")).2 [] (ascii ".") [] (by decide) wholeRemoval
  have before : (deletion (ascii "/a")).2.tree filesPlace = some .directory := by decide +kernel
  have gone : (cmdPurge (deletion (ascii "/a")).2 [] wholeRemoval (ascii ".") []).2.tree
      filesPlace = none := by decide +kernel
  have files_at : (deletion (ascii "/a")).2.resolve [] (ascii "." ++ ascii "/.trash/files") =
      some filesPlace := by decide +kernel
  have changed : (cmdPurge (deletion (ascii "/a")).2 [] wholeRemoval (ascii ".") []).2.tree
      filesPlace ≠ (deletion (ascii "/a")).2.tree filesPlace := by
    rw [gone, before]
    simp
  rcases only.2 filesPlace changed with ⟨files, resolved, below⟩ | ⟨info, -, entry_eq⟩
  · rw [files_at, Option.some.injEq] at resolved
    rw [← resolved] at below
    exact absurd below.length_le (by decide)
  · exact absurd (List.cons.inj entry_eq).1 (by decide)

end Examples

end Osis.CourseWork
