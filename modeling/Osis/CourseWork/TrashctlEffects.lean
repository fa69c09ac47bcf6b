import Osis.CourseWork.TrashPaths

/-!
# What `trashctl` does to the files

`cmd_restore` moves the file of an id to the path that its record begins with, and
`cmd_purge` removes it; both take the record away.
-/

namespace Osis.CourseWork

open Posix Posix.FileSystem

variable {fs : FileSystem} {cwd : Location} {base id : Bytes} {file record : Location}
  {inode info : ℕ}

/-- The text of a record is read and the entry moved to the path in it. -/
theorem cmdRestore_moves {text original : Bytes} {name oldName : Name}
    {place oldPlace : Location}
    (read : fs.readFile cwd (infoPath base id) = some text)
    (scanned : scanOriginal text = some original)
    (old_named : fs.entryOf cwd (filePath base id) = some (oldName, oldPlace))
    (exists_old : fs.tree (oldName :: oldPlace) ≠ none)
    (leaf : fs.tree (oldName :: oldPlace) ≠ some .directory)
    (old_unslashed : endsInSlash (filePath base id) = false)
    (named : fs.entryOf cwd original = some (name, place))
    (free : fs.tree (name :: place) = none) (unslashed : endsInSlash original = false)
    (valid : ValidName name) :
    ∃ moved : FileSystem, (∀ other, moved.tree other =
        if other = name :: place then fs.tree (oldName :: oldPlace)
        else if other = oldName :: oldPlace then none
        else fs.tree other) ∧
      moved.data = fs.data ∧ moved.fresh = fs.fresh ∧
      cmdRestore fs cwd base id = (0, (moved.unlink cwd (infoPath base id)).getD moved) := by
  have found : fs.access cwd (dirname original) = true := by
    rw [access, resolve_dirname named, Option.isSome_some]
  rcases rename_leaf old_named named free exists_old leaf old_unslashed unslashed valid with
    ⟨above, apart, renamed⟩
  refine ⟨fs.move (oldName :: oldPlace) name place (List.cons_ne_nil _ _) above valid apart,
    fun other => tree_move_leaf leaf exists_old free, data_move, fresh_move, ?_⟩
  unfold cmdRestore
  rw [read]
  simp only [scanned, found, if_true, renamed]

/-- Where the file of an id and its record are. -/
structure FoundAt (fs : FileSystem) (cwd : Location) (base id : Bytes) (file record : Location)
    (inode info : ℕ) : Prop where
  file_named : ∃ name place, file = name :: place ∧
    fs.entryOf cwd (filePath base id) = some (name, place)
  file_unslashed : endsInSlash (filePath base id) = false
  file_found : fs.tree file = some (.file inode)
  record_named : ∃ name place, record = name :: place ∧
    fs.entryOf cwd (infoPath base id) = some (name, place)
  record_unslashed : endsInSlash (infoPath base id) = false
  record_found : fs.tree record = some (.file info)
  different : record ≠ file

namespace FoundAt

/-- The file is found under its path. -/
theorem resolve_file (found : FoundAt fs cwd base id file record inode info) :
    fs.resolve cwd (filePath base id) = some file := by
  rcases found.file_named with ⟨name, place, rfl, named⟩
  exact resolve_of_entryOf named (.inr ⟨inode, found.file_found⟩) found.file_unslashed

/-- The record is read through its path. -/
theorem readFile (found : FoundAt fs cwd base id file record inode info) :
    fs.readFile cwd (infoPath base id) = some (fs.data info) := by
  rcases found.record_named with ⟨name, place, rfl, named⟩
  have resolved := resolve_of_entryOf named (.inr ⟨info, found.record_found⟩)
    found.record_unslashed
  exact readFile_of_resolve resolved found.record_found

/-- The record is removed from a tree in which only files are missing. -/
theorem unlink_record (found : FoundAt fs cwd base id file record inode info)
    {fs' : FileSystem} (keeps : fs.Keeps fs') (there : fs'.tree record = some (.file info)) :
    ∃ final : FileSystem, fs'.unlink cwd (infoPath base id) = some final ∧
      (∀ other, final.tree other = if other = record then none else fs'.tree other) ∧
      final.data = fs'.data ∧ final.fresh = fs'.fresh := by
  rcases found.record_named with ⟨name, place, rfl, named⟩
  have leaf : fs'.tree (name :: place) ≠ some .directory := by
    rw [there]
    simp
  exact ⟨_, unlink_eq_some.mpr ⟨name, place, entryOf_kept keeps named, ne_none_of_eq_some there,
    leaf, found.record_unslashed, rfl⟩, fun _ => tree_remove_leaf leaf, data_remove, fresh_remove⟩

/-- `cmd_restore` leaves the file in its old place and nothing in the trash. -/
theorem cmdRestore_eq (found : FoundAt fs cwd base id file record inode info)
    {original : Bytes} {name : Name} {place : Location}
    (scanned : scanOriginal (fs.data info) = some original)
    (named : fs.entryOf cwd original = some (name, place))
    (free : fs.tree (name :: place) = none) (unslashed : endsInSlash original = false)
    (valid : ValidName name) :
    ∃ final : FileSystem, cmdRestore fs cwd base id = (0, final) ∧
      (∀ other, final.tree other =
        if other = name :: place then some (.file inode)
        else if other = file ∨ other = record then none
        else fs.tree other) ∧
      final.data = fs.data ∧ final.fresh = fs.fresh := by
  rcases found.file_named with ⟨oldName, oldPlace, rfl, old_named⟩
  have leaf : fs.tree (oldName :: oldPlace) ≠ some .directory := by
    rw [found.file_found]
    simp
  rcases cmdRestore_moves found.readFile scanned old_named (ne_none_of_eq_some found.file_found)
    leaf found.file_unslashed named free unslashed valid with
    ⟨moved, moved_tree, moved_data, moved_fresh, restored⟩
  have record_ne : record ≠ name :: place := by
    rintro rfl
    rw [found.record_found] at free
    cases free
  have keeps : fs.Keeps moved := by
    apply keeps_of_files
    intro other
    rw [moved_tree]
    by_cases back : other = name :: place
    · exact .inr (.inl (back ▸ free))
    · by_cases away : other = oldName :: oldPlace
      · exact .inr (.inr ⟨inode, away ▸ found.file_found⟩)
      · exact .inl (by rw [if_neg back, if_neg away])
  have there : moved.tree record = some (.file info) := by
    rw [moved_tree, if_neg record_ne, if_neg found.different, found.record_found]
  rcases found.unlink_record keeps there with ⟨final, removed, final_tree, final_data, final_fresh⟩
  refine ⟨final, by rw [restored, removed, Option.getD_some], fun other => ?_,
    final_data.trans moved_data, final_fresh.trans moved_fresh⟩
  rw [final_tree, moved_tree, found.file_found]
  by_cases at_record : other = record
  · rw [if_pos at_record, if_neg (at_record ▸ record_ne), if_pos (.inr at_record)]
  · rw [if_neg at_record]
    simp only [at_record, or_false]

/-- `cmd_purge` removes the file and its record. -/
theorem cmdPurge_eq (found : FoundAt fs cwd base id file record inode info) {removal : Removal}
    (grant_file : removal.file = false) (grant_record : removal.record = false) :
    ∃ final : FileSystem, cmdPurge fs cwd removal base id = (0, final) ∧
      (∀ other, final.tree other =
        if other = file ∨ other = record then none else fs.tree other) ∧
      final.data = fs.data ∧ final.fresh = fs.fresh := by
  rcases found.file_named with ⟨name, place, rfl, named⟩
  have leaf : fs.tree (name :: place) ≠ some .directory := by
    rw [found.file_found]
    simp
  have stated : fs.stat cwd (filePath base id) = some (.file inode) := by
    rw [stat, found.resolve_file, Option.bind_some, found.file_found]
  have removed : fs.unlink cwd (filePath base id) =
      some (fs.remove (name :: place) (List.cons_ne_nil _ _)) :=
    unlink_eq_some.mpr ⟨name, place, named, ne_none_of_eq_some found.file_found, leaf,
      found.file_unslashed, rfl⟩
  have removed_tree : ∀ other, (fs.remove (name :: place) (List.cons_ne_nil _ _)).tree other =
      if other = name :: place then none else fs.tree other := fun _ => tree_remove_leaf leaf
  have keeps : fs.Keeps (fs.remove (name :: place) (List.cons_ne_nil _ _)) := by
    apply keeps_of_files
    intro other
    rw [removed_tree]
    by_cases away : other = name :: place
    · exact .inr (.inr ⟨inode, away ▸ found.file_found⟩)
    · exact .inl (if_neg away)
  have there : (fs.remove (name :: place) (List.cons_ne_nil _ _)).tree record =
      some (.file info) := by
    rw [removed_tree, if_neg found.different, found.record_found]
  rcases found.unlink_record keeps there with ⟨final, forgotten, final_tree, final_data,
    final_fresh⟩
  refine ⟨final, ?_, fun other => ?_, final_data, final_fresh⟩
  · unfold cmdPurge purgeFile
    simp [stated, removed, forgotten, granted, attempt, grant_file, grant_record]
  · rw [final_tree, removed_tree]
    by_cases at_record : other = record
    · rw [if_pos at_record, if_pos (.inr at_record)]
    · simp only [at_record, if_false, or_false]

end FoundAt

end Osis.CourseWork
