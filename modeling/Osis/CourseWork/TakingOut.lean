import Osis.CourseWork.AllOrNothing
import Osis.CourseWork.Browse
import Osis.CourseWork.PurgeTargets

/-!
# What a command on one entry takes out of the trash

A restore moves the file of its id away, and a purge removes it. Neither takes another name
out of the directory of the files, provided that the paths of the id are not cut, that the
records are in another directory, and that a restored file does not come to stand where a
way into the trash leads over. This is all said of the files as they are before the command.
-/

namespace Osis.Posix.FileSystem

variable {fs fs' moved : FileSystem} {cwd found found' files : Location}
  {path oldPath newPath : Bytes} {id : Name}

/-- A path that leads somewhere in two trees that agree leads to one place. -/
theorem resolve_agree (agree : fs.Agree fs') (resolved : fs.resolve cwd path = some found)
    (resolved' : fs'.resolve cwd path = some found') : found = found' :=
  walk_agree agree (resolve_eq_some.mp resolved).2.2 (resolve_eq_some.mp resolved').2.2

/-- A rename takes its file out of a directory and no other. -/
theorem rename_takes (renamed : fs.rename cwd oldPath newPath = some moved)
    (old_named : fs.entryOf cwd oldPath = some (id, files)) :
    ∃ name place, fs.entryOf cwd newPath = some (name, place) ∧
      (fs.remove (name :: place) (List.cons_ne_nil _ _)).Agree moved ∧
      ∀ other ∈ fs.names files, moved.tree (other :: files) ≠ none ∨ other = id := by
  rcases rename_moved renamed with
    ⟨oldName, oldPlace, name, place, old_named', named, exists_old, outcome⟩
  rw [old_named, Option.some.injEq, Prod.mk.injEq] at old_named'
  rcases old_named' with ⟨rfl, rfl⟩
  refine ⟨name, place, named, ?_⟩
  rcases outcome with ⟨-, rfl⟩ | ⟨-, empty, moves⟩
  · refine ⟨fun entry exists_entry _ => ?_, fun other other_mem => ?_⟩
    · exact ((without_remove _).extended entry exists_entry).symm
    · exact .inl (FileSystem.mem_names.mp other_mem)
  · refine ⟨moves.agree _, fun other other_mem => ?_⟩
    have exists_other := FileSystem.mem_names.mp other_mem
    by_cases covered : name :: place <:+ other :: files
    · left
      rw [← eq_of_suffix_of_empty empty exists_other covered, moves.tree_new]
      exact exists_old
    · by_cases taken : id :: files <:+ other :: files
      · exact .inr (List.cons.inj (taken.eq_of_length (by simp))).1.symm
      · left
        rw [moves.elsewhere _ taken covered]
        exact exists_other

end Osis.Posix.FileSystem

namespace Osis.CourseWork

open Posix Posix.FileSystem

/-- A command on an entry of the trash takes no other entry out of the view, and this one only if
it is gone. -/
def TakesOnly (proc : Location) (base : Bytes) (fs fs' : FileSystem) (id : Name) (gone : Prop) :
    Prop :=
  ∀ names ∈ opendir fs proc (trashFiles base), ∀ names' ∈ opendir fs' proc (trashFiles base),
    ∀ name ∈ names, name ∈ names' ∨ name = id ∧ gone

/-- The paths of an id are not cut, and its record is not among the files. -/
structure Separate (fs : FileSystem) (proc : Location) (base id : Bytes) : Prop where
  fits : Fits base id
  apart : ∀ files ∈ fs.resolve proc (trashFiles base),
    fs.resolve proc (trashInfo base) ≠ some files

/-- The ways into the trash do not lead over an entry. -/
def Bystander (fs : FileSystem) (proc : Location) (base : Bytes) (name : Name)
    (place : Location) : Prop :=
  ∀ path ∈ [trashFiles base, trashInfo base],
    (fs.remove (name :: place) (List.cons_ne_nil _ _)).resolve proc path = fs.resolve proc path

/-- The path in the record of an id names no entry that a way into the trash leads over. -/
def GoesAside (fs : FileSystem) (proc : Location) (base id : Bytes) : Prop :=
  ∀ text ∈ fs.readFile proc (infoPath base id), ∀ original ∈ scanOriginal text,
    ∀ entry ∈ fs.entryOf proc original, Bystander fs proc base entry.1 entry.2

/-- The file of an id can be removed, and without it the record cannot. -/
def HalfPurges (fs : FileSystem) (proc : Location) (removal : Removal) (base id : Bytes) : Prop :=
  ∃ files ∈ fs.resolve proc (trashFiles base),
    ¬FileStays fs proc removal base id (id :: files) ∧
    granted removal.record ((fs.remove (id :: files) (List.cons_ne_nil _ _)).unlink proc
      (infoPath base id)) = none

instance (fs : FileSystem) (proc : Location) (base id : Bytes) :
    Decidable (Separate fs proc base id) :=
  decidable_of_iff (Fits base id ∧ ∀ files ∈ fs.resolve proc (trashFiles base),
    fs.resolve proc (trashInfo base) ≠ some files)
    ⟨fun ⟨fits, apart⟩ => ⟨fits, apart⟩, fun separate => ⟨separate.fits, separate.apart⟩⟩

instance (fs : FileSystem) (proc : Location) (base : Bytes) (name : Name) (place : Location) :
    Decidable (Bystander fs proc base name place) :=
  inferInstanceAs (Decidable (∀ path ∈ [trashFiles base, trashInfo base], _ = _))

instance (fs : FileSystem) (proc : Location) (base id : Bytes) :
    Decidable (GoesAside fs proc base id) :=
  inferInstanceAs (Decidable (∀ text ∈ fs.readFile proc (infoPath base id),
    ∀ original ∈ scanOriginal text, ∀ entry ∈ fs.entryOf proc original,
      Bystander fs proc base entry.1 entry.2))

instance (fs : FileSystem) (proc : Location) (removal : Removal) (base id : Bytes)
    (file : Location) : Decidable (FileStays fs proc removal base id file) :=
  inferInstanceAs (Decidable (_ = none ∨ _ ∨ _ ∧ ∃ entry ∈ _, _ = true))

instance (fs : FileSystem) (proc : Location) (removal : Removal) (base id : Bytes) :
    Decidable (HalfPurges fs proc removal base id) :=
  inferInstanceAs (Decidable (∃ files ∈ fs.resolve proc (trashFiles base), _ ∧ _ = none))

variable {fs fs' moved after : FileSystem} {proc files : Location} {base id path : Bytes}
  {names : List Name} {removal : Removal} {refused : RestoreRefusals} {name : Name}
  {place : Location}

theorem opendir_eq_some :
    opendir fs proc path = some names ↔
      ∃ place, fs.resolve proc path = some place ∧ fs.tree place = some .directory ∧
        fs.names place = names := by
  unfold opendir
  cases fs.resolve proc path with
  | none => simp
  | some place => simp

/-- It is enough to look at the entries of the directory, which is found where it was. -/
theorem takesOnly_of_entries {gone : Prop}
    (found : fs.resolve proc (trashFiles base) = some files)
    (stays : ∀ files' ∈ fs'.resolve proc (trashFiles base), files' = files)
    (kept : ∀ name ∈ fs.names files, fs'.tree (name :: files) ≠ none ∨ name = id ∧ gone) :
    TakesOnly proc base fs fs' id gone := by
  intro names opened names' opened' name name_mem
  rcases opendir_eq_some.mp opened with ⟨place, resolved, -, rfl⟩
  rcases opendir_eq_some.mp opened' with ⟨place', resolved', -, rfl⟩
  rw [found, Option.some.injEq] at resolved
  subst resolved
  rw [stays place' resolved', FileSystem.mem_names]
  exact kept name name_mem

/-- The path of the file of an id names its entry. -/
theorem file_named (fits : Fits base id) (found : fs.resolve proc (trashFiles base) = some files)
    (id_mem : id ∈ fs.names files) :
    fs.entryOf proc (filePath base id) = some (id, files) ∧
      endsInSlash (filePath base id) = false := by
  have exists_file := FileSystem.mem_names.mp id_mem
  have valid := fs.named exists_file
  refine ⟨?_, filePath_unslashed valid.ne_nil valid.no_slash fits⟩
  have short : (base ++ ascii "/.trash/files" ++ slash :: id).length < pathMax := by
    have := fits_iff.mp fits
    have length_eq : (ascii "/.trash/files").length = 13 := by decide
    simp only [List.length_append, List.length_cons, length_eq]
    omega
  rw [trashFiles_of_fits fits] at found
  rw [filePath_of_fits fits]
  exact entryOf_child found (fs.closed exists_file) valid short

section Purging

/-- A purge only takes entries out. -/
theorem cmdPurge_extended (fs : FileSystem) (proc : Location) (removal : Removal)
    (base id : Bytes) : (cmdPurge fs proc removal base id).2.Extends fs := by
  rcases purgeFile_without fs proc removal base id with ⟨gone, without⟩
  rw [cmdPurge_snd]
  generalize (purgeFile fs proc removal base id).2 = left at *
  rcases attempt_unlink left proc removal.record (infoPath base id) with
    ⟨-, -, -, name, place, -, -, -, without'⟩ | ⟨-, same⟩
  · exact (without.trans without').extended
  · rw [same]
    exact without.extended

/-- Only the first half of a purge takes the file of its id away. -/
theorem removesFile_of_gone (separate : Separate fs proc base id)
    (found : fs.resolve proc (trashFiles base) = some files) (id_mem : id ∈ fs.names files)
    (gone : (cmdPurge fs proc removal base id).2.tree (id :: files) = none) :
    (purgeFile fs proc removal base id).1 = true := by
  have exists_file := FileSystem.mem_names.mp id_mem
  have valid := fs.named exists_file
  rcases file_named separate.fits found id_mem with ⟨named, unslashed⟩
  have stripped := stripSlashes_of_not_endsInSlash unslashed
  by_contra failed
  rcases purgeFile_spec fs proc removal base id with ⟨succeeded, -⟩ | ⟨-, done, inside, without⟩
  · exact failed succeeded
  · have stays :
        (purgeFile fs proc removal base id).2.tree (id :: files) = fs.tree (id :: files) := by
      apply without.present
      intro listed
      rcases inside _ listed with ⟨top, directory, resolved, below⟩
      rw [stripped] at directory resolved
      rw [lstat_of_entryOf named unslashed] at directory
      rw [resolve_of_entryOf named (.inl directory) unslashed, Option.some.injEq] at resolved
      exact (mem_below.mp below).2.2.1 resolved
    rw [cmdPurge_snd] at gone
    generalize (purgeFile fs proc removal base id).2 = left at *
    rcases attempt_unlink left proc removal.record (infoPath base id) with
      ⟨-, -, -, name, place, record_named, -, leaf, without'⟩ | ⟨-, same⟩
    · have changed := gone.trans_ne (stays.trans_ne exists_file).symm
      have below := (without'.of_ne changed).1
      have itself := eq_of_suffix leaf (stays.trans_ne exists_file) below
      have name_eq := (record_of_name valid.no_slash separate.fits record_named).1
      -- the name of the record is longer
      have lengths := congrArg List.length ((List.cons.inj itself).1.symm.trans name_eq)
      rw [List.length_append] at lengths
      have : (ascii ".info").length = 5 := by decide
      omega
    · rw [same, stays] at gone
      exact exists_file gone

/-- A purge takes out the file of its id, if it removes it, and no other. -/
theorem takesOnly_cmdPurge (separate : Separate fs proc base id)
    (found : fs.resolve proc (trashFiles base) = some files) (id_mem : id ∈ fs.names files) :
    TakesOnly proc base fs (cmdPurge fs proc removal base id).2 id
      ((purgeFile fs proc removal base id).1 = true) := by
  have extended := cmdPurge_extended fs proc removal base id
  have valid := fs.named (FileSystem.mem_names.mp id_mem)
  apply takesOnly_of_entries found
  · intro files' found'
    apply (resolve_agree _ found found').symm
    exact fun entry _ stays => extended entry stays
  · intro name name_mem
    by_contra lost
    rw [not_or, not_not] at lost
    have changed : (cmdPurge fs proc removal base id).2.tree (name :: files) ≠
        fs.tree (name :: files) := by
      rw [lost.1]
      exact (FileSystem.mem_names.mp name_mem).symm
    rcases (purgesOnly_of_name valid separate.fits removal).2 _ changed with
      ⟨place, resolved, below⟩ | ⟨info, resolved, entry_eq⟩
    · rw [← trashFiles_of_fits separate.fits, found, Option.some.injEq] at resolved
      rw [← resolved] at below
      have name_eq := (List.cons.inj (below.eq_of_length (by simp))).1
      subst name_eq
      exact lost.2 ⟨rfl, removesFile_of_gone separate found id_mem lost.1⟩
    · rw [← trashInfo_of_fits separate.fits] at resolved
      rw [(List.cons.inj entry_eq).2] at found
      exact separate.apart info found resolved

/-- A file that is removed does not stay. -/
theorem not_fileStays_of_removed (named : fs.entryOf proc (filePath base id) = some (name, place))
    (unslashed : endsInSlash (filePath base id) = false)
    (removed : (purgeFile fs proc removal base id).1 = true) :
    ¬FileStays fs proc removal base id (name :: place) := by
  rintro (absent | refused | ⟨directory, entry, entry_mem, refused⟩)
  · simp [purgeFile, absent] at removed
  · rcases purgeFile_spec fs proc removal base id with ⟨-, grant, -⟩ | ⟨failed, -⟩
    · rw [refused] at grant
      cases grant
    · rw [failed] at removed
      cases removed
  · have stripped := stripSlashes_of_not_endsInSlash unslashed
    have resolved := resolve_of_entryOf named (.inl directory) unslashed
    have stated : fs.stat proc (filePath base id) = some .directory := by
      rw [stat, resolved, Option.bind_some, directory]
    have listed : fs.lstat proc (filePath base id) = some .directory := by
      rw [lstat_of_entryOf named unslashed, directory]
    rcases removeEach_spec removal.entries (removal.below fs (name :: place)) fs with
      ⟨done, -, -, complete⟩
    simp only [purgeFile, stated, removeTree, stripped, listed, resolved] at removed
    generalize fs.removeEach removal.entries (removal.below fs (name :: place)) = result at *
    rcases result with ⟨emptied, left⟩
    cases emptied with
    | false => cases removed
    | true =>
        have grant := (complete rfl).2 entry entry_mem
        rw [refused] at grant
        cases grant

/-- A purge that fails after it has removed the file could not remove the record. -/
theorem halfPurges_of_failed (separate : Separate fs proc base id)
    (found : fs.resolve proc (trashFiles base) = some files) (id_mem : id ∈ fs.names files)
    (failed : (cmdPurge fs proc removal base id).1 ≠ 0)
    (removes : (purgeFile fs proc removal base id).1 = true) :
    HalfPurges fs proc removal base id := by
  rcases file_named separate.fits found id_mem with ⟨named, unslashed⟩
  refine ⟨files, found, not_fileStays_of_removed named unslashed removes, ?_⟩
  rcases purgeFile_spec fs proc removal base id with
    ⟨-, -, fileName, filePlace, named', -, without⟩ | ⟨stays, -⟩
  · rw [stripSlashes_of_not_endsInSlash unslashed, named, Option.some.injEq,
      Prod.mk.injEq] at named'
    rcases named' with ⟨rfl, rfl⟩
    have same : ∀ entry, (purgeFile fs proc removal base id).2.tree entry =
        (fs.remove (id :: files) (List.cons_ne_nil _ _)).tree entry := by
      intro entry
      rw [tree_remove]
      split
      · next below => exact without.absent entry below
      · next outside => exact without.present entry outside
    by_contra forgotten
    rcases Option.ne_none_iff_exists'.mp forgotten with ⟨left, forgotten⟩
    rcases granted_eq_some.mp forgotten with ⟨grant, unlinked⟩
    rcases unlink_eq_some.mp unlinked with
      ⟨recordName, recordPlace, record_named, exists_record, leaf, record_unslashed, -⟩
    rw [← same] at exists_record leaf
    have keeps : (fs.remove (id :: files) (List.cons_ne_nil _ _)).Keeps
        (purgeFile fs proc removal base id).2 := by
      intro entry node here _
      rw [same, here]
    have again := unlink_eq_some.mpr ⟨recordName, recordPlace, entryOf_kept keeps record_named,
      exists_record, leaf, record_unslashed, rfl⟩
    simp [cmdPurge, attempt, removes, grant, granted, again] at failed
  · rw [removes] at stays
    cases stays

end Purging

section Restoring

/-- Where a record is read the directory of the records is found. -/
theorem directory_of_record {text : Bytes} (no_slash : slash ∉ id) (fits : Fits base id)
    (read : fs.readFile proc (infoPath base id) = some text) :
    ∃ info, fs.resolve proc (trashInfo base) = some info := by
  have leads : ∃ found, fs.resolve proc (infoPath base id) = some found := by
    cases resolved : fs.resolve proc (infoPath base id) with
    | none => simp [FileSystem.readFile, stat, resolved] at read
    | some found => exact ⟨found, rfl⟩
  rcases leads with ⟨found, resolved⟩
  have suffix_unslashed : slash ∉ ascii ".info" := by decide
  rw [infoPath_of_fits fits] at resolved
  rcases exists_of_resolve_append (by simp [ascii]) (by simp [no_slash, suffix_unslashed])
    resolved with ⟨info, -, info_at, -⟩
  rw [trashInfo_of_fits fits]
  exact ⟨info, info_at⟩

/-- A restore moves the file of its id away, if it comes to its `rename`, and takes no other out. -/
theorem takesOnly_cmdRestore
    (aside : (∃ original moved, Renames refused fs proc base id original moved) →
      Separate fs proc base id ∧ GoesAside fs proc base id)
    (found : fs.resolve proc (trashFiles base) = some files) (id_mem : id ∈ fs.names files) :
    TakesOnly proc base fs (cmdRestoreWith refused fs proc base id).2 id
      (∃ original moved, Renames refused fs proc base id original moved) := by
  rcases cmdRestoreWith_cases refused fs proc base id with
    ⟨nothing, -⟩ | ⟨original, moved, renames, result⟩
  · rw [nothing]
    apply takesOnly_of_entries found
    · intro files' found'
      rw [found] at found'
      exact (Option.some.inj found').symm
    · exact fun name name_mem => .inl (FileSystem.mem_names.mp name_mem)
  rw [result]
  have gone : (∃ original moved, Renames refused fs proc base id original moved) :=
    ⟨original, moved, renames⟩
  rcases aside gone with ⟨separate, aside⟩
  have valid := fs.named (FileSystem.mem_names.mp id_mem)
  rcases file_named separate.fits found id_mem with ⟨file_eq, -⟩
  rcases renames.parsed with ⟨text, read, scanned⟩
  rcases rename_takes renames.renamed file_eq with ⟨name, place, named, agree, kept⟩
  have bystander := aside text read original scanned (name, place) named
  have files_at := bystander (trashFiles base) (by simp)
  have info_at := bystander (trashInfo base) (by simp)
  rw [found] at files_at
  cases removed : unlinkRecord refused moved proc base id with
  | none =>
      rw [Option.getD_none]
      apply takesOnly_of_entries found
      · intro files' found'
        exact (resolve_agree agree files_at found').symm
      · intro other other_mem
        exact (kept other other_mem).imp_right fun is_id => ⟨is_id, gone⟩
  | some after =>
      rw [Option.getD_some]
      rcases unlinkRecord_eq_some removed with ⟨recordName, info, record_named, -, -, without⟩
      have record_at := (record_of_name valid.no_slash separate.fits record_named).2
      rw [← trashInfo_of_fits separate.fits] at record_at
      have other_place : info ≠ files := by
        intro same
        rcases directory_of_record valid.no_slash separate.fits read with ⟨directory, directory_at⟩
        rw [directory_at] at info_at
        have info_eq := resolve_agree agree info_at record_at
        rw [info_eq, same] at directory_at
        exact separate.apart files found directory_at
      apply takesOnly_of_entries found
      · intro files' found'
        apply (resolve_agree _ files_at found').symm
        intro entry exists_entry stays
        rw [← without.extended entry stays]
        apply agree entry exists_entry
        rwa [without.extended entry stays]
      · intro other other_mem
        rcases kept other other_mem with stays | is_id
        · left
          rw [without.present]
          · exact stays
          · intro same
            exact other_place (List.cons.inj same).2.symm
        · exact .inr ⟨is_id, gone⟩

end Restoring

end Osis.CourseWork
