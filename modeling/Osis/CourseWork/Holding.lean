import Osis.CourseWork.Store

/-!
# What the directories of the trash hold

For each id of a map a file with the content and a record with the path, and nothing else. A
new id is added with its two files (`Holding.added`), and one is taken out with both of them
(`Holding.without`), as `cmd_purge` and `cmd_restore` do.
-/

namespace Osis.CourseWork

open Concurrency Concurrency.System Posix Posix.FileSystem

/-- The file and the record of an id are in the directories, and the place the file was deleted
from is outside them. -/
structure Stands (fs : FileSystem) (base : Bytes) (files info : Location) (id : Bytes)
    (deleted : Deleted) (inode number : ℕ) (name : Name) (place : Location) : Prop where
  fits : Fits base id
  short : id.length ≤ 63
  valid : ValidName id
  file : fs.tree (id :: files) = some (.file inode)
  content : fs.data inode = deleted.content
  record : fs.tree ((id ++ ascii ".info") :: info) = some (.file number)
  text : ∃ time size, fs.data number = recordText deleted.path time size
  path_eq : deleted.path = pathString (name :: place)
  above : fs.tree place = some .directory
  named : ValidName name
  path_short : deleted.path.length ≤ 241
  unbroken : newline ∉ deleted.path
  outside_files : ¬files <:+ name :: place
  outside_info : ¬info <:+ name :: place

/-- The directories hold a map and nothing else. -/
structure Holding (fs : FileSystem) (base : Bytes) (map : Bytes → Option Deleted)
    (files info : Location) : Prop where
  files_at : fs.resolve [] (trashFiles base) = some files
  info_at : fs.resolve [] (trashInfo base) = some info
  files_directory : fs.tree files = some .directory
  info_directory : fs.tree info = some .directory
  different : files ≠ info
  stands : ∀ id deleted, map id = some deleted →
    ∃ inode number name place, Stands fs base files info id deleted inode number name place
  only_files : ∀ id, fs.tree (id :: files) ≠ none → map id ≠ none
  only_records : ∀ name, fs.tree (name :: info) ≠ none →
    ∃ id, map id ≠ none ∧ name = id ++ ascii ".info"

variable {fs fs' after : FileSystem} {cwd place files info : Location} {base id : Bytes}
  {map : Bytes → Option Deleted} {deleted : Deleted} {name : Name} {inode number : ℕ}
  {removal : Removal}

namespace Stands

theorem no_nul (stands : Stands fs base files info id deleted inode number name place) :
    0 ∉ deleted.path := by
  intro nul_mem
  have above_valid := validName_of_mem (ne_none_of_eq_some stands.above)
  rw [stands.path_eq] at nul_mem
  rcases mem_pathString nul_mem with same | ⟨other, other_mem, here⟩
  · exact absurd same (by decide)
  · rcases List.mem_cons.mp other_mem with rfl | in_place
    · exact stands.named.no_nul here
    · exact (above_valid other in_place).no_nul here

theorem some_path (stands : Stands fs base files info id deleted inode number name place) :
    deleted.path ≠ [] := by
  intro empty
  have first := head?_pathString (name :: place)
  rw [← stands.path_eq, empty] at first
  cases first

/-- `cmd_restore` reads the path. -/
theorem scanned (stands : Stands fs base files info id deleted inode number name place) :
    scanOriginal (fs.data number) = some deleted.path := by
  rcases stands.text with ⟨time, size, text⟩
  have whole := firstLine_eq_self (inLine_of_plain stands.unbroken stands.no_nul)
  rw [text, scanOriginal_eq_take (by rw [whole]; exact stands.some_path), whole,
    List.take_of_length_le stands.path_short]

/-- `cmd_list` reads the path. -/
theorem listed (stands : Stands fs base files info id deleted inode number name place) :
    (scanEntry (fs.data number)).original = deleted.path := by
  rcases stands.text with ⟨time, size, text⟩
  rw [text]
  exact original_scanEntry stands.some_path stands.unbroken stands.no_nul stands.path_short

/-- The path names the place it was deleted from. -/
theorem path_named (stands : Stands fs base files info id deleted inode number name place) :
    fs.entryOf cwd deleted.path = some (name, place) := by
  have room : 241 < pathMax := by decide
  have short := stands.path_short
  rw [stands.path_eq] at short ⊢
  exact entryOf_pathString stands.above stands.named (by omega)

theorem path_unslashed (stands : Stands fs base files info id deleted inode number name place) :
    endsInSlash deleted.path = false := by
  rw [stands.path_eq]
  exact endsInSlash_pathString stands.named

/-- Nothing of an id changes when its two files stay. -/
theorem frame (stands : Stands fs base files info id deleted inode number name place)
    (keeps : fs.Keeps fs') (file : fs'.tree (id :: files) = fs.tree (id :: files))
    (record : fs'.tree ((id ++ ascii ".info") :: info) = fs.tree ((id ++ ascii ".info") :: info))
    (data : ∀ inode < fs.fresh, fs'.data inode = fs.data inode) :
    Stands fs' base files info id deleted inode number name place := by
  rcases stands.text with ⟨time, size, text⟩
  have text_kept := data number (fs.allocated stands.record rfl)
  have content_kept := data inode (fs.allocated stands.file rfl)
  exact { stands with
    file := file.trans stands.file
    content := content_kept.trans stands.content
    record := record.trans stands.record
    text := ⟨time, size, text_kept.trans text⟩
    above := keeps place _ stands.above (by simp) }

end Stands

namespace Holding

theorem files_from (holding : Holding fs base map files info) (absolute : base.head? = some slash) :
    fs.resolve cwd (trashFiles base) = some files :=
  (resolve_absolute (head?_snprintf absolute _)).trans holding.files_at

theorem info_from (holding : Holding fs base map files info) (absolute : base.head? = some slash) :
    fs.resolve cwd (trashInfo base) = some info :=
  (resolve_absolute (head?_snprintf absolute _)).trans holding.info_at

theorem free_file (holding : Holding fs base map files info) (free : map id = none) :
    fs.tree (id :: files) = none := by
  by_contra exists_file
  exact holding.only_files id exists_file free

theorem free_record (holding : Holding fs base map files info) (free : map id = none) :
    fs.tree ((id ++ ascii ".info") :: info) = none := by
  by_contra exists_record
  rcases holding.only_records _ exists_record with ⟨other, stored, same⟩
  rw [List.append_cancel_right same] at free
  exact stored free

theorem record_ne_file (holding : Holding fs base map files info) (name other : Name) :
    name :: info ≠ other :: files := by
  intro same
  exact holding.different (List.cons.inj same).2.symm

/-- Where the two paths of an id lead. -/
theorem foundAt (holding : Holding fs base map files info) (absolute : base.head? = some slash)
    (stands : Stands fs base files info id deleted inode number name place) :
    FoundAt fs cwd base id (id :: files) ((id ++ ascii ".info") :: info) inode number where
  file_named := ⟨id, files, rfl,
    filePath_named stands.fits stands.valid (holding.files_from absolute) holding.files_directory⟩
  file_unslashed := filePath_unslashed stands.valid.ne_nil stands.valid.no_slash stands.fits
  file_found := stands.file
  record_named := ⟨_, info, rfl,
    infoPath_named stands.fits (fs.named (ne_none_of_eq_some stands.record))
      (holding.info_from absolute) holding.info_directory⟩
  record_unslashed := infoPath_unslashed stands.fits
  record_found := stands.record
  different := holding.record_ne_file _ _

/-- A change of one id, with its two files, leaves the others. -/
theorem changed (holding : Holding fs base map files info) {value : Option Deleted}
    (keeps : fs.Keeps after) (data : ∀ inode < fs.fresh, after.data inode = fs.data inode)
    (others : ∀ entry, entry ≠ id :: files → entry ≠ (id ++ ascii ".info") :: info →
      files <:+ entry ∨ info <:+ entry → after.tree entry = fs.tree entry)
    (own : ∀ deleted, value = some deleted →
      ∃ inode number name place, Stands after base files info id deleted inode number name place)
    (gone : value = none →
      after.tree (id :: files) = none ∧ after.tree ((id ++ ascii ".info") :: info) = none) :
    Holding after base (Function.update map id value) files info := by
  have file_kept : ∀ other ≠ id, after.tree (other :: files) = fs.tree (other :: files) := by
    intro other different
    apply others _ _ _ (.inl (List.suffix_cons _ _))
    · exact fun same => different (List.cons.inj same).1
    · exact (holding.record_ne_file _ _).symm
  have record_kept : ∀ other, other ≠ id ++ ascii ".info" →
      after.tree (other :: info) = fs.tree (other :: info) := by
    intro other different
    apply others _ _ _ (.inr (List.suffix_cons _ _))
    · exact holding.record_ne_file _ _
    · exact fun same => different (List.cons.inj same).1
  refine
    { files_at := resolve_kept keeps holding.files_at holding.files_directory
      info_at := resolve_kept keeps holding.info_at holding.info_directory
      files_directory := keeps _ _ holding.files_directory (by simp)
      info_directory := keeps _ _ holding.info_directory (by simp)
      different := holding.different
      stands := ?_, only_files := ?_, only_records := ?_ }
  · intro other deleted found
    by_cases same : other = id
    · rw [same, Function.update_self] at found
      rw [same]
      exact own deleted found
    · rw [Function.update_of_ne same] at found
      rcases holding.stands other deleted found with ⟨inode, number, name, place, stands⟩
      have record_different : other ++ ascii ".info" ≠ id ++ ascii ".info" :=
        fun equal => same (List.append_cancel_right equal)
      exact ⟨inode, number, name, place, stands.frame keeps (file_kept other same)
        (record_kept _ record_different) data⟩
  · intro other exists_file
    by_cases same : other = id
    · rw [same] at exists_file
      rw [same, Function.update_self]
      exact fun nothing => exists_file (gone nothing).1
    · rw [file_kept other same] at exists_file
      rw [Function.update_of_ne same]
      exact holding.only_files other exists_file
  · intro other exists_record
    by_cases same : other = id ++ ascii ".info"
    · rw [same] at exists_record
      refine ⟨id, ?_, same⟩
      rw [Function.update_self]
      exact fun nothing => exists_record (gone nothing).2
    · rw [record_kept other same] at exists_record
      rcases holding.only_records other exists_record with ⟨old, stored, rfl⟩
      have different : old ≠ id := by
        rintro rfl
        exact same rfl
      exact ⟨old, by rwa [Function.update_of_ne different], rfl⟩

/-- An id is taken out with its two files. -/
theorem without (holding : Holding fs base map files info) (keeps : fs.Keeps fs')
    (data : fs'.data = fs.data) (gone_file : fs'.tree (id :: files) = none)
    (gone_record : fs'.tree ((id ++ ascii ".info") :: info) = none)
    (others : ∀ entry, entry ≠ id :: files → entry ≠ (id ++ ascii ".info") :: info →
      files <:+ entry ∨ info <:+ entry → fs'.tree entry = fs.tree entry) :
    Holding fs' base (Function.update map id none) files info := by
  apply holding.changed keeps (fun _ _ => by rw [data]) others
  · intro deleted nothing
    cases nothing
  · intro _
    exact ⟨gone_file, gone_record⟩

/-- A purge takes out its id. -/
theorem purged (holding : Holding fs base map files info) (absolute : base.head? = some slash)
    (stored : map id ≠ none) (granted : removal.Granted) :
    ∃ after, cmdPurge fs cwd removal base id = (0, after) ∧
      Holding after base (Function.update map id none) files info := by
  rcases Option.ne_none_iff_exists'.mp stored with ⟨deleted, found⟩
  rcases holding.stands id deleted found with ⟨inode, number, name, place, stands⟩
  rcases (holding.foundAt absolute stands).cmdPurge_eq granted.file granted.record with
    ⟨after, purged, tree_eq, data, -⟩
  have keeps : fs.Keeps after := by
    apply keeps_of_files
    intro other
    rw [tree_eq]
    by_cases gone : other = id :: files ∨ other = (id ++ ascii ".info") :: info
    · rcases gone with rfl | rfl
      · exact .inr (.inr ⟨inode, stands.file⟩)
      · exact .inr (.inr ⟨number, stands.record⟩)
    · exact .inl (if_neg gone)
  refine ⟨after, purged, holding.without keeps data ?_ ?_ ?_⟩
  · rw [tree_eq, if_pos (.inl rfl)]
  · rw [tree_eq, if_pos (.inr rfl)]
  · intro other not_file not_record _
    rw [tree_eq, if_neg (not_or.mpr ⟨not_file, not_record⟩)]

/-- `cmd_restore` takes out its id and puts the content back. -/
theorem restored (holding : Holding fs base map files info) (absolute : base.head? = some slash)
    (found : map id = some deleted) (free : fs.Free cwd deleted.path) :
    ∃ after, cmdRestore fs cwd base id = (0, after) ∧
      after.readFile cwd deleted.path = some deleted.content ∧
      Holding after base (Function.update map id none) files info := by
  rcases holding.stands id deleted found with ⟨inode, number, name, place, stands⟩
  have named : fs.entryOf cwd deleted.path = some (name, place) := stands.path_named
  have free : fs.tree (name :: place) = none := by
    rcases free with ⟨_, _, named', free⟩
    rcases entryOf_unique named named' with ⟨rfl, rfl⟩
    exact free
  rcases (holding.foundAt absolute stands).cmdRestore_eq stands.scanned named free
    stands.path_unslashed stands.named with ⟨after, restored, tree_eq, data, -⟩
  have not_file : id :: files ≠ name :: place := by
    intro same
    apply stands.outside_files
    rw [← same]
    exact List.suffix_cons _ _
  have not_record : (id ++ ascii ".info") :: info ≠ name :: place := by
    intro same
    apply stands.outside_info
    rw [← same]
    exact List.suffix_cons _ _
  have keeps : fs.Keeps after := by
    apply keeps_of_files
    intro other
    rw [tree_eq]
    by_cases back : other = name :: place
    · exact .inr (.inl (back ▸ free))
    rw [if_neg back]
    by_cases gone : other = id :: files ∨ other = (id ++ ascii ".info") :: info
    · rcases gone with rfl | rfl
      · exact .inr (.inr ⟨inode, stands.file⟩)
      · exact .inr (.inr ⟨number, stands.record⟩)
    · exact .inl (if_neg gone)
  have there : after.tree (name :: place) = some (.file inode) := (tree_eq _).trans (if_pos rfl)
  refine ⟨after, restored, ?_, holding.without keeps data ?_ ?_ ?_⟩
  · have resolved := resolve_of_entryOf (entryOf_kept keeps named) (.inr ⟨inode, there⟩)
      stands.path_unslashed
    rw [readFile_of_resolve resolved there, data, stands.content]
  · rw [tree_eq, if_neg not_file, if_pos (.inl rfl)]
  · rw [tree_eq, if_neg not_record, if_pos (.inr rfl)]
  · intro other other_file other_record inside
    have not_place : other ≠ name :: place := by
      rintro rfl
      rcases inside with in_files | in_info
      · exact stands.outside_files in_files
      · exact stands.outside_info in_info
    rw [tree_eq, if_neg not_place, if_neg (not_or.mpr ⟨other_file, other_record⟩)]

/-- A file that is moved to the place of a new id with a record beside it adds the id. -/
theorem added (holding : Holding fs base map files info) (fresh : map id = none)
    (fits : Fits base id) (short : id.length ≤ 63) (valid : ValidName id)
    (file : fs.tree (name :: place) = some (.file inode)) (outside_files : ¬files <:+ name :: place)
    (outside_info : ¬info <:+ name :: place)
    (path_short : (pathString (name :: place)).length ≤ 241)
    (unbroken : newline ∉ pathString (name :: place))
    (tree_eq : ∀ other, after.tree other =
      if other = (id ++ ascii ".info") :: info then some (.file number)
      else if other = id :: files then some (.file inode)
      else if other = name :: place then none
      else fs.tree other)
    (data : ∀ inode < fs.fresh, after.data inode = fs.data inode)
    (text : ∃ time size, after.data number = recordText (pathString (name :: place)) time size) :
    Holding after base
      (Function.update map id (some ⟨fs.data inode, pathString (name :: place)⟩)) files info := by
  have keeps : fs.Keeps after := by
    apply keeps_of_files
    intro other
    rw [tree_eq]
    by_cases at_record : other = (id ++ ascii ".info") :: info
    · exact .inr (.inl (at_record ▸ holding.free_record fresh))
    by_cases at_file : other = id :: files
    · exact .inr (.inl (at_file ▸ holding.free_file fresh))
    by_cases at_source : other = name :: place
    · exact .inr (.inr ⟨inode, at_source ▸ file⟩)
    · exact .inl (by rw [if_neg at_record, if_neg at_file, if_neg at_source])
  have others : ∀ other, other ≠ id :: files → other ≠ (id ++ ascii ".info") :: info →
      files <:+ other ∨ info <:+ other → after.tree other = fs.tree other := by
    intro other not_file not_record inside
    have not_source : other ≠ name :: place := by
      rintro rfl
      rcases inside with in_files | in_info
      · exact outside_files in_files
      · exact outside_info in_info
    rw [tree_eq, if_neg not_record, if_neg not_file, if_neg not_source]
  have above : fs.tree place = some .directory := fs.closed (ne_none_of_eq_some file)
  have new_file : after.tree (id :: files) = some (.file inode) := by
    rw [tree_eq, if_neg (holding.record_ne_file _ _).symm, if_pos rfl]
  have new : Stands after base files info id ⟨fs.data inode, pathString (name :: place)⟩ inode
      number name place :=
    { fits, short, valid, path_short, unbroken, outside_files, outside_info, text
      file := new_file
      content := data inode (fs.allocated file rfl)
      record := (tree_eq _).trans (if_pos rfl)
      path_eq := rfl
      above := keeps place _ above (by simp)
      named := fs.named (ne_none_of_eq_some file) }
  apply holding.changed keeps data others
  · intro deleted same
    cases same
    exact ⟨inode, number, name, place, new⟩
  · intro nothing
    cases nothing

/-- The loop of `cmd_purge_all` takes out the ids that it reads. -/
theorem purgedNames {removal : Bytes → Removal} {names : List Name} {status : ℕ}
    (holding : Holding fs base map files info) (absolute : base.head? = some slash)
    (granted : ∀ id, (removal id).Granted)
    (stored : ∀ id ∈ names.filterMap idOfRecord, map id ≠ none)
    (distinct : (names.filterMap idOfRecord).Nodup) :
    ∃ after map', purgeNames cwd removal base names (status, fs) = some (status, after) ∧
      Holding after base map' files info ∧
      ∀ id, map' id ≠ none → id ∉ names.filterMap idOfRecord ∧ map id ≠ none := by
  induction names generalizing fs map with
  | nil => exact ⟨fs, map, rfl, holding, fun id kept => ⟨List.not_mem_nil, kept⟩⟩
  | cons name rest ih =>
      unfold purgeNames
      cases recovered : idOfRecord name with
      | none =>
          rw [List.filterMap_cons_none recovered] at stored distinct ⊢
          exact ih holding stored distinct
      | some id =>
          rw [List.filterMap_cons_some recovered] at stored distinct ⊢
          rcases List.nodup_cons.mp distinct with ⟨not_later, distinct⟩
          have stored_id := stored id List.mem_cons_self
          rcases Option.ne_none_iff_exists'.mp stored_id with ⟨deleted, found⟩
          rcases holding.stands id deleted found with ⟨inode, number, name, place, stands⟩
          have short : id.length < 64 := Nat.lt_succ_of_le stands.short
          rcases holding.purged absolute stored_id (granted id) with ⟨left, purged, left_holding⟩
          have later : ∀ other ∈ rest.filterMap idOfRecord,
              Function.update map id none other ≠ none := by
            intro other other_mem
            have different : other ≠ id := by
              rintro rfl
              exact not_later other_mem
            rw [Function.update_of_ne different]
            exact stored other (List.mem_cons_of_mem _ other_mem)
          rcases ih left_holding later distinct with ⟨after, map', ran, after_holding, left_over⟩
          refine ⟨after, map', ?_, after_holding, ?_⟩
          · simp only [if_pos short]
            rw [purged]
            exact ran
          · intro other kept
            rcases left_over other kept with ⟨not_in_rest, still⟩
            have different : other ≠ id := by
              rintro rfl
              exact still (Function.update_self _ _ _)
            rw [Function.update_of_ne different] at still
            exact ⟨List.not_mem_cons_of_ne_of_not_mem different not_in_rest, still⟩

end Holding

end Osis.CourseWork
