import Osis.CourseWork.Deletion
import Osis.CourseWork.TrashctlEffects

/-!
# Deleting and restoring

A deletion records `realpath` of the deleted path, which follows a symbolic link, and
renames the path itself, which does not. `cmd_restore` renames the entry back to what
the record's first line says. `restored_iff` says when this undoes the deletion: the
recorded path, cut at its first newline, has to name the place of the deleted entry.
It does for regular files without a newline in their path (`leadsBack_of_file`) and
does not for symbolic links (`not_leadsBack_of_link`), whose target is overwritten.
-/

namespace Osis.CourseWork

open Posix Posix.FileSystem

/-- The places at and below the directories of the trash. -/
def InTrash (fs : FileSystem) (cwd : Location) (base : Bytes) (place : Location) : Prop :=
  ∃ path, (path = trashDir base ∨ path = trashFiles base ∨ path = trashInfo base) ∧
    ∃ top, fs.resolve cwd path = some top ∧ top <:+ place

namespace TrashedAs

variable {fs before after : FileSystem} {cwd : Location} {base id text : Bytes}
  {source target record : Location}

/-- A deletion leaves every other entry alone. -/
theorem agree (trashed : TrashedAs before after cwd base id source target record text) :
    before.Agree after := by
  intro place exists_before exists_after
  rw [trashed.tree_eq] at exists_after ⊢
  by_cases at_record : place = record
  · exact absurd trashed.record_free (at_record ▸ exists_before)
  by_cases at_target : place = target
  · exact absurd trashed.target_free (at_target ▸ exists_before)
  rw [if_neg at_record, if_neg at_target] at exists_after ⊢
  split
  · rename_i at_source
    exact absurd (if_pos at_source) exists_after
  · rfl

theorem source_moved (trashed : TrashedAs before after cwd base id source target record text) :
    after.tree source = none := by
  have apart : source ≠ target := by
    rintro rfl
    exact trashed.source_exists trashed.target_free
  rw [trashed.tree_eq, if_neg trashed.record_ne_source.symm, if_neg apart, if_pos rfl]

theorem record_found (trashed : TrashedAs before after cwd base id source target record text) :
    after.tree record = some (.file before.fresh) := by
  rw [trashed.tree_eq, if_pos rfl]

theorem target_found (trashed : TrashedAs before after cwd base id source target record text) :
    after.tree target = before.tree source := by
  rw [trashed.tree_eq, if_neg trashed.record_ne_target.symm, if_pos rfl]

/-- The record is found under its path. -/
theorem resolve_record (trashed : TrashedAs before after cwd base id source target record text) :
    after.resolve cwd (infoPath base id) = some record := by
  rcases trashed.record_named with ⟨name, place, rfl, named⟩
  exact resolve_of_entryOf named (Or.inr ⟨_, trashed.record_found⟩)
    (infoPath_unslashed trashed.fits)

theorem readFile_record (trashed : TrashedAs before after cwd base id source target record text) :
    after.readFile cwd (infoPath base id) = some text := by
  rw [readFile_of_resolve trashed.resolve_record trashed.record_found, trashed.data_record]

theorem components_infoPath
    (trashed : TrashedAs before after cwd base id source target record text) :
    components (infoPath base id) =
      components (base ++ ascii "/.trash/info") ++ [id ++ ascii ".info"] := by
  rw [infoPath_of_fits trashed.fits, components_append_name (by simp [ascii])]
  intro slash_mem
  rcases List.mem_append.mp slash_mem with in_id | in_suffix
  · exact trashed.id_no_slash in_id
  · exact absurd in_suffix (by decide)

/-- The record is in the directory `info` of the trash. -/
theorem resolve_trashInfo
    (trashed : TrashedAs before after cwd base id source target record text) :
    ∃ top, after.resolve cwd (trashInfo base) = some top ∧ top <:+ record := by
  rcases trashed.record_named with ⟨name, place, rfl, named⟩
  rcases entryOf_eq_some.mp named with ⟨-, short, -, -, -, front, split_eq, walked⟩
  rw [trashed.components_infoPath] at split_eq
  rcases List.append_inj' split_eq rfl with ⟨rfl, -⟩
  rw [infoPath_of_fits trashed.fits] at short walked
  refine ⟨place, ?_, List.suffix_cons _ _⟩
  rw [trashInfo_of_fits trashed.fits, resolve_eq_some, steps_of_not_endsInSlash
    (endsInSlash_append (by decide) (by decide))]
  refine ⟨by simp [ascii], ?_, ?_⟩
  · simp only [List.length_append, List.length_cons] at short ⊢
    omega
  · rw [← walked]
    congr 1
    exact (startOf_append (by simp [ascii]) _).symm

/-- The trash is where its path led before. -/
theorem resolve_trashDir
    (trashed : TrashedAs before after cwd base id source target record text) :
    ∃ top, after.resolve cwd (trashDir base) = some top := by
  rcases trashed.resolve_trashInfo with ⟨info, resolved, -⟩
  exact resolve_trashDir_of_info trashed.fits resolved

/-- The deleted entry is found in the trash. -/
theorem entryOf_filePath
    (trashed : TrashedAs before after cwd base id source target record text)
    {entry : Name × Location} (named : after.entryOf cwd (filePath base id) = some entry) :
    target = entry.1 :: entry.2 := by
  rcases trashed.target_named with ⟨name, place, rfl, before_named⟩
  rw [← entryOf_agree trashed.agree before_named named]

theorem target_leaf (trashed : TrashedAs before after cwd base id source target record text) :
    after.tree target ≠ some .directory := by
  rw [trashed.target_found]
  exact trashed.source_leaf

theorem target_exists (trashed : TrashedAs before after cwd base id source target record text) :
    after.tree target ≠ none := by
  rw [trashed.target_found]
  exact trashed.source_exists

end TrashedAs

section Record

theorem head?_origReal {fs : FileSystem} {cwd : Location} {path : Bytes}
    (absolute : path.head? = some slash) : (origReal fs cwd path).head? = some slash := by
  unfold origReal
  cases printed : fs.realpath cwd path with
  | none =>
      rw [Option.getD_none, List.head?_take, if_neg (by decide), absolute]
  | some text =>
      rcases realpath_eq_some.mp printed with ⟨found, -, rfl, -⟩
      rw [Option.getD_some, head?_pathString]

/-- The first line of an absolute path is read back whole if it is short enough. -/
theorem scanOriginal_recordText {origPath : Bytes} {time : LocalTime} {size : ℕ}
    (absolute : origPath.head? = some slash)
    (fits : 14 + (firstLine origPath).length ≤ 255) :
    scanOriginal (recordText origPath time size) = some (firstLine origPath) := by
  have nonempty : firstLine origPath ≠ [] := by
    cases origPath with
    | nil => cases absolute
    | cons byte rest =>
        cases absolute
        simp [firstLine, inLine, slash, newline]
  rw [scanOriginal_eq_take nonempty, List.take_of_length_le (by omega)]

/-- The path of a place is one line if its names are. -/
theorem firstLine_pathString {place : Location} (valid : ∀ name ∈ place, ValidName name)
    (plain : ∀ name ∈ place, newline ∉ name) :
    firstLine (pathString place) = pathString place := by
  apply firstLine_eq_self
  intro byte byte_mem
  rcases mem_pathString byte_mem with rfl | ⟨name, name_mem, here⟩
  · decide
  · have not_newline : byte ≠ newline := by
      rintro rfl
      exact plain name name_mem here
    have not_nul : byte ≠ 0 := by
      rintro rfl
      exact (valid name name_mem).no_nul here
    simp [inLine, not_newline, not_nul]

end Record

section Undoing

variable {before after : FileSystem} {cwd place : Location} {base id text original : Bytes}
  {name : Name} {target record : Location}

/-- `cmd_restore` puts something back at a place only if the recorded path names it. -/
theorem named_of_restored
    (trashed : TrashedAs before after cwd base id (name :: place) target record text)
    (scanned : scanOriginal text = some original)
    (restored : (cmdRestore after cwd base id).2.tree (name :: place) ≠ none) :
    (∃ entry, after.entryOf cwd (filePath base id) = some entry) ∧
      after.entryOf cwd original = some (name, place) ∧ endsInSlash original = false := by
  have moved_away := trashed.source_moved
  unfold cmdRestore at restored
  rw [trashed.readFile_record] at restored
  simp only [scanned] at restored
  split at restored
  · cases renamed : after.rename cwd (filePath base id) original with
    | none =>
        rw [renamed] at restored
        exact absurd moved_away restored
    | some moved =>
        simp only [renamed] at restored
        have kept := tree_unlink_getD restored
        rw [kept] at restored
        rcases rename_eq_some renamed with ⟨oldName, oldPlace, newName, newPlace, node, old_named,
          new_named, found, slashes, ⟨-, rfl⟩ | ⟨-, -, -, above, valid, apart, rfl⟩⟩
        · exact absurd moved_away restored
        · have target_eq := trashed.entryOf_filePath old_named
          have leaf : node ≠ .directory := by
            rintro rfl
            exact trashed.target_leaf (target_eq ▸ found)
          refine ⟨⟨_, old_named⟩, ?_, (slashes leaf).2⟩
          -- nothing stands below the deleted entry, so that it comes back itself
          rw [tree_move, ← target_eq] at restored
          split at restored
          · next inside =>
              rcases inside with ⟨within, within_eq⟩
              rw [← within_eq, origin_append] at restored
              have itself := eq_of_suffix trashed.target_leaf restored ⟨within, rfl⟩
              rw [List.self_eq_append_left.mp itself, List.nil_append] at within_eq
              rw [new_named, (List.cons.inj within_eq).1, (List.cons.inj within_eq).2]
          · split at restored
            · exact absurd rfl restored
            · exact absurd moved_away restored
  · exact absurd moved_away restored

/-- If the recorded path names the place of the deleted entry, `cmd_restore` moves it back. -/
theorem cmdRestore_of_named
    (trashed : TrashedAs before after cwd base id (name :: place) target record text)
    (scanned : scanOriginal text = some original)
    (file_named : ∃ entry, after.entryOf cwd (filePath base id) = some entry)
    (named : after.entryOf cwd original = some (name, place))
    (unslashed : endsInSlash original = false) :
    (∀ other ≠ record, (cmdRestore after cwd base id).2.tree other =
      if other = name :: place then before.tree (name :: place)
      else if other = target then none
      else after.tree other) ∧
    (cmdRestore after cwd base id).2.data = after.data := by
  rcases file_named with ⟨⟨oldName, oldPlace⟩, old_named⟩
  have target_eq := trashed.entryOf_filePath old_named
  subst target_eq
  rcases cmdRestore_moves trashed.readFile_record scanned old_named trashed.target_exists
    trashed.target_leaf trashed.target_unslashed named trashed.source_moved unslashed
    (before.named trashed.source_exists) with ⟨moved, moved_tree, moved_data, -, restored⟩
  rw [trashed.target_found] at moved_tree
  rw [restored]
  -- the record is the only entry that goes on the way
  cases removed : moved.unlink cwd (infoPath base id) with
  | none => exact ⟨fun other _ => moved_tree other, moved_data⟩
  | some final =>
      rcases unlink_eq_some.mp removed with ⟨infoName, infoPlace, info_named, -, leaf, -, rfl⟩
      have agree : after.Agree moved := by
        intro other exists_after exists_moved
        rw [moved_tree] at exists_moved ⊢
        split at exists_moved
        · next here => exact absurd trashed.source_moved (here ▸ exists_after)
        · next elsewhere =>
            rw [if_neg elsewhere]
            split at exists_moved
            · exact absurd rfl exists_moved
            · next stays => rw [if_neg stays]
      rcases trashed.record_named with ⟨recordName, recordPlace, rfl, record_named⟩
      rcases Prod.mk.inj (entryOf_agree agree record_named info_named) with ⟨rfl, rfl⟩
      refine ⟨fun other different => ?_, by rw [Option.getD_some, data_remove, moved_data]⟩
      rw [Option.getD_some, tree_remove_leaf leaf, if_neg different, moved_tree]

end Undoing

section Identity

/-- The entry is back in its place, and outside the trash nothing has changed. -/
structure Restored (before deleted final : FileSystem) (cwd : Location) (base : Bytes)
    (place : Location) : Prop where
  entry : final.tree place = before.tree place
  others : ∀ other ≠ place, ¬InTrash deleted cwd base other →
    final.tree other = before.tree other
  contents : ∀ inode < before.fresh, final.data inode = before.data inode

/-- Without the deleted entry, the first line of the recorded path names the place of this
entry, and the path of the file in the trash still leads there. -/
def LeadsBack (fs : FileSystem) (cwd : Location) (base path id : Bytes) (name : Name)
    (place : Location) : Prop :=
  let ensured := ensureDirectories fs cwd base
  let gone := ensured.remove (name :: place) (List.cons_ne_nil _ _)
  let original := firstLine (origReal ensured cwd path)
  (∃ entry, gone.entryOf cwd (filePath base id) = some entry) ∧
    gone.entryOf cwd original = some (name, place) ∧ endsInSlash original = false

variable {fs after : FileSystem} {cwd place : Location} {base path id : Bytes} {name : Name}
  {node : Node} {answers : Answers}

theorem resolve_origReal (found : (fs.stat cwd path).isSome) :
    ∃ place, fs.resolve cwd (origReal fs cwd path) = some place := by
  rcases Option.isSome_iff_exists.mp found with ⟨node, stated⟩
  rcases Option.bind_eq_some_iff.mp stated with ⟨place, resolved, -⟩
  unfold origReal
  cases printed : fs.realpath cwd path with
  | none =>
      have short := (resolve_eq_some.mp resolved).2.1
      rw [Option.getD_none, List.take_of_length_le (by omega)]
      exact ⟨place, resolved⟩
  | some text =>
      rcases realpath_eq_some.mp printed with ⟨there, resolved_there, rfl, short⟩
      exact ⟨there, resolve_pathString (isPlain_of_resolve resolved_there) short⟩

/-- The directory of the trash is the one in which `files` and `info` are made. -/
theorem resolve_trashDir_of_below {sub last : Bytes} (fits : Fits base id)
    (split_eq : components (base ++ slash :: sub) =
      components (base ++ ascii "/.trash") ++ [last])
    (named : fs.entryOf cwd (base ++ slash :: sub) = some (name, place)) :
    fs.resolve cwd (trashDir base) = some place := by
  rcases entryOf_eq_some.mp named with ⟨-, -, -, -, -, front, split_eq', walked⟩
  rw [split_eq] at split_eq'
  rcases List.append_inj' split_eq' rfl with ⟨rfl, -⟩
  have dirLength : (ascii "/.trash").length = 7 := by decide
  have short := fits_iff.mp fits
  rw [trashDir_of_fits fits, resolve_eq_some,
    steps_of_not_endsInSlash (endsInSlash_append (by decide) (by decide))]
  refine ⟨by simp [ascii], ?_, ?_⟩
  · rw [List.length_append, dirLength]
    omega
  · rw [← walked]
    congr 1
    exact startOf_append_slash base _ _

/-- What `ensure_directories` has made is in the trash. -/
theorem tree_ensured {target record : Location} {text : Bytes}
    (trashed : TrashedAs (ensureDirectories fs cwd base) after cwd base id (name :: place) target
      record text)
    {other : Location} (outside : ¬InTrash after cwd base other) :
    (ensureDirectories fs cwd base).tree other = fs.tree other := by
  by_contra changed
  rcases (ensureDirectories_spec fs cwd base).2.2.2 other changed with
    ⟨directory, made, made_eq, made_name, made_place, rfl, made_named⟩
  rcases trashed.resolve_trashDir with ⟨top, resolved⟩
  apply outside
  refine ⟨trashDir base, .inl rfl, top, resolved, ?_⟩
  -- the directory of the trash is the entry made or the one it was made in
  have before_resolved : ∃ bottom, (ensureDirectories fs cwd base).resolve cwd (trashDir base) =
      some bottom ∧ bottom <:+ made_name :: made_place := by
    rcases made_eq with rfl | rfl | rfl
    · refine ⟨_, resolve_of_entryOf made_named (.inl directory) ?_, List.suffix_refl _⟩
      rw [trashDir_of_fits trashed.fits]
      exact endsInSlash_append (by decide) (by decide)
    · rw [trashFiles_of_fits trashed.fits] at made_named
      exact ⟨made_place, resolve_trashDir_of_below trashed.fits (components_files base) made_named,
        List.suffix_cons _ _⟩
    · rw [trashInfo_of_fits trashed.fits] at made_named
      exact ⟨made_place, resolve_trashDir_of_below trashed.fits (components_info base) made_named,
        List.suffix_cons _ _⟩
  rcases before_resolved with ⟨bottom, before_resolved, below⟩
  have same := walk_agree trashed.agree (resolve_eq_some.mp before_resolved).2.2
    (resolve_eq_some.mp resolved).2.2
  exact same ▸ below

/-- Restoring undoes a deletion exactly if the record leads back to the deleted entry. -/
theorem restored_iff (absolute : path.head? = some slash)
    (entry : fs.entryOf cwd path = some (name, place)) (unslashed : endsInSlash path = false)
    (found : fs.tree (name :: place) = some node) (leaf : node ≠ .directory)
    (deleted : moveToTrash fs cwd base answers path = (.moved id true, after))
    (fresh : FreshId fs cwd base path id)
    (fits : 14 + (firstLine (origReal (ensureDirectories fs cwd base) cwd path)).length ≤ 255)
    (free : after.tree (name :: place) = none) :
    Restored fs after (cmdRestore after cwd base id).2 cwd base (name :: place) ↔
      LeadsBack fs cwd base path id name place := by
  rcases trashedAs_of_moved entry unslashed found leaf deleted fresh free with
    ⟨target, record, size, trashed⟩
  rcases moveToTrash_moved deleted with ⟨_, _, stated, -⟩
  rcases resolve_origReal (Option.isSome_iff_exists.mpr ⟨_, stated⟩) with ⟨whole, resolved⟩
  have scanned : scanOriginal (recordText (origReal (ensureDirectories fs cwd base) cwd path)
      answers.time size) = some (firstLine (origReal (ensureDirectories fs cwd base) cwd path)) :=
    scanOriginal_recordText (head?_origReal absolute) fits
  have ensured_found : (ensureDirectories fs cwd base).tree (name :: place) =
      fs.tree (name :: place) :=
    ensureDirectories_extends _ (ne_none_of_eq_some found)
  have gone_tree : ∀ other, ((ensureDirectories fs cwd base).remove (name :: place)
      (List.cons_ne_nil _ _)).tree other =
        if other = name :: place then none else (ensureDirectories fs cwd base).tree other :=
    fun _ => tree_remove_leaf trashed.source_leaf
  unfold LeadsBack
  simp only
  generalize (ensureDirectories fs cwd base).remove (name :: place) (List.cons_ne_nil _ _) = gone
    at gone_tree ⊢
  constructor
  · intro restored
    have back : (cmdRestore after cwd base id).2.tree (name :: place) ≠ none := by
      rw [restored.entry, found]
      exact Option.some_ne_none _
    rcases named_of_restored trashed scanned back with ⟨⟨entry, file_named⟩, named, unslashed'⟩
    have shares : gone.Shares (ensureDirectories fs cwd base) after := by
      intro other _ exists_after
      rw [gone_tree, if_neg]
      rintro rfl
      exact exists_after trashed.source_moved
    rcases trashed.target_named with ⟨_, _, -, target_named⟩
    refine ⟨⟨_, (entryOf_common trashed.agree shares target_named file_named).1⟩, ?_, unslashed'⟩
    rcases entryOf_eq_some.mp named with ⟨-, -, ne_dot, ne_dotDot, -, front, split_eq, -⟩
    rcases entryOf_of_prefix resolved (List.takeWhile_prefix _) unslashed' split_eq ne_dot
      ne_dotDot with ⟨ensured_place, ensured_named⟩
    rcases entryOf_common trashed.agree shares ensured_named named with ⟨gone_named, -, rfl⟩
    exact gone_named
  · rintro ⟨⟨entry, file_named⟩, named, unslashed'⟩
    have kept : gone.Extends after := by
      intro other exists_gone
      have beside : other ≠ name :: place := by
        rintro rfl
        rw [gone_tree, if_pos rfl] at exists_gone
        exact exists_gone rfl
      rw [gone_tree, if_neg beside] at exists_gone ⊢
      rw [trashed.tree_eq, if_neg, if_neg, if_neg beside]
      · rintro rfl
        exact exists_gone trashed.target_free
      · rintro rfl
        exact exists_gone trashed.record_free
    rcases cmdRestore_of_named trashed scanned ⟨entry, entryOf_kept kept.keeps file_named⟩
      (entryOf_kept kept.keeps named) unslashed' with ⟨final_tree, final_data⟩
    refine ⟨?_, ?_, ?_⟩
    · rw [final_tree _ trashed.record_ne_source.symm, if_pos rfl, ensured_found]
    · intro other different outside
      have not_record : other ≠ record := by
        rintro rfl
        rcases trashed.resolve_trashInfo with ⟨top, resolved_info, inside⟩
        exact outside ⟨_, .inr (.inr rfl), top, resolved_info, inside⟩
      have ensured := tree_ensured trashed outside
      rw [final_tree _ not_record, if_neg different]
      split
      · next here => rw [← ensured, here, trashed.target_free]
      · next elsewhere =>
          rw [trashed.tree_eq, if_neg not_record, if_neg elsewhere, if_neg different, ensured]
    · intro inode old
      rw [final_data, trashed.data_old inode (by rwa [fresh_ensureDirectories]),
        data_ensureDirectories]

/-- The record of a regular file leads back to it. -/
theorem leadsBack_of_file {inode : ℕ} (entry : fs.entryOf cwd path = some (name, place))
    (unslashed : endsInSlash path = false) (file : fs.tree (name :: place) = some (.file inode))
    (fresh : FreshId fs cwd base path id) (plain : ∀ other ∈ name :: place, newline ∉ other)
    (short : (pathString (name :: place)).length < pathMax) :
    LeadsBack fs cwd base path id name place := by
  have extended : fs.Extends (ensureDirectories fs cwd base) := ensureDirectories_extends
  have exists_entry := ne_none_of_eq_some file
  have entry := entryOf_kept extended.keeps entry
  have file : (ensureDirectories fs cwd base).tree (name :: place) = some (.file inode) := by
    rw [extended _ exists_entry, file]
  have exists_entry := ne_none_of_eq_some file
  rcases fresh.file with ⟨_, _, file_named, -⟩
  unfold LeadsBack
  simp only
  generalize ensureDirectories fs cwd base = ensured at *
  have keeps : ensured.Keeps (ensured.remove (name :: place) (List.cons_ne_nil _ _)) := by
    intro other node there not_file
    rw [tree_remove_leaf (by rw [file]; simp), if_neg]
    · exact there
    · rintro rfl
      rw [file, Option.some.injEq] at there
      exact not_file inode there.symm
  have recorded : origReal ensured cwd path = pathString (name :: place) := by
    have resolved := resolve_of_entryOf entry (.inr ⟨inode, file⟩) unslashed
    rw [origReal, realpath_eq_some.mpr ⟨_, resolved, rfl, short⟩, Option.getD_some]
  have valid := validName_of_mem exists_entry
  rw [recorded, firstLine_pathString valid plain]
  refine ⟨⟨_, entryOf_kept keeps file_named⟩, ?_,
    endsInSlash_pathString (valid name List.mem_cons_self)⟩
  exact entryOf_kept keeps (entryOf_pathString (ensured.closed exists_entry)
    (valid name List.mem_cons_self) short)

/-- The record of a symbolic link leads to its target. -/
theorem not_leadsBack_of_link {inode : ℕ} {target : Bytes} {there : Location}
    (link : fs.tree (name :: place) = some (.link inode target))
    (resolved : (ensureDirectories fs cwd base).resolve cwd path = some there)
    (plain : ∀ other ∈ there, newline ∉ other) (short : (pathString there).length < pathMax) :
    ¬LeadsBack fs cwd base path id name place := by
  rintro ⟨-, named, -⟩
  have plain_there := isPlain_of_resolve resolved
  have exists_there : (ensureDirectories fs cwd base).tree there ≠ none := by
    rcases plain_there with directory | ⟨inode, file⟩
    · exact ne_none_of_eq_some directory
    · exact ne_none_of_eq_some file
  have ensured_link : (ensureDirectories fs cwd base).tree (name :: place) =
      some (.link inode target) := by
    rw [ensureDirectories_extends _ (ne_none_of_eq_some link), link]
  generalize ensureDirectories fs cwd base = ensured at *
  have valid := validName_of_mem exists_there
  rw [origReal, realpath_eq_some.mpr ⟨_, resolved, rfl, short⟩, Option.getD_some,
    firstLine_pathString valid plain] at named
  cases there with
  | nil =>
      rcases entryOf_eq_some.mp named with ⟨-, -, -, -, -, front, split_eq, -⟩
      rw [show components (pathString []) = [] by decide] at split_eq
      simp at split_eq
  | cons last above =>
      have agree : (ensured.remove (name :: place) (List.cons_ne_nil _ _)).Agree ensured := by
        intro other exists_gone _
        rw [tree_remove] at exists_gone ⊢
        split at exists_gone
        · exact absurd rfl exists_gone
        · next beside => rw [if_neg beside]
      have ensured_named : ensured.entryOf cwd (pathString (last :: above)) = some (last, above) :=
        entryOf_pathString (ensured.closed exists_there) (valid last List.mem_cons_self) short
      rcases Prod.mk.inj (entryOf_agree agree named ensured_named) with ⟨rfl, rfl⟩
      rcases plain_there with directory | ⟨inode, file⟩
      · rw [ensured_link] at directory
        simp at directory
      · rw [ensured_link] at file
        simp at file

end Identity

section Examples

theorem validName_a : ValidName (ascii "a") := by decide

theorem validName_l : ValidName (ascii "l") := by decide

/-- A file `/a` and a symbolic link `/l` to it. -/
def fileAndLink : FileSystem :=
  let withFile := (bare.create (ascii "a") [] rfl bare.root validName_a).write 0 [1]
  withFile.allocate.insert (ascii "l") [] (.link 1 (ascii "/a")) rfl rfl validName_l (by
    intro inode inode_eq
    cases inode_eq
    exact Nat.lt_succ_self _)

/-- What the C library answers to a deletion in the first second. -/
def firstAnswers : Answers := ⟨1, 0, ⟨1970, 1, 1, 0, 0, 1⟩, 0⟩

/-- The deletion of a path with the trash in the root directory, and its id. -/
def deletion (path : Bytes) : Outcome × FileSystem :=
  moveToTrash fileAndLink [] (ascii ".") firstAnswers path

def firstId : Bytes := ascii "1_00000"

def firstRecord : Name := firstId ++ ascii ".info"

/-- The places of the directories of a trash in the root directory. -/
def filesPlace : Location := [ascii "files", ascii ".trash"]

def infoPlace : Location := [ascii "info", ascii ".trash"]

theorem freshId_file : FreshId fileAndLink [] (ascii ".") (ascii "/a") firstId := by
  have record : ∀ moved ∈ (ensureDirectories fileAndLink [] (ascii ".")).rename [] (ascii "/a")
      (filePath (ascii ".") firstId), moved.Free [] (infoPath (ascii ".") firstId) := by
    decide +kernel
  exact ⟨by decide, by decide +kernel, record⟩

/-- A regular file is deleted and restored. -/
theorem restored_file :
    (deletion (ascii "/a")).1 = .moved firstId true ∧
      Restored fileAndLink (deletion (ascii "/a")).2
        (cmdRestore (deletion (ascii "/a")).2 [] (ascii ".") firstId).2 [] (ascii ".")
        [ascii "a"] := by
  have moved : (deletion (ascii "/a")).1 = .moved firstId true := by decide +kernel
  have deleted : moveToTrash fileAndLink [] (ascii ".") firstAnswers (ascii "/a") =
      (.moved firstId true, (deletion (ascii "/a")).2) := Prod.ext moved rfl
  have entry : fileAndLink.entryOf [] (ascii "/a") = some (ascii "a", []) := by decide +kernel
  have file : fileAndLink.tree [ascii "a"] = some (.file 0) := by decide +kernel
  refine ⟨moved, (restored_iff rfl entry (by decide) file (by simp) deleted freshId_file
    (by decide +kernel) (by decide +kernel)).mpr ?_⟩
  exact leadsBack_of_file entry (by decide) file freshId_file (by decide) (by decide)

/-- A symbolic link is deleted; restoring puts it in the place of its target. -/
theorem not_restored_link :
    ¬ ∀ (fs after : FileSystem) (cwd place : Location) (base path id : Bytes) (name : Name)
      (node : Node) (answers : Answers),
      path.head? = some slash → fs.entryOf cwd path = some (name, place) →
      endsInSlash path = false → fs.tree (name :: place) = some node → node ≠ .directory →
      moveToTrash fs cwd base answers path = (.moved id true, after) →
      FreshId fs cwd base path id →
      14 + (firstLine (origReal (ensureDirectories fs cwd base) cwd path)).length ≤ 255 →
      after.tree (name :: place) = none →
      Restored fs after (cmdRestore after cwd base id).2 cwd base (name :: place) := by
  intro claimed
  have moved : (deletion (ascii "/l")).1 = .moved firstId true := by decide +kernel
  have deleted : moveToTrash fileAndLink [] (ascii ".") firstAnswers (ascii "/l") =
      (.moved firstId true, (deletion (ascii "/l")).2) := Prod.ext moved rfl
  have entry : fileAndLink.entryOf [] (ascii "/l") = some (ascii "l", []) := by decide +kernel
  have link : fileAndLink.tree [ascii "l"] = some (.link 1 (ascii "/a")) := by decide +kernel
  have record : ∀ moved ∈ (ensureDirectories fileAndLink [] (ascii ".")).rename [] (ascii "/l")
      (filePath (ascii ".") firstId), moved.Free [] (infoPath (ascii ".") firstId) := by
    decide +kernel
  have fresh : FreshId fileAndLink [] (ascii ".") (ascii "/l") firstId :=
    ⟨by decide, by decide +kernel, record⟩
  have restored := claimed _ _ [] [] (ascii ".") (ascii "/l") firstId (ascii "l") _ firstAnswers
    rfl entry (by decide) link (by simp) deleted fresh (by decide +kernel) (by decide +kernel)
  have gone : (cmdRestore (deletion (ascii "/l")).2 [] (ascii ".") firstId).2.tree [ascii "l"] =
      none := by decide +kernel
  have back := restored.entry
  rw [gone, link] at back
  cases back

end Examples

end Osis.CourseWork
