import Osis.CourseWork.TrashPaths

/-!
# What one deletion does to the files

A deletion that succeeds under a fresh id makes the directories of the trash where they
are missing, moves one entry to the place of the id and creates one file for its
record; every other place and every other content stay as they were.
-/

namespace Osis.CourseWork

open Posix Posix.FileSystem

variable {fs after : FileSystem} {cwd : Location} {base path id : Bytes} {answers : Answers}

theorem mem_of_mem_getFileExtension {filename extension : Bytes} {byte : UInt8}
    (has : getFileExtension filename = some extension) (byte_mem : byte ∈ extension) :
    byte ∈ filename := by
  simp only [getFileExtension, Option.ite_none_right_eq_some, Option.some.injEq] at has
  rcases has with ⟨-, rfl⟩
  exact List.mem_of_mem_drop byte_mem

/-- A generated name is one name: the extension comes from the last name of a path. -/
theorem no_slash_generateUniqueName (now : ℤ) (random : ℕ) (path : Bytes) :
    slash ∉ generateUniqueName now random (basename path) := by
  intro slash_mem
  have not_numeral : ¬IsNumeral slash := not_isNumeral_of_lt (by decide)
  have in_text := List.mem_of_mem_take slash_mem
  rcases List.mem_append.mp in_text with number | in_extension
  · rcases List.mem_append.mp number with front | random_mem
    · rcases List.mem_append.mp front with now_mem | underscore
      · exact not_numeral (isNumeral_of_mem_signed _ now_mem)
      · exact absurd underscore (by decide)
    · exact not_numeral (isNumeral_of_mem_padded _ random_mem)
  · cases has : getFileExtension (basename path) with
    | none => simp [has] at in_extension
    | some extension =>
        rw [has, Option.getD_some] at in_extension
        have in_base := mem_of_mem_getFileExtension has in_extension
        by_cases named : path.rdropWhile (· = slash) = []
        · have base_eq : basename path = dot ∨ basename path = [slash] := by
            unfold basename
            split
            · exact Or.inl rfl
            · exact Or.inr rfl
          rcases base_eq with base_eq | base_eq
          · rw [base_eq] at in_base
            exact absurd in_base (by decide)
          · rw [base_eq, show getFileExtension [slash] = none by decide] at has
            simp at has
        · exact no_slash_basename named in_base

/-- What a deletion that moves the entry has done, call by call. -/
theorem moveToTrash_moved {recorded : Bool}
    (deleted : moveToTrash fs cwd base answers path = (.moved id recorded, after)) :
    ∃ node moved, (ensureDirectories fs cwd base).stat cwd path = some node ∧
      ¬trashDir base <+: path ∧
      id = generateUniqueName answers.now answers.random (basename path) ∧
      (ensureDirectories fs cwd base).rename cwd (stripSlashes path) (filePath base id) =
        some moved ∧
      (recorded = true → writeInfoFile moved cwd base id
        (origReal (ensureDirectories fs cwd base) cwd path)
        (statSize (ensureDirectories fs cwd base) answers.directorySize node) answers.time =
          some after) := by
  unfold moveToTrash at deleted
  simp only at deleted
  split at deleted
  · simp at deleted
  rename_i node found_node
  split at deleted
  · split at deleted
    · simp at deleted
    · simp at deleted
  rename_i outside
  split at deleted
  · simp at deleted
  rename_i moved renamed
  split at deleted
  · simp only [Prod.mk.injEq, Outcome.moved.injEq] at deleted
    rcases deleted with ⟨⟨rfl, rfl⟩, rfl⟩
    exact ⟨node, moved, found_node, outside, rfl, renamed, by simp⟩
  · rename_i written_after written
    simp only [Prod.mk.injEq, Outcome.moved.injEq] at deleted
    rcases deleted with ⟨⟨rfl, rfl⟩, rfl⟩
    exact ⟨node, moved, found_node, outside, rfl, renamed, fun _ => written⟩

/-- Both places of an id are free when the deletion uses them, under paths that are not cut. -/
structure FreshId (fs : FileSystem) (cwd : Location) (base path id : Bytes) : Prop where
  fits : Fits base id
  file : (ensureDirectories fs cwd base).Free cwd (filePath base id)
  record : ∀ moved, (ensureDirectories fs cwd base).rename cwd path (filePath base id) =
    some moved → moved.Free cwd (infoPath base id)

/-- An entry was moved to `target` and a new file with its record created at `record`. -/
structure TrashedAs (before after : FileSystem) (cwd : Location) (base id : Bytes)
    (source target record : Location) (text : Bytes) : Prop where
  fits : Fits base id
  id_no_slash : slash ∉ id
  tree_eq : ∀ place, after.tree place =
    if place = record then some (.file before.fresh)
    else if place = target then before.tree source
    else if place = source then none
    else before.tree place
  data_record : after.data before.fresh = text
  data_old : ∀ inode < before.fresh, after.data inode = before.data inode
  fresh_eq : after.fresh = before.fresh + 1
  source_exists : before.tree source ≠ none
  source_leaf : before.tree source ≠ some .directory
  target_free : before.tree target = none
  record_free : before.tree record = none
  record_ne_target : record ≠ target
  record_ne_source : record ≠ source
  target_named : ∃ name place, target = name :: place ∧
    before.entryOf cwd (filePath base id) = some (name, place)
  target_unslashed : endsInSlash (filePath base id) = false
  record_named : ∃ name place, record = name :: place ∧
    after.entryOf cwd (infoPath base id) = some (name, place)

theorem infoPath_unslashed (fits : Fits base id) : endsInSlash (infoPath base id) = false := by
  rw [infoPath_of_fits fits, ← List.cons_append, ← List.append_assoc]
  exact endsInSlash_append (by decide) (by decide)

/-- A record whose place is free is a new file there. -/
theorem writeInfoFile_of_free {fs after : FileSystem} {origPath : Bytes} {size : ℕ}
    {time : LocalTime} {name : Name} {place : Location}
    (written : writeInfoFile fs cwd base id origPath size time = some after)
    (named : fs.entryOf cwd (infoPath base id) = some (name, place))
    (free : fs.tree (name :: place) = none)
    (unslashed : endsInSlash (infoPath base id) = false) :
    (∀ other, after.tree other =
      if other = name :: place then some (.file fs.fresh) else fs.tree other) ∧
    after.data fs.fresh = recordText origPath time size ∧
    (∀ inode < fs.fresh, after.data inode = fs.data inode) ∧ after.fresh = fs.fresh + 1 := by
  unfold writeInfoFile at written
  split at written
  · simp at written
  rename_i opened_fs inode opened
  rcases openWrite_of_free opened (openPlace_of_free named free unslashed) free with
    ⟨rfl, newName, newPlace, new_eq, free', above, valid, rfl⟩
  rcases List.cons.inj new_eq with ⟨rfl, rfl⟩
  cases written
  refine ⟨fun other => ?_, Function.update_self _ _ _, ?_, rfl⟩
  · rw [tree_write, tree_create]
  · intro inode old_inode
    rw [data_write, Function.update_of_ne (Nat.ne_of_lt old_inode)]
    exact data_create_of_lt old_inode

/-- A deletion under a fresh id moves the entry and records it elsewhere. -/
theorem trashedAs_of_apart {name : Name} {place : Location} {node : Node}
    (entry : fs.entryOf cwd path = some (name, place)) (unslashed : endsInSlash path = false)
    (found : fs.tree (name :: place) = some node) (leaf : node ≠ .directory)
    (deleted : moveToTrash fs cwd base answers path = (.moved id true, after))
    (fresh : FreshId fs cwd base path id)
    (apart : ∀ moved, (ensureDirectories fs cwd base).rename cwd path (filePath base id) =
      some moved → moved.entryOf cwd (infoPath base id) ≠ some (name, place)) :
    ∃ target record size, TrashedAs (ensureDirectories fs cwd base) after cwd base id
      (name :: place) target record
      (recordText (origReal (ensureDirectories fs cwd base) cwd path) answers.time size) := by
  rcases moveToTrash_moved deleted with ⟨node', moved, -, -, id_eq, renamed, written⟩
  have id_no_slash : slash ∉ id := id_eq ▸ no_slash_generateUniqueName _ _ _
  have written := written rfl
  rw [stripSlashes_of_not_endsInSlash unslashed] at renamed
  have record_apart := apart moved renamed
  have extended : fs.Extends (ensureDirectories fs cwd base) := ensureDirectories_extends
  have entry := entryOf_kept extended.keeps entry
  have found : (ensureDirectories fs cwd base).tree (name :: place) = some node := by
    rw [extended _ (ne_none_of_eq_some found), found]
  have fits := fresh.fits
  rcases fresh.file with ⟨targetName, targetPlace, target_named, target_free⟩
  rcases fresh.record moved renamed with ⟨recordName, recordPlace, record_entry, record_free⟩
  generalize ensureDirectories fs cwd base = before at *
  rcases rename_to_free renamed target_named target_free with
    ⟨sourceName, sourcePlace, source_node, source_named, source_found, slashes, above, valid,
      beside, rfl⟩
  rw [entry, Option.some.injEq, Prod.mk.injEq] at source_named
  rcases source_named with ⟨rfl, rfl⟩
  rw [found, Option.some.injEq] at source_found
  subst source_found
  have source_exists := ne_none_of_eq_some found
  have source_leaf : before.tree (name :: place) ≠ some .directory := by
    rw [found]
    exact fun same => leaf (Option.some.inj same)
  have moved_tree : ∀ other, (before.move (name :: place) targetName targetPlace
      (List.cons_ne_nil _ _) above valid beside).tree other =
        if other = targetName :: targetPlace then before.tree (name :: place)
        else if other = name :: place then none
        else before.tree other :=
    fun _ => tree_move_leaf source_leaf source_exists target_free
  rcases writeInfoFile_of_free written record_entry record_free (infoPath_unslashed fits) with
    ⟨after_tree, data_record, data_old, fresh_eq⟩
  have record_ne_target : recordName :: recordPlace ≠ targetName :: targetPlace := by
    intro same
    rw [same, moved_tree, if_pos rfl] at record_free
    exact source_exists record_free
  have record_ne_source : recordName :: recordPlace ≠ name :: place := by
    intro same
    rcases List.cons.inj same with ⟨rfl, rfl⟩
    exact record_apart record_entry
  refine ⟨targetName :: targetPlace, recordName :: recordPlace,
    statSize before answers.directorySize node', ⟨fits, id_no_slash, ?_, data_record, data_old,
    fresh_eq, source_exists, source_leaf, target_free, ?_, record_ne_target, record_ne_source,
    ⟨_, _, rfl, target_named⟩, (slashes leaf).2, ⟨_, _, rfl, ?_⟩⟩⟩
  · intro other
    rw [after_tree, moved_tree, fresh_move]
  · rw [moved_tree, if_neg record_ne_target, if_neg record_ne_source] at record_free
    exact record_free
  · apply entryOf_kept _ record_entry
    intro other kept other_found _
    rw [after_tree, if_neg]
    · exact other_found
    · rintro rfl
      rw [record_free] at other_found
      simp at other_found

/-- A deletion under a fresh id that leaves its path free moves the entry and records it. -/
theorem trashedAs_of_moved {name : Name} {place : Location} {node : Node}
    (entry : fs.entryOf cwd path = some (name, place)) (unslashed : endsInSlash path = false)
    (found : fs.tree (name :: place) = some node) (leaf : node ≠ .directory)
    (deleted : moveToTrash fs cwd base answers path = (.moved id true, after))
    (fresh : FreshId fs cwd base path id) (free : after.tree (name :: place) = none) :
    ∃ target record size, TrashedAs (ensureDirectories fs cwd base) after cwd base id
      (name :: place) target record
      (recordText (origReal (ensureDirectories fs cwd base) cwd path) answers.time size) := by
  apply trashedAs_of_apart entry unslashed found leaf deleted fresh
  intro moved renamed named
  rcases moveToTrash_moved deleted with ⟨_, moved', -, -, -, renamed', written⟩
  rw [stripSlashes_of_not_endsInSlash unslashed, renamed, Option.some.injEq] at renamed'
  subst renamed'
  rcases fresh.record moved renamed with ⟨recordName, recordPlace, named', record_free⟩
  have same := named.symm.trans named'
  rw [Option.some.injEq, Prod.mk.injEq] at same
  rcases same with ⟨rfl, rfl⟩
  have written := writeInfoFile_of_free (written rfl) named record_free
    (infoPath_unslashed fresh.fits)
  rw [written.1, if_pos rfl] at free
  exact Option.some_ne_none _ free

end Osis.CourseWork
