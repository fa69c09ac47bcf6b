import Osis.CourseWork.Bypass
import Osis.CourseWork.Holding
import Osis.CourseWork.Purging

/-!
# The trash refines its map

In every state that is reached by plain deletions, by `restore`, `purge` and `purge --all` the
two directories hold the map, and what the programs read is what it says. Each command keeps
this (`Sound.next`). A deletion that is not plain loses its file: `not_refines_beside`.
-/

namespace Osis.CourseWork

open Concurrency Concurrency.System Posix Posix.FileSystem

variable {fs : FileSystem} {cwd place files info : Location} {base id : Bytes}
  {map : Bytes → Option Deleted} {deleted : Deleted} {name : Name} {inode : ℕ}
  {removal : Removal}

section Runs

variable {state : Store} {call : Call}

theorem mem_namesAt {path : Bytes} :
    name ∈ namesAt fs cwd path ↔
      ∃ found, fs.resolve cwd path = some found ∧ fs.tree (name :: found) ≠ none := by
  unfold namesAt
  cases resolved : fs.resolve cwd path with
  | none => simp
  | some found => simp [mem_names]

/-- Names that give no id are passed over. -/
theorem purgeNames_of_nil {removal : Bytes → Removal} {names : List Name}
    (nothing : names.filterMap idOfRecord = []) (result : ℕ × FileSystem) :
    purgeNames cwd removal base names result = some result := by
  induction names with
  | nil => rfl
  | cons name rest ih =>
      unfold purgeNames
      cases recovered : idOfRecord name with
      | none =>
          rw [List.filterMap_cons_none recovered] at nothing
          exact ih nothing
      | some id =>
          rw [List.filterMap_cons_some recovered] at nothing
          cases nothing

/-- The directories hold the map; they may still have to be made as long as it is empty. -/
def Sound (base : Bytes) (state : Store) : Prop :=
  ∃ files info, Holding (ensureDirectories state.fs [] base) base state.map files info ∧
    ((∀ id, state.map id = none) ∨ ensureDirectories state.fs [] base = state.fs)

/-- Where something is held, nothing has to be made. -/
theorem Holding.sound (holding : Holding fs base map files info) (fits : Fits base id) :
    Sound base ⟨fs, map⟩ := by
  have made := ensureDirectories_of_found fits holding.files_at holding.info_at
  refine ⟨files, info, ?_, .inr made⟩
  rw [made]
  exact holding

namespace Sound

/-- What is in the map stands in the two directories. -/
theorem stands (sound : Sound base state) (found : state.map id = some deleted) :
    ∃ files info inode number name place, Holding state.fs base state.map files info ∧
      Stands state.fs base files info id deleted inode number name place := by
  rcases sound with ⟨files, info, holding, empty | made⟩
  · cases (empty id).symm.trans found
  · rw [made] at holding
    rcases holding.stands id deleted found with ⟨inode, number, name, place, stands⟩
    exact ⟨files, info, inode, number, name, place, holding, stands⟩

/-- What is in a directory of the trash is in it when both are made. -/
theorem mem_ensured {path : Bytes} (listed : name ∈ namesAt fs cwd path)
    (leads : (ensureDirectories fs [] base).resolve cwd path = some place) :
    (ensureDirectories fs [] base).tree (name :: place) ≠ none := by
  have extended : fs.Extends (ensureDirectories fs [] base) := ensureDirectories_extends
  rcases mem_namesAt.mp listed with ⟨found, resolved, exists_entry⟩
  have resolved := resolve_kept extended.keeps resolved (fs.closed exists_entry)
  cases leads.symm.trans resolved
  rwa [extended _ exists_entry]

/-- The names of the files are the ids. -/
theorem mem_files (sound : Sound base state) (absolute : base.head? = some slash) :
    id ∈ namesAt state.fs cwd (trashFiles base) ↔ state.map id ≠ none := by
  constructor
  · intro listed
    rcases sound with ⟨files, info, holding, -⟩
    exact holding.only_files id (mem_ensured listed (holding.files_from absolute))
  · intro stored
    rcases Option.ne_none_iff_exists'.mp stored with ⟨deleted, found⟩
    rcases sound.stands found with ⟨files, info, inode, number, name, place, holding, stands⟩
    exact mem_namesAt.mpr ⟨files, holding.files_from absolute, ne_none_of_eq_some stands.file⟩

/-- The names of the records are the ids with the suffix. -/
theorem mem_info (sound : Sound base state) (absolute : base.head? = some slash) :
    name ∈ namesAt state.fs cwd (trashInfo base) ↔
      ∃ id, state.map id ≠ none ∧ name = id ++ ascii ".info" := by
  constructor
  · intro listed
    rcases sound with ⟨files, info, holding, -⟩
    exact holding.only_records name (mem_ensured listed (holding.info_from absolute))
  · rintro ⟨id, stored, rfl⟩
    rcases Option.ne_none_iff_exists'.mp stored with ⟨deleted, found⟩
    rcases sound.stands found with ⟨files, info, inode, number, name, place, holding, stands⟩
    exact mem_namesAt.mpr ⟨info, holding.info_from absolute, ne_none_of_eq_some stands.record⟩

theorem some_id (sound : Sound base state) (stored : state.map id ≠ none) : id ≠ [] := by
  rcases Option.ne_none_iff_exists'.mp stored with ⟨deleted, found⟩
  rcases sound.stands found with ⟨files, info, inode, number, name, place, holding, stands⟩
  exact stands.valid.ne_nil

/-- The ids that are read out of the names of the records are those of the map. -/
theorem mem_ids (sound : Sound base state) (absolute : base.head? = some slash)
    {names : List Name} (listing : Listing state.fs cwd base names) :
    id ∈ names.filterMap idOfRecord ↔ state.map id ≠ none := by
  have dot_none : idOfRecord dot = none := by decide
  have dotDot_none : idOfRecord dotDot = none := by decide
  rw [List.mem_filterMap]
  constructor
  · rintro ⟨name, name_mem, recovered⟩
    rcases (listing.mem name).mp name_mem with rfl | rfl | listed
    · cases dot_none.symm.trans recovered
    · cases dotDot_none.symm.trans recovered
    · rcases (sound.mem_info absolute).mp listed with ⟨other, stored, rfl⟩
      rcases idOfRecord_eq_some.mp recovered with ⟨same, -⟩
      rwa [← List.append_cancel_right same]
  · intro stored
    have listed : id ++ ascii ".info" ∈ namesAt state.fs cwd (trashInfo base) :=
      (sound.mem_info absolute).mpr ⟨id, stored, rfl⟩
    exact ⟨_, (listing.mem _).mpr (.inr (.inr listed)),
      idOfRecord_eq_some.mpr ⟨rfl, sound.some_id stored⟩⟩

/-- Nothing is left of an empty map. -/
theorem empty_of_none (sound : Sound base state) (absolute : base.head? = some slash)
    (none_left : ∀ id, state.map id = none) :
    namesAt state.fs cwd (trashFiles base) = [] ∧ namesAt state.fs cwd (trashInfo base) = [] := by
  constructor
  · apply List.eq_nil_iff_forall_not_mem.mpr
    intro id listed
    exact (sound.mem_files absolute).mp listed (none_left id)
  · apply List.eq_nil_iff_forall_not_mem.mpr
    intro name listed
    rcases (sound.mem_info absolute).mp listed with ⟨id, stored, -⟩
    exact stored (none_left id)

/-- `purge --all` takes out everything. -/
theorem purgedAll {removal : Bytes → Removal} {names : List Name} (sound : Sound base state)
    (absolute : base.head? = some slash) (listing : Listing state.fs cwd base names)
    (granted : ∀ id, (removal id).Granted) :
    ∃ after, cmdPurgeAll state.fs cwd removal base names = some (0, after) ∧
      Sound base ⟨after, fun _ => none⟩ := by
  have distinct : (names.filterMap idOfRecord).Nodup := by
    apply listing.distinct.filterMap
    intro name name' id recovered recovered'
    rw [(idOfRecord_eq_some.mp recovered).1, (idOfRecord_eq_some.mp recovered').1]
  have ids : ∀ id, id ∈ names.filterMap idOfRecord ↔ state.map id ≠ none :=
    fun id => sound.mem_ids absolute listing
  have opened : ∀ result, purgeNames cwd removal base names (0, state.fs) = some result →
      cmdPurgeAll state.fs cwd removal base names = some result := by
    intro result ran
    rw [cmdPurgeAll, listing.opened]
    exact ran
  by_cases empty : ∀ id, state.map id = none
  · have nothing : names.filterMap idOfRecord = [] := by
      apply List.eq_nil_iff_forall_not_mem.mpr
      intro id read
      exact (ids id).mp read (empty id)
    have same : state.map = fun _ => none := funext empty
    refine ⟨state.fs, opened _ (purgeNames_of_nil nothing _), ?_⟩
    rw [← same]
    exact sound
  · rcases not_forall.mp empty with ⟨id, stored⟩
    rcases Option.ne_none_iff_exists'.mp stored with ⟨deleted, found⟩
    rcases sound.stands found with ⟨files, info, inode, number, name, place, holding, stands⟩
    rcases holding.purgedNames absolute granted (fun id => (ids id).mp) distinct with
      ⟨after, map', ran, after_holding, left_over⟩
    have none_left : map' = fun _ => none := by
      funext other
      by_contra kept
      rcases left_over other kept with ⟨not_read, still⟩
      exact not_read ((ids other).mpr still)
    rw [none_left] at after_holding
    exact ⟨after, opened _ ran, after_holding.sound stands.fits⟩

/-- `cmd_restore` of an id of the map. -/
theorem restored (sound : Sound base state) (absolute : base.head? = some slash)
    (found : state.map id = some deleted) (free : state.fs.Free cwd deleted.path) :
    ∃ after, cmdRestore state.fs cwd base id = (0, after) ∧
      after.readFile cwd deleted.path = some deleted.content ∧
      Sound base ⟨after, Function.update state.map id none⟩ := by
  rcases sound.stands found with ⟨files, info, inode, number, name, place, holding, stands⟩
  rcases holding.restored absolute found free with ⟨after, restored, content, after_holding⟩
  exact ⟨after, restored, content, after_holding.sound stands.fits⟩

/-- `cmd_purge` of an id of the map. -/
theorem purged (sound : Sound base state) (absolute : base.head? = some slash)
    (stored : state.map id ≠ none) (granted : removal.Granted) :
    ∃ after, cmdPurge state.fs cwd removal base id = (0, after) ∧
      Sound base ⟨after, Function.update state.map id none⟩ := by
  rcases Option.ne_none_iff_exists'.mp stored with ⟨deleted, found⟩
  rcases sound.stands found with ⟨files, info, inode, number, name, place, holding, stands⟩
  rcases holding.purged absolute stored granted with ⟨after, purged, after_holding⟩
  exact ⟨after, purged, after_holding.sound stands.fits⟩

/-- What the programs read is the map. -/
theorem refines (sound : Sound base state) (absolute : base.head? = some slash) :
    Refines base state where
  files := fun _ _ => sound.mem_files absolute
  records := by
    intro cwd name
    rw [sound.mem_info absolute]
    constructor
    · rintro ⟨id, stored, rfl⟩
      exact ⟨id, (sound.mem_files absolute).mpr stored,
        idOfRecord_eq_some.mpr ⟨rfl, sound.some_id stored⟩⟩
    · rintro ⟨id, listed, recovered⟩
      exact ⟨id, (sound.mem_files absolute).mp listed, (idOfRecord_eq_some.mp recovered).1⟩
  content := by
    intro cwd id deleted found
    rcases sound.stands found with ⟨files, info, inode, number, name, place, holding, stands⟩
    have at_id : FoundAt state.fs cwd base id _ _ inode number := holding.foundAt absolute stands
    rw [readFile_of_resolve at_id.resolve_file at_id.file_found, stands.content]
  path := by
    intro cwd id deleted found
    rcases sound.stands found with ⟨files, info, inode, number, name, place, holding, stands⟩
    exact ⟨_, (holding.foundAt absolute stands).readFile, stands.scanned, stands.listed⟩
  restored := by
    intro cwd id deleted found free
    rcases sound.restored absolute found free with ⟨after, restored, content, -⟩
    exact ⟨after, restored, content⟩
  emptied := by
    intro cwd removal names listing granted
    rcases sound.purgedAll absolute listing granted with ⟨after, purged, after_sound⟩
    exact ⟨after, purged, after_sound.empty_of_none absolute fun _ => rfl⟩

end Sound

end Runs

section Deletions

variable {state : Store} {call : Call}

theorem file_eq_some (given : call.file fs = some (place, inode)) :
    ∃ name above, place = name :: above ∧
      fs.entryOf (call.dirfd.getD call.cwd) call.pathname = some (name, above) ∧
      fs.tree (name :: above) = some (.file inode) ∧ endsInSlash call.pathname = false := by
  unfold Call.file at given
  split at given
  · cases given
  · next name above named =>
      split at given
      · next number file =>
          simp only [Option.ite_none_left_eq_some, Option.some.injEq, Prod.mk.injEq,
            Bool.not_eq_true] at given
          rcases given with ⟨unslashed, rfl, rfl⟩
          exact ⟨name, above, rfl, named, file, unslashed⟩
      · cases given

theorem deleted_eq_some (adds : call.deleted fs = some (id, deleted)) :
    ∃ path place inode, buildAbsPath fs call.cwd call.dirfd call.pathname = some path ∧
      id = call.idOf path ∧ call.file fs = some (place, inode) ∧
      deleted = ⟨fs.data inode, pathString place⟩ := by
  unfold Call.deleted at adds
  split at adds
  · next new_id place inode generated given =>
      rcases Option.map_eq_some_iff.mp generated with ⟨path, built, rfl⟩
      rw [Option.some.injEq, Prod.mk.injEq] at adds
      exact ⟨path, place, inode, built, adds.1.symm, given, adds.2.symm⟩
  · cases adds

/-- An id that the record of which a file can have is moved to. -/
theorem validName_idOf {path : Bytes} (named : fs.entryOf cwd path = some (name, place))
    (exists_entry : fs.tree (name :: place) ≠ none) (short : (call.idOf path).length ≤ 63) :
    ValidName (call.idOf path) ∧ ValidName (call.idOf path ++ ascii ".info") := by
  have id_eq : call.idOf path =
      generateUniqueName call.answers.now call.answers.random name := by
    rw [Call.idOf, basename_of_entryOf named]
  rw [id_eq] at short ⊢
  have record_valid := validName_record (fs.named exists_entry) (short.trans (by decide))
  exact ⟨validName_id record_valid, record_valid⟩

/-- The file of a plain deletion is moved to the place of its id. -/
theorem moves_of_holding {path : Bytes}
    (holding : Holding (call.ensured fs) call.base map files info)
    (absolute : call.base.head? = some slash) (plain : call.Plain fs)
    (built : buildAbsPath fs call.cwd call.dirfd call.pathname = some path)
    (named : (call.ensured fs).entryOf call.cwd path = some (name, place))
    (unslashed : endsInSlash path = false)
    (file : (call.ensured fs).tree (name :: place) = some (.file inode))
    (fits : Fits call.base (call.idOf path)) (valid : ValidName (call.idOf path))
    (fresh : map (call.idOf path) = none) :
    ∃ moved, call.Moves fs path moved ∧
      (∀ other, moved.tree other =
        if other = call.idOf path :: files then some (.file inode)
        else if other = name :: place then none
        else (call.ensured fs).tree other) ∧
      moved.data = (call.ensured fs).data ∧ moved.fresh = (call.ensured fs).fresh := by
  have exists_file := ne_none_of_eq_some file
  have leaf : (call.ensured fs).tree (name :: place) ≠ some .directory := by
    rw [file]
    simp
  have free := holding.free_file fresh
  have target_named : (call.ensured fs).entryOf call.cwd (filePath call.base (call.idOf path)) =
      some (call.idOf path, files) :=
    filePath_named fits valid (holding.files_from absolute) holding.files_directory
  have target_unslashed := filePath_unslashed valid.ne_nil valid.no_slash fits
  have stated : (call.ensured fs).stat call.cwd path ≠ none := by
    rw [stat, resolve_of_entryOf named (.inr ⟨inode, file⟩) unslashed, Option.bind_some]
    exact exists_file
  rcases rename_leaf named target_named free exists_file leaf unslashed target_unslashed valid with
    ⟨above, apart, renamed⟩
  refine ⟨(call.ensured fs).move (name :: place) (call.idOf path) files (List.cons_ne_nil _ _)
    above valid apart, ⟨built, stated, plain.unlike path built, ?_⟩, ?_, data_move, fresh_move⟩
  · rw [stripSlashes_of_not_endsInSlash unslashed]
    exact renamed
  · intro other
    rw [tree_move_leaf leaf exists_file free, file]

/-- The file of a plain deletion is added with its record. -/
theorem holding_after {path : Bytes}
    (holding : Holding (call.ensured fs) call.base map files info)
    (absolute : call.base.head? = some slash) (plain : call.Plain fs)
    (built : buildAbsPath fs call.cwd call.dirfd call.pathname = some path)
    (named : (call.ensured fs).entryOf call.cwd path = some (name, place))
    (unslashed : endsInSlash path = false)
    (file : (call.ensured fs).tree (name :: place) = some (.file inode))
    (fits : Fits call.base (call.idOf path)) (short : (call.idOf path).length ≤ 63)
    (fresh : map (call.idOf path) = none)
    (outside_files : ¬files <:+ name :: place) (outside_info : ¬info <:+ name :: place)
    (path_short : (pathString (name :: place)).length ≤ 241)
    (unbroken : newline ∉ pathString (name :: place)) :
    Holding (call.after fs) call.base (Function.update map (call.idOf path)
      (some ⟨(call.ensured fs).data inode, pathString (name :: place)⟩)) files info := by
  rcases validName_idOf named (ne_none_of_eq_some file) short with ⟨valid, record_valid⟩
  rcases moves_of_holding holding absolute plain built named unslashed file fits valid fresh with
    ⟨moved, moves, tree_eq, data, next⟩
  have keeps : (call.ensured fs).Keeps moved := by
    apply keeps_of_files
    intro other
    rw [tree_eq]
    by_cases at_file : other = call.idOf path :: files
    · exact .inr (.inl (at_file ▸ holding.free_file fresh))
    by_cases at_source : other = name :: place
    · exact .inr (.inr ⟨inode, at_source ▸ file⟩)
    · exact .inl (by rw [if_neg at_file, if_neg at_source])
  have target_named : (call.ensured fs).entryOf call.cwd (filePath call.base (call.idOf path)) =
      some (call.idOf path, files) :=
    filePath_named fits valid (holding.files_from absolute) holding.files_directory
  have info_at : moved.resolve call.cwd (trashInfo call.base) = some info :=
    resolve_kept keeps (holding.info_from absolute) holding.info_directory
  have record_named : moved.entryOf call.cwd (infoPath call.base (call.idOf path)) =
      some (call.idOf path ++ ascii ".info", info) :=
    infoPath_named fits record_valid info_at (keeps _ _ holding.info_directory (by simp))
  have record_free : moved.tree ((call.idOf path ++ ascii ".info") :: info) = none := by
    rw [tree_eq, if_neg (holding.record_ne_file _ _)]
    split
    · rfl
    · exact holding.free_record fresh
  have unused : call.Unused fs path moved := by
    refine ⟨fits, ⟨_, _, target_named, holding.free_file fresh⟩, ⟨_, _, record_named, record_free⟩,
      ?_⟩
    intro entry entry_mem
    rw [record_named, Option.mem_some_iff] at entry_mem
    rw [← entry_mem]
    exact record_valid
  rcases Call.moveToTrash_of_moves moves unused with
    ⟨after, recordName, recordPlace, deleted, record_named', -, after_tree, text, data_old⟩
  rcases entryOf_unique record_named record_named' with ⟨rfl, rfl⟩
  have recorded : origReal (call.ensured fs) call.cwd path = pathString (name :: place) := by
    have room : (pathString (name :: place)).length < pathMax :=
      Nat.lt_of_le_of_lt path_short (by decide)
    have resolved := resolve_of_entryOf named (.inr ⟨inode, file⟩) unslashed
    rw [origReal, realpath_eq_some.mpr ⟨_, resolved, rfl, room⟩, Option.getD_some]
  rw [Call.after_of_moved moves.built deleted]
  apply holding.added fresh fits short valid file outside_files outside_info path_short unbroken
  · intro other
    rw [after_tree, tree_eq]
  · intro old below
    rw [data_old old (by rwa [next]), data]
  · rw [Call.recordOf, recorded] at text
    exact ⟨_, _, text⟩

/-- A plain deletion adds its file under the new id. -/
theorem Sound.deletes (sound : Sound base state) (absolute : base.head? = some slash)
    (ordinary : call.Ordinary base state) (plain : call.Plain state.fs)
    (adds : call.deleted state.fs = some (id, deleted)) :
    Sound base ⟨call.after state.fs, Function.update state.map id (some deleted)⟩ := by
  rcases deleted_eq_some adds with ⟨path, source, inode, built, rfl, given, rfl⟩
  rcases file_eq_some given with ⟨name, place, rfl, named, file, unslashed⟩
  have generated : call.newId state.fs = some (call.idOf path) := by
    rw [Call.newId, built, Option.map_some]
  have short := ordinary.id_short _ generated
  have fresh := ordinary.fresh _ generated
  have fits := plain.fits _ generated
  rcases ordinary.base_eq with rfl
  rcases sound with ⟨files, info, holding, -⟩
  have made_eq : ensureDirectories state.fs [] call.base = call.ensured state.fs :=
    ensureDirectories_absolute absolute
  rw [made_eq] at holding
  have extended : state.fs.Extends (call.ensured state.fs) := ensureDirectories_extends
  have data : (call.ensured state.fs).data = state.fs.data := data_ensureDirectories
  have made_file : (call.ensured state.fs).tree (name :: place) = some (.file inode) := by
    rw [extended _ (ne_none_of_eq_some file), file]
  have path_named := entryOf_kept extended.keeps (entryOf_of_built named plain.uncut built)
  have path_unslashed := (endsInSlash_of_built named plain.uncut built).trans unslashed
  have outside := ordinary.outside _ _ given
  have outside_files : ¬files <:+ name :: place := fun inside =>
    outside ⟨_, .inr (.inl rfl), files, holding.files_from absolute, inside⟩
  have outside_info : ¬info <:+ name :: place := fun inside =>
    outside ⟨_, .inr (.inr rfl), info, holding.info_from absolute, inside⟩
  have after_holding := holding_after holding absolute plain built path_named path_unslashed
    made_file fits short fresh outside_files outside_info (ordinary.short _ _ given)
    (ordinary.unbroken _ _ given)
  rw [data] at after_holding
  exact after_holding.sound fits

end Deletions

section Reachable

variable {state : Store}

/-- An empty trash holds the empty map. -/
theorem sound_of_empty (empty : EmptyTrash state.fs base) (nothing : ∀ id, state.map id = none) :
    Sound base state := by
  rcases empty with ⟨files, info, files_at, info_at, files_directory, info_directory, different,
    no_files, no_records⟩
  refine ⟨files, info, ⟨files_at, info_at, files_directory, info_directory, different, ?_, ?_, ?_⟩,
    .inl nothing⟩
  · intro id deleted found
    rw [nothing] at found
    cases found
  · intro id exists_file
    have listed := mem_names.mpr exists_file
    rw [no_files] at listed
    cases listed
  · intro name exists_record
    have listed := mem_names.mpr exists_record
    rw [no_records] at listed
    cases listed

/-- Every command keeps the directories sound. -/
theorem Sound.next {command : Command} {successor : Store} (sound : Sound base state)
    (absolute : base.head? = some slash) (promised : Promised base state command)
    (plain : command.Plain state) (taken : (trash base).next state command = some successor) :
    Sound base successor := by
  cases command with
  | delete call =>
      rcases Option.map_eq_some_iff.mp taken with ⟨⟨id, deleted⟩, adds, rfl⟩
      exact sound.deletes absolute promised plain adds
  | restore cwd id =>
      rcases Option.some.inj taken with rfl
      rcases promised with ⟨deleted, found, free⟩
      rcases sound.restored absolute found free with ⟨after, restored, -, after_sound⟩
      rw [restored]
      exact after_sound
  | purge cwd removal id =>
      rcases Option.some.inj taken with rfl
      rcases sound.purged absolute promised.1 promised.2 with ⟨after, purged, after_sound⟩
      rw [purged]
      exact after_sound
  | purgeAll cwd removal names =>
      rcases sound.purgedAll absolute promised.1 promised.2 with ⟨after, purged, after_sound⟩
      rcases Option.map_eq_some_iff.mp taken with ⟨result, purged', rfl⟩
      rcases Option.some.inj (purged.symm.trans purged') with rfl
      exact after_sound

/-- In every state reached by plain deletions and by commands whose ids are in the trash the
directories hold the map. -/
theorem trash_refines_map (absolute : base.head? = some slash)
    (reached : (trash base).ReachableUnder
      (fun state command => Promised base state command ∧ command.Plain state) state) :
    Refines base state := by
  have sound : Sound base state := by
    apply ReachableUnder.invariant reached
    · rintro state ⟨empty, nothing⟩
      exact sound_of_empty empty nothing
    · rintro state command successor sound ⟨promised, plain⟩ taken
      exact sound.next absolute promised plain taken
  exact sound.refines absolute

end Reachable

section Examples

/-- Two files `/u/a` and `/u/.trashed`. -/
def twoBeside : FileSystem :=
  withFile (withFile ((bare.mkdir [] (ascii "/u")).getD bare) (ascii "/u/a")) (ascii "/u/.trashed")

/-- The store before anything is deleted. -/
def nothingDeleted : Store := ⟨twoBeside, fun _ => none⟩

/-- A deletion with the trash in `/u`. -/
def callInU (pathname : Bytes) : Call := ⟨[], ascii "/u", firstAnswers, none, pathname⟩

/-- The store after one deletion. -/
def afterOne (pathname : Bytes) : Store :=
  ⟨(callInU pathname).after twoBeside,
    Function.update nothingDeleted.map firstId (some ⟨[1], pathname⟩)⟩

/-- The directories of the trash in `/u`. -/
def trashInU : List Location :=
  [[ascii ".trash", ascii "u"], [ascii "files", ascii ".trash", ascii "u"],
    [ascii "info", ascii ".trash", ascii "u"]]

theorem emptyTrash_twoBeside : EmptyTrash twoBeside (ascii "/u") :=
  ⟨[ascii "files", ascii ".trash", ascii "u"], [ascii "info", ascii ".trash", ascii "u"],
    by decide +kernel⟩

theorem initial_nothingDeleted : (trash (ascii "/u")).initial nothingDeleted :=
  ⟨emptyTrash_twoBeside, fun _ => rfl⟩

/-- Where the paths of the trash in `/u` lead when its directories are made. -/
def trashPlaces (fs : FileSystem) : List (Option Location) :=
  [trashDir (ascii "/u"), trashFiles (ascii "/u"), trashInfo (ascii "/u")].map
    ((ensureDirectories fs [] (ascii "/u")).resolve [])

theorem mem_trashInU {top : Location} {path : Bytes} (places : trashPlaces fs = trashInU.map some)
    (names : path = trashDir (ascii "/u") ∨ path = trashFiles (ascii "/u") ∨
      path = trashInfo (ascii "/u"))
    (resolved : (ensureDirectories fs [] (ascii "/u")).resolve [] path = some top) :
    top ∈ trashInU := by
  simp only [trashPlaces, trashInU, List.map_cons, List.map_nil, List.cons.injEq,
    and_true] at places
  rcases places with ⟨dir, files, info⟩
  rcases names with rfl | rfl | rfl
  · rw [← Option.some.inj (dir.symm.trans resolved)]
    decide
  · rw [← Option.some.inj (files.symm.trans resolved)]
    decide
  · rw [← Option.some.inj (info.symm.trans resolved)]
    decide

/-- What a deletion in `/u` comes to. -/
structure Deletion where
  places : List (Option Location)
  file : Option (Location × ℕ)
  newId : Option Bytes
  path : Option Bytes
  deleted : Option (Bytes × Deleted)
deriving DecidableEq

/-- The deletion of a path. -/
def deletionInU (fs : FileSystem) (pathname : Bytes) : Deletion where
  places := trashPlaces fs
  file := (callInU pathname).file fs
  newId := (callInU pathname).newId fs
  path := buildAbsPath fs [] none pathname
  deleted := (callInU pathname).deleted fs

/-- The deletion of a path whose file goes to the trash. -/
def movedInU (pathname : Bytes) (place : Location) (inode : ℕ) : Deletion where
  places := trashInU.map some
  file := some (place, inode)
  newId := some firstId
  path := some pathname
  deleted := some (firstId, ⟨[1], pathname⟩)

section DeletionsInU

variable {state : Store} {pathname : Bytes} {place : Location} {inode : ℕ}

theorem ordinary_callInU (moved : deletionInU state.fs pathname = movedInU pathname place inode)
    (fresh : state.map firstId = none) (outside : ∀ top ∈ trashInU, ¬top <:+ place)
    (unbroken : newline ∉ pathString place) (short : (pathString place).length ≤ 241) :
    (callInU pathname).Ordinary (ascii "/u") state := by
  have places : trashPlaces state.fs = trashInU.map some := congrArg Deletion.places moved
  have given : (callInU pathname).file state.fs = some (place, inode) :=
    congrArg Deletion.file moved
  have generated : (callInU pathname).newId state.fs = some firstId :=
    congrArg Deletion.newId moved
  have only : ∀ place' inode', (callInU pathname).file state.fs = some (place', inode') →
      place = place' := by
    intro place' inode' given'
    exact (Prod.mk.inj (Option.some.inj (given.symm.trans given'))).1
  have only_id : ∀ id ∈ (callInU pathname).newId state.fs, firstId = id := by
    intro id id_mem
    exact Option.some.inj (generated.symm.trans id_mem)
  refine ⟨rfl, ?_, ?_, ?_, ?_, ?_⟩
  · rintro place' inode' given' ⟨path, names, top, resolved, inside⟩
    rw [← only place' inode' given'] at inside
    exact outside top (mem_trashInU places names resolved) inside
  · intro place' inode' given'
    rw [← only place' inode' given']
    exact unbroken
  · intro place' inode' given'
    rw [← only place' inode' given']
    exact short
  · intro id id_mem
    rw [← only_id id id_mem]
    exact fresh
  · intro id id_mem
    rw [← only_id id id_mem]
    decide

theorem plain_callInU {fs : FileSystem}
    (moved : deletionInU fs pathname = movedInU pathname place inode)
    (absolute : pathname.head? = some slash) (unlike : ¬trashDir (ascii "/u") <+: pathname) :
    (callInU pathname).Plain fs := by
  have generated : (callInU pathname).newId fs = some firstId := congrArg Deletion.newId moved
  have built : buildAbsPath fs [] none pathname = some pathname := congrArg Deletion.path moved
  refine ⟨fun relative => absurd absolute relative, ?_, ?_⟩
  · intro id id_mem
    rw [← Option.some.inj (generated.symm.trans id_mem)]
    exact of_decide_eq_true rfl
  · intro path path_mem
    rw [← Option.some.inj (built.symm.trans path_mem)]
    exact unlike

theorem adds_callInU {fs : FileSystem}
    (moved : deletionInU fs pathname = movedInU pathname place inode) :
    (callInU pathname).deleted fs = some (firstId, ⟨[1], pathname⟩) :=
  congrArg Deletion.deleted moved

end DeletionsInU

theorem next_delete {state : Store} {call : Call}
    (adds : call.deleted state.fs = some (id, deleted)) :
    (trash base).next state (.delete call) =
      some ⟨call.after state.fs, Function.update state.map id (some deleted)⟩ :=
  Option.map_eq_some_iff.mpr ⟨_, adds, rfl⟩

theorem next_restore {state : Store} :
    (trash base).next state (.restore cwd id) =
      some ⟨(cmdRestore state.fs cwd base id).2, Function.update state.map id none⟩ := rfl

theorem next_purge {state : Store} :
    (trash base).next state (.purge cwd removal id) =
      some ⟨(cmdPurge state.fs cwd removal base id).2, Function.update state.map id none⟩ := rfl

theorem next_callInU {pathname : Bytes}
    (adds : (callInU pathname).deleted twoBeside = some (firstId, ⟨[1], pathname⟩)) :
    (trash (ascii "/u")).next nothingDeleted (.delete (callInU pathname)) =
      some (afterOne pathname) :=
  next_delete adds

/-- The store when `/u/a` has been deleted and restored. -/
def afterRestore : Store :=
  ⟨(cmdRestore (afterOne (ascii "/u/a")).fs [] (ascii "/u") firstId).2,
    Function.update (afterOne (ascii "/u/a")).map firstId none⟩

/-- The store when it has been deleted again. -/
def afterAgain : Store :=
  ⟨(callInU (ascii "/u/a")).after afterRestore.fs,
    Function.update afterRestore.map firstId (some ⟨[1], ascii "/u/a"⟩)⟩

/-- The store when it has been purged. -/
def afterPurge : Store :=
  ⟨(cmdPurge afterAgain.fs [] grantedRemoval (ascii "/u") firstId).2,
    Function.update afterAgain.map firstId none⟩

/-- Both times `/u/a` goes to the trash. -/
theorem deletions_a :
    deletionInU twoBeside (ascii "/u/a") =
        movedInU (ascii "/u/a") [ascii "a", ascii "u"] 0 ∧
      deletionInU afterRestore.fs (ascii "/u/a") =
        movedInU (ascii "/u/a") [ascii "a", ascii "u"] 0 := by
  decide +kernel

theorem promised_a :
    Promised (ascii "/u") nothingDeleted (.delete (callInU (ascii "/u/a"))) :=
  ordinary_callInU deletions_a.1 rfl (by decide) (by decide) (by decide)

theorem promised_again :
    Promised (ascii "/u") afterRestore (.delete (callInU (ascii "/u/a"))) := by
  have fresh : afterRestore.map firstId = none := by simp [afterRestore]
  exact ordinary_callInU deletions_a.2 fresh (by decide) (by decide) (by decide)

theorem plain_a : (callInU (ascii "/u/a")).Plain twoBeside :=
  plain_callInU deletions_a.1 rfl (by decide)

theorem plain_again : (callInU (ascii "/u/a")).Plain afterRestore.fs :=
  plain_callInU deletions_a.2 rfl (by decide)

theorem adds_a : (callInU (ascii "/u/a")).deleted twoBeside =
    some (firstId, ⟨[1], ascii "/u/a"⟩) := adds_callInU deletions_a.1

theorem adds_again : (callInU (ascii "/u/a")).deleted afterRestore.fs =
    some (firstId, ⟨[1], ascii "/u/a"⟩) := adds_callInU deletions_a.2

theorem next_again : (trash (ascii "/u")).next afterRestore (.delete (callInU (ascii "/u/a"))) =
    some afterAgain := next_delete adds_again

theorem promised_restore :
    Promised (ascii "/u") (afterOne (ascii "/u/a")) (.restore [] firstId) := by
  have stored : (afterOne (ascii "/u/a")).map firstId = some ⟨[1], ascii "/u/a"⟩ := by
    simp [afterOne]
  have free : (afterOne (ascii "/u/a")).fs.entryOf [] (ascii "/u/a") =
        some (ascii "a", [ascii "u"]) ∧
      (afterOne (ascii "/u/a")).fs.tree [ascii "a", ascii "u"] = none := by
    decide +kernel
  exact ⟨_, stored, _, _, free⟩

theorem promised_purge :
    Promised (ascii "/u") afterAgain (.purge [] grantedRemoval firstId) := by
  have stored : afterAgain.map firstId = some ⟨[1], ascii "/u/a"⟩ := by simp [afterAgain]
  exact ⟨ne_of_eq_of_ne stored (Option.some_ne_none _), rfl, rfl⟩

/-- The trash when `/u/a` has been deleted, restored and deleted again, and when it has been
purged after that. -/
theorem refines_again :
    Refines (ascii "/u") afterAgain ∧ Refines (ascii "/u") afterPurge := by
  have once : (trash (ascii "/u")).ReachableUnder
      (fun state command => Promised (ascii "/u") state command ∧ command.Plain state)
      (afterOne (ascii "/u/a")) :=
    .step (.start initial_nothingDeleted) ⟨promised_a, plain_a⟩ (next_callInU adds_a)
  have back : (trash (ascii "/u")).ReachableUnder
      (fun state command => Promised (ascii "/u") state command ∧ command.Plain state)
      afterRestore :=
    .step once ⟨promised_restore, trivial⟩ next_restore
  have again : (trash (ascii "/u")).ReachableUnder
      (fun state command => Promised (ascii "/u") state command ∧ command.Plain state) afterAgain :=
    .step back ⟨promised_again, plain_again⟩ next_again
  exact ⟨trash_refines_map (by decide) again,
    trash_refines_map (by decide) (.step again ⟨promised_purge, trivial⟩ next_purge)⟩

/-- It does not hold `/u/.trashed`, which is really removed. -/
theorem not_refines_beside :
    ¬ ∀ (base : Bytes) (state : Store), base.head? = some slash →
      (trash base).ReachableUnder (Promised base) state → Refines base state := by
  intro claimed
  have evaluated : deletionInU twoBeside (ascii "/u/.trashed") =
        movedInU (ascii "/u/.trashed") [ascii ".trashed", ascii "u"] 1 ∧
      namesAt (afterOne (ascii "/u/.trashed")).fs [] (trashFiles (ascii "/u")) = [] := by
    decide +kernel
  rcases evaluated with ⟨moved, missing⟩
  have ordinary : (callInU (ascii "/u/.trashed")).Ordinary (ascii "/u") nothingDeleted :=
    ordinary_callInU moved rfl (by decide) (by decide) (by decide)
  have adds : (callInU (ascii "/u/.trashed")).deleted twoBeside =
      some (firstId, ⟨[1], ascii "/u/.trashed"⟩) := adds_callInU moved
  have started : (trash (ascii "/u")).ReachableUnder (Promised (ascii "/u")) nothingDeleted :=
    .start initial_nothingDeleted
  have promised : Promised (ascii "/u") nothingDeleted
      (.delete (callInU (ascii "/u/.trashed"))) := ordinary
  have reached : (trash (ascii "/u")).ReachableUnder (Promised (ascii "/u"))
      (afterOne (ascii "/u/.trashed")) := .step started promised (next_callInU adds)
  have refines := claimed (ascii "/u") _ (by decide) reached
  have stored : (afterOne (ascii "/u/.trashed")).map firstId =
      some ⟨[1], ascii "/u/.trashed"⟩ := by decide
  have listed := (refines.files [] firstId).mpr (ne_of_eq_of_ne stored (Option.some_ne_none _))
  rw [missing] at listed
  cases listed

end Examples

end Osis.CourseWork
