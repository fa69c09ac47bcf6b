import Osis.CourseWork.Browse
import Osis.CourseWork.StoreRefinement

/-!
# What the trash shows

Three readers show the trash: `trashctl list` prints a row for each record, the trash view has an
entry for each file, and the pane beside it gives the lines of one record. Whatever has been
deleted, restored and purged before, all three show the map: its ids, once each, with the path, the
time of the deletion and the size.
-/

namespace Osis.CourseWork

open Concurrency Concurrency.System Posix Posix.FileSystem

section InfoPane

/-- What `draw_info` writes for a line of a record. -/
def infoLine (line : Bytes) : Option Bytes :=
  if ascii "original_path=" <+: line then some (ascii "Orig: " ++ cString (line.drop 14))
  else if ascii "deleted_time=" <+: line then some (ascii "Del:  " ++ cString (line.drop 13))
  else if ascii "size=" <+: line then some (ascii "Size: " ++ cString (line.drop 5))
  else none

/-- `draw_info` of the trash: the texts it writes, one a row. -/
def drawInfo (fs : FileSystem) (cwd : Location) (base : Bytes) (entries : List BrowserEntry)
    (highlight : ℤ) : List Bytes :=
  match item entries highlight with
  | none => [ascii "Empty or invalid"]
  | some entry =>
      match fs.readFile cwd (infoPath base entry.id) with
      | none => [ascii "Cannot open info"]
      | some record => (lines pathMax record).filterMap infoLine

variable {path value : Bytes} {time : LocalTime} {size : ℕ}

/-- A line of a record is read whole. -/
theorem lines_value {key : Bytes} (rest : Bytes) (key_plain : newline ∉ key)
    (plain : ∀ byte ∈ value, inLine byte = true) (short : key.length + value.length + 1 < pathMax) :
    lines pathMax (key ++ (value ++ newline :: rest)) =
      (key ++ (value ++ [newline])) :: lines pathMax rest := by
  have unbroken : newline ∉ key ++ value := by
    intro newline_mem
    rcases List.mem_append.mp newline_mem with in_key | in_value
    · exact key_plain in_key
    · exact newline_not_mem_of_inLine plain in_value
  rw [← List.append_assoc, lines_line rest unbroken (by rwa [List.length_append]),
    List.append_assoc]

theorem inLine_decimal (number : ℕ) : ∀ byte ∈ decimal number, inLine byte = true := by
  intro byte byte_mem
  exact inLine_of_isNumeral (.inr (isNumeral_of_mem_decimal byte byte_mem))

theorem lines_record (unbroken : newline ∉ path) (no_nul : 0 ∉ path) (short : path.length ≤ 241)
    (valid : time.Valid) (range : size < 2 ^ 63) :
    lines pathMax (recordText path time size) =
      [ascii "original_path=" ++ (path ++ [newline]),
        ascii "deleted_time=" ++ (timestr time ++ [newline]),
        ascii "size=" ++ (decimal size ++ [newline])] := by
  have path_key : (ascii "original_path=").length = 14 := by decide
  have time_key : (ascii "deleted_time=").length = 13 := by decide
  have size_key : (ascii "size=").length = 5 := by decide
  have room : pathMax = 4096 := rfl
  have time_length := valid.length_timestr
  have size_length : (decimal size).length ≤ 20 :=
    length_decimal_le 20 (by decide) (range.trans (by decide))
  unfold recordText
  rw [lines_value _ (by decide) (inLine_of_plain unbroken no_nul) (by omega),
    lines_value _ (by decide) inLine_timestr (by omega),
    lines_value _ (by decide) (inLine_decimal size) (by omega), lines_nil]

/-- The text behind the key of a line. -/
theorem cString_value {key : Bytes} (plain : ∀ byte ∈ value, inLine byte = true) :
    cString ((key ++ (value ++ [newline])).drop key.length) = value ++ [newline] := by
  rw [List.drop_left]
  apply cString_eq_self
  intro nul_mem
  rcases List.mem_append.mp nul_mem with in_value | at_end
  · exact absurd (plain 0 in_value) (by decide)
  · exact absurd at_end (by decide)

/-- The pane gives the three values of a record. -/
theorem infoLines_record (unbroken : newline ∉ path) (no_nul : 0 ∉ path)
    (short : path.length ≤ 241) (valid : time.Valid) (range : size < 2 ^ 63) :
    (lines pathMax (recordText path time size)).filterMap infoLine =
      [ascii "Orig: " ++ (path ++ [newline]), ascii "Del:  " ++ (timestr time ++ [newline]),
        ascii "Size: " ++ (decimal size ++ [newline])] := by
  have path_text := @cString_value path (ascii "original_path=") (inLine_of_plain unbroken no_nul)
  have time_text := @cString_value (timestr time) (ascii "deleted_time=") inLine_timestr
  have size_text := @cString_value (decimal size) (ascii "size=") (inLine_decimal size)
  have other : ∀ {key line : Bytes}, key ≠ [] → key.head? ≠ line.head? → ¬key <+: line :=
    not_prefix_of_head?
  have path_line : infoLine (ascii "original_path=" ++ (path ++ [newline])) =
      some (ascii "Orig: " ++ (path ++ [newline])) := by
    rw [infoLine, if_pos (List.prefix_append _ _)]
    exact congrArg (fun text => some (ascii "Orig: " ++ text)) path_text
  have time_line : infoLine (ascii "deleted_time=" ++ (timestr time ++ [newline])) =
      some (ascii "Del:  " ++ (timestr time ++ [newline])) := by
    rw [infoLine, if_neg (other (by decide) (by simp [ascii])), if_pos (List.prefix_append _ _)]
    exact congrArg (fun text => some (ascii "Del:  " ++ text)) time_text
  have size_line : infoLine (ascii "size=" ++ (decimal size ++ [newline])) =
      some (ascii "Size: " ++ (decimal size ++ [newline])) := by
    rw [infoLine, if_neg (other (by decide) (by simp [ascii])),
      if_neg (other (by decide) (by simp [ascii])), if_pos (List.prefix_append _ _)]
    exact congrArg (fun text => some (ascii "Size: " ++ text)) size_text
  rw [lines_record unbroken no_nul short valid range]
  simp only [List.filterMap_cons, List.filterMap_nil, path_line, time_line, size_line]

end InfoPane

section Logged

/-- The store, and when each of its files was deleted. -/
structure Log where
  store : Store
  time : Bytes → LocalTime

/-- The times after a command. -/
def Log.timeAfter (log : Log) : Command → Bytes → LocalTime
  | .delete call =>
      match call.newId log.store.fs with
      | some id => Function.update log.time id call.answers.time
      | none => log.time
  | _ => log.time

/-- The commands of `trash`, with the times of the deletions. -/
def logged (base : Bytes) : System Log Command where
  initial log := (trash base).initial log.store
  next log command :=
    ((trash base).next log.store command).map fun store => ⟨store, log.timeAfter command⟩

/-- `localtime` gives a time for a deletion, and the size of its file is an `off_t`. -/
def Command.Measured (state : Store) : Command → Prop
  | .delete call => call.answers.time.Valid ∧
      ∀ id deleted, call.deleted state.fs = some (id, deleted) → deleted.content.length < 2 ^ 63
  | _ => True

/-- What a run of commands is promised. -/
def Orderly (base : Bytes) (log : Log) (command : Command) : Prop :=
  Promised base log.store command ∧ command.Plain log.store ∧ command.Measured log.store

/-- The record of every id tells its path, its time and its size. -/
structure Recorded (base : Bytes) (log : Log) (id : Bytes) (deleted : Deleted) : Prop where
  valid : (log.time id).Valid
  range : deleted.content.length < 2 ^ 63
  record : log.store.fs.readFile [] (infoPath base id) =
    some (recordText deleted.path (log.time id) deleted.content.length)

variable {fs after : FileSystem} {cwd place files info file record : Location} {base id : Bytes}
  {map : Bytes → Option Deleted} {deleted : Deleted} {name : Name} {inode number : ℕ}
  {log successor : Log} {call : Call}

/-- A record that stays with its content is read as before. -/
theorem readFile_kept (found : FoundAt fs cwd base id file record inode number)
    (keeps : fs.Keeps after) (stays : after.tree record = fs.tree record)
    (data : after.data number = fs.data number) :
    after.readFile cwd (infoPath base id) = fs.readFile cwd (infoPath base id) := by
  rcases found.record_named with ⟨recordName, recordPlace, rfl, named⟩
  have there := stays.trans found.record_found
  have resolved := resolve_of_entryOf (entryOf_kept keeps named) (.inr ⟨number, there⟩)
    found.record_unslashed
  rw [readFile_of_resolve resolved there, found.readFile, data]

/-- A record of the map that stays with its content is read as before. -/
theorem Holding.record_kept (holding : Holding fs base map files info)
    (absolute : base.head? = some slash) (stored : map id = some deleted) (keeps : fs.Keeps after)
    (stays : after.tree ((id ++ ascii ".info") :: info) = fs.tree ((id ++ ascii ".info") :: info))
    (data : ∀ inode < fs.fresh, after.data inode = fs.data inode) :
    after.readFile cwd (infoPath base id) = fs.readFile cwd (infoPath base id) := by
  rcases holding.stands id deleted stored with ⟨inode, number, name, place, stands⟩
  exact readFile_kept (holding.foundAt absolute stands) keeps stays
    (data number (fs.allocated stands.record rfl))

theorem record_ne {other : Bytes} (different : other ≠ id) :
    (other ++ ascii ".info") :: info ≠ (id ++ ascii ".info") :: info := by
  intro same
  exact different (List.append_cancel_right (List.cons.inj same).1)

/-- A purge leaves the other records. -/
theorem Holding.records_purged {removal : Removal} {other : Bytes} {kept : Deleted}
    (holding : Holding fs base map files info)
    (absolute : base.head? = some slash) (stored : map id ≠ none) (granted : removal.Granted)
    (different : other ≠ id) (found : map other = some kept) :
    (cmdPurge fs cwd removal base id).2.readFile [] (infoPath base other) =
      fs.readFile [] (infoPath base other) := by
  rcases Option.ne_none_iff_exists'.mp stored with ⟨deleted, stored⟩
  rcases holding.stands id deleted stored with ⟨inode, number, name, place, stands⟩
  rcases (holding.foundAt absolute stands).cmdPurge_eq granted.file granted.record with
    ⟨after, purged, tree_eq, data, -⟩
  have keeps : fs.Keeps after := by
    apply keeps_of_files
    intro entry
    rw [tree_eq]
    by_cases gone : entry = id :: files ∨ entry = (id ++ ascii ".info") :: info
    · rcases gone with rfl | rfl
      · exact .inr (.inr ⟨inode, stands.file⟩)
      · exact .inr (.inr ⟨number, stands.record⟩)
    · exact .inl (if_neg gone)
  rw [purged]
  apply holding.record_kept absolute found keeps
  · rw [tree_eq, if_neg]
    exact not_or.mpr ⟨holding.record_ne_file _ _, record_ne different⟩
  · exact fun inode _ => congrFun data inode

/-- So does restoring to a free path. -/
theorem Holding.records_restored {other : Bytes} {kept : Deleted}
    (holding : Holding fs base map files info) (absolute : base.head? = some slash)
    (stored : map id = some deleted) (free : fs.Free cwd deleted.path)
    (different : other ≠ id) (found : map other = some kept) :
    (cmdRestore fs cwd base id).2.readFile [] (infoPath base other) =
      fs.readFile [] (infoPath base other) := by
  rcases holding.stands id deleted stored with ⟨inode, number, name, place, stands⟩
  have named : fs.entryOf cwd deleted.path = some (name, place) := stands.path_named
  have free : fs.tree (name :: place) = none := by
    rcases free with ⟨_, _, named', free⟩
    rcases entryOf_unique named named' with ⟨rfl, rfl⟩
    exact free
  rcases (holding.foundAt absolute stands).cmdRestore_eq stands.scanned named free
    stands.path_unslashed stands.named with ⟨after, restored, tree_eq, data, -⟩
  have keeps : fs.Keeps after := by
    apply keeps_of_files
    intro entry
    rw [tree_eq]
    by_cases back : entry = name :: place
    · exact .inr (.inl (back ▸ free))
    rw [if_neg back]
    by_cases gone : entry = id :: files ∨ entry = (id ++ ascii ".info") :: info
    · rcases gone with rfl | rfl
      · exact .inr (.inr ⟨inode, stands.file⟩)
      · exact .inr (.inr ⟨number, stands.record⟩)
    · exact .inl (if_neg gone)
  rw [restored]
  apply holding.record_kept absolute found keeps
  · have outside : (other ++ ascii ".info") :: info ≠ name :: place := by
      intro same
      apply stands.outside_info
      rw [← same]
      exact List.suffix_cons _ _
    rw [tree_eq, if_neg outside, if_neg]
    exact not_or.mpr ⟨holding.record_ne_file _ _, record_ne different⟩
  · exact fun inode _ => congrFun data inode

/-- A plain deletion writes its record and leaves the others. -/
theorem Holding.records_added {path : Bytes}
    (holding : Holding (call.ensured fs) call.base map files info)
    (absolute : call.base.head? = some slash) (plain : call.Plain fs)
    (built : buildAbsPath fs call.cwd call.dirfd call.pathname = some path)
    (named : (call.ensured fs).entryOf call.cwd path = some (name, place))
    (unslashed : endsInSlash path = false)
    (source : (call.ensured fs).tree (name :: place) = some (.file inode))
    (fits : Fits call.base (call.idOf path)) (short : (call.idOf path).length ≤ 63)
    (fresh : map (call.idOf path) = none) (outside_info : ¬info <:+ name :: place)
    (path_short : (pathString (name :: place)).length ≤ 241) :
    (call.after fs).readFile [] (infoPath call.base (call.idOf path)) =
        some (recordText (pathString (name :: place)) call.answers.time
          ((call.ensured fs).data inode).length) ∧
      ∀ other kept, map other = some kept →
        (call.after fs).readFile [] (infoPath call.base other) =
          (call.ensured fs).readFile [] (infoPath call.base other) := by
  rcases validName_idOf named (ne_none_of_eq_some source) short with ⟨valid, record_valid⟩
  rcases moves_of_holding holding absolute plain built named unslashed source fits valid fresh with
    ⟨moved, moves, moved_tree, moved_data, moved_fresh⟩
  have info_ne_source : ∀ other, other :: info ≠ name :: place := by
    intro other same
    apply outside_info
    rw [← same]
    exact List.suffix_cons _ _
  have moved_keeps : (call.ensured fs).Keeps moved := by
    apply keeps_of_files
    intro other
    rw [moved_tree]
    by_cases at_file : other = call.idOf path :: files
    · exact .inr (.inl (at_file ▸ holding.free_file fresh))
    by_cases at_source : other = name :: place
    · exact .inr (.inr ⟨inode, at_source ▸ source⟩)
    · exact .inl (by rw [if_neg at_file, if_neg at_source])
  have info_moved : moved.tree info = some .directory :=
    moved_keeps _ _ holding.info_directory (by simp)
  have record_named : moved.entryOf call.cwd (infoPath call.base (call.idOf path)) =
      some (call.idOf path ++ ascii ".info", info) :=
    infoPath_named fits record_valid
      (resolve_kept moved_keeps (holding.info_from absolute) holding.info_directory) info_moved
  have records_moved : ∀ other,
      moved.tree (other :: info) = (call.ensured fs).tree (other :: info) := by
    intro other
    rw [moved_tree, if_neg (holding.record_ne_file _ _), if_neg (info_ne_source other)]
  have record_free : moved.tree ((call.idOf path ++ ascii ".info") :: info) = none := by
    rw [records_moved]
    exact holding.free_record fresh
  have target_named : (call.ensured fs).entryOf call.cwd (filePath call.base (call.idOf path)) =
      some (call.idOf path, files) :=
    filePath_named fits valid (holding.files_from absolute) holding.files_directory
  have unused : call.Unused fs path moved := by
    refine ⟨fits, ⟨_, _, target_named, holding.free_file fresh⟩, ⟨_, _, record_named, record_free⟩,
      ?_⟩
    intro entry entry_mem
    rw [record_named, Option.mem_some_iff] at entry_mem
    rw [← entry_mem]
    exact record_valid
  rcases Call.moveToTrash_of_moves moves unused with
    ⟨after, recordName, recordPlace, deleted, record_named', -, after_tree, text, data_old⟩
  rcases entryOf_unique record_named record_named' with ⟨rfl, rfl⟩
  rw [Call.after_of_moved moves.built deleted]
  have extended : moved.Extends after := by
    intro other exists_other
    rw [after_tree, if_neg]
    rintro rfl
    exact exists_other record_free
  have keeps : (call.ensured fs).Keeps after := fun entry node here not_file =>
    extended.keeps entry node (moved_keeps entry node here not_file) not_file
  have there : after.tree ((call.idOf path ++ ascii ".info") :: info) = some (.file moved.fresh) :=
    (after_tree _).trans (if_pos rfl)
  constructor
  · have room : (pathString (name :: place)).length < pathMax :=
      Nat.lt_of_le_of_lt path_short (by decide)
    have found := resolve_of_entryOf named (.inr ⟨inode, source⟩) unslashed
    have recorded : origReal (call.ensured fs) call.cwd path = pathString (name :: place) := by
      rw [origReal, realpath_eq_some.mpr ⟨_, found, rfl, room⟩, Option.getD_some]
    have stated : (call.ensured fs).stat call.cwd path = some (.file inode) := by
      rw [stat, found, Option.bind_some, source]
    have own_named : after.entryOf [] (infoPath call.base (call.idOf path)) =
        some (call.idOf path ++ ascii ".info", info) :=
      infoPath_named fits record_valid (resolve_kept keeps holding.info_at holding.info_directory)
        (keeps _ _ holding.info_directory (by simp))
    rw [readFile_of_resolve (resolve_of_entryOf own_named (.inr ⟨_, there⟩)
      (infoPath_unslashed fits)) there, text, Call.recordOf, recorded, stated]
    rfl
  · intro other kept stored
    apply holding.record_kept absolute stored keeps
    · have different : other ≠ call.idOf path := by
        rintro rfl
        cases fresh.symm.trans stored
      rw [after_tree, if_neg (record_ne different), records_moved]
    · intro old below
      rw [data_old old (by rwa [moved_fresh]), moved_data]

/-- The directories hold the map, and every record is that of its deletion. -/
structure Kept (base : Bytes) (log : Log) : Prop where
  sound : Sound base log.store
  recorded : ∀ id deleted, log.store.map id = some deleted → Recorded base log id deleted

/-- Where something is stored, nothing has to be made. -/
theorem Sound.made (sound : Sound base log.store) (stored : log.store.map id ≠ none) :
    ∃ files info, Holding log.store.fs base log.store.map files info ∧
      ensureDirectories log.store.fs [] base = log.store.fs := by
  rcases sound with ⟨files, info, holding, empty | made⟩
  · exact absurd (empty id) stored
  · rw [made] at holding
    exact ⟨files, info, holding, made⟩

/-- What stays in the map keeps its record. -/
theorem Kept.recorded_update (kept : Kept base log) {value : Option Deleted}
    {time : Bytes → LocalTime}
    (own : ∀ deleted, value = some deleted →
      Recorded base ⟨⟨after, Function.update log.store.map id value⟩, time⟩ id deleted)
    (times : ∀ other ≠ id, time other = log.time other)
    (read : ∀ other old, other ≠ id → log.store.map other = some old →
      after.readFile [] (infoPath base other) = log.store.fs.readFile [] (infoPath base other))
    {other : Bytes} {old : Deleted}
    (stored : Function.update log.store.map id value other = some old) :
    Recorded base ⟨⟨after, Function.update log.store.map id value⟩, time⟩ other old := by
  by_cases same : other = id
  · rw [same, Function.update_self] at stored
    rw [same]
    exact own old stored
  · rw [Function.update_of_ne same] at stored
    rcases kept.recorded other old stored with ⟨valid, range, record⟩
    have time_eq := times other same
    have valid_still : (time other).Valid := by rwa [time_eq]
    have record_still : after.readFile [] (infoPath base other) =
        some (recordText old.path (time other) old.content.length) := by
      rw [time_eq, read other old same stored, record]
    exact ⟨valid_still, range, record_still⟩

/-- A plain deletion is recorded. -/
theorem Kept.deletes (kept : Kept base log) (absolute : base.head? = some slash)
    (ordinary : call.Ordinary base log.store) (plain : call.Plain log.store.fs)
    (valid : call.answers.time.Valid) (range : deleted.content.length < 2 ^ 63)
    (adds : call.deleted log.store.fs = some (id, deleted)) :
    ∀ other old, Function.update log.store.map id (some deleted) other = some old →
      Recorded base ⟨⟨call.after log.store.fs, Function.update log.store.map id (some deleted)⟩,
        Function.update log.time id call.answers.time⟩ other old := by
  rcases deleted_eq_some adds with ⟨path, source, inode, built, rfl, given, rfl⟩
  rcases file_eq_some given with ⟨name, place, rfl, named, file, unslashed⟩
  have generated : call.newId log.store.fs = some (call.idOf path) := by
    rw [Call.newId, built, Option.map_some]
  have short := ordinary.id_short _ generated
  have fresh := ordinary.fresh _ generated
  have fits := plain.fits _ generated
  rcases ordinary.base_eq with rfl
  rcases kept.sound with ⟨files, info, holding, empty_or_made⟩
  have made_eq : ensureDirectories log.store.fs [] call.base = call.ensured log.store.fs :=
    ensureDirectories_absolute absolute
  rw [made_eq] at holding empty_or_made
  have extended : log.store.fs.Extends (call.ensured log.store.fs) := ensureDirectories_extends
  have data : (call.ensured log.store.fs).data = log.store.fs.data := data_ensureDirectories
  have made_file : (call.ensured log.store.fs).tree (name :: place) = some (.file inode) := by
    rw [extended _ (ne_none_of_eq_some file), file]
  have path_named := entryOf_kept extended.keeps (entryOf_of_built named plain.uncut built)
  have path_unslashed := (endsInSlash_of_built named plain.uncut built).trans unslashed
  have outside_info : ¬info <:+ name :: place := fun inside =>
    ordinary.outside _ _ given ⟨_, .inr (.inr rfl), info, holding.info_from absolute, inside⟩
  rcases holding.records_added absolute plain built path_named path_unslashed made_file fits short
    fresh outside_info (ordinary.short _ _ given) with ⟨written, left⟩
  rw [data] at written
  intro other old stored
  refine kept.recorded_update ?_ ?_ ?_ stored
  · intro _ same
    cases same
    have valid_still :
        (Function.update log.time (call.idOf path) call.answers.time (call.idOf path)).Valid := by
      rwa [Function.update_self]
    have record_still :
        (call.after log.store.fs).readFile [] (infoPath call.base (call.idOf path)) = some
          (recordText (pathString (name :: place))
            (Function.update log.time (call.idOf path) call.answers.time (call.idOf path))
            (log.store.fs.data inode).length) := by
      rw [Function.update_self]
      exact written
    exact ⟨valid_still, range, record_still⟩
  · intro other different
    exact Function.update_of_ne different _ _
  · intro other old _ stored
    rw [left other old stored]
    rcases empty_or_made with empty | made
    · cases (empty other).symm.trans stored
    · rw [made]

theorem next_logged {command : Command} {store : Store}
    (taken : (trash base).next log.store command = some store) :
    (logged base).next log command = some ⟨store, log.timeAfter command⟩ := by
  simp only [logged, taken, Option.map_some]

/-- Every command keeps the records. -/
theorem Kept.next {command : Command} (kept : Kept base log) (absolute : base.head? = some slash)
    (orderly : Orderly base log command)
    (taken : (logged base).next log command = some successor) : Kept base successor := by
  rcases orderly with ⟨promised, plain, measured⟩
  rcases Option.map_eq_some_iff.mp taken with ⟨store, store_taken, rfl⟩
  refine ⟨kept.sound.next absolute promised plain store_taken, ?_⟩
  cases command with
  | delete call =>
      rcases Option.map_eq_some_iff.mp store_taken with ⟨⟨id, deleted⟩, adds, rfl⟩
      have time_eq : log.timeAfter (.delete call) =
          Function.update log.time id call.answers.time := by
        rcases deleted_eq_some adds with ⟨path, place, inode, built, rfl, -, -⟩
        rw [Log.timeAfter, Call.newId, built]
        rfl
      rw [time_eq]
      exact kept.deletes absolute promised plain measured.1 (measured.2 id deleted adds) adds
  | restore cwd id =>
      rcases Option.some.inj store_taken with rfl
      rcases promised with ⟨deleted, found, free⟩
      have stored := Option.ne_none_iff_exists'.mpr ⟨deleted, found⟩
      rcases kept.sound.made stored with ⟨files, info, holding, -⟩
      intro other old stored
      refine kept.recorded_update ?_ (fun _ _ => rfl) ?_ stored
      · intro _ nothing
        cases nothing
      intro other old different stored
      exact holding.records_restored absolute found free different stored
  | purge cwd removal id =>
      rcases Option.some.inj store_taken with rfl
      rcases kept.sound.made promised.1 with ⟨files, info, holding, -⟩
      intro other old stored
      refine kept.recorded_update ?_ (fun _ _ => rfl) ?_ stored
      · intro _ nothing
        cases nothing
      intro other old different stored
      exact holding.records_purged absolute promised.1 promised.2 different stored
  | purgeAll cwd removal names =>
      rcases Option.map_eq_some_iff.mp store_taken with ⟨result, -, rfl⟩
      intro other old stored
      cases stored

end Logged

section Shown

/-- The row of an id. -/
def Log.row (log : Log) (id : Bytes) (deleted : Deleted) : Entry :=
  ⟨deleted.path, timestr (log.time id), deleted.content.length⟩

/-- The row of an id that may be in the map. -/
def Log.rowOf (log : Log) (id : Bytes) : Entry :=
  (log.store.map id).elim ⟨[], [], 0⟩ (log.row id)

/-- The entry of an id in the trash view. -/
def viewEntry (id : Bytes) (deleted : Deleted) : BrowserEntry := ⟨id, basename deleted.path, false⟩

/-- The entry of an id that may be in the map. -/
def Log.entryOf (log : Log) (id : Bytes) : BrowserEntry :=
  (log.store.map id).elim ⟨id, [], false⟩ (viewEntry id)

/-- The pane beside the selected entry. -/
def Log.pane (log : Log) (id : Bytes) (deleted : Deleted) : List Bytes :=
  [ascii "Orig: " ++ (deleted.path ++ [newline]),
    ascii "Del:  " ++ (timestr (log.time id) ++ [newline]),
    ascii "Size: " ++ (decimal deleted.content.length ++ [newline])]

/-- All readers show the map, in whatever order the directories are read and the entries sorted. -/
structure Shown (base : Bytes) (log : Log) : Prop where
  listed : ∀ cwd names, Listing log.store.fs cwd base names →
    ∃ rows, cmdList log.store.fs cwd base names = some (0, rows) ∧ (rows.map Prod.fst).Nodup ∧
      ∀ id entry, (id, entry) ∈ rows ↔
        ∃ deleted, log.store.map id = some deleted ∧ entry = log.row id deleted
  viewed : ∀ cwd readdir behind qsort, Enumerates log.store.fs cwd base readdir →
    (∀ entries : List BrowserEntry, (qsort entries).Perm entries) →
    ∃ entries, buildTrashEntries log.store.fs cwd base readdir behind qsort = some entries ∧
      (entries.length : ℤ) = trashCount cwd base log.store.fs ∧
      (entries.map BrowserEntry.id).Nodup ∧
      ∀ entry, entry ∈ entries ↔
        ∃ deleted, log.store.map entry.id = some deleted ∧ entry = viewEntry entry.id deleted
  described : ∀ cwd entries highlight entry deleted, item entries highlight = some entry →
    log.store.map entry.id = some deleted →
    drawInfo log.store.fs cwd base entries highlight = log.pane entry.id deleted

variable {fs : FileSystem} {cwd : Location} {base id : Bytes} {deleted : Deleted} {log : Log}
  {names : List Name} {rows : Bytes → Entry}

/-- The loop of `cmd_list` makes a row for each record that it can read. -/
theorem listNames_eq (each : ∀ name ∈ names, ∀ id, idOfRecord name = some id → id.length < 64 ∧
      ∃ record, fs.readFile cwd (snprintf (2 * pathMax) (trashInfo base ++ slash :: name)) =
        some record ∧ scanEntry record = rows id) :
    listNames fs cwd base names =
      some ((names.filterMap idOfRecord).map fun id => (id, rows id)) := by
  induction names with
  | nil => rfl
  | cons name rest ih =>
      have later := ih fun other other_mem => each other (List.mem_cons_of_mem _ other_mem)
      unfold listNames
      cases recovered : idOfRecord name with
      | none => rw [List.filterMap_cons_none recovered, later]
      | some id =>
          rcases each name List.mem_cons_self id recovered with ⟨short, record, read, row⟩
          rw [List.filterMap_cons_some recovered, List.map_cons, ← row]
          simp only [short, if_true, read, later, Option.map_some]

namespace Kept

/-- What is written in the record of an id, from wherever it is read. -/
theorem readFile (kept : Kept base log) (absolute : base.head? = some slash)
    (stored : log.store.map id = some deleted) :
    log.store.fs.readFile cwd (infoPath base id) =
      some (recordText deleted.path (log.time id) deleted.content.length) := by
  rcases kept.sound.stands stored with ⟨files, info, inode, number, name, place, holding, stands⟩
  rw [← (kept.recorded id deleted stored).record, (holding.foundAt absolute stands).readFile,
    (holding.foundAt absolute stands).readFile]

/-- All readers of the record get back what was written. -/
theorem readBack (kept : Kept base log) (behind : UInt8)
    (stored : log.store.map id = some deleted) :
    ReadBack deleted.path (log.time id) deleted.content.length behind := by
  rcases kept.sound.stands stored with ⟨files, info, inode, number, name, place, holding, stands⟩
  have recorded := kept.recorded id deleted stored
  exact (readBack_iff stands.some_path stands.unbroken stands.no_nul recorded.valid
    recorded.range).mpr ⟨stands.path_short, stands.path_unslashed⟩

/-- `draw_info` shows the record of the selected entry. -/
theorem described (kept : Kept base log) (absolute : base.head? = some slash)
    {entries : List BrowserEntry} {highlight : ℤ} {entry : BrowserEntry}
    (selected : item entries highlight = some entry)
    (stored : log.store.map entry.id = some deleted) :
    drawInfo log.store.fs cwd base entries highlight = log.pane entry.id deleted := by
  rcases kept.sound.stands stored with ⟨files, info, inode, number, name, place, holding, stands⟩
  have recorded := kept.recorded entry.id deleted stored
  have shown := infoLines_record stands.unbroken stands.no_nul stands.path_short recorded.valid
    recorded.range
  simp only [drawInfo, selected, kept.readFile absolute stored, shown, Log.pane]

/-- `cmd_list` prints the map. -/
theorem listed (kept : Kept base log) (absolute : base.head? = some slash)
    (listing : Listing log.store.fs cwd base names) :
    ∃ rows, cmdList log.store.fs cwd base names = some (0, rows) ∧ (rows.map Prod.fst).Nodup ∧
      ∀ id entry, (id, entry) ∈ rows ↔
        ∃ deleted, log.store.map id = some deleted ∧ entry = log.row id deleted := by
  have ids : ∀ id, id ∈ names.filterMap idOfRecord ↔ log.store.map id ≠ none :=
    fun id => kept.sound.mem_ids absolute listing
  have distinct : (names.filterMap idOfRecord).Nodup := by
    apply listing.distinct.filterMap
    intro name name' id recovered recovered'
    rw [(idOfRecord_eq_some.mp recovered).1, (idOfRecord_eq_some.mp recovered').1]
  have printed : listNames log.store.fs cwd base names =
      some ((names.filterMap idOfRecord).map fun id => (id, log.rowOf id)) := by
    apply listNames_eq
    intro name name_mem id recovered
    have stored := (ids id).mp (List.mem_filterMap.mpr ⟨name, name_mem, recovered⟩)
    rcases Option.ne_none_iff_exists'.mp stored with ⟨deleted, stored⟩
    rcases kept.sound.stands stored with
      ⟨files, info, inode, number, name', place, holding, stands⟩
    have path_eq : snprintf (2 * pathMax) (trashInfo base ++ slash :: name) = infoPath base id := by
      have fits := stands.fits
      rw [(idOfRecord_eq_some.mp recovered).1, trashInfo_of_fits fits, infoPath_of_fits fits]
      apply snprintf_of_lt
      unfold Fits at fits
      omega
    refine ⟨Nat.lt_succ_of_le stands.short, _, ?_, (kept.readBack 0 stored).listed.trans ?_⟩
    · rw [path_eq, kept.readFile absolute stored]
    · rw [Log.rowOf, stored]
      rfl
  have result : cmdList log.store.fs cwd base names =
      some (0, (names.filterMap idOfRecord).map fun id => (id, log.rowOf id)) := by
    rw [cmdList, listing.opened]
    simp only [printed, Option.map_some]
  refine ⟨_, result, ?_, ?_⟩
  · rwa [List.map_map, Function.comp_def, List.map_id']
  · intro id entry
    rw [List.mem_map]
    constructor
    · rintro ⟨other, other_mem, same⟩
      rcases Prod.mk.inj same with ⟨rfl, rfl⟩
      rcases Option.ne_none_iff_exists'.mp ((ids other).mp other_mem) with ⟨deleted, stored⟩
      exact ⟨deleted, stored, by rw [Log.rowOf, stored, Option.elim_some]⟩
    · rintro ⟨deleted, stored, rfl⟩
      refine ⟨id, (ids id).mpr (by simp [stored]), ?_⟩
      rw [Log.rowOf, stored, Option.elim_some]

/-- An entry of the trash view. -/
theorem trashEntry_eq (kept : Kept base log) (absolute : base.head? = some slash) (behind : UInt8)
    (stored : log.store.map id = some deleted) :
    trashEntry log.store.fs cwd base behind id = some (viewEntry id deleted) := by
  rcases kept.sound.stands stored with ⟨files, info, inode, number, name, place, holding, stands⟩
  have fits := stands.fits
  have record_path : snprintf pathMax (trashInfo base ++ slash :: (id ++ ascii ".info")) =
      infoPath base id := by
    rw [trashInfo_of_fits fits, infoPath_of_fits fits]
    exact snprintf_of_lt fits
  have file_path : snprintf pathMax (trashFiles base ++ slash :: id) = filePath base id := by
    rw [trashFiles_of_fits fits]
    rfl
  have file : log.store.fs.stat cwd (filePath base id) = some (.file inode) := by
    rw [stat, (holding.foundAt absolute stands).resolve_file, Option.bind_some, stands.file]
  have whole : id.take nameMax = id := List.take_of_length_le stands.valid.short
  simp only [trashEntry, record_path, file_path, kept.readFile absolute stored, Option.map_some,
    Option.getD_some, (kept.readBack behind stored).displayed, file, whole, viewEntry,
    Option.some.injEq, reduceCtorEq, decide_false]

/-- The trash view shows the map. -/
theorem viewed (kept : Kept base log) (absolute : base.head? = some slash) {readdir : List Name}
    {behind : Name → UInt8} {qsort : List BrowserEntry → List BrowserEntry}
    (enumerates : Enumerates log.store.fs cwd base readdir)
    (permutes : ∀ entries, (qsort entries).Perm entries) :
    ∃ entries, buildTrashEntries log.store.fs cwd base readdir behind qsort = some entries ∧
      (entries.length : ℤ) = trashCount cwd base log.store.fs ∧
      (entries.map BrowserEntry.id).Nodup ∧
      ∀ entry, entry ∈ entries ↔
        ∃ deleted, log.store.map entry.id = some deleted ∧ entry = viewEntry entry.id deleted := by
  by_cases directory : log.store.fs.stat cwd (trashFiles base) = some .directory
  · rcases Option.bind_eq_some_iff.mp directory with ⟨files, found, files_directory⟩
    have permuted := names_of_enumerates enumerates found
    have ids : ∀ id, id ∈ readdir.filter (fun name => name ≠ dot && name ≠ dotDot) ↔
        log.store.map id ≠ none := by
      intro id
      rw [permuted.mem_iff, ← kept.sound.mem_files absolute, namesAt, found, Option.elim_some]
    have made : ∀ id, log.store.map id ≠ none →
        trashEntry log.store.fs cwd base (behind id) id = some (log.entryOf id) := by
      intro id stored
      rcases Option.ne_none_iff_exists'.mp stored with ⟨deleted, stored⟩
      rw [kept.trashEntry_eq absolute (behind id) stored, Log.entryOf, stored, Option.elim_some]
    have built : buildTrashEntries log.store.fs cwd base readdir behind qsort =
        some (qsort ((readdir.filter fun name => name ≠ dot && name ≠ dotDot).map
          log.entryOf)) := by
      have each := @mapM_eq_some _ _
        (fun name => trashEntry log.store.fs cwd base (behind name) name) log.entryOf _
        fun id id_mem => made id ((ids id).mp id_mem)
      simp only [buildTrashEntries, directory, each, Option.map_some]
    have own_id : ∀ id, (log.entryOf id).id = id := by
      intro id
      unfold Log.entryOf
      cases log.store.map id <;> rfl
    have own_ids : BrowserEntry.id ∘ log.entryOf = id := funext own_id
    have sorted := permutes ((readdir.filter fun name => name ≠ dot && name ≠ dotDot).map
      log.entryOf)
    refine ⟨_, built, ?_, ?_, ?_⟩
    · rw [sorted.length_eq, List.length_map, permuted.length_eq, trashCount, opendir, found]
      simp only [files_directory, if_true]
    · apply (sorted.map BrowserEntry.id).nodup_iff.mpr
      rw [List.map_map, own_ids, List.map_id]
      exact permuted.nodup_iff.mpr nodup_names
    · intro entry
      rw [sorted.mem_iff, List.mem_map]
      constructor
      · rintro ⟨id, id_mem, rfl⟩
        rcases Option.ne_none_iff_exists'.mp ((ids id).mp id_mem) with ⟨deleted, stored⟩
        rw [own_id]
        exact ⟨deleted, stored, by rw [Log.entryOf, stored, Option.elim_some]⟩
      · rintro ⟨deleted, stored, same⟩
        refine ⟨entry.id, (ids entry.id).mpr (by simp [stored]), ?_⟩
        rw [Log.entryOf, stored, Option.elim_some, ← same]
  · have nothing : ∀ id, log.store.map id = none := by
      intro id
      by_contra stored
      rcases Option.ne_none_iff_exists'.mp stored with ⟨deleted, stored⟩
      rcases kept.sound.stands stored with
        ⟨files, info, inode, number, name, place, holding, stands⟩
      apply directory
      rw [stat, holding.files_from absolute, Option.bind_some, holding.files_directory]
    have built : buildTrashEntries log.store.fs cwd base readdir behind qsort = some [] := by
      unfold buildTrashEntries
      split
      · next found => exact absurd found directory
      · rfl
    refine ⟨[], built, ?_, List.nodup_nil, ?_⟩
    · unfold trashCount opendir
      cases found : log.store.fs.resolve cwd (trashFiles base) with
      | none => rfl
      | some files =>
          have other : log.store.fs.tree files ≠ some .directory := by
            rwa [stat, found, Option.bind_some] at directory
          simp [other]
    · intro entry
      simp [nothing]

end Kept

/-- In every state reached by plain deletions and by commands whose ids are in the trash, `list`,
the trash view and its pane show the map: each id once, with its path, its time and its size. -/
theorem shown_of_reachable (absolute : base.head? = some slash)
    (reached : (logged base).ReachableUnder (Orderly base) log) : Shown base log := by
  have kept : Kept base log := by
    apply ReachableUnder.invariant reached
    · rintro log ⟨empty, nothing⟩
      refine ⟨sound_of_empty empty nothing, ?_⟩
      intro id deleted stored
      cases (nothing id).symm.trans stored
    · intro log command successor kept orderly taken
      exact kept.next absolute orderly taken
  exact
    { listed := fun _ _ listing => kept.listed absolute listing
      viewed := fun _ _ _ _ enumerates permutes => kept.viewed absolute enumerates permutes
      described := fun _ _ _ _ _ selected stored => kept.described absolute selected stored }

/-- A store whose files have all been deleted at one time. -/
def logAt (store : Store) : Log := ⟨store, fun _ => firstAnswers.time⟩

theorem next_logAt {store after : Store} {command : Command}
    (time_eq : (logAt store).timeAfter command = fun _ => firstAnswers.time)
    (taken : (trash base).next store command = some after) :
    (logged base).next (logAt store) command = some (logAt after) := by
  have next_eq : (logged base).next (logAt store) command =
      some ⟨after, (logAt store).timeAfter command⟩ := next_logged taken
  rw [next_eq, time_eq, logAt]

theorem timeAfter_callInU {store : Store} {pathname : Bytes} :
    (logAt store).timeAfter (.delete (callInU pathname)) = fun _ => firstAnswers.time := by
  simp only [Log.timeAfter]
  split
  · exact Function.update_eq_self _ _
  · rfl

theorem measured_a {store : Store} (adds : (callInU (ascii "/u/a")).deleted store.fs =
    some (firstId, ⟨[1], ascii "/u/a"⟩)) :
    (Command.delete (callInU (ascii "/u/a"))).Measured store := by
  refine ⟨⟨by decide, by decide, by decide, by decide, by decide, by decide⟩, ?_⟩
  intro id deleted found
  cases Option.some.inj (adds.symm.trans found)
  decide

/-- What the trash shows when `/u/a` has been deleted, restored and deleted again, and when it has
been purged after that. -/
theorem shown_again :
    Shown (ascii "/u") (logAt afterAgain) ∧ Shown (ascii "/u") (logAt afterPurge) := by
  have started : (logged (ascii "/u")).ReachableUnder (Orderly (ascii "/u"))
      (logAt nothingDeleted) := .start initial_nothingDeleted
  have orderly : Orderly (ascii "/u") (logAt nothingDeleted)
      (.delete (callInU (ascii "/u/a"))) := ⟨promised_a, plain_a, measured_a adds_a⟩
  have once : (logged (ascii "/u")).ReachableUnder (Orderly (ascii "/u"))
      (logAt (afterOne (ascii "/u/a"))) :=
    .step started orderly (next_logAt timeAfter_callInU (next_callInU adds_a))
  have back : (logged (ascii "/u")).ReachableUnder (Orderly (ascii "/u")) (logAt afterRestore) :=
    .step once ⟨promised_restore, trivial, trivial⟩ (next_logAt rfl next_restore)
  have again : (logged (ascii "/u")).ReachableUnder (Orderly (ascii "/u")) (logAt afterAgain) :=
    .step back ⟨promised_again, plain_again, measured_a adds_again⟩
      (next_logAt timeAfter_callInU next_again)
  exact ⟨shown_of_reachable (by decide) again,
    shown_of_reachable (by decide)
      (.step again ⟨promised_purge, trivial, trivial⟩ (next_logAt rfl next_purge))⟩

end Shown

end Osis.CourseWork
