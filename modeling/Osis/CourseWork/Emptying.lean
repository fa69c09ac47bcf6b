import Osis.CourseWork.PurgeTargets

/-!
# Emptying the trash

`cmd_purge_all` purges the ids it reads out of the names of the records. When it returns 0
each of these has been purged with its record, and nothing else has: a file without a
record is not seen, nor is what is in the directory of the records under another name.
-/

namespace Osis.CourseWork

open Posix Posix.FileSystem

/-- Where the two paths of an id lead. -/
structure LeadsTo (fs : FileSystem) (cwd : Location) (base id : Bytes)
    (file record : Location) : Prop where
  file_named : ∃ name place, file = name :: place ∧
    fs.entryOf cwd (stripSlashes (filePath base id)) = some (name, place)
  record_named : ∃ name place, record = name :: place ∧
    fs.entryOf cwd (infoPath base id) = some (name, place)

/-- An entry is the file or the record of one of some ids, or inside it. -/
def Covered (fs : FileSystem) (cwd : Location) (base : Bytes) (ids : List Bytes)
    (entry : Location) : Prop :=
  ∃ id ∈ ids, ∃ file record, LeadsTo fs cwd base id file record ∧
    (file <:+ entry ∨ record <:+ entry)

/-- A place is one of the directories of the trash. -/
def TrashPlace (fs : FileSystem) (cwd : Location) (base : Bytes) (place : Location) : Prop :=
  fs.resolve cwd (base ++ ascii "/.trash/files") = some place ∨
    fs.resolve cwd (base ++ ascii "/.trash/info") = some place

/-- Nothing is left in the directories of the trash. -/
def Emptied (fs after : FileSystem) (cwd : Location) (base : Bytes) : Prop :=
  ∀ place, TrashPlace fs cwd base place → after.names place = []

variable {fs fs' after : FileSystem} {cwd : Location} {base id : Bytes} {names : List Name}
  {file record file' record' : Location}

namespace LeadsTo

theorem kept (keeps : fs.Keeps fs') (leads : LeadsTo fs cwd base id file record) :
    LeadsTo fs' cwd base id file record := by
  rcases leads with ⟨⟨name, place, rfl, named⟩, recordName, recordPlace, rfl, record_named⟩
  exact ⟨⟨name, place, rfl, entryOf_kept keeps named⟩, recordName, recordPlace, rfl,
    entryOf_kept keeps record_named⟩

theorem unique (leads : LeadsTo fs cwd base id file record)
    (leads' : LeadsTo fs cwd base id file' record') : file = file' ∧ record = record' := by
  rcases leads with ⟨⟨name, place, rfl, named⟩, recordName, recordPlace, rfl, record_named⟩
  rcases leads' with ⟨⟨name', place', rfl, named'⟩, recordName', recordPlace', rfl, record_named'⟩
  rw [named, Option.some.injEq, Prod.mk.injEq] at named'
  rw [record_named, Option.some.injEq, Prod.mk.injEq] at record_named'
  rw [named'.1, named'.2, record_named'.1, record_named'.2]
  exact ⟨rfl, rfl⟩

end LeadsTo

section Runs

/-- A purge that returns 0 has removed what the two paths lead to. -/
theorem cmdPurge_zero {removal : Removal} (purged : (cmdPurge fs cwd removal base id).1 = 0) :
    ∃ file record, LeadsTo fs cwd base id file record ∧
      fs.Without (cmdPurge fs cwd removal base id).2 fun entry =>
        file <:+ entry ∨ record <:+ entry := by
  rw [cmdPurge_snd]
  unfold cmdPurge at purged
  rcases purgeFile_spec fs cwd removal base id with
    ⟨removed, -, name, place, named, -, without⟩ | ⟨failed, -⟩
  · generalize purgeFile fs cwd removal base id = result at *
    rcases result with ⟨succeeded, left⟩
    rcases attempt_unlink left cwd removal.record (infoPath base id) with
      ⟨forgotten, -, -, recordName, recordPlace, record_named, -, -, without'⟩ | ⟨failed, -⟩
    · exact ⟨name :: place, recordName :: recordPlace, ⟨⟨name, place, rfl, named⟩, recordName,
        recordPlace, rfl, entryOf_kept without.extended.keeps record_named⟩,
        without.trans without'⟩
    · simp only [failed, Bool.and_false, Bool.false_eq_true, if_false, Nat.one_ne_zero] at purged
  · simp only [failed, Bool.false_and, Bool.false_eq_true, if_false, Nat.one_ne_zero] at purged

/-- One more id. -/
theorem covered_cons {ids : List Bytes} (leads : LeadsTo fs cwd base id file record)
    (keeps : fs'.Keeps fs)
    (found : ∀ other ∈ ids, ∃ file record, LeadsTo fs' cwd base other file record)
    (entry : Location) :
    ((file <:+ entry ∨ record <:+ entry) ∨ Covered fs' cwd base ids entry) ↔
      Covered fs cwd base (id :: ids) entry := by
  constructor
  · rintro (below | ⟨other, other_mem, file', record', leads', below⟩)
    · exact ⟨id, List.mem_cons_self, file, record, leads, below⟩
    · exact ⟨other, List.mem_cons_of_mem _ other_mem, file', record', leads'.kept keeps, below⟩
  · rintro ⟨other, other_mem, file', record', leads', below⟩
    rcases List.mem_cons.mp other_mem with rfl | in_rest
    · rcases leads.unique leads' with ⟨rfl, rfl⟩
      exact .inl below
    · rcases found other in_rest with ⟨file'', record'', leads''⟩
      rcases (leads''.kept keeps).unique leads' with ⟨rfl, rfl⟩
      exact .inr ⟨other, in_rest, _, _, leads'', below⟩

/-- A run over some names that ends with 0 removes what the paths of their ids lead to. -/
theorem purgeNames_zero {removal : Bytes → Removal} {status : ℕ}
    (purged : purgeNames cwd removal base names (status, fs) = some (0, after)) :
    status = 0 ∧
      (∀ id ∈ names.filterMap idOfRecord, ∃ file record, LeadsTo fs cwd base id file record) ∧
      fs.Without after (Covered fs cwd base (names.filterMap idOfRecord)) := by
  induction names generalizing status fs with
  | nil =>
      simp only [purgeNames, Option.some.injEq, Prod.mk.injEq] at purged
      rcases purged with ⟨rfl, rfl⟩
      exact ⟨rfl, by simp, (Without.refl fs).congr (by simp [Covered])⟩
  | cons name rest ih =>
      unfold purgeNames at purged
      cases recovered : idOfRecord name with
      | none =>
          rw [recovered] at purged
          rw [List.filterMap_cons_none recovered]
          exact ih purged
      | some id =>
          simp only [recovered, Option.ite_none_right_eq_some] at purged
          rcases ih purged.2 with ⟨status_eq, found, without⟩
          rw [List.filterMap_cons_some recovered]
          have purged_id : (cmdPurge fs cwd (removal id) base id).1 = 0 := by
            by_contra failed
            rw [if_neg failed] at status_eq
            cases status_eq
          rw [if_pos purged_id] at status_eq
          rcases cmdPurge_zero purged_id with ⟨file, record, leads, without_id⟩
          have keeps := without_id.extended.keeps
          refine ⟨status_eq, ?_, (without_id.trans without).congr (covered_cons leads keeps found)⟩
          intro other other_mem
          rcases List.mem_cons.mp other_mem with rfl | in_rest
          · exact ⟨file, record, leads⟩
          · rcases found other in_rest with ⟨file', record', leads'⟩
            exact ⟨file', record', leads'.kept keeps⟩

/-- What is left when the trash has been emptied. -/
theorem cmdPurgeAll_zero {removal : Bytes → Removal}
    (purged : cmdPurgeAll fs cwd removal base names = some (0, after)) :
    (∀ id ∈ names.filterMap idOfRecord, ∃ file record, LeadsTo fs cwd base id file record) ∧
      fs.Without after (Covered fs cwd base (names.filterMap idOfRecord)) := by
  unfold cmdPurgeAll at purged
  split at purged
  · exact (purgeNames_zero purged).2
  · simp at purged

/-- A run that returns 0 has emptied the trash if and only if every entry in its directories
belongs to an id of a record that was read. -/
theorem emptied_iff {removal : Bytes → Removal}
    (purged : cmdPurgeAll fs cwd removal base names = some (0, after)) :
    Emptied fs after cwd base ↔ ∀ place, TrashPlace fs cwd base place → ∀ name ∈ fs.names place,
      Covered fs cwd base (names.filterMap idOfRecord) (name :: place) :=
  forall₂_congr fun _ _ => (cmdPurgeAll_zero purged).2.names_eq_nil_iff

end Runs

section Matched

variable {files info : Location}

/-- Where the paths of an id lead that is one name. -/
theorem LeadsTo.eq_of_name (leads : LeadsTo fs cwd base id file record) (some_id : id ≠ [])
    (no_slash : slash ∉ id) (fits : Fits base id)
    (files_at : fs.resolve cwd (base ++ ascii "/.trash/files") = some files)
    (info_at : fs.resolve cwd (base ++ ascii "/.trash/info") = some info) :
    file = id :: files ∧ record = (id ++ ascii ".info") :: info := by
  rcases leads with ⟨⟨name, place, rfl, named⟩, recordName, recordPlace, rfl, record_named⟩
  rw [stripSlashes_of_not_endsInSlash (filePath_unslashed some_id no_slash fits)] at named
  rcases file_of_name some_id no_slash fits named with ⟨rfl, at_files⟩
  rcases record_of_name no_slash fits record_named with ⟨rfl, at_info⟩
  rw [files_at, Option.some.injEq] at at_files
  rw [info_at, Option.some.injEq] at at_info
  rw [at_files, at_info]
  exact ⟨rfl, rfl⟩

/-- The ids that are read are those of the records. -/
theorem mem_ids_iff
    (listed : ∀ name, name ∈ names ↔ name = dot ∨ name = dotDot ∨ name ∈ fs.names info) :
    id ∈ names.filterMap idOfRecord ↔ id ≠ [] ∧ id ++ ascii ".info" ∈ fs.names info := by
  have suffix_length : (ascii ".info").length = 5 := by decide
  have too_short : ∀ name : Name, name.length < 5 → name ≠ id ++ ascii ".info" := by
    intro name short name_eq
    rw [name_eq, List.length_append] at short
    omega
  simp only [List.mem_filterMap, idOfRecord_eq_some, listed]
  constructor
  · rintro ⟨name, (rfl | rfl | name_mem), name_eq, some_id⟩
    · exact absurd name_eq (too_short dot (by decide))
    · exact absurd name_eq (too_short dotDot (by decide))
    · exact ⟨some_id, name_eq ▸ name_mem⟩
  · rintro ⟨some_id, name_mem⟩
    exact ⟨_, .inr (.inr name_mem), rfl, some_id⟩

/-- What a run that returns 0 covers. -/
theorem covered_iff {removal : Bytes → Removal}
    (purged : cmdPurgeAll fs cwd removal base names = some (0, after))
    (listed : ∀ name, name ∈ names ↔ name = dot ∨ name = dotDot ∨ name ∈ fs.names info)
    (fits : ∀ id ∈ names.filterMap idOfRecord, Fits base id)
    (files_at : fs.resolve cwd (base ++ ascii "/.trash/files") = some files)
    (info_at : fs.resolve cwd (base ++ ascii "/.trash/info") = some info) (entry : Location) :
    Covered fs cwd base (names.filterMap idOfRecord) entry ↔
      ∃ id ∈ names.filterMap idOfRecord,
        id :: files <:+ entry ∨ (id ++ ascii ".info") :: info <:+ entry := by
  have leads_eq : ∀ id ∈ names.filterMap idOfRecord, ∀ file record,
      LeadsTo fs cwd base id file record →
      file = id :: files ∧ record = (id ++ ascii ".info") :: info := by
    intro id id_mem file record leads
    rcases (mem_ids_iff listed).mp id_mem with ⟨some_id, name_mem⟩
    have no_slash := (fs.named (mem_names.mp name_mem)).no_slash
    exact leads.eq_of_name some_id (fun in_id => no_slash (List.mem_append_left _ in_id))
      (fits id id_mem) files_at info_at
  constructor
  · rintro ⟨id, id_mem, file, record, leads, below⟩
    rcases leads_eq id id_mem file record leads with ⟨rfl, rfl⟩
    exact ⟨id, id_mem, below⟩
  · rintro ⟨id, id_mem, below⟩
    rcases (cmdPurgeAll_zero purged).1 id id_mem with ⟨file, record, leads⟩
    rcases leads_eq id id_mem file record leads with ⟨rfl, rfl⟩
    exact ⟨id, id_mem, _, _, leads, below⟩

theorem suffix_of_cons_suffix_cons {name other : Name} {place top : Location}
    (below : other :: top <:+ name :: place) : top <:+ place := by
  rcases List.suffix_cons_iff.mp below with same | inside
  · have top_eq : top = place := (List.cons.inj same).2
    exact top_eq ▸ List.suffix_refl top
  · exact (List.suffix_cons _ _).trans inside

theorem eq_of_cons_suffix_cons {name other : Name} {place : Location}
    (below : other :: place <:+ name :: place) : other = name := by
  rcases List.suffix_cons_iff.mp below with same | inside
  · exact (List.cons.inj same).1
  · exact absurd inside not_cons_suffix_self

/-- In a trash of two directories apart, a run that returns 0 has emptied it if and only if every
file had a record and every record the suffix. -/
theorem emptied_iff_of_apart {removal : Bytes → Removal}
    (purged : cmdPurgeAll fs cwd removal base names = some (0, after))
    (listed : ∀ name, name ∈ names ↔ name = dot ∨ name = dotDot ∨ name ∈ fs.names info)
    (fits : ∀ id ∈ names.filterMap idOfRecord, Fits base id)
    (files_at : fs.resolve cwd (base ++ ascii "/.trash/files") = some files)
    (info_at : fs.resolve cwd (base ++ ascii "/.trash/info") = some info)
    (apart : ¬files <:+ info) (apart' : ¬info <:+ files) :
    Emptied fs after cwd base ↔
      (∀ name ∈ fs.names files, name ++ ascii ".info" ∈ fs.names info) ∧
        ∀ name ∈ fs.names info, (idOfRecord name).isSome := by
  have covered := covered_iff purged listed fits files_at info_at
  have without := (cmdPurgeAll_zero purged).2
  constructor
  · intro emptied
    have belongs : ∀ place, TrashPlace fs cwd base place → ∀ name ∈ fs.names place,
        Covered fs cwd base (names.filterMap idOfRecord) (name :: place) :=
      fun place trash => without.names_eq_nil_iff.mp (emptied place trash)
    constructor
    · intro name name_mem
      rcases (covered _).mp (belongs files (.inl files_at) name name_mem) with
        ⟨id, id_mem, below | below⟩
      · rw [← eq_of_cons_suffix_cons below]
        exact ((mem_ids_iff listed).mp id_mem).2
      · exact absurd (suffix_of_cons_suffix_cons below) apart'
    · intro name name_mem
      rcases (covered _).mp (belongs info (.inr info_at) name name_mem) with
        ⟨id, id_mem, below | below⟩
      · exact absurd (suffix_of_cons_suffix_cons below) apart
      · rw [← eq_of_cons_suffix_cons below,
          idOfRecord_eq_some.mpr ⟨rfl, ((mem_ids_iff listed).mp id_mem).1⟩, Option.isSome_some]
  · rintro ⟨recorded, suffixed⟩ place (at_files | at_info)
    · rw [files_at, Option.some.injEq] at at_files
      rw [← at_files, without.names_eq_nil_iff]
      intro name name_mem
      have id_mem := (mem_ids_iff listed).mpr
        ⟨(fs.named (mem_names.mp name_mem)).ne_nil, recorded name name_mem⟩
      exact (covered _).mpr ⟨name, id_mem, .inl (List.suffix_refl _)⟩
    · rw [info_at, Option.some.injEq] at at_info
      rw [← at_info, without.names_eq_nil_iff]
      intro name name_mem
      rcases Option.isSome_iff_exists.mp (suffixed name name_mem) with ⟨id, recovered⟩
      rcases idOfRecord_eq_some.mp recovered with ⟨rfl, some_id⟩
      have id_mem := (mem_ids_iff listed).mpr ⟨some_id, name_mem⟩
      exact (covered _).mpr ⟨id, id_mem, .inr (List.suffix_refl _)⟩

end Matched

section Examples

/-- What `readdir` gives for the directory of the records after one deletion. -/
def listing : List Name := [dot, dotDot, firstRecord]

/-- A deleted file is all that the trash has held. -/
theorem emptied_file : ∃ after, cmdPurgeAll (deletion (ascii "/a")).2 [] (fun _ => grantedRemoval)
    (ascii ".") listing = some (0, after) ∧
      Emptied (deletion (ascii "/a")).2 after [] (ascii ".") := by
  have returned : (cmdPurgeAll (deletion (ascii "/a")).2 [] (fun _ => grantedRemoval)
      (ascii ".") listing).map Prod.fst = some 0 := by decide +kernel
  rcases Option.map_eq_some_iff.mp returned with ⟨⟨status, after⟩, purged, rfl⟩
  refine ⟨after, purged, (emptied_iff purged).mpr ?_⟩
  have file_named : (deletion (ascii "/a")).2.entryOf []
      (stripSlashes (filePath (ascii ".") firstId)) = some (firstId, filesPlace) := by
    decide +kernel
  have record_named : (deletion (ascii "/a")).2.entryOf [] (infoPath (ascii ".") firstId) =
      some (firstRecord, infoPlace) := by decide +kernel
  have leads : LeadsTo (deletion (ascii "/a")).2 [] (ascii ".") firstId
      (firstId :: filesPlace) (firstRecord :: infoPlace) :=
    ⟨⟨_, _, rfl, file_named⟩, _, _, rfl, record_named⟩
  have files_at : (deletion (ascii "/a")).2.resolve [] (ascii "." ++ ascii "/.trash/files") =
      some filesPlace := by decide +kernel
  have info_at : (deletion (ascii "/a")).2.resolve [] (ascii "." ++ ascii "/.trash/info") =
      some infoPlace := by decide +kernel
  have files_names : (deletion (ascii "/a")).2.names filesPlace = [firstId] := by decide +kernel
  have info_names : (deletion (ascii "/a")).2.names infoPlace = [firstRecord] := by decide +kernel
  have id_mem : firstId ∈ listing.filterMap idOfRecord := by decide
  rintro place (at_files | at_info) name name_mem
  · rw [files_at, Option.some.injEq] at at_files
    rw [← at_files, files_names, List.mem_singleton] at name_mem
    rw [← at_files, name_mem]
    exact ⟨firstId, id_mem, _, _, leads, .inl (List.suffix_refl _)⟩
  · rw [info_at, Option.some.injEq] at at_info
    rw [← at_info, info_names, List.mem_singleton] at name_mem
    rw [← at_info, name_mem]
    exact ⟨firstId, id_mem, _, _, leads, .inr (List.suffix_refl _)⟩

/-- A deleted file whose record is lost. -/
def lostRecord : FileSystem :=
  ((deletion (ascii "/a")).2.unlink [] (infoPath (ascii ".") firstId)).getD
    (deletion (ascii "/a")).2

/-- A file without a record stays. -/
theorem not_emptied_lost :
    ¬ ∀ (fs after : FileSystem) (cwd : Location) (removal : Bytes → Removal) (base : Bytes)
      (names : List Name) (info : Location),
      fs.resolve cwd (base ++ ascii "/.trash/info") = some info →
      (∀ name, name ∈ names ↔ name = dot ∨ name = dotDot ∨ name ∈ fs.names info) →
      cmdPurgeAll fs cwd removal base names = some (0, after) → Emptied fs after cwd base := by
  intro claimed
  have files_at : lostRecord.resolve [] (ascii "." ++ ascii "/.trash/files") = some filesPlace := by
    decide +kernel
  have info_at : lostRecord.resolve [] (ascii "." ++ ascii "/.trash/info") = some infoPlace := by
    decide +kernel
  have info_names : lostRecord.names infoPlace = [] := by decide +kernel
  have found : lostRecord.stat [] (trashInfo (ascii ".")) = some .directory := by decide +kernel
  have purged : cmdPurgeAll lostRecord [] (fun _ => grantedRemoval) (ascii ".") [dot, dotDot] =
      some (0, lostRecord) := by
    rw [cmdPurgeAll, found]
    rfl
  have listed : ∀ name, name ∈ [dot, dotDot] ↔
      name = dot ∨ name = dotDot ∨ name ∈ lostRecord.names infoPlace := by
    intro name
    rw [info_names]
    simp
  have emptied := claimed lostRecord lostRecord [] (fun _ => grantedRemoval) (ascii ".")
    [dot, dotDot] infoPlace info_at listed purged filesPlace (.inl files_at)
  have left : lostRecord.names filesPlace = [firstId] := by decide +kernel
  rw [left] at emptied
  cases emptied

end Examples

end Osis.CourseWork
