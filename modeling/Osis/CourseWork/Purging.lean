import Osis.CourseWork.Restoring

/-!
# Purging one entry

`cmd_purge` removes what its two paths lead to. The file is looked at with `stat` first,
which follows links, and the record is removed whatever has become of the file, so that a
link to nothing stays in the trash without a record.
-/

namespace Osis.CourseWork

open Posix Posix.FileSystem

variable {fs : FileSystem} {cwd : Location} {removal : Removal} {base id path : Bytes}

section Paths

theorem endsInSlash_stripSlashes (named : components path ≠ []) :
    endsInSlash (stripSlashes path) = false := by
  have some_left := rdropWhile_slash_ne_nil named
  have last := List.rdropWhile_last_not _ _ some_left
  simp only [decide_eq_true_eq] at last
  rw [stripSlashes, if_neg some_left, endsInSlash,
    List.getLast?_eq_getLast_of_ne_nil some_left, decide_eq_false_iff_not]
  exact fun same => last (Option.some.inj same)

theorem components_stripSlashes (path : Bytes) :
    components (stripSlashes path) = components path := by
  unfold stripSlashes
  split
  · rfl
  · exact components_rdropWhile_slash path

theorem entryOf_unslashed {name : Name} {place : Location}
    (named : fs.entryOf cwd (stripSlashes path) = some (name, place)) :
    endsInSlash (stripSlashes path) = false := by
  rcases entryOf_eq_some.mp named with ⟨-, -, -, -, -, front, split_eq, -⟩
  apply endsInSlash_stripSlashes
  rw [← components_stripSlashes, split_eq]
  simp

theorem lstat_of_named {name : Name} {place : Location}
    (named : fs.entryOf cwd (stripSlashes path) = some (name, place)) :
    fs.lstat cwd (stripSlashes path) = fs.tree (name :: place) :=
  lstat_of_entryOf named (entryOf_unslashed named)

end Paths

section Effects

/-- An entry inside the directory that `remove_tree` is called for. -/
def InsideTree (fs : FileSystem) (cwd : Location) (removal : Removal) (path : Bytes)
    (entry : Location) : Prop :=
  ∃ top, fs.lstat cwd (stripSlashes path) = some .directory ∧
    fs.resolve cwd (stripSlashes path) = some top ∧ entry ∈ removal.below fs top

theorem mem_below {top entry : Location} :
    entry ∈ removal.below fs top ↔
      entry ∈ removal.order ∧ top <:+ entry ∧ entry ≠ top ∧ fs.tree entry ≠ none := by
  simp [Removal.below]

/-- An `unlink` takes out the entry of its path or fails. -/
theorem attempt_unlink (fs : FileSystem) (cwd : Location) (refused : Bool) (path : Bytes) :
    ((attempt fs (granted refused (fs.unlink cwd path))).1 = true ∧ refused = false ∧
        endsInSlash path = false ∧ ∃ name place, fs.entryOf cwd path = some (name, place) ∧
          fs.tree (name :: place) ≠ none ∧ fs.tree (name :: place) ≠ some .directory ∧
          fs.Without (attempt fs (granted refused (fs.unlink cwd path))).2
            fun entry => name :: place <:+ entry) ∨
      ((attempt fs (granted refused (fs.unlink cwd path))).1 = false ∧
        (attempt fs (granted refused (fs.unlink cwd path))).2 = fs) := by
  cases removed : granted refused (fs.unlink cwd path) with
  | none => exact .inr ⟨rfl, rfl⟩
  | some left =>
      rcases granted_eq_some.mp removed with ⟨grant, removed⟩
      rcases unlink_eq_some.mp removed with ⟨name, place, named, exists_entry, leaf, unslashed, rfl⟩
      exact .inl ⟨rfl, grant, unslashed, name, place, named, exists_entry, leaf,
        without_remove (List.cons_ne_nil _ _)⟩

/-- The entry that a path leads to is taken out with all that is below it. -/
def TakesOut (fs : FileSystem) (cwd : Location) (removal : Removal) (path : Bytes)
    (after : FileSystem) : Prop :=
  removal.file = false ∧ ∃ name place, fs.entryOf cwd (stripSlashes path) = some (name, place) ∧
    fs.tree (name :: place) ≠ none ∧ fs.Without after fun entry => name :: place <:+ entry

/-- Some of the entries inside the directory of a path are taken out. -/
def TakesOutInside (fs : FileSystem) (cwd : Location) (removal : Removal) (path : Bytes)
    (after : FileSystem) : Prop :=
  ∃ done : List Location, (∀ entry ∈ done, InsideTree fs cwd removal path entry) ∧
    fs.Without after fun entry => entry ∈ done

theorem takesOutInside_self : TakesOutInside fs cwd removal path fs :=
  ⟨[], by simp, (Without.refl fs).congr (by simp)⟩

/-- `remove_tree` takes out the whole tree at the entry of its path, or it fails and has taken
out some of the entries inside. -/
theorem removeTree_spec (fs : FileSystem) (cwd : Location) (removal : Removal) (path : Bytes) :
    ((removeTree fs cwd removal path).1 = true ∧
        TakesOut fs cwd removal path (removeTree fs cwd removal path).2) ∨
      ((removeTree fs cwd removal path).1 = false ∧
        TakesOutInside fs cwd removal path (removeTree fs cwd removal path).2) := by
  unfold removeTree
  split
  · exact .inr ⟨rfl, takesOutInside_self⟩
  · next found =>
      split
      · exact .inr ⟨rfl, takesOutInside_self⟩
      · next top resolved =>
          rcases removeEach_spec removal.entries (removal.below fs top) fs with
            ⟨done, done_among, without, complete⟩
          have inside : ∀ entry ∈ done, InsideTree fs cwd removal path entry :=
            fun entry entry_mem => ⟨top, found, resolved, done_among.subset entry_mem⟩
          generalize fs.removeEach removal.entries (removal.below fs top) = result at *
          rcases result with ⟨emptied, left⟩
          simp only at without complete ⊢
          split
          · next name place named =>
              have unslashed := entryOf_unslashed named
              have directory : fs.tree (name :: place) = some .directory := by
                rwa [lstat_of_named named] at found
              have top_eq := resolve_of_entryOf named (.inl directory) unslashed
              rw [resolved, Option.some.injEq] at top_eq
              cases removed : granted removal.file (left.removeAt (name :: place)) with
              | none => exact .inr ⟨rfl, done, inside, without⟩
              | some gone =>
                  rcases granted_eq_some.mp removed with ⟨grant, removed⟩
                  rcases removeAt_eq_some removed with ⟨-, empty, without'⟩
                  refine .inl ⟨rfl, grant, name, place, named, ne_none_of_eq_some directory,
                    ?_, ?_, without'.data.trans without.data, without'.fresh.trans without.fresh⟩
                  · intro entry inside_entry
                    by_contra exists_entry
                    change gone.tree entry ≠ none at exists_entry
                    have in_left := without'.extended entry exists_entry
                    have itself := eq_of_suffix_of_empty empty (in_left ▸ exists_entry) inside_entry
                    exact exists_entry (without'.absent entry itself.symm)
                  · intro entry outside
                    change gone.tree entry = fs.tree entry
                    rw [without'.present, without.present]
                    · intro listed
                      apply outside
                      rw [← top_eq]
                      exact (mem_below.mp (done_among.subset listed)).2.1
                    · rintro rfl
                      exact outside (List.suffix_refl _)
          · exact .inr ⟨rfl, done, inside, without⟩
  · rcases attempt_unlink fs cwd removal.file (stripSlashes path) with
      ⟨done, grant, -, name, place, named, exists_entry, -, without⟩ | ⟨failed, same⟩
    · exact .inl ⟨done, grant, name, place, named, exists_entry, without⟩
    · rw [same]
      exact .inr ⟨failed, takesOutInside_self⟩

/-- The file of an id is taken out with all that is below it, or this fails and some of the
entries inside are taken out. -/
theorem purgeFile_spec (fs : FileSystem) (cwd : Location) (removal : Removal) (base id : Bytes) :
    ((purgeFile fs cwd removal base id).1 = true ∧
        TakesOut fs cwd removal (filePath base id) (purgeFile fs cwd removal base id).2) ∨
      ((purgeFile fs cwd removal base id).1 = false ∧
        TakesOutInside fs cwd removal (filePath base id) (purgeFile fs cwd removal base id).2) := by
  unfold purgeFile
  split
  · exact .inr ⟨rfl, takesOutInside_self⟩
  · exact removeTree_spec fs cwd removal (filePath base id)
  · rcases attempt_unlink fs cwd removal.file (filePath base id) with
      ⟨done, grant, unslashed, name, place, named, exists_entry, -, without⟩ | ⟨failed, same⟩
    · exact .inl ⟨done, grant, name, place, by rwa [stripSlashes_of_not_endsInSlash unslashed],
        exists_entry, without⟩
    · rw [same]
      exact .inr ⟨failed, takesOutInside_self⟩

end Effects

section Outcomes

variable {name : Name} {place : Location}

/-- An order of all entries, restricted to those inside a directory. -/
theorem postorder_byDepth (removal : Removal) (ordered : removal.order = fs.byDepth)
    (top : Location) : fs.Postorder top (removal.below fs top) := by
  constructor
  · intro entry
    rw [mem_below, ordered]
    constructor
    · exact fun listed => listed.2
    · exact fun below => ⟨mem_byDepth below.2.2, below⟩
  · rw [Removal.below, ordered]
    exact pairwise_byDepth.filter _

theorem below_of_leaf {top : Location} (leaf : fs.tree top ≠ some .directory) :
    removal.below fs top = [] := by
  rw [List.eq_nil_iff_forall_not_mem]
  intro entry listed
  rcases mem_below.mp listed with ⟨-, below, different, exists_entry⟩
  exact different (eq_of_suffix leaf exists_entry below).symm

theorem postorder_of_leaf {top : Location} (leaf : fs.tree top ≠ some .directory) :
    fs.Postorder top (removal.below fs top) := by
  rw [below_of_leaf leaf]
  refine ⟨fun place => ?_, List.Pairwise.nil⟩
  constructor
  · intro listed
    cases listed
  · rintro ⟨below, different, exists_place⟩
    exact absurd (eq_of_suffix leaf exists_place below).symm different

/-- Once all inside a directory is removed nothing is left in it. -/
theorem names_of_postorder {top : Location} {left : FileSystem}
    (postorder : fs.Postorder top (removal.below fs top))
    (without : fs.Without left fun entry => entry ∈ removal.below fs top) :
    left.names top = [] := by
  rw [List.eq_nil_iff_forall_not_mem]
  intro other listed
  have exists_other := mem_names.mp listed
  rcases without.tree_cases (other :: top) with ⟨-, absent⟩ | ⟨stays, same⟩
  · exact exists_other absent
  · rw [same] at exists_other
    exact stays ((postorder.mem _).mpr ⟨List.suffix_cons _ _, List.cons_ne_self _ _, exists_other⟩)

/-- `remove_tree` succeeds for an entry unless a call is refused. -/
theorem removeTree_iff (named : fs.entryOf cwd (stripSlashes path) = some (name, place))
    (exists_entry : fs.tree (name :: place) ≠ none)
    (postorder : fs.Postorder (name :: place) (removal.below fs (name :: place))) :
    (removeTree fs cwd removal path).1 = true ↔ removal.file = false ∧
      ∀ entry ∈ removal.below fs (name :: place), removal.entries entry = false := by
  have unslashed := entryOf_unslashed named
  have found := lstat_of_named named
  unfold removeTree
  split
  · next absent => exact absurd (found.symm.trans absent) exists_entry
  · next directory =>
      rw [found] at directory
      rw [resolve_of_entryOf named (.inl directory) unslashed]
      rcases removeEach_spec removal.entries (removal.below fs (name :: place)) fs with
        ⟨done, done_among, without, complete⟩
      have whole : (∀ entry ∈ removal.below fs (name :: place), removal.entries entry = false) →
          (fs.removeEach removal.entries (removal.below fs (name :: place))).1 = true :=
        postorder.removeEach_of_granted
      simp only
      generalize fs.removeEach removal.entries (removal.below fs (name :: place)) = result at *
      rcases result with ⟨emptied, left⟩
      cases emptied with
      | false =>
          simp only [Bool.false_eq_true, imp_false, false_iff, not_and] at whole ⊢
          exact fun _ => whole
      | true =>
          rcases complete rfl with ⟨rfl, grants⟩
          have still : left.tree (name :: place) = some .directory := by
            rw [without.present _ fun listed => (mem_below.mp listed).2.2.1 rfl, directory]
          have removed := removeAt_of_empty (ne_none_of_eq_some still) (List.cons_ne_nil _ _)
            (names_of_postorder postorder without)
          simp only [named, removed]
          cases removal.file with
          | false => simpa [attempt, granted] using grants
          | true => simp [attempt, granted]
  · next node leaf found_node =>
      have not_directory : fs.tree (name :: place) ≠ some .directory := by
        rw [← found, found_node]
        intro same
        exact leaf (Option.some.inj same)
      rw [unlink_eq_some.mpr ⟨name, place, named, exists_entry, not_directory, unslashed, rfl⟩,
        below_of_leaf not_directory]
      cases removal.file <;> simp [attempt, granted]

/-- The file of an id is removed unless nothing is found behind its path or a call is refused. -/
theorem purgeFile_iff
    (named : fs.entryOf cwd (stripSlashes (filePath base id)) = some (name, place))
    (exists_entry : fs.tree (name :: place) ≠ none)
    (postorder : fs.Postorder (name :: place) (removal.below fs (name :: place))) :
    (purgeFile fs cwd removal base id).1 = true ↔ fs.stat cwd (filePath base id) ≠ none ∧
      removal.file = false ∧
      ∀ entry ∈ removal.below fs (name :: place), removal.entries entry = false := by
  unfold purgeFile
  split
  · next absent => simp [absent]
  · next directory =>
      rw [removeTree_iff named exists_entry postorder]
      simp [directory]
  · next node leaf found =>
      rcases Option.bind_eq_some_iff.mp found with ⟨other, resolved, found_node⟩
      have unslashed : endsInSlash (filePath base id) = false := by
        by_contra slashed
        rw [Bool.not_eq_false] at slashed
        rw [directory_of_endsInSlash resolved slashed] at found_node
        exact leaf (Option.some.inj found_node).symm
      rw [stripSlashes_of_not_endsInSlash unslashed] at named
      have not_directory : fs.tree (name :: place) ≠ some .directory := by
        intro directory
        rw [resolve_of_entryOf named (.inl directory) unslashed, Option.some.injEq] at resolved
        rw [← resolved, directory] at found_node
        exact leaf (Option.some.inj found_node).symm
      rw [unlink_eq_some.mpr ⟨name, place, named, exists_entry, not_directory, unslashed, rfl⟩,
        below_of_leaf not_directory, found]
      cases removal.file <;> simp [attempt, granted]

end Outcomes

section Pairs

/-- An id has a file and a record, and the way to the record does not lead over the file. -/
structure Paired (fs : FileSystem) (cwd : Location) (base id : Bytes) (name : Name)
    (place : Location) (recordName : Name) (recordPlace : Location) : Prop where
  file_named : fs.entryOf cwd (filePath base id) = some (name, place)
  file_exists : fs.tree (name :: place) ≠ none
  file_unslashed : endsInSlash (filePath base id) = false
  record_named : (fs.remove (name :: place) (List.cons_ne_nil _ _)).entryOf cwd
    (infoPath base id) = some (recordName, recordPlace)
  record_exists : fs.tree (recordName :: recordPlace) ≠ none
  record_leaf : fs.tree (recordName :: recordPlace) ≠ some .directory
  record_unslashed : endsInSlash (infoPath base id) = false
  different : recordName :: recordPlace ≠ name :: place

/-- Both are gone, or the record is still there if the file is. -/
def KeptTogether (fs : FileSystem) (cwd : Location) (removal : Removal) (base id : Bytes)
    (file record : Location) : Prop :=
  let result := cmdPurge fs cwd removal base id
  result.1 = 0 ∧ result.2.tree file = none ∧ result.2.tree record = none ∨
    result.1 = 1 ∧ (result.2.tree file ≠ none → result.2.tree record ≠ none)

/-- The file is not removed: it is a link to nothing, or one of the calls is refused. -/
def FileStays (fs : FileSystem) (cwd : Location) (removal : Removal) (base id : Bytes)
    (file : Location) : Prop :=
  fs.stat cwd (filePath base id) = none ∨ removal.file = true ∨
    fs.tree file = some .directory ∧ ∃ entry ∈ removal.below fs file, removal.entries entry = true

namespace Paired

variable {name recordName : Name} {place recordPlace : Location}

theorem gone_extended :
    (fs.remove (name :: place) (List.cons_ne_nil _ _)).Extends fs :=
  (without_remove _).extended

/-- The record is not in the tree of the file. -/
theorem record_outside (paired : Paired fs cwd base id name place recordName recordPlace) :
    ¬name :: place <:+ recordName :: recordPlace := by
  intro inside
  rcases List.suffix_cons_iff.mp inside with same | below
  · exact paired.different same.symm
  · rcases entryOf_eq_some.mp paired.record_named with ⟨-, -, -, -, directory, -⟩
    rw [tree_remove, if_pos below] at directory
    cases directory

theorem named_stripped (paired : Paired fs cwd base id name place recordName recordPlace) :
    fs.entryOf cwd (stripSlashes (filePath base id)) = some (name, place) := by
  rw [stripSlashes_of_not_endsInSlash paired.file_unslashed]
  exact paired.file_named

/-- The first half of the purge succeeds unless the file stays. -/
theorem purgeFile_succeeds (paired : Paired fs cwd base id name place recordName recordPlace)
    (postorder : fs.Postorder (name :: place) (removal.below fs (name :: place))) :
    (purgeFile fs cwd removal base id).1 = true ↔
      ¬FileStays fs cwd removal base id (name :: place) := by
  rw [purgeFile_iff paired.named_stripped paired.file_exists postorder, FileStays]
  by_cases directory : fs.tree (name :: place) = some .directory
  · simp [directory]
  · simp [directory, below_of_leaf directory]

/-- The first half of the purge leaves the way to the record and the record, and the file unless
it succeeds. -/
theorem purgeFile_left (paired : Paired fs cwd base id name place recordName recordPlace)
    (removal : Removal) :
    (fs.remove (name :: place) (List.cons_ne_nil _ _)).Extends
        (purgeFile fs cwd removal base id).2 ∧
      (purgeFile fs cwd removal base id).2.tree (recordName :: recordPlace) =
        fs.tree (recordName :: recordPlace) ∧
      ((purgeFile fs cwd removal base id).2.tree (name :: place) = none ↔
        (purgeFile fs cwd removal base id).1 = true) := by
  have stripped := stripSlashes_of_not_endsInSlash paired.file_unslashed
  have outside := paired.record_outside
  have kept : ∀ gone : Location → Prop, (∀ entry, gone entry → name :: place <:+ entry) →
      fs.Without (purgeFile fs cwd removal base id).2 gone →
      (fs.remove (name :: place) (List.cons_ne_nil _ _)).Extends
        (purgeFile fs cwd removal base id).2 := by
    intro gone inside without entry exists_entry
    rw [tree_remove] at exists_entry ⊢
    split at exists_entry
    · exact absurd rfl exists_entry
    · next beside =>
        rw [if_neg beside]
        exact without.present entry fun gone_entry => beside (inside entry gone_entry)
  rcases purgeFile_spec fs cwd removal base id with
    ⟨succeeded, -, fileName, filePlace, named, -, without⟩ | ⟨failed, done, inside, without⟩
  · rw [stripped, paired.file_named, Option.some.injEq, Prod.mk.injEq] at named
    rcases named with ⟨rfl, rfl⟩
    refine ⟨kept _ (fun _ below => below) without, without.present _ outside, ?_⟩
    rw [succeeded, without.absent _ (List.suffix_refl _)]
    simp
  · have strictly : ∀ entry ∈ done, name :: place <:+ entry ∧ entry ≠ name :: place := by
      intro entry listed
      rcases inside entry listed with ⟨top, directory, resolved, below⟩
      rw [lstat_of_named paired.named_stripped] at directory
      rw [stripped, resolve_of_entryOf paired.file_named (.inl directory) paired.file_unslashed,
        Option.some.injEq] at resolved
      rw [← resolved] at below
      exact ⟨(mem_below.mp below).2.1, (mem_below.mp below).2.2.1⟩
    refine ⟨kept _ (fun entry listed => (strictly entry listed).1) without,
      without.present _ fun listed => outside (strictly _ listed).1, ?_⟩
    rw [failed, without.present _ fun listed => (strictly _ listed).2 rfl]
    simp [paired.file_exists]

end Paired

/-- `cmd_purge` keeps file and record together if and only if the file does not stay, or
removing the record is refused. -/
theorem keptTogether_iff {name recordName : Name} {place recordPlace : Location}
    (paired : Paired fs cwd base id name place recordName recordPlace)
    (postorder : fs.Postorder (name :: place) (removal.below fs (name :: place))) :
    KeptTogether fs cwd removal base id (name :: place) (recordName :: recordPlace) ↔
      (FileStays fs cwd removal base id (name :: place) → removal.record = true) := by
  have removed_iff := paired.purgeFile_succeeds postorder
  rcases paired.purgeFile_left removal with ⟨extended, record_tree, file_tree⟩
  unfold KeptTogether cmdPurge
  generalize purgeFile fs cwd removal base id = result at *
  rcases result with ⟨removed, left⟩
  have record_exists : left.tree (recordName :: recordPlace) ≠ none := by
    rw [record_tree]
    exact paired.record_exists
  have record_leaf : left.tree (recordName :: recordPlace) ≠ some .directory := by
    rw [record_tree]
    exact paired.record_leaf
  have forgotten := unlink_eq_some.mpr ⟨recordName, recordPlace,
    entryOf_kept extended.keeps paired.record_named, record_exists, record_leaf,
    paired.record_unslashed, rfl⟩
  cases refused : removal.record with
  | true => simp [attempt, granted, record_exists]
  | false =>
      have gone : (left.remove (recordName :: recordPlace) (List.cons_ne_nil _ _)).tree
          (recordName :: recordPlace) = none := if_pos (List.suffix_refl _)
      have same : (left.remove (recordName :: recordPlace) (List.cons_ne_nil _ _)).tree
          (name :: place) = left.tree (name :: place) := by
        rw [tree_remove_leaf record_leaf, if_neg paired.different.symm]
      simp only [attempt, granted, forgotten, Bool.false_eq_true, if_false, Option.isSome_some,
        Option.getD_some, gone, same, file_tree]
      cases removed with
      | true => simpa using removed_iff
      | false => simpa [file_tree] using removed_iff

/-- The files of ids under paths that are not cut are such pairs, if the way to the records does
not lead over them. -/
theorem paired_of_trash {files info : Location} (fits : Fits base id)
    (files_at : fs.resolve cwd (trashFiles base) = some files)
    (info_at : (fs.remove (id :: files) (List.cons_ne_nil _ _)).resolve cwd (trashInfo base) =
      some info)
    (file_exists : fs.tree (id :: files) ≠ none)
    (record_exists : fs.tree ((id ++ ascii ".info") :: info) ≠ none)
    (record_leaf : fs.tree ((id ++ ascii ".info") :: info) ≠ some .directory) :
    Paired fs cwd base id id files (id ++ ascii ".info") info := by
  have valid := fs.named file_exists
  have suffix_length : (ascii ".info").length = 5 := by decide
  have shorter : (filePath base id).length < pathMax := by
    have := List.length_take_le (pathMax - 1) (base ++ ascii "/.trash/files" ++ slash :: id)
    have room : pathMax - 1 < pathMax := by decide
    exact Nat.lt_of_le_of_lt this room
  rw [filePath_of_fits fits] at shorter
  rw [trashFiles_of_fits fits] at files_at
  refine ⟨?_, file_exists, ?_, ?_, record_exists, record_leaf, infoPath_unslashed fits, ?_⟩
  · rw [filePath_of_fits fits]
    exact entryOf_child files_at (fs.closed file_exists) valid shorter
  · rw [filePath_of_fits fits, List.append_cons]
    exact endsInSlash_append_name valid.ne_nil valid.no_slash
  · have exists_info := (isPlain_of_resolve info_at).ne_none
    have directory := (Paired.gone_extended info exists_info).symm.trans (fs.closed record_exists)
    rw [trashInfo_of_fits fits] at info_at
    rw [infoPath_of_fits fits]
    exact entryOf_child info_at directory (fs.named record_exists) fits
  · intro same
    have lengths := congrArg List.length (List.cons.inj same).1
    rw [List.length_append] at lengths
    omega

end Pairs

section Examples

/-- No call is refused, and no directory is walked. -/
def grantedRemoval : Removal := ⟨fun _ => false, false, false, []⟩

/-- A deleted file is purged with its record. -/
theorem keptTogether_file : KeptTogether (deletion (ascii "/a")).2 [] grantedRemoval (ascii ".")
    firstId (firstId :: filesPlace) (firstRecord :: infoPlace) := by
  have fits : Fits (ascii ".") firstId := by decide
  have files_at : (deletion (ascii "/a")).2.resolve [] (trashFiles (ascii ".")) =
      some filesPlace := by decide +kernel
  have info_at : ((deletion (ascii "/a")).2.remove (firstId :: filesPlace)
      (List.cons_ne_nil _ _)).resolve [] (trashInfo (ascii ".")) = some infoPlace := by
    decide +kernel
  have file : (deletion (ascii "/a")).2.tree (firstId :: filesPlace) = some (.file 0) := by
    decide +kernel
  have record : (deletion (ascii "/a")).2.tree (firstRecord :: infoPlace) = some (.file 2) := by
    decide +kernel
  have stated : (deletion (ascii "/a")).2.stat [] (filePath (ascii ".") firstId) =
      some (.file 0) := by decide +kernel
  have paired : Paired (deletion (ascii "/a")).2 [] (ascii ".") firstId firstId filesPlace
      firstRecord infoPlace :=
    paired_of_trash fits files_at info_at (ne_none_of_eq_some file) (ne_none_of_eq_some record)
      (by rw [firstRecord] at record; rw [record]; simp)
  apply (keptTogether_iff paired (postorder_of_leaf (by rw [file]; simp))).mpr
  rintro (absent | refused | ⟨directory, -⟩)
  · rw [stated] at absent
    cases absent
  · cases refused
  · rw [file] at directory
    cases directory

/-- The link `/l` is deleted, and then its target is lost. -/
def danglingLink : FileSystem :=
  ((deletion (ascii "/l")).2.unlink [] (ascii "/a")).getD (deletion (ascii "/l")).2

/-- The record of a link to nothing is purged without the link. -/
theorem not_keptTogether_link :
    ¬ ∀ (fs : FileSystem) (cwd : Location) (removal : Removal) (base id : Bytes)
      (name recordName : Name) (place recordPlace : Location),
      Paired fs cwd base id name place recordName recordPlace →
      fs.Postorder (name :: place) (removal.below fs (name :: place)) →
      KeptTogether fs cwd removal base id (name :: place) (recordName :: recordPlace) := by
  intro claimed
  have fits : Fits (ascii ".") firstId := by decide
  have files_at : danglingLink.resolve [] (trashFiles (ascii ".")) = some filesPlace := by
    decide +kernel
  have info_at : (danglingLink.remove (firstId :: filesPlace)
      (List.cons_ne_nil _ _)).resolve [] (trashInfo (ascii ".")) = some infoPlace := by
    decide +kernel
  have link : danglingLink.tree (firstId :: filesPlace) = some (.link 1 (ascii "/a")) := by
    decide +kernel
  have record : danglingLink.tree (firstRecord :: infoPlace) = some (.file 2) := by
    decide +kernel
  have paired : Paired danglingLink [] (ascii ".") firstId firstId filesPlace
      firstRecord infoPlace :=
    paired_of_trash fits files_at info_at (ne_none_of_eq_some link) (ne_none_of_eq_some record)
      (by rw [firstRecord] at record; rw [record]; simp)
  have kept := claimed danglingLink [] grantedRemoval (ascii ".") firstId firstId firstRecord
    filesPlace infoPlace paired (postorder_of_leaf (by rw [link]; simp))
  have status : (cmdPurge danglingLink [] grantedRemoval (ascii ".") firstId).1 = 1 := by
    decide +kernel
  have file_left : (cmdPurge danglingLink [] grantedRemoval (ascii ".") firstId).2.tree
      (firstId :: filesPlace) = some (.link 1 (ascii "/a")) := by decide +kernel
  have record_gone : (cmdPurge danglingLink [] grantedRemoval (ascii ".") firstId).2.tree
      (firstRecord :: infoPlace) = none := by decide +kernel
  rcases kept with ⟨zero, -⟩ | ⟨-, together⟩
  · rw [status] at zero
    cases zero
  · exact together (ne_none_of_eq_some file_left) record_gone

end Examples

end Osis.CourseWork
