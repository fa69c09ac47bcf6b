import Osis.Concurrency.Transition
import Osis.CourseWork.Recovery

/-!
# Deletions one after another

The id of a deletion is made of the second, of a number of `rand`, which nothing seeds, and of
the extension. Two processes that delete in one second can make the same id, and then the
second deletion moves its file over the first one. `trashed_kept` says that nothing that was
put into the trash is lost as long as this does not happen, and as long as the paths that are
deleted do not lead into the trash.
-/

namespace Osis.CourseWork

open Concurrency Concurrency.System Posix Posix.FileSystem

/-- A call of `unlink`, or of `unlinkat` without `AT_REMOVEDIR`, in some process. -/
structure Call where
  cwd : Location
  base : Bytes
  answers : Answers
  dirfd : Option Location
  pathname : Bytes

/-- What an entry holds besides its node. -/
def contentOf (fs : FileSystem) : Node → Bytes
  | .file inode => fs.data inode
  | .directory | .link _ _ => []

/-- A file that was put into the trash, with its content and its record. -/
structure Trashed where
  file : Location
  node : Node
  content : Bytes
  record : Option Location
  text : Bytes
  deriving DecidableEq

/-- The file is there with its own content, and the record with its own text. -/
def Trashed.Kept (trashed : Trashed) (fs : FileSystem) : Prop :=
  fs.tree trashed.file = some trashed.node ∧ contentOf fs trashed.node = trashed.content ∧
    ∃ record ∈ trashed.record, ∃ inode, fs.tree record = some (.file inode) ∧
      fs.data inode = trashed.text

namespace Call

variable (call : Call) (fs : FileSystem)

/-- The file system once the directories of the trash are made. -/
def ensured : FileSystem := ensureDirectories fs call.cwd call.base

/-- The name that the deletion of a path generates. -/
def idOf (path : Bytes) : Bytes :=
  generateUniqueName call.answers.now call.answers.random (basename path)

def recordOf (path : Bytes) : Bytes :=
  recordText (origReal (call.ensured fs) call.cwd path) call.answers.time
    (((call.ensured fs).stat call.cwd path).elim 0
      (statSize (call.ensured fs) call.answers.directorySize))

/-- What the call puts into the trash: a file or a symbolic link. -/
def trashed : Option Trashed :=
  match buildAbsPath fs call.cwd call.dirfd call.pathname with
  | none => none
  | some path =>
      match moveToTrash fs call.cwd call.base call.answers path with
      | (.moved id _, after) =>
          match (call.ensured fs).entryOf call.cwd (stripSlashes path),
            (call.ensured fs).entryOf call.cwd (filePath call.base id) with
          | some (name, place), some (newName, newPlace) =>
              match (call.ensured fs).tree (name :: place) with
              | none | some .directory => none
              | some node =>
                  some
                    { file := newName :: newPlace
                      node
                      content := contentOf fs node
                      record := after.resolve call.cwd (infoPath call.base id)
                      text := call.recordOf fs path }
          | _, _ => none
      | _ => none

/-- What the call leaves. -/
def after : FileSystem :=
  (unlinkat fs call.cwd call.base call.answers call.dirfd call.pathname false).2

/-- The paths that the call may remove or move, with the directories they start at. -/
def Uses (dir : Location) (path : Bytes) : Prop :=
  dir = call.dirfd.getD call.cwd ∧ path = call.pathname ∨
    dir = call.cwd ∧ ∃ absPath ∈ buildAbsPath fs call.cwd call.dirfd call.pathname,
      path = absPath ∨ path = stripSlashes absPath

/-- The entries that the call may remove or move. -/
def Takes (entry : Location) : Prop :=
  ∃ dir path name place, call.Uses fs dir path ∧
    (call.ensured fs).entryOf dir path = some (name, place) ∧ entry = name :: place

/-- The call moves the entry of a path into the trash. -/
structure Moves (path : Bytes) (moved : FileSystem) : Prop where
  built : buildAbsPath fs call.cwd call.dirfd call.pathname = some path
  stated : (call.ensured fs).stat call.cwd path ≠ none
  outside : ¬trashDir call.base <+: path
  renamed : (call.ensured fs).rename call.cwd (stripSlashes path)
    (filePath call.base (call.idOf path)) = some moved

/-- Both places of the id are free, the name of the record is not too long for one, and no path
of the id is cut. -/
structure Unused (path : Bytes) (moved : FileSystem) : Prop where
  fits : Fits call.base (call.idOf path)
  file : (call.ensured fs).Free call.cwd (filePath call.base (call.idOf path))
  record : moved.Free call.cwd (infoPath call.base (call.idOf path))
  valid : ∀ entry ∈ moved.entryOf call.cwd (infoPath call.base (call.idOf path)),
    ValidName entry.1

end Call

/-- The files and what deletions have put into the trash. -/
structure Deletions where
  fs : FileSystem
  trashed : List Trashed

/-- Deletions by any processes, one after another. -/
def deleting (start : FileSystem) : System Deletions Call where
  initial state := state = ⟨start, []⟩
  next state call := some ⟨call.after state.fs, state.trashed ++ (call.trashed state.fs).toList⟩

/-- The paths of the call lead neither to what is in the trash nor to a directory above it, and a
call that moves its entry into the trash does so under an unused id. -/
structure LeavesTrash (state : Deletions) (call : Call) : Prop where
  apart : ∀ entry, call.Takes state.fs entry → ∀ trashed ∈ state.trashed,
    ¬entry <:+ trashed.file ∧ ∀ record ∈ trashed.record, ¬entry <:+ record
  unused : ∀ path moved, call.Moves state.fs path moved → call.Unused state.fs path moved

section Frames

variable {fs fs' : FileSystem} {call : Call}

/-- Files keep their place and their content. -/
theorem Trashed.Kept.frame {trashed : Trashed} (kept : trashed.Kept fs)
    (file : fs'.tree trashed.file = fs.tree trashed.file)
    (record : ∀ place ∈ trashed.record, fs'.tree place = fs.tree place)
    (data : ∀ inode < fs.fresh, fs'.data inode = fs.data inode) : trashed.Kept fs' := by
  rcases kept with ⟨found, content, place, place_mem, inode, record_found, text⟩
  have record_there := (record place place_mem).trans record_found
  refine ⟨file.trans found, ?_, place, place_mem, inode, record_there,
    (data inode (fs.allocated record_found rfl)).trans text⟩
  rw [← content]
  cases node_eq : trashed.node with
  | directory => exact Eq.refl _
  | link number target => exact Eq.refl _
  | file number => exact data number (fs.allocated (found.trans (congrArg some node_eq)) rfl)

namespace Call

/-- What the paths of a call do not lead to is left as it is. -/
structure Frame (call : Call) (fs fs' : FileSystem) : Prop where
  tree : ∀ place, fs.tree place ≠ none → (∀ entry, call.Takes fs entry → ¬entry <:+ place) →
    fs'.tree place = fs.tree place
  data : ∀ inode < fs.fresh, fs'.data inode = fs.data inode

/-- A real removal takes out an entry that the call may take. -/
theorem frame_of_unlink {left removed : FileSystem} {dir : Location} {path : Bytes}
    (uses : call.Uses fs dir path) (extended : fs.Extends left)
    (below : left.Extends (call.ensured fs)) (data : left.data = fs.data)
    (unlinked : left.unlink dir path = some removed) : call.Frame fs removed := by
  rcases unlink_eq_some.mp unlinked with ⟨name, place, named, -, leaf, -, rfl⟩
  have takes : call.Takes fs (name :: place) :=
    ⟨dir, path, name, place, uses, entryOf_kept below.keeps named, rfl⟩
  constructor
  · intro other exists_other apart
    rw [tree_remove_leaf leaf, if_neg, extended other exists_other]
    rintro rfl
    exact apart _ takes (List.suffix_refl _)
  · intro inode _
    exact congrFun data inode

/-- A call that moves its entry under an unused id also writes a new record. -/
theorem moveToTrash_of_moves {path : Bytes} {moved : FileSystem}
    (moves : call.Moves fs path moved) (unused : call.Unused fs path moved) :
    ∃ after name place, moveToTrash fs call.cwd call.base call.answers path =
        (.moved (call.idOf path) true, after) ∧
      moved.entryOf call.cwd (infoPath call.base (call.idOf path)) = some (name, place) ∧
      moved.tree (name :: place) = none ∧
      (∀ other, after.tree other =
        if other = name :: place then some (.file moved.fresh) else moved.tree other) ∧
      after.data moved.fresh = call.recordOf fs path ∧
      ∀ inode < moved.fresh, after.data inode = moved.data inode := by
  rcases unused.record with ⟨name, place, named, free⟩
  have unslashed := infoPath_unslashed unused.fits
  rcases openWrite_free named free unslashed (unused.valid _ named) with ⟨opened, opened_eq⟩
  rcases Option.ne_none_iff_exists'.mp moves.stated with ⟨node, stated⟩
  have text : call.recordOf fs path = recordText (origReal (call.ensured fs) call.cwd path)
      call.answers.time (statSize (call.ensured fs) call.answers.directorySize node) := by
    rw [recordOf, stated, Option.elim_some]
  have written : writeInfoFile moved call.cwd call.base (call.idOf path)
      (origReal (call.ensured fs) call.cwd path)
      (statSize (call.ensured fs) call.answers.directorySize node) call.answers.time =
        some (opened.write moved.fresh (call.recordOf fs path)) := by
    rw [writeInfoFile, opened_eq, text]
  have result : moveToTrash fs call.cwd call.base call.answers path =
      (.moved (call.idOf path) true, opened.write moved.fresh (call.recordOf fs path)) := by
    have renamed := moves.renamed
    unfold moveToTrash
    unfold ensured at stated renamed written
    unfold idOf at renamed written ⊢
    simp only [stated, if_neg moves.outside, renamed, written]
  rcases writeInfoFile_of_free written named free unslashed with
    ⟨tree_eq, data_record, data_old, -⟩
  exact ⟨_, name, place, result, named, free, tree_eq, data_record.trans text.symm, data_old⟩

/-- A call that does not come to moving its entry has made the directories, and has perhaps
removed what only looks like a path of the trash. -/
theorem moveToTrash_of_not_moves {path : Bytes}
    (built : buildAbsPath fs call.cwd call.dirfd call.pathname = some path)
    (never : ∀ moved, ¬call.Moves fs path moved) :
    moveToTrash fs call.cwd call.base call.answers path = (.refused, call.ensured fs) ∨
      ∃ removed, (call.ensured fs).unlink call.cwd path = some removed ∧
        moveToTrash fs call.cwd call.base call.answers path = (.unlinked, removed) := by
  have refuses := fun moved stated outside renamed => never moved ⟨built, stated, outside, renamed⟩
  unfold ensured idOf at refuses
  unfold ensured moveToTrash
  simp only
  generalize ensureDirectories fs call.cwd call.base = made at *
  cases stated : made.stat call.cwd path with
  | none => exact .inl rfl
  | some node =>
      simp only
      by_cases alike : trashDir call.base <+: path
      · rw [if_pos alike]
        cases unlinked : made.unlink call.cwd path with
        | none => exact .inl rfl
        | some removed => exact .inr ⟨removed, rfl, rfl⟩
      · rw [if_neg alike]
        cases renamed : made.rename call.cwd (stripSlashes path) (filePath call.base
            (generateUniqueName call.answers.now call.answers.random (basename path))) with
        | none => exact .inl rfl
        | some moved => exact absurd renamed (refuses moved (by simp [stated]) alike)

theorem after_of_moved {path id : Bytes} {recorded : Bool} {left : FileSystem}
    (built : buildAbsPath fs call.cwd call.dirfd call.pathname = some path)
    (moved : moveToTrash fs call.cwd call.base call.answers path = (.moved id recorded, left)) :
    call.after fs = left := by
  simp [after, unlinkat, built, moved]

/-- What the `rename` of a call under an unused id has done. -/
theorem moved_of_moves {path : Bytes} {moved : FileSystem} (moves : call.Moves fs path moved)
    (unused : call.Unused fs path moved) : ∃ name place newName newPlace,
      (call.ensured fs).entryOf call.cwd (stripSlashes path) = some (name, place) ∧
      (call.ensured fs).entryOf call.cwd (filePath call.base (call.idOf path)) =
        some (newName, newPlace) ∧
      (call.ensured fs).tree (newName :: newPlace) = none ∧
      (call.ensured fs).Moved moved (name :: place) (newName :: newPlace) := by
  rcases rename_moved moves.renamed with
    ⟨name, place, newName, newPlace, named, new_named, exists_old, outcome⟩
  rcases unused.file with ⟨_, _, new_named', free⟩
  rcases entryOf_unique new_named new_named' with ⟨rfl, rfl⟩
  refine ⟨name, place, newName, newPlace, named, new_named, free, ?_⟩
  rcases outcome with ⟨same, -⟩ | ⟨-, -, is_moved⟩
  · rw [sameFile_of_free exists_old free] at same
    cases same
  · exact is_moved

theorem frame_of_moves {path : Bytes} {moved : FileSystem} (moves : call.Moves fs path moved)
    (unused : call.Unused fs path moved) : call.Frame fs (call.after fs) := by
  have made : fs.Extends (call.ensured fs) := ensureDirectories_extends
  rcases moved_of_moves moves unused with
    ⟨name, place, newName, newPlace, named, -, free, is_moved⟩
  rcases moveToTrash_of_moves moves unused with
    ⟨after, recordName, recordPlace, deleted, -, record_free, tree_eq, -, data_old⟩
  have takes : call.Takes fs (name :: place) :=
    ⟨call.cwd, stripSlashes path, name, place, .inr ⟨rfl, path, moves.built, .inr rfl⟩, named, rfl⟩
  rw [after_of_moved moves.built deleted]
  constructor
  · intro other exists_other apart
    have ensured_same := made other exists_other
    have beside : ¬newName :: newPlace <:+ other :=
      not_suffix_of_free free (by rwa [ensured_same])
    have moved_same := (is_moved.elsewhere other (apart _ takes) beside).trans ensured_same
    rw [tree_eq, if_neg, moved_same]
    rintro rfl
    rw [record_free] at moved_same
    exact exists_other moved_same.symm
  · intro inode old
    have below : inode < moved.fresh := by
      rw [is_moved.fresh]
      exact old.trans_eq fresh_ensureDirectories.symm
    rw [data_old inode below, is_moved.data]
    exact congrFun data_ensureDirectories inode

/-- What a call has put into the trash under an unused id is there. -/
theorem kept_after {trashed : Trashed} (put : call.trashed fs = some trashed)
    (unused : ∀ path moved, call.Moves fs path moved → call.Unused fs path moved) :
    trashed.Kept (call.after fs) := by
  unfold Call.trashed at put
  cases built : buildAbsPath fs call.cwd call.dirfd call.pathname with
  | none => simp [built] at put
  | some path =>
      by_cases may_move : ∃ moved, call.Moves fs path moved
      · rcases may_move with ⟨moved, moves⟩
        have unused := unused path moved moves
        rcases moved_of_moves moves unused with
          ⟨name, place, newName, newPlace, named, new_named, free, is_moved⟩
        rcases moveToTrash_of_moves moves unused with
          ⟨after, recordName, recordPlace, deleted, record_named, record_free, tree_eq, text,
            data_old⟩
        simp only [built, deleted, named, new_named] at put
        rw [after_of_moved built deleted]
        have extended : moved.Extends after := by
          intro other exists_other
          rw [tree_eq, if_neg]
          rintro rfl
          exact exists_other record_free
        have record_file : after.tree (recordName :: recordPlace) = some (.file moved.fresh) := by
          rw [tree_eq, if_pos rfl]
        have resolved := resolve_of_entryOf (entryOf_kept extended.keeps record_named)
          (.inr ⟨_, record_file⟩) (infoPath_unslashed unused.fits)
        have new_tree : ∀ node, (call.ensured fs).tree (name :: place) = some node →
            after.tree (newName :: newPlace) = some node := by
          intro node found
          have moved_new := is_moved.tree_new.trans found
          rw [extended _ (ne_none_of_eq_some moved_new), moved_new]
        have content : ∀ inode, (call.ensured fs).tree (name :: place) = some (.file inode) →
            after.data inode = fs.data inode := by
          intro inode found
          have old : inode < moved.fresh := by
            rw [is_moved.fresh]
            exact (call.ensured fs).allocated found rfl
          rw [data_old inode old, is_moved.data]
          exact congrFun data_ensureDirectories inode
        have record : ∃ record ∈ after.resolve call.cwd (infoPath call.base (call.idOf path)),
            ∃ inode, after.tree record = some (.file inode) ∧
              after.data inode = call.recordOf fs path :=
          ⟨_, resolved, _, record_file, text⟩
        cases found : (call.ensured fs).tree (name :: place) with
        | none => simp [found] at put
        | some node =>
            cases node with
            | directory => simp [found] at put
            | file inode =>
                simp only [found, Option.some.injEq] at put
                rw [← put]
                exact ⟨new_tree _ found, content inode found, record⟩
            | link number target =>
                simp only [found, Option.some.injEq] at put
                rw [← put]
                exact ⟨new_tree _ found, rfl, record⟩
      · rcases moveToTrash_of_not_moves built (not_exists.mp may_move) with
          refused | ⟨removed, -, unlinked⟩
        · simp [built, refused] at put
        · simp [built, unlinked] at put

/-- A call leaves alone what its paths do not lead to, if its id is unused. -/
theorem frame_after
    (unused : ∀ path moved, call.Moves fs path moved → call.Unused fs path moved) :
    call.Frame fs (call.after fs) := by
  have made : fs.Extends (call.ensured fs) := ensureDirectories_extends
  have data : (call.ensured fs).data = fs.data := data_ensureDirectories
  -- the real removal at the end of the call
  have removes : ∀ left, fs.Extends left → left.Extends (call.ensured fs) → left.data = fs.data →
      call.Frame fs (realUnlink left (call.dirfd.getD call.cwd) call.pathname).2 := by
    intro left extended below same
    unfold realUnlink
    split
    · exact ⟨fun place exists_place _ => extended place exists_place,
        fun inode _ => congrFun same inode⟩
    · next removed unlinked =>
        exact frame_of_unlink (.inl ⟨rfl, rfl⟩) extended below same unlinked
  cases built : buildAbsPath fs call.cwd call.dirfd call.pathname with
  | none =>
      have left := removes fs (fun _ _ => rfl) made rfl
      simpa [after, unlinkat, built] using left
  | some path =>
      by_cases moves : ∃ moved, call.Moves fs path moved
      · rcases moves with ⟨moved, moves⟩
        exact frame_of_moves moves (unused path moved moves)
      · rcases moveToTrash_of_not_moves built (not_exists.mp moves) with
          refused | ⟨removed, unlinked, done⟩
        · have left := removes (call.ensured fs) made (fun _ _ => rfl) data
          simpa [after, unlinkat, built, refused] using left
        · have left := frame_of_unlink (.inr ⟨rfl, path, built, .inl rfl⟩) made (fun _ _ => rfl)
            data unlinked
          simpa [after, unlinkat, built, done] using left

end Call

end Frames

variable {start : FileSystem} {state : Deletions}

/-- What deletions have put into the trash is there with its content and its record in every
state reached, if no deletion leads into the trash or uses an id again. -/
theorem trashed_kept (reached : (deleting start).ReachableUnder LeavesTrash state) :
    ∀ trashed ∈ state.trashed, trashed.Kept state.fs := by
  apply ReachableUnder.invariant reached
  · rintro state rfl trashed ⟨⟩
  · intro state call successor kept leaves taken trashed trashed_mem
    rw [← Option.some.inj taken] at trashed_mem ⊢
    rcases List.mem_append.mp trashed_mem with old | new
    · have apart := leaves.apart
      have frame := Call.frame_after leaves.unused
      have there := kept trashed old
      apply there.frame _ _ frame.data
      · exact frame.tree trashed.file (ne_none_of_eq_some there.1)
          fun entry takes => (apart entry takes trashed old).1
      · rcases there.2.2 with ⟨record, record_mem, inode, found, -⟩
        intro place place_mem
        rw [Option.mem_unique place_mem record_mem]
        exact frame.tree record (ne_none_of_eq_some found)
          fun entry takes => (apart entry takes trashed old).2 record record_mem
    · exact Call.kept_after (Option.mem_toList.mp new) leaves.unused

section Examples

/-- Two files `/a` and `/b` of different contents. -/
def twoFiles : FileSystem :=
  match fileAndLink.openWrite [] (ascii "/b") with
  | some (opened, inode) => opened.write inode [2]
  | none => fileAndLink

/-- A deletion in a second, in a process that calls `rand` for the first time. -/
def callAt (now : ℤ) (pathname : Bytes) : Call :=
  ⟨[], ascii ".", { firstAnswers with now }, none, pathname⟩

/-- The state after `/a` is deleted in the first second. -/
def firstDeleted : Deletions :=
  ⟨(callAt 1 (ascii "/a")).after twoFiles, ((callAt 1 (ascii "/a")).trashed twoFiles).toList⟩

def trashedFirst : Trashed :=
  ⟨firstId :: filesPlace, .file 0, [1], some (firstRecord :: infoPlace),
    recordText (ascii "/a") firstAnswers.time 1⟩

theorem trashed_first : firstDeleted.trashed = [trashedFirst] := by decide +kernel

/-- Whether an id is unused can be computed for a call. -/
theorem unused_of_built {call : Call} {fs : FileSystem} {path : Bytes}
    (built : buildAbsPath fs call.cwd call.dirfd call.pathname = some path)
    (fits : Fits call.base (call.idOf path))
    (file : (call.ensured fs).Free call.cwd (filePath call.base (call.idOf path)))
    (record : ∀ moved ∈ (call.ensured fs).rename call.cwd (stripSlashes path)
      (filePath call.base (call.idOf path)),
      moved.Free call.cwd (infoPath call.base (call.idOf path)) ∧
        ∀ entry ∈ moved.entryOf call.cwd (infoPath call.base (call.idOf path)),
          ValidName entry.1) :
    ∀ path moved, call.Moves fs path moved → call.Unused fs path moved := by
  intro path' moved moves
  rcases Option.some.inj (built.symm.trans moves.built) with rfl
  exact ⟨fits, file, (record moved moves.renamed).1, (record moved moves.renamed).2⟩

theorem leavesTrash_first : LeavesTrash ⟨twoFiles, []⟩ (callAt 1 (ascii "/a")) := by
  have built : buildAbsPath twoFiles [] none (ascii "/a") = some (ascii "/a") := by decide +kernel
  refine ⟨fun _ _ trashed trashed_mem => absurd trashed_mem List.not_mem_nil, ?_⟩
  exact unused_of_built built (by decide +kernel) (by decide +kernel) (by decide +kernel)

theorem leavesTrash_second : LeavesTrash firstDeleted (callAt 2 (ascii "/b")) := by
  have built : buildAbsPath firstDeleted.fs [] none (ascii "/b") = some (ascii "/b") := by
    decide +kernel
  have named : ((callAt 2 (ascii "/b")).ensured firstDeleted.fs).entryOf [] (ascii "/b") =
      some (ascii "b", []) := by decide +kernel
  have stripped : stripSlashes (ascii "/b") = ascii "/b" := by decide
  constructor
  · rintro entry ⟨dir, path, name, place, uses, used, rfl⟩ trashed trashed_mem
    have only : dir = [] ∧ path = ascii "/b" := by
      rcases uses with ⟨rfl, rfl⟩ | ⟨rfl, absPath, absPath_mem, same⟩
      · exact ⟨rfl, rfl⟩
      · have absPath_eq : ascii "/b" = absPath := Option.some.inj (built.symm.trans absPath_mem)
        rw [← absPath_eq, stripped, or_self] at same
        exact ⟨rfl, same⟩
    rw [only.1, only.2] at used
    rcases entryOf_unique named used with ⟨rfl, rfl⟩
    rw [trashed_first, List.mem_singleton] at trashed_mem
    rw [trashed_mem]
    exact ⟨by decide, by decide⟩
  · exact unused_of_built built (by decide +kernel) (by decide +kernel) (by decide +kernel)

/-- The state after `/b` is deleted, too. -/
def secondDeleted (now : ℤ) : Deletions :=
  ⟨(callAt now (ascii "/b")).after firstDeleted.fs,
    firstDeleted.trashed ++ ((callAt now (ascii "/b")).trashed firstDeleted.fs).toList⟩

theorem mem_secondDeleted (now : ℤ) : trashedFirst ∈ (secondDeleted now).trashed := by
  apply List.mem_append_left
  rw [trashed_first]
  exact List.mem_cons_self

/-- A file stays in the trash when another one is deleted a second later. -/
theorem trashed_kept_later : trashedFirst.Kept (secondDeleted 2).fs := by
  have first : (deleting twoFiles).ReachableUnder LeavesTrash firstDeleted :=
    .step (.start rfl) leavesTrash_first rfl
  have second : (deleting twoFiles).ReachableUnder LeavesTrash (secondDeleted 2) :=
    .step first leavesTrash_second rfl
  exact trashed_kept second trashedFirst (mem_secondDeleted 2)

/-- Two processes that delete in one second lose the first file. -/
theorem not_trashed_kept_together :
    ¬ ∀ (start : FileSystem) (state : Deletions), (deleting start).Reachable state →
      ∀ trashed ∈ state.trashed, trashed.Kept state.fs := by
  intro claimed
  have first : (deleting twoFiles).Reachable firstDeleted := .step (.start rfl) trivial rfl
  have second : (deleting twoFiles).Reachable (secondDeleted 1) := .step first trivial rfl
  have kept := (claimed twoFiles _ second trashedFirst (mem_secondDeleted 1)).1
  have replaced : (secondDeleted 1).fs.tree trashedFirst.file = some (.file 2) := by
    decide +kernel
  rw [replaced] at kept
  cases kept

end Examples

end Osis.CourseWork
