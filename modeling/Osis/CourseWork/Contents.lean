import Osis.Concurrency.Transition
import Osis.CourseWork.AllOrNothing

/-!
# What restoring does to contents

A restored entry replaces a file that is at its path, so that with every restore to a path
that is in use the content there is lost, unless it is somewhere else, too. The records
are not contents: a restore takes its own away.
-/

namespace Osis.CourseWork

open Posix Posix.FileSystem Concurrency Concurrency.System

/-- A content is that of a file which is not a record. -/
def Holds (fs : FileSystem) (info : Location) (content : Bytes) : Prop :=
  ∃ place inode, fs.tree place = some (.file inode) ∧ fs.data inode = content ∧
    ∀ name, place ≠ name :: info

/-- Calls of `cmd_restore` one after another. -/
def restoring (cwd : Location) (base : Bytes) (start : FileSystem) :
    System FileSystem (RestoreRefusals × Bytes) where
  initial fs := fs = start
  next fs call := some (cmdRestoreWith call.1 fs cwd base call.2).2

/-- The path in a record does not lead among the records nor over the way to this record, and what
is lost at the path is somewhere else. -/
structure Harmless (fs : FileSystem) (cwd : Location) (base id : Bytes) (info : Location)
    (name : Name) (place : Location) : Prop where
  beside : place ≠ info
  record : ∃ recordName, (fs.remove (name :: place) (List.cons_ne_nil _ _)).entryOf cwd
    (infoPath base id) = some (recordName, info)
  kept : ∀ inode, fs.tree (name :: place) = some (.file inode) →
    Holds (fs.remove (name :: place) (List.cons_ne_nil _ _)) info (fs.data inode)

/-- If a call comes to its `rename` then it does no harm. -/
def Spares (cwd : Location) (base : Bytes) (info : Location) (fs : FileSystem)
    (call : RestoreRefusals × Bytes) : Prop :=
  ∀ original moved name place, Renames call.1 fs cwd base call.2 original moved →
    fs.entryOf cwd original = some (name, place) → Harmless fs cwd base call.2 info name place

variable {refused : RestoreRefusals} {fs moved after start : FileSystem} {cwd info : Location}
  {base id original content : Bytes} {name : Name} {place old new : Location}

section Steps

/-- Of what is held only the content of what is moved over is lost. -/
theorem holds_remove (empty : fs.names new = []) (below_root : new ≠ [])
    (kept : ∀ inode, fs.tree new = some (.file inode) →
      Holds (fs.remove new below_root) info (fs.data inode))
    (held : Holds fs info content) : Holds (fs.remove new below_root) info content := by
  rcases held with ⟨at_place, inode, found, rfl, not_record⟩
  by_cases below : new <:+ at_place
  · rw [← eq_of_suffix_of_empty empty (ne_none_of_eq_some found) below] at found
    exact kept inode found
  · exact ⟨at_place, inode, by rw [tree_remove, if_neg below, found], rfl, not_record⟩

/-- A content that is elsewhere is still held after the move. -/
theorem holds_moved (moves : fs.Moved moved old (name :: place)) (beside : place ≠ info)
    (outside : ¬name :: place <:+ info)
    (held : Holds (fs.remove (name :: place) (List.cons_ne_nil _ _)) info content) :
    Holds moved info content := by
  rcases held with ⟨at_place, inode, found, rfl, not_record⟩
  rw [tree_remove] at found
  split at found
  · cases found
  · next elsewhere =>
      by_cases below : old <:+ at_place
      · rcases below with ⟨inside, rfl⟩
        refine ⟨inside ++ name :: place, inode, ?_, congrFun moves.data inode, ?_⟩
        · rw [moves.inside, found]
        · intro other among
          cases inside with
          | nil => exact beside (List.cons.inj among).2
          | cons first rest => exact outside ⟨rest, (List.cons.inj among).2⟩
      · exact ⟨at_place, inode, by rw [moves.elsewhere at_place below elsewhere, found],
          congrFun moves.data inode, not_record⟩

/-- Removing a record loses no content. -/
theorem holds_without_record {recordName : Name}
    (without : moved.Without after fun entry => entry = recordName :: info)
    (held : Holds moved info content) : Holds after info content := by
  rcases held with ⟨at_place, inode, found, rfl, not_record⟩
  exact ⟨at_place, inode, by rw [without.present at_place (not_record recordName), found],
    congrFun without.data inode, not_record⟩

/-- A call that does no harm keeps every content. -/
theorem holds_cmdRestore (spares : Spares cwd base info fs (refused, id))
    (held : Holds fs info content) :
    Holds (cmdRestoreWith refused fs cwd base id).2 info content := by
  rcases cmdRestoreWith_cases refused fs cwd base id with
    ⟨nothing, -⟩ | ⟨original, moved, renames, result⟩
  · rwa [nothing]
  rw [result]
  rcases rename_moved renames.renamed with ⟨fileName, filePlace, name, place, -, named, -, outcome⟩
  have harmless := spares original moved name place renames named
  rcases harmless.record with ⟨recordName, record_named⟩
  have agree : (fs.remove (name :: place) (List.cons_ne_nil _ _)).Agree moved ∧
      Holds moved info content := by
    rcases outcome with ⟨-, rfl⟩ | ⟨-, empty, moves⟩
    · refine ⟨fun entry exists_entry _ => ?_, held⟩
      exact ((without_remove _).extended entry exists_entry).symm
    · refine ⟨moves.agree _, holds_moved moves harmless.beside ?_
        (holds_remove empty _ harmless.kept held)⟩
      rcases entryOf_eq_some.mp record_named with ⟨-, -, -, -, directory, -⟩
      intro below
      rw [tree_remove, if_pos below] at directory
      cases directory
  cases removed : unlinkRecord refused moved cwd base id with
  | none => exact agree.2
  | some after =>
      rcases unlinkRecord_eq_some removed with ⟨otherName, otherPlace, other_named, -, -, without⟩
      have both := entryOf_agree agree.1 record_named other_named
      rw [Prod.mk.injEq] at both
      rw [← both.1, ← both.2] at without
      exact holds_without_record without agree.2

end Steps

/-- Calls that do no harm keep every content. -/
theorem contents_kept
    (reached : (restoring cwd base start).ReachableUnder (Spares cwd base info) fs)
    (held : Holds start info content) : Holds fs info content := by
  apply ReachableUnder.invariant reached
  · rintro state rfl
    exact held
  · intro state call successor held spares taken
    rw [← Option.some.inj taken]
    exact holds_cmdRestore spares held

section Examples

/-- Restoring a deleted file to its free place keeps its content. -/
theorem contents_kept_file :
    Holds (cmdRestoreWith noRefusals (deletion (ascii "/a")).2 [] (ascii ".") firstId).2 infoPlace
      [1] := by
  have named : (deletion (ascii "/a")).2.entryOf [] (ascii "/a") = some (ascii "a", []) := by
    decide +kernel
  have free : (deletion (ascii "/a")).2.tree [ascii "a"] = none := by decide +kernel
  have record : ((deletion (ascii "/a")).2.remove [ascii "a"] (List.cons_ne_nil _ _)).entryOf []
      (infoPath (ascii ".") firstId) = some (firstRecord, infoPlace) := by decide +kernel
  have spares :
      Spares [] (ascii ".") infoPlace (deletion (ascii "/a")).2 (noRefusals, firstId) := by
    intro original moved name place renames named'
    rcases renames.parsed with ⟨text, read, scanned⟩
    have parsed := parsed_deletion
    rw [read, Option.bind_some, scanned, Option.some.injEq] at parsed
    rw [parsed] at named'
    rcases entryOf_unique named named' with ⟨rfl, rfl⟩
    refine ⟨by decide, ⟨firstRecord, record⟩, fun inode found => ?_⟩
    rw [free] at found
    cases found
  have reached : (restoring [] (ascii ".") (deletion (ascii "/a")).2).ReachableUnder
      (Spares [] (ascii ".") infoPlace)
      (cmdRestoreWith noRefusals (deletion (ascii "/a")).2 [] (ascii ".") firstId).2 :=
    .step (.start rfl) spares rfl
  have file : (deletion (ascii "/a")).2.tree (firstId :: filesPlace) = some (.file 0) := by
    decide +kernel
  have bytes : (deletion (ascii "/a")).2.data 0 = [1] := by decide +kernel
  refine contents_kept reached ⟨firstId :: filesPlace, 0, file, bytes, fun name among => ?_⟩
  exact absurd (List.cons.inj among).2 (by decide)

/-- After `/a` is deleted another file is made there. -/
def replaced : FileSystem :=
  match (deletion (ascii "/a")).2.openWrite [] (ascii "/a") with
  | some (opened, inode) => opened.write inode [2]
  | none => (deletion (ascii "/a")).2

/-- Some entry of a file that is no record has a content. -/
def holdsIn (fs : FileSystem) (info : Location) (content : Bytes) : Bool :=
  fs.domain.any fun place =>
    match place, fs.tree place with
    | _ :: above, some (.file inode) => fs.data inode = content && above ≠ info
    | _, _ => false

theorem holdsIn_of_holds (held : Holds fs info content) : holdsIn fs info content = true := by
  rcases held with ⟨place, inode, found, same, not_record⟩
  refine List.any_eq_true.mpr ⟨place, fs.supported (ne_none_of_eq_some found), ?_⟩
  cases place with
  | nil =>
      rw [fs.root] at found
      cases found
  | cons name above =>
      have elsewhere : above ≠ info := by
        rintro rfl
        exact not_record name rfl
      simp only [found, same, elsewhere, decide_true, ne_eq, not_false_eq_true, Bool.and_self]

/-- The file that is there is lost. -/
theorem not_contents_kept_replaced :
    ¬ ∀ (cwd : Location) (base : Bytes) (start fs : FileSystem) (info : Location)
      (content : Bytes), start.resolve cwd (base ++ ascii "/.trash/info") = some info →
      (restoring cwd base start).Reachable fs → Holds start info content →
      Holds fs info content := by
  intro claimed
  have info_at : replaced.resolve [] (ascii "." ++ ascii "/.trash/info") = some infoPlace := by
    decide +kernel
  have reached : (restoring [] (ascii ".") replaced).Reachable
      (cmdRestoreWith noRefusals replaced [] (ascii ".") firstId).2 := by
    have ran : (restoring [] (ascii ".") replaced).run replaced [(noRefusals, firstId)] =
        some (cmdRestoreWith noRefusals replaced [] (ascii ".") firstId).2 := rfl
    exact Reachable.of_run (.start rfl) ran
  have file : replaced.tree [ascii "a"] = some (.file 3) := by decide +kernel
  have bytes : replaced.data 3 = [2] := by decide +kernel
  have held := claimed [] (ascii ".") replaced _ infoPlace [2] info_at reached
    ⟨[ascii "a"], 3, file, bytes, fun name among => absurd (List.cons.inj among).2 (by decide)⟩
  have lost : holdsIn (cmdRestoreWith noRefusals replaced [] (ascii ".") firstId).2 infoPlace [2] =
      false := by decide +kernel
  rw [holdsIn_of_holds held] at lost
  cases lost

end Examples

end Osis.CourseWork
