import Osis.Posix.Moving
import Osis.CourseWork.Restoring

/-!
# `cmd_restore` as a transaction

Up to the `rename` nothing is changed, and the `rename` is what counts. It does nothing,
and succeeds, between two names of one file; then the record is removed all the same and
the entry stays in the trash without one. And it may replace a link that the way to the
record leads over, so that another record is removed.
-/

namespace Osis.CourseWork

open Posix Posix.FileSystem

/-- A call of `cmd_restore` comes to its `rename`, which leaves a file system. -/
structure Renames (refused : RestoreRefusals) (fs : FileSystem) (cwd : Location)
    (base id original : Bytes) (moved : FileSystem) : Prop where
  opened : refused.opening = false
  parsed : ∃ text, fs.readFile cwd (infoPath base id) = some text ∧
    scanOriginal text = some original
  granted_access : refused.access = false
  accessed : fs.access cwd (dirname original) = true
  granted_rename : refused.rename = false
  renamed : fs.rename cwd (filePath base id) original = some moved

/-- The `unlink` of the record in the tree that the `rename` leaves. -/
def unlinkRecord (refused : RestoreRefusals) (moved : FileSystem) (cwd : Location)
    (base id : Bytes) : Option FileSystem :=
  granted refused.unlink (moved.unlink cwd (infoPath base id))

/-- The entry of an id has moved to a path, its record is gone unless its `unlink` failed, and
nothing else has changed but what was at the path. -/
def CarriedOut (refused : RestoreRefusals) (fs : FileSystem) (cwd : Location)
    (base id original : Bytes) (after : FileSystem) : Prop :=
  ∃ fileName filePlace name place,
    fs.entryOf cwd (filePath base id) = some (fileName, filePlace) ∧
    fs.entryOf cwd original = some (name, place) ∧
    after.tree (name :: place) = fs.tree (fileName :: filePlace) ∧
    ∃ moved, fs.Moved moved (fileName :: filePlace) (name :: place) ∧
      (unlinkRecord refused moved cwd base id = none ∧ after = moved ∨
        ∃ recordName recordPlace,
          fs.entryOf cwd (infoPath base id) = some (recordName, recordPlace) ∧
          moved.Without after fun entry => entry = recordName :: recordPlace)

/-- It returns 1 and has done nothing, or it returns 0 and has done all. -/
def AllOrNothing (refused : RestoreRefusals) (fs : FileSystem) (cwd : Location)
    (base id : Bytes) : Prop :=
  cmdRestoreWith refused fs cwd base id = (1, fs) ∨
    (cmdRestoreWith refused fs cwd base id).1 = 0 ∧
      ∃ text original, fs.readFile cwd (infoPath base id) = some text ∧
        scanOriginal text = some original ∧
        CarriedOut refused fs cwd base id original (cmdRestoreWith refused fs cwd base id).2

/-- The path in the record does not name the record itself. -/
def OffRecord (fs : FileSystem) (cwd : Location) (base id : Bytes) : Prop :=
  ∀ text original name place, fs.readFile cwd (infoPath base id) = some text →
    scanOriginal text = some original → fs.entryOf cwd original = some (name, place) →
    fs.entryOf cwd (infoPath base id) ≠ some (name, place)

/-- The path in the record and the entry are two names of one file, and it is not the entry
itself that is then removed as the record. -/
def OntoItself (refused : RestoreRefusals) (fs : FileSystem) (cwd : Location)
    (base id : Bytes) : Prop :=
  ∃ original moved fileName filePlace name place,
    Renames refused fs cwd base id original moved ∧
    fs.entryOf cwd (filePath base id) = some (fileName, filePlace) ∧
    fs.entryOf cwd original = some (name, place) ∧
    fs.sameFile (fileName :: filePlace) (name :: place) = true ∧
    ¬(fs.entryOf cwd (infoPath base id) = some (fileName, filePlace) ∧
      fs.tree (name :: place) = fs.tree (fileName :: filePlace) ∧
      unlinkRecord refused fs cwd base id ≠ none)

/-- Once the entry stands at the path in the record, the path of the record leads to another
entry, and this is removed. -/
def Diverted (refused : RestoreRefusals) (fs : FileSystem) (cwd : Location)
    (base id : Bytes) : Prop :=
  ∃ original moved fileName filePlace name place otherName otherPlace,
    Renames refused fs cwd base id original moved ∧
    fs.entryOf cwd (filePath base id) = some (fileName, filePlace) ∧
    fs.entryOf cwd original = some (name, place) ∧
    fs.sameFile (fileName :: filePlace) (name :: place) = false ∧
    moved.entryOf cwd (infoPath base id) = some (otherName, otherPlace) ∧
    fs.entryOf cwd (infoPath base id) ≠ some (otherName, otherPlace) ∧
    unlinkRecord refused moved cwd base id ≠ none

variable {refused : RestoreRefusals} {fs moved after : FileSystem} {cwd : Location}
  {base id original : Bytes}

section Runs

theorem Renames.unique {original' : Bytes} {moved' : FileSystem}
    (renames : Renames refused fs cwd base id original moved)
    (renames' : Renames refused fs cwd base id original' moved') :
    original = original' ∧ moved = moved' := by
  rcases renames.parsed with ⟨text, read, scanned⟩
  rcases renames'.parsed with ⟨text', read', scanned'⟩
  rw [read, Option.some.injEq] at read'
  rw [← read', scanned, Option.some.injEq] at scanned'
  have renamed' := renames'.renamed
  rw [← scanned', renames.renamed, Option.some.injEq] at renamed'
  exact ⟨scanned', renamed'⟩

/-- A call does nothing or comes to its `rename`. -/
theorem cmdRestoreWith_cases (refused : RestoreRefusals) (fs : FileSystem) (cwd : Location)
    (base id : Bytes) :
    (cmdRestoreWith refused fs cwd base id = (1, fs) ∧
        ∀ original moved, ¬Renames refused fs cwd base id original moved) ∨
      ∃ original moved, Renames refused fs cwd base id original moved ∧
        cmdRestoreWith refused fs cwd base id =
          (0, (unlinkRecord refused moved cwd base id).getD moved) := by
  unfold cmdRestoreWith
  split
  · next unread =>
      refine .inl ⟨rfl, fun original moved renames => ?_⟩
      rcases renames.parsed with ⟨text, read, -⟩
      rw [renames.opened, read] at unread
      cases unread
  · next text read =>
      rcases granted_eq_some.mp read with ⟨opened, read⟩
      split
      · next unscanned =>
          refine .inl ⟨rfl, fun original moved renames => ?_⟩
          rcases renames.parsed with ⟨text', read', scanned⟩
          rw [read, Option.some.injEq] at read'
          rw [← read', unscanned] at scanned
          cases scanned
      · next original scanned =>
          have same : ∀ original' moved, Renames refused fs cwd base id original' moved →
              original' = original := by
            intro original' moved renames
            rcases renames.parsed with ⟨text', read', scanned'⟩
            rw [read, Option.some.injEq] at read'
            rw [← read', scanned, Option.some.injEq] at scanned'
            exact scanned'.symm
          split
          · next reachable =>
              split
              · next failed =>
                  refine .inl ⟨rfl, fun original' moved renames => ?_⟩
                  have renamed := renames.renamed
                  rw [same original' moved renames] at renamed
                  rw [renames.granted_rename, renamed] at failed
                  cases failed
              · next moved renamed =>
                  rcases granted_eq_some.mp renamed with ⟨grant, renamed⟩
                  exact .inr ⟨original, moved, ⟨opened, ⟨text, read, scanned⟩, reachable.1,
                    reachable.2, grant, renamed⟩, rfl⟩
          · next unreachable =>
              refine .inl ⟨rfl, fun original' moved renames => unreachable ?_⟩
              rw [← same original' moved renames]
              exact ⟨renames.granted_access, renames.accessed⟩

/-- Without a refusal this is `cmd_restore`. -/
theorem cmdRestoreWith_granted :
    cmdRestoreWith ⟨false, false, false, false⟩ fs cwd base id = cmdRestore fs cwd base id := by
  simp [cmdRestoreWith, cmdRestore, granted]

theorem Renames.off_record {name : Name} {place : Location}
    (renames : Renames refused fs cwd base id original moved) (off : OffRecord fs cwd base id)
    (named : fs.entryOf cwd original = some (name, place)) :
    fs.entryOf cwd (infoPath base id) ≠ some (name, place) := by
  rcases renames.parsed with ⟨text, read, scanned⟩
  exact off text original name place read scanned named

/-- What an `unlink` of the record takes out. -/
theorem unlinkRecord_eq_some (removed : unlinkRecord refused moved cwd base id = some after) :
    ∃ name place, moved.entryOf cwd (infoPath base id) = some (name, place) ∧
      moved.tree (name :: place) ≠ none ∧ moved.tree (name :: place) ≠ some .directory ∧
      moved.Without after fun entry => entry = name :: place := by
  rcases granted_eq_some.mp removed with ⟨-, removed⟩
  rcases unlink_eq_some.mp removed with ⟨name, place, named, exists_entry, leaf, -, rfl⟩
  exact ⟨name, place, named, exists_entry, leaf, without_remove_leaf (List.cons_ne_nil _ _) leaf⟩

/-- After the `rename` everything is decided by what has been carried out. -/
theorem allOrNothing_of_renames (renames : Renames refused fs cwd base id original moved)
    (result : cmdRestoreWith refused fs cwd base id =
      (0, (unlinkRecord refused moved cwd base id).getD moved)) :
    AllOrNothing refused fs cwd base id ↔ CarriedOut refused fs cwd base id original
      ((unlinkRecord refused moved cwd base id).getD moved) := by
  rcases renames.parsed with ⟨text, read, scanned⟩
  rw [AllOrNothing, result]
  constructor
  · rintro (nothing | ⟨-, text', original', read', scanned', carried⟩)
    · cases (Prod.mk.inj nothing).1
    · rw [read, Option.some.injEq] at read'
      rw [← read', scanned, Option.some.injEq] at scanned'
      rwa [scanned']
  · exact fun carried => .inr ⟨rfl, text, original, read, scanned, carried⟩

end Runs

section Outcomes

variable {fileName name : Name} {filePlace place : Location}

/-- The entry of the id is not in the trash any more. -/
theorem CarriedOut.gone (carried : CarriedOut refused fs cwd base id original after)
    (file_named : fs.entryOf cwd (filePath base id) = some (fileName, filePlace)) :
    after.tree (fileName :: filePlace) = none := by
  rcases carried with ⟨_, _, _, _, file_named', -, -, moved, moves, outcome⟩
  rcases entryOf_unique file_named file_named' with ⟨rfl, rfl⟩
  rcases outcome with ⟨-, rfl⟩ | ⟨recordName, recordPlace, -, without⟩
  · exact moves.tree_old
  · rcases without.tree_cases (fileName :: filePlace) with ⟨-, absent⟩ | ⟨-, same⟩
    · exact absent
    · rw [same, moves.tree_old]

/-- An entry that has moved has done so completely unless the path of its record leads elsewhere
then. -/
theorem carriedOut_of_moved
    (file_named : fs.entryOf cwd (filePath base id) = some (fileName, filePlace))
    (named : fs.entryOf cwd original = some (name, place))
    (off : fs.entryOf cwd (infoPath base id) ≠ some (name, place))
    (moves : fs.Moved moved (fileName :: filePlace) (name :: place)) :
    CarriedOut refused fs cwd base id original
        ((unlinkRecord refused moved cwd base id).getD moved) ↔
      ∀ otherName otherPlace, moved.entryOf cwd (infoPath base id) = some (otherName, otherPlace) →
        unlinkRecord refused moved cwd base id ≠ none →
        fs.entryOf cwd (infoPath base id) = some (otherName, otherPlace) := by
  constructor
  · rintro ⟨fileName', filePlace', name', place', file_named', named', -, moved', moves', outcome⟩
      otherName otherPlace other_named removed
    rcases entryOf_unique file_named file_named' with ⟨rfl, rfl⟩
    rcases entryOf_unique named named' with ⟨rfl, rfl⟩
    have same := moves.unique moves'
    rcases Option.ne_none_iff_exists'.mp removed with ⟨final, removed⟩
    rcases unlinkRecord_eq_some removed with ⟨_, _, other_named', exists_other, -, without⟩
    rcases entryOf_unique other_named other_named' with ⟨rfl, rfl⟩
    rw [removed, Option.getD_some] at outcome
    have gone := without.absent _ rfl
    rw [same] at exists_other
    rcases outcome with ⟨-, rfl⟩ | ⟨recordName, recordPlace, record_named, without'⟩
    · exact absurd gone exists_other
    · rcases without'.of_ne (fun kept => exists_other (kept.symm.trans gone)) with ⟨itself, -⟩
      rw [record_named, (List.cons.inj itself).1, (List.cons.inj itself).2]
  · intro straight
    cases removed : unlinkRecord refused moved cwd base id with
    | none =>
        exact ⟨fileName, filePlace, name, place, file_named, named, moves.tree_new, moved, moves,
          .inl ⟨removed, rfl⟩⟩
    | some final =>
        rcases unlinkRecord_eq_some removed with
          ⟨otherName, otherPlace, other_named, -, -, without⟩
        have record_named := straight otherName otherPlace other_named (by simp [removed])
        refine ⟨fileName, filePlace, name, place, file_named, named, ?_, moved, moves,
          .inr ⟨otherName, otherPlace, record_named, without⟩⟩
        rw [Option.getD_some, without.present, moves.tree_new]
        rintro here
        rw [record_named, (List.cons.inj here).1, (List.cons.inj here).2] at off
        exact off rfl

/-- Between two names of one file all is done only if the entry itself is removed as the
record. -/
theorem carriedOut_of_same
    (file_named : fs.entryOf cwd (filePath base id) = some (fileName, filePlace))
    (named : fs.entryOf cwd original = some (name, place))
    (exists_file : fs.tree (fileName :: filePlace) ≠ none)
    (off : fs.entryOf cwd (infoPath base id) ≠ some (name, place)) :
    CarriedOut refused fs cwd base id original
        ((unlinkRecord refused fs cwd base id).getD fs) ↔
      fs.entryOf cwd (infoPath base id) = some (fileName, filePlace) ∧
        fs.tree (name :: place) = fs.tree (fileName :: filePlace) ∧
        unlinkRecord refused fs cwd base id ≠ none := by
  constructor
  · intro carried
    have gone := carried.gone file_named
    rcases carried with ⟨fileName', filePlace', name', place', file_named', named', stands, -⟩
    rcases entryOf_unique file_named file_named' with ⟨rfl, rfl⟩
    rcases entryOf_unique named named' with ⟨rfl, rfl⟩
    cases removed : unlinkRecord refused fs cwd base id with
    | none =>
        rw [removed] at gone
        exact absurd gone exists_file
    | some final =>
        rcases unlinkRecord_eq_some removed with ⟨otherName, otherPlace, other_named, -, -, without⟩
        rw [removed, Option.getD_some] at gone stands
        rcases without.of_ne (fun kept => exists_file (kept.symm.trans gone)) with ⟨itself, -⟩
        rw [(List.cons.inj itself).1, (List.cons.inj itself).2]
        refine ⟨other_named, ?_, by simp⟩
        have still : final.tree (name :: place) ≠ none := by
          rw [stands]
          exact exists_file
        rw [without.extended _ still, stands, itself]
  · rintro ⟨record_named, same, removed⟩
    rcases Option.ne_none_iff_exists'.mp removed with ⟨final, removed⟩
    rcases unlinkRecord_eq_some removed with ⟨_, _, record_named', -, leaf, without⟩
    rcases entryOf_unique record_named record_named' with ⟨rfl, rfl⟩
    have different : name :: place ≠ fileName :: filePlace := by
      intro here
      rw [(List.cons.inj here).1, (List.cons.inj here).2] at off
      exact off record_named
    have twice : unlinkRecord refused final cwd base id = none := by
      by_contra again
      rcases Option.ne_none_iff_exists'.mp again with ⟨left, again⟩
      rcases unlinkRecord_eq_some again with
        ⟨otherName, otherPlace, other_named, exists_other, -, -⟩
      rcases entryOf_unique record_named (entryOf_kept without.extended.keeps other_named) with
        ⟨rfl, rfl⟩
      exact exists_other (without.absent _ rfl)
    rw [removed, Option.getD_some]
    refine ⟨fileName, filePlace, name, place, file_named, named, ?_, final,
      moved_of_removed without leaf same different, .inl ⟨twice, rfl⟩⟩
    rw [without.present _ different, same]

/-- `cmd_restore` does all or nothing if and only if it does not meet two names of one file and
its `rename` does not change where the path of the record leads. -/
theorem allOrNothing_iff (off : OffRecord fs cwd base id) :
    AllOrNothing refused fs cwd base id ↔
      ¬OntoItself refused fs cwd base id ∧ ¬Diverted refused fs cwd base id := by
  rcases cmdRestoreWith_cases refused fs cwd base id with
    ⟨nothing, never⟩ | ⟨original, moved, renames, result⟩
  · constructor
    · intro _
      constructor
      · rintro ⟨original, moved, -, -, -, -, renames, -⟩
        exact never original moved renames
      · rintro ⟨original, moved, -, -, -, -, -, -, renames, -⟩
        exact never original moved renames
    · exact fun _ => .inl nothing
  · rw [allOrNothing_of_renames renames result]
    rcases rename_moved renames.renamed with ⟨fileName, filePlace, name, place, file_named, named,
      exists_file, ⟨same, rfl⟩ | ⟨different, -, moves⟩⟩
    · rw [carriedOut_of_same file_named named exists_file (renames.off_record off named)]
      constructor
      · intro itself
        constructor
        · rintro ⟨_, _, _, _, _, _, renames', file_named', named', -, not_itself⟩
          rcases renames.unique renames' with ⟨rfl, rfl⟩
          rcases entryOf_unique file_named file_named' with ⟨rfl, rfl⟩
          rcases entryOf_unique named named' with ⟨rfl, rfl⟩
          exact not_itself itself
        · rintro ⟨_, _, _, _, _, _, _, _, renames', file_named', named', different, -⟩
          rcases renames.unique renames' with ⟨rfl, rfl⟩
          rcases entryOf_unique file_named file_named' with ⟨rfl, rfl⟩
          rcases entryOf_unique named named' with ⟨rfl, rfl⟩
          rw [same] at different
          cases different
      · rintro ⟨onto, -⟩
        by_contra not_itself
        exact onto ⟨original, _, fileName, filePlace, name, place, renames, file_named, named, same,
          not_itself⟩
    · rw [carriedOut_of_moved file_named named (renames.off_record off named) moves]
      constructor
      · intro straight
        constructor
        · rintro ⟨_, _, _, _, _, _, renames', file_named', named', same, -⟩
          rcases renames.unique renames' with ⟨rfl, rfl⟩
          rcases entryOf_unique file_named file_named' with ⟨rfl, rfl⟩
          rcases entryOf_unique named named' with ⟨rfl, rfl⟩
          rw [different] at same
          cases same
        · rintro ⟨_, _, _, _, _, _, _, _, renames', -, -, -, other_named, elsewhere, removed⟩
          rcases renames.unique renames' with ⟨rfl, rfl⟩
          exact elsewhere (straight _ _ other_named removed)
      · rintro ⟨-, direct⟩ otherName otherPlace other_named removed
        by_contra elsewhere
        exact direct ⟨original, moved, fileName, filePlace, name, place, otherName, otherPlace,
          renames, file_named, named, different, other_named, elsewhere, removed⟩

/-- If the way to the record does not lead over the path in it, the record is the one removed. -/
theorem not_diverted (way : ∀ original name place,
      (fs.readFile cwd (infoPath base id)).bind scanOriginal = some original →
      fs.entryOf cwd original = some (name, place) → ∃ recordName recordPlace,
        (fs.remove (name :: place) (List.cons_ne_nil _ _)).entryOf cwd (infoPath base id) =
          some (recordName, recordPlace)) :
    ¬Diverted refused fs cwd base id := by
  rintro ⟨original, moved, fileName, filePlace, name, place, otherName, otherPlace, renames,
    file_named, named, different, other_named, elsewhere, -⟩
  rcases renames.parsed with ⟨text, read, scanned⟩
  have parsed : (fs.readFile cwd (infoPath base id)).bind scanOriginal = some original := by
    rw [read, Option.bind_some, scanned]
  rcases way original name place parsed named with ⟨recordName, recordPlace, record_named⟩
  rcases rename_moved renames.renamed with ⟨_, _, _, _, file_named', named', -,
    ⟨same, -⟩ | ⟨-, -, moves⟩⟩
  · rcases entryOf_unique file_named file_named' with ⟨rfl, rfl⟩
    rcases entryOf_unique named named' with ⟨rfl, rfl⟩
    rw [different] at same
    cases same
  · rcases entryOf_unique named named' with ⟨rfl, rfl⟩
    have both := entryOf_agree (moves.agree (List.cons_ne_nil _ _)) record_named other_named
    rw [← both] at elsewhere
    exact elsewhere (entryOf_kept (without_remove _).extended.keeps record_named)

end Outcomes

section Examples

/-- No call is refused. -/
def noRefusals : RestoreRefusals := ⟨false, false, false, false⟩

theorem parsed_deletion : ((deletion (ascii "/a")).2.readFile []
    (infoPath (ascii ".") firstId)).bind scanOriginal = some (ascii "/a") := by decide +kernel

theorem record_deletion : (deletion (ascii "/a")).2.entryOf [] (infoPath (ascii ".") firstId) =
    some (firstRecord, infoPlace) := by decide +kernel

/-- A deleted file is restored completely. -/
theorem allOrNothing_file :
    AllOrNothing noRefusals (deletion (ascii "/a")).2 [] (ascii ".") firstId := by
  have named : (deletion (ascii "/a")).2.entryOf [] (ascii "/a") = some (ascii "a", []) := by
    decide +kernel
  have file_named : (deletion (ascii "/a")).2.entryOf [] (filePath (ascii ".") firstId) =
      some (firstId, filesPlace) := by decide +kernel
  apply (allOrNothing_iff _).mpr
  · constructor
    · rintro ⟨original, moved, fileName, filePlace, name, place, renames, file_named', named', same,
        -⟩
      rcases renames.parsed with ⟨text, read, scanned⟩
      have parsed := parsed_deletion
      rw [read, Option.bind_some, scanned, Option.some.injEq] at parsed
      rw [parsed] at named'
      rcases entryOf_unique file_named file_named' with ⟨rfl, rfl⟩
      rcases entryOf_unique named named' with ⟨rfl, rfl⟩
      exact absurd same (by decide +kernel)
    · apply not_diverted
      intro original name place parsed named'
      rw [parsed_deletion, Option.some.injEq] at parsed
      rw [← parsed] at named'
      rcases entryOf_unique named named' with ⟨rfl, rfl⟩
      exact ⟨firstRecord, infoPlace, by decide +kernel⟩
  · intro text original name place read scanned named'
    have parsed := parsed_deletion
    rw [read, Option.bind_some, scanned, Option.some.injEq] at parsed
    rw [parsed] at named'
    rcases entryOf_unique named named' with ⟨rfl, rfl⟩
    rw [record_deletion]
    decide

/-- Another name in the root directory for a file. -/
def hardLink (fs : FileSystem) (inode : ℕ) (name : Name) : FileSystem :=
  if h : fs.tree [name] = none ∧ ValidName name ∧ inode < fs.fresh then
    fs.insert name [] (.file inode) h.1 fs.root h.2.1 (by
      intro other other_eq
      rw [← Option.some.inj other_eq]
      exact h.2.2)
  else fs

/-- The deleted file `/a` has a second name, which is now `/a`. -/
def renamedLink : FileSystem := hardLink (deletion (ascii "/a")).2 0 (ascii "a")

/-- Between two names of one file the record is removed and the entry stays. -/
theorem not_allOrNothing_link :
    ¬ ∀ (refused : RestoreRefusals) (fs : FileSystem) (cwd : Location) (base id : Bytes),
      (∀ original name place top,
        (fs.readFile cwd (infoPath base id)).bind scanOriginal = some original →
        fs.entryOf cwd original = some (name, place) →
        fs.resolve cwd (base ++ ascii "/.trash") = some top → ¬top <:+ name :: place) →
      AllOrNothing refused fs cwd base id := by
  intro claimed
  have parsed : (renamedLink.readFile [] (infoPath (ascii ".") firstId)).bind scanOriginal =
      some (ascii "/a") := by decide +kernel
  have named : renamedLink.entryOf [] (ascii "/a") = some (ascii "a", []) := by decide +kernel
  have trash : renamedLink.resolve [] (ascii "." ++ ascii "/.trash") = some [ascii ".trash"] := by
    decide +kernel
  have file_named : renamedLink.entryOf [] (filePath (ascii ".") firstId) =
      some (firstId, filesPlace) := by decide +kernel
  have status : (cmdRestoreWith noRefusals renamedLink [] (ascii ".") firstId).1 = 0 := by
    decide +kernel
  have stays : (cmdRestoreWith noRefusals renamedLink [] (ascii ".") firstId).2.tree
      (firstId :: filesPlace) = some (.file 0) := by decide +kernel
  have done := claimed noRefusals renamedLink [] (ascii ".") firstId (by
    intro original name place top parsed' named' trash'
    rw [parsed, Option.some.injEq] at parsed'
    rw [trash, Option.some.injEq] at trash'
    rw [← parsed'] at named'
    rcases entryOf_unique named named' with ⟨rfl, rfl⟩
    rw [← trash']
    decide)
  rcases done with nothing | ⟨-, text, original, -, -, carried⟩
  · rw [nothing] at status
    cases status
  · rw [carried.gone file_named] at stays
    cases stays

end Examples

end Osis.CourseWork
