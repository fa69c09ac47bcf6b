import Osis.Posix.Moving
import Osis.CourseWork.Restoring

/-!
# What a deletion leaves

A deletion that returns 0 has moved the file into the trash, or it has really removed it
because it could not be moved. Of a file that was moved and recorded the content is found
under its id and the path in the record.
-/

namespace Osis.Posix.FileSystem

variable {fs : FileSystem} {cwd dir place : Location} {path : Bytes} {name : Name}

/-- A relative path behind the path of a directory names what it names from there. -/
theorem entryOf_append (relative : path.head? ≠ some slash)
    (named : fs.entryOf dir path = some (name, place))
    (short : (pathString dir ++ slash :: path).length < pathMax) :
    fs.entryOf cwd (pathString dir ++ slash :: path) = some (name, place) := by
  rcases entryOf_eq_some.mp named with ⟨-, -, ne_dot, ne_dotDot, directory, front, split_eq, walked⟩
  rw [startOf, if_neg relative] at walked
  have dir_directory : fs.tree dir = some .directory := by
    cases front with
    | nil =>
        rw [walk_nil, Option.some.injEq] at walked
        rwa [walked]
    | cons first rest => exact directory_of_walk_cons walked
  have valid := validName_of_mem (ne_none_of_eq_some dir_directory)
  refine entryOf_eq_some.mpr ⟨by simp, short, ne_dot, ne_dotDot, directory, dir.reverse ++ front,
    ?_, ?_⟩
  · rw [components_append_slash, components_pathString valid, split_eq, List.append_assoc]
  · have first : (pathString dir ++ slash :: path).head? = some slash := by
      have some_dir : pathString dir ≠ [] := by
        intro empty
        have := head?_pathString dir
        rw [empty] at this
        cases this
      rw [List.head?_append_of_ne_nil _ some_dir, head?_pathString]
    rw [startOf, if_pos first, walk_reverse dir_directory]
    exact walked

/-- A path under which a file is found has no slash at its end. -/
theorem unslashed_of_stat {inode : ℕ} (named : fs.entryOf cwd path = some (name, place))
    (file : fs.tree (name :: place) = some (.file inode)) (stated : fs.stat cwd path ≠ none) :
    endsInSlash path = false := by
  by_contra slashed
  rw [Bool.not_eq_false] at slashed
  rcases Option.ne_none_iff_exists'.mp stated with ⟨node, stated⟩
  rcases Option.bind_eq_some_iff.mp stated with ⟨found, resolved, -⟩
  rcases entryOf_eq_some.mp named with ⟨-, -, -, -, directory, front, split_eq, walked⟩
  rcases resolve_eq_some.mp resolved with ⟨-, -, walked_all⟩
  rw [steps, if_pos slashed] at walked_all
  rcases walk_front (List.cons_ne_nil _ _) walked_all with ⟨middle, walked_middle, is_directory⟩
  rcases walk_append false walked with ⟨left, goes⟩
  rw [split_eq, goes _ (List.cons_ne_nil _ _), walk_plain directory (.inr ⟨inode, file⟩),
    Option.some.injEq] at walked_middle
  rw [← walked_middle, file] at is_directory
  cases is_directory

end Osis.Posix.FileSystem

namespace Osis.CourseWork

open Posix Posix.FileSystem

variable {fs after : FileSystem} {cwd place : Location} {base path pathname id : Bytes}
  {name : Name} {inode : ℕ} {dirfd : Option Location} {answers : Answers}
  {refused : DeletionRefusals}

/-- The path that is made, unless it is cut. -/
theorem built_eq (short : pathname.length < pathMax)
    (uncut : pathname.head? ≠ some slash →
      (pathString (dirfd.getD cwd) ++ slash :: pathname).length < pathMax)
    (built : buildAbsPath fs cwd dirfd pathname = some path) :
    pathname.head? = some slash ∧ path = pathname ∨
      pathname.head? ≠ some slash ∧ path = pathString (dirfd.getD cwd) ++ slash :: pathname := by
  unfold buildAbsPath at built
  split at built
  · next absolute =>
      rw [List.take_of_length_le (by omega), Option.some.injEq] at built
      exact .inl ⟨absolute, built.symm⟩
  · next relative =>
      have uncut := uncut relative
      refine .inr ⟨relative, ?_⟩
      cases dirfd with
      | none =>
          rcases Option.map_eq_some_iff.mp built with ⟨dir, found, rfl⟩
          simp only [getcwd, Option.ite_none_right_eq_some, Option.some.injEq] at found
          rw [← found.2]
          exact snprintf_of_lt uncut
      | some dir =>
          rw [Option.getD_some] at uncut ⊢
          have dir_short : (pathString dir).length ≤ pathMax - 1 := by
            rw [List.length_append] at uncut
            omega
          simp only [List.take_of_length_le dir_short, snprintf_of_lt uncut,
            Option.some.injEq] at built
          exact built.symm

/-- The path that is made names the same entry, unless it is cut. -/
theorem entryOf_of_built (named : fs.entryOf (dirfd.getD cwd) pathname = some (name, place))
    (uncut : pathname.head? ≠ some slash →
      (pathString (dirfd.getD cwd) ++ slash :: pathname).length < pathMax)
    (built : buildAbsPath fs cwd dirfd pathname = some path) :
    fs.entryOf cwd path = some (name, place) := by
  have short := (entryOf_eq_some.mp named).2.1
  rcases built_eq short uncut built with ⟨absolute, rfl⟩ | ⟨relative, rfl⟩
  · rw [entryOf_absolute absolute]
    exact named
  · exact entryOf_append relative named (uncut relative)

/-- The path that is made ends as the path that was given. -/
theorem endsInSlash_of_built (named : fs.entryOf (dirfd.getD cwd) pathname = some (name, place))
    (uncut : pathname.head? ≠ some slash →
      (pathString (dirfd.getD cwd) ++ slash :: pathname).length < pathMax)
    (built : buildAbsPath fs cwd dirfd pathname = some path) :
    endsInSlash path = endsInSlash pathname := by
  rcases entryOf_eq_some.mp named with ⟨some_pathname, short, -⟩
  rcases built_eq short uncut built with ⟨-, rfl⟩ | ⟨-, rfl⟩
  · rfl
  · rw [List.append_cons, endsInSlash, endsInSlash, List.getLast?_append_of_ne_nil _ some_pathname]

/-- The content of a file is found under an id, and its path in the record of the id. -/
def Recoverable (fs after : FileSystem) (cwd : Location) (base path id : Bytes) (name : Name)
    (place : Location) (inode : ℕ) : Prop :=
  after.stat cwd (filePath base id) = some (.file inode) ∧ after.data inode = fs.data inode ∧
    ∃ time size, after.readFile cwd (infoPath base id) = some (recordText
      (if (pathString (name :: place)).length < pathMax then pathString (name :: place) else path)
      time size)

/-- An entry is really removed, and nothing else is changed but what `ensure_directories` makes. -/
def ReallyRemoved (fs after : FileSystem) (cwd : Location) (base : Bytes) (entry : Location) :
    Prop :=
  ∃ left, (left = fs ∨ left = ensureDirectories fs cwd base) ∧
    left.Without after fun other => other = entry

section Moved

/-- What is moved and recorded although calls may be refused is so without refusals. -/
theorem moveToTrash_of_with
    (deleted : moveToTrashWith refused fs cwd base answers path = (.moved id true, after)) :
    moveToTrash fs cwd base answers path = (.moved id true, after) := by
  unfold moveToTrashWith at deleted
  unfold moveToTrash
  simp only at deleted ⊢
  generalize ensureDirectories fs cwd base = ensured at *
  cases stated : ensured.stat cwd path with
  | none => simp [stated] at deleted
  | some node =>
      simp only [stated] at deleted ⊢
      split at deleted
      · next alike =>
          rw [if_pos alike]
          exact deleted
      · next outside =>
          rw [if_neg outside]
          split at deleted
          · simp at deleted
          · next moved renamed =>
              rw [(granted_eq_some.mp renamed).2]
              simp only
              split at deleted
              · simp at deleted
              · next recorded written =>
                  rw [(granted_eq_some.mp written).2]
                  exact deleted

/-- The id is not that of a link in the trash, and the path of its record does not lead to the file
that was moved. -/
structure Spared (fs : FileSystem) (cwd : Location) (base path id : Bytes) (inode : ℕ) : Prop where
  file : ∀ name place,
    (ensureDirectories fs cwd base).entryOf cwd (filePath base id) = some (name, place) →
      ∀ number text, (ensureDirectories fs cwd base).tree (name :: place) ≠ some (.link number text)
  record : ∀ moved found,
    (ensureDirectories fs cwd base).rename cwd path (filePath base id) = some moved →
      moved.openPlace cwd (infoPath base id) = some found → moved.tree found ≠ some (.file inode)

/-- Under a fresh id a file is spared. -/
theorem FreshId.spared (fresh : FreshId fs cwd base path id) :
    Spared fs cwd base path id inode := by
  constructor
  · intro name place named number text
    rcases fresh.file with ⟨_, _, named', free⟩
    rcases entryOf_unique named named' with ⟨rfl, rfl⟩
    rw [free]
    simp
  · intro moved found renamed opened
    rcases fresh.record moved renamed with ⟨recordName, recordPlace, record_named, free⟩
    rw [openPlace_of_free record_named free (infoPath_unslashed fresh.fits),
      Option.some.injEq] at opened
    rw [← opened, free]
    simp

/-- A file stands where it was moved to, and directories and links stay. -/
theorem keeps_of_renamed {moved : FileSystem} {newPath : Bytes} {newName : Name}
    {newPlace : Location} (file : fs.tree (name :: place) = some (.file inode))
    (named : fs.entryOf cwd path = some (name, place))
    (new_named : fs.entryOf cwd newPath = some (newName, newPlace))
    (no_link : ∀ number text, fs.tree (newName :: newPlace) ≠ some (.link number text))
    (renamed : fs.rename cwd path newPath = some moved) :
    fs.Keeps moved ∧ moved.tree (newName :: newPlace) = some (.file inode) ∧
      endsInSlash newPath = false ∧ moved.data = fs.data ∧ moved.fresh = fs.fresh := by
  rcases rename_eq_some renamed with ⟨_, _, _, _, node, named', new_named', found, slashes, done⟩
  rcases entryOf_unique named named' with ⟨rfl, rfl⟩
  rcases entryOf_unique new_named new_named' with ⟨rfl, rfl⟩
  rw [file, Option.some.injEq] at found
  subst found
  have unslashed := (slashes (by simp)).2
  rcases done with ⟨same, rfl⟩ | ⟨-, replaceable, beside, above, valid, apart, rfl⟩
  · refine ⟨fun _ _ here _ => here, ?_, unslashed, rfl, rfl⟩
    simp only [sameFile, file, Bool.or_eq_true, decide_eq_true_eq] at same
    rcases same with here | same
    · rw [← here, file]
    · cases found : moved.tree (newName :: newPlace) with
      | none => simp [found] at same
      | some node =>
          cases node with
          | directory => simp [found, Node.inode?] at same
          | file number =>
              simp only [found, Node.inode?, Bool.and_eq_true, decide_eq_true_eq,
                Option.some.injEq] at same
              rw [same.2]
          | link number text => exact absurd found (no_link number text)
  · refine ⟨?_, tree_move_new.trans file, unslashed, rfl, rfl⟩
    have new_leaf : fs.tree (newName :: newPlace) ≠ some .directory := by
      intro directory
      simp [FileSystem.replaceable, directory] at replaceable
    have old_leaf : fs.tree (name :: place) ≠ some .directory := by
      rw [file]
      simp
    intro other node here not_file
    rcases (moved_move beside).tree_cases other with ⟨inside, rfl, -⟩ | ⟨below, -⟩ | ⟨-, -, same⟩
    · rw [← eq_of_suffix new_leaf (ne_none_of_eq_some here) ⟨inside, rfl⟩] at here
      cases node with
      | directory => exact absurd here new_leaf
      | file number => exact absurd rfl (not_file number)
      | link number text => exact absurd here (no_link number text)
    · rw [← eq_of_suffix old_leaf (ne_none_of_eq_some here) below, file, Option.some.injEq] at here
      exact absurd here.symm (not_file inode)
    · rw [same, here]

/-- A file that was moved and recorded is recoverable if it is spared. -/
theorem recoverable_of_moved (named : fs.entryOf cwd path = some (name, place))
    (file : fs.tree (name :: place) = some (.file inode))
    (deleted : moveToTrash fs cwd base answers path = (.moved id true, after))
    (spared : Spared fs cwd base path id inode) :
    Recoverable fs after cwd base path id name place inode := by
  rcases moveToTrash_moved deleted with ⟨node, moved, stated, -, -, renamed, written⟩
  have written := written rfl
  have extended : fs.Extends (ensureDirectories fs cwd base) := ensureDirectories_extends
  have ensured_named := entryOf_kept extended.keeps named
  have ensured_file : (ensureDirectories fs cwd base).tree (name :: place) =
      some (.file inode) := by
    rw [extended _ (ne_none_of_eq_some file), file]
  have unslashed := unslashed_of_stat ensured_named ensured_file (by simp [stated])
  rw [stripSlashes_of_not_endsInSlash unslashed] at renamed
  have recorded_path : origReal (ensureDirectories fs cwd base) cwd path =
      if (pathString (name :: place)).length < pathMax then pathString (name :: place)
      else path := by
    have resolved := resolve_of_entryOf ensured_named (.inr ⟨inode, ensured_file⟩) unslashed
    have short := (entryOf_eq_some.mp named).2.1
    rw [origReal, realpath, resolved]
    simp only
    split
    · rfl
    · exact List.take_of_length_le (by omega)
  rw [recorded_path] at written
  rcases rename_moved renamed with ⟨_, _, targetName, targetPlace, -, target_named, -⟩
  rcases keeps_of_renamed ensured_file ensured_named target_named
    (spared.file _ _ target_named) renamed with
    ⟨keeps, target_file, target_unslashed, moved_data, moved_fresh⟩
  unfold writeInfoFile at written
  split at written
  · cases written
  next opened number opened_eq =>
  rcases openWrite_eq_some opened_eq with
    ⟨found, at_found, opened_extends, opened_file, opened_data, new_or_old⟩
  rw [Option.some.injEq] at written
  have different : inode ≠ number := by
    rintro rfl
    rcases new_or_old with old | new
    · exact spared.record moved found renamed at_found old
    · have old : inode < fs.fresh := fs.allocated file rfl
      rw [new, moved_fresh, fresh_ensureDirectories] at old
      exact Nat.lt_irrefl _ old
  -- writing the record changes no entry
  have extends_after : moved.Extends after := by
    rw [← written]
    exact opened_extends
  have after_file : after.tree found = some (.file number) := by
    rw [← written]
    exact opened_file
  have target_kept : after.tree (targetName :: targetPlace) = some (.file inode) := by
    rw [extends_after _ (ne_none_of_eq_some target_file), target_file]
  have target_found := entryOf_kept extends_after.keeps (entryOf_kept keeps target_named)
  have record_found := resolve_created extends_after at_found (.inr ⟨number, after_file⟩)
  refine ⟨?_, ?_, answers.time, statSize (ensureDirectories fs cwd base) answers.directorySize node,
    ?_⟩
  · rw [stat, resolve_of_entryOf target_found (.inr ⟨inode, target_kept⟩) target_unslashed,
      Option.bind_some, target_kept]
  · rw [← written, data_write, Function.update_of_ne different, opened_data inode different,
      moved_data, data_ensureDirectories]
  · rw [readFile_of_resolve record_found after_file, ← written, data_write, Function.update_self]

end Moved

section Removed

/-- A deletion that is refused has made the directories at most. -/
theorem left_of_refused
    (deleted : (moveToTrashWith refused fs cwd base answers path).1 = .refused) :
    (moveToTrashWith refused fs cwd base answers path).2 = ensureDirectories fs cwd base := by
  unfold moveToTrashWith at deleted ⊢
  simp only at deleted ⊢
  split at deleted
  · rfl
  · by_cases alike : trashDir base <+: path
    · rw [if_pos alike] at deleted ⊢
      split at deleted
      · rfl
      · cases deleted
    · rw [if_neg alike] at deleted ⊢
      split at deleted
      · rfl
      · split at deleted <;> cases deleted

/-- The real `unlink` of a file removes its entry. -/
theorem without_of_realUnlink {left : FileSystem} (extended : fs.Extends left)
    (named : fs.entryOf cwd pathname = some (name, place))
    (returned : (realUnlink left cwd pathname).1 = true) :
    left.Without (realUnlink left cwd pathname).2 fun other => other = name :: place := by
  unfold realUnlink at returned ⊢
  split at returned
  · cases returned
  · next removed unlinked =>
      rcases unlink_eq_some.mp unlinked with ⟨_, _, named', -, leaf, -, rfl⟩
      rcases entryOf_unique (entryOf_kept extended.keeps named) named' with ⟨rfl, rfl⟩
      exact without_remove_leaf (List.cons_ne_nil _ _) leaf

end Removed

/-- A deletion that returns 0 leaves a file recoverable if it has moved and recorded it under a
fresh id, and has really removed it if it could not move it. -/
theorem recoverable_or_removed
    (named : fs.entryOf (dirfd.getD cwd) pathname = some (name, place))
    (file : fs.tree (name :: place) = some (.file inode))
    (uncut : pathname.head? ≠ some slash →
      (pathString (dirfd.getD cwd) ++ slash :: pathname).length < pathMax)
    (returned : (unlinkatWith refused fs cwd base answers dirfd pathname).1 = true) :
    (∀ path id, buildAbsPath fs cwd dirfd pathname = some path →
      (moveToTrashWith refused fs cwd base answers path).1 = .moved id true →
      Spared fs cwd base path id inode →
      Recoverable fs (unlinkatWith refused fs cwd base answers dirfd pathname).2 cwd base path id
        name place inode) ∧
    ((∀ path, buildAbsPath fs cwd dirfd pathname = some path →
      (moveToTrashWith refused fs cwd base answers path).1 = .refused) →
      ReallyRemoved fs (unlinkatWith refused fs cwd base answers dirfd pathname).2 cwd base
        (name :: place)) := by
  constructor
  · intro path id built moved spared
    have deleted := moveToTrash_of_with (Prod.ext moved rfl : moveToTrashWith refused fs cwd base
      answers path = (.moved id true, (moveToTrashWith refused fs cwd base answers path).2))
    have recoverable := recoverable_of_moved (entryOf_of_built named uncut built) file
      deleted spared
    unfold unlinkatWith
    rw [built]
    simp only
    generalize moveToTrashWith refused fs cwd base answers path = result at *
    rcases result with ⟨outcome, left⟩
    simp only at moved
    rw [moved]
    exact recoverable
  · intro failed
    unfold unlinkatWith at returned ⊢
    cases built : buildAbsPath fs cwd dirfd pathname with
    | none =>
        rw [built] at returned
        exact ⟨fs, .inl rfl, without_of_realUnlink (fun _ _ => rfl) named returned⟩
    | some path =>
        have left_eq := left_of_refused (failed path built)
        have outcome := failed path built
        rw [built] at returned
        simp only at returned ⊢
        generalize moveToTrashWith refused fs cwd base answers path = result at *
        rcases result with ⟨_, left⟩
        simp only at outcome left_eq
        rw [outcome] at returned ⊢
        refine ⟨left, .inr left_eq, ?_⟩
        apply without_of_realUnlink _ named returned
        rw [left_eq]
        exact ensureDirectories_extends

section Examples

/-- Not even `rename` may be refused for the trash to have a file. -/
def renameRefused : DeletionRefusals := ⟨true, false⟩

def nothingRefused : DeletionRefusals := ⟨false, false⟩

theorem outside_file :
    ¬InTrash (ensureDirectories fileAndLink [] (ascii ".")) [] (ascii ".") [] := by
  have dir : (ensureDirectories fileAndLink [] (ascii ".")).resolve [] (trashDir (ascii ".")) =
      some [ascii ".trash"] := by decide +kernel
  have files : (ensureDirectories fileAndLink [] (ascii ".")).resolve [] (trashFiles (ascii ".")) =
      some filesPlace := by decide +kernel
  have info : (ensureDirectories fileAndLink [] (ascii ".")).resolve [] (trashInfo (ascii ".")) =
      some infoPlace := by decide +kernel
  rintro ⟨path, rfl | rfl | rfl, top, resolved, below⟩
  · rw [dir, Option.some.injEq] at resolved
    rw [← resolved] at below
    exact absurd below (by decide)
  · rw [files, Option.some.injEq] at resolved
    rw [← resolved] at below
    exact absurd below (by decide)
  · rw [info, Option.some.injEq] at resolved
    rw [← resolved] at below
    exact absurd below (by decide)

/-- A file is recoverable, and one whose `rename` is refused is really removed. -/
theorem recoverable_file :
    Recoverable fileAndLink
      (unlinkatWith nothingRefused fileAndLink [] (ascii ".") firstAnswers none (ascii "/a")).2 []
      (ascii ".") (ascii "/a") firstId (ascii "a") [] 0 ∧
    ReallyRemoved fileAndLink
      (unlinkatWith renameRefused fileAndLink [] (ascii ".") firstAnswers none (ascii "/a")).2 []
      (ascii ".") [ascii "a"] := by
  have named : fileAndLink.entryOf [] (ascii "/a") = some (ascii "a", []) := by decide +kernel
  have file : fileAndLink.tree [ascii "a"] = some (.file 0) := by decide +kernel
  have built : buildAbsPath fileAndLink [] none (ascii "/a") = some (ascii "/a") := by
    decide +kernel
  have moved : (moveToTrashWith nothingRefused fileAndLink [] (ascii ".") firstAnswers
      (ascii "/a")).1 = .moved firstId true := by decide +kernel
  have kept : (moveToTrashWith renameRefused fileAndLink [] (ascii ".") firstAnswers
      (ascii "/a")).1 = .refused := by decide +kernel
  have returned : (unlinkatWith nothingRefused fileAndLink [] (ascii ".") firstAnswers none
      (ascii "/a")).1 = true := by decide +kernel
  have removed : (unlinkatWith renameRefused fileAndLink [] (ascii ".") firstAnswers none
      (ascii "/a")).1 = true := by decide +kernel
  have uncut : (ascii "/a").head? ≠ some slash →
      (pathString ((none : Option Location).getD []) ++ slash :: ascii "/a").length < pathMax := by
    decide
  constructor
  · exact (recoverable_or_removed named file uncut returned).1 (ascii "/a") firstId
      built moved freshId_file.spared
  · apply (recoverable_or_removed named file uncut removed).2
    intro path built'
    rw [built, Option.some.injEq] at built'
    rw [← built']
    exact kept

/-- Some entry of a tree is a name of a file. -/
def hasInode (fs : FileSystem) (inode : ℕ) : Bool :=
  fs.domain.any fun place => fs.tree place = some (.file inode)

/-- With its `rename` refused a file is gone and the deletion returns 0. -/
theorem not_recoverable_refused :
    ¬ ∀ (refused : DeletionRefusals) (fs : FileSystem) (cwd : Location) (base pathname : Bytes)
      (answers : Answers) (dirfd : Option Location) (name : Name) (place : Location) (inode : ℕ),
      fs.entryOf (dirfd.getD cwd) pathname = some (name, place) →
      fs.tree (name :: place) = some (.file inode) →
      ¬InTrash (ensureDirectories fs cwd base) cwd base place →
      (unlinkatWith refused fs cwd base answers dirfd pathname).1 = true →
      ∃ path id, Recoverable fs (unlinkatWith refused fs cwd base answers dirfd pathname).2 cwd
        base path id name place inode := by
  intro claimed
  have returned : (unlinkatWith renameRefused fileAndLink [] (ascii ".") firstAnswers none
      (ascii "/a")).1 = true := by decide +kernel
  rcases claimed renameRefused fileAndLink [] (ascii ".") (ascii "/a") firstAnswers none
    (ascii "a") [] 0 (by decide +kernel) (by decide +kernel) outside_file returned with
    ⟨path, id, stated, -⟩
  rcases Option.bind_eq_some_iff.mp stated with ⟨found, -, file⟩
  have lost : hasInode (unlinkatWith renameRefused fileAndLink [] (ascii ".") firstAnswers none
      (ascii "/a")).2 0 = false := by decide +kernel
  have left : hasInode (unlinkatWith renameRefused fileAndLink [] (ascii ".") firstAnswers none
      (ascii "/a")).2 0 = true :=
    List.any_eq_true.mpr ⟨found, FileSystem.supported _ (ne_none_of_eq_some file),
      decide_eq_true file⟩
  rw [lost] at left
  cases left

end Examples

end Osis.CourseWork
