import Osis.Posix.Lookup

/-!
# System calls on files

The calls are functions of the file system and of the directory the process works
in; `none` stands for a call that fails, which leaves everything as it was. The
conditions are those of Linux for a process that may do everything: permissions,
quotas and mount points are not part of a file system here.
-/

namespace Osis.Posix

namespace FileSystem

/-- `getcwd` for a process in a directory. -/
def getcwd (fs : FileSystem) (cwd : Location) : Option Bytes :=
  if fs.tree cwd = some .directory ∧ (pathString cwd).length < pathMax then some (pathString cwd)
  else none

/-- `stat`: what a path leads to. -/
def stat (fs : FileSystem) (cwd : Location) (path : Bytes) : Option Node :=
  (fs.resolve cwd path).bind fs.tree

/-- `lstat`: what a path names; a link at its end is followed only before a slash. -/
def lstat (fs : FileSystem) (cwd : Location) (path : Bytes) : Option Node :=
  match fs.entryOf cwd path with
  | none => fs.stat cwd path
  | some (name, place) => if endsInSlash path then fs.stat cwd path else fs.tree (name :: place)

/-- `access(path, F_OK) == 0`. -/
def access (fs : FileSystem) (cwd : Location) (path : Bytes) : Bool := (fs.resolve cwd path).isSome

/-- `realpath` into a buffer of `PATH_MAX` bytes. -/
def realpath (fs : FileSystem) (cwd : Location) (path : Bytes) : Option Bytes :=
  match fs.resolve cwd path with
  | none => none
  | some place => if (pathString place).length < pathMax then some (pathString place) else none

/-- What reading a path to the end gives; a directory can be opened and not be read. -/
def readFile (fs : FileSystem) (cwd : Location) (path : Bytes) : Option Bytes :=
  match fs.stat cwd path with
  | none => none
  | some (.file inode) => some (fs.data inode)
  | some _ => some []

/-- `mkdir`. -/
def mkdir (fs : FileSystem) (cwd : Location) (path : Bytes) : Option FileSystem :=
  match fs.entryOf cwd path with
  | none => none
  | some (name, place) =>
      if h : fs.tree (name :: place) = none ∧ fs.tree place = some .directory ∧ ValidName name then
        some (fs.insert name place .directory h.1 h.2.1 h.2.2 (by simp [Node.inode?]))
      else none

/-- `unlink`. -/
def unlink (fs : FileSystem) (cwd : Location) (path : Bytes) : Option FileSystem :=
  match fs.entryOf cwd path with
  | none => none
  | some (name, place) =>
      match fs.tree (name :: place) with
      | none => none
      | some .directory => none
      | some _ =>
          if endsInSlash path then none
          else some (fs.remove (name :: place) (List.cons_ne_nil _ _))

/-- `rmdir`. -/
def rmdir (fs : FileSystem) (cwd : Location) (path : Bytes) : Option FileSystem :=
  match fs.entryOf cwd path with
  | none => none
  | some (name, place) =>
      if fs.tree (name :: place) = some .directory ∧ fs.names (name :: place) = [] then
        some (fs.remove (name :: place) (List.cons_ne_nil _ _))
      else none

/-- Whether two entries are one file. -/
def sameFile (fs : FileSystem) (place place' : Location) : Bool :=
  place = place' ||
    match fs.tree place, fs.tree place' with
    | some node, some node' => node.inode? ≠ none && node.inode? = node'.inode?
    | _, _ => false

/-- Whether an entry may be moved over what is at a place. -/
def replaceable (fs : FileSystem) (node : Node) (place : Location) : Bool :=
  match fs.tree place with
  | none => true
  | some .directory => node = .directory && fs.names place = []
  | some _ => node ≠ .directory

/-- `rename`. -/
def rename (fs : FileSystem) (cwd : Location) (old new : Bytes) : Option FileSystem :=
  match fs.entryOf cwd old, fs.entryOf cwd new with
  | some (oldName, oldPlace), some (name, place) =>
      match fs.tree (oldName :: oldPlace) with
      | none => none
      | some node =>
          -- a slash at the end of a path asks for a directory
          if node ≠ .directory ∧ (endsInSlash old || endsInSlash new) = true then none
          -- nothing is done between names of one file
          else if fs.sameFile (oldName :: oldPlace) (name :: place) then some fs
          else if h : fs.tree place = some .directory ∧ ValidName name ∧
              ¬oldName :: oldPlace <:+ name :: place then
            if name :: place <:+ oldName :: oldPlace ∨
                fs.replaceable node (name :: place) = false then none
            else some (fs.move (oldName :: oldPlace) name place (List.cons_ne_nil _ _)
              h.1 h.2.1 h.2.2)
          else none
  | _, _ => none

/-- A new empty file. -/
def create (fs : FileSystem) (name : Name) (place : Location)
    (free : fs.tree (name :: place) = none) (above : fs.tree place = some .directory)
    (valid : ValidName name) : FileSystem :=
  fs.allocate.insert name place (.file fs.fresh) free above valid (by
    intro inode inode_eq
    rw [← Option.some.inj inode_eq]
    exact Nat.lt_succ_self _)

/-- `fopen(path, "w")`, with the inode it opens. -/
def openWrite (fs : FileSystem) (cwd : Location) (path : Bytes) : Option (FileSystem × ℕ) :=
  match fs.openPlace cwd path with
  | none => none
  | some [] => none
  | some (name :: place) =>
      if h : fs.tree (name :: place) = none ∧ fs.tree place = some .directory ∧ ValidName name then
        some (fs.create name place h.1 h.2.1 h.2.2, fs.fresh)
      else
        match fs.tree (name :: place) with
        | some (.file inode) => some (fs.write inode [], inode)
        | _ => none

section Specifications

variable {fs fs' : FileSystem} {cwd place found : Location} {path old new : Bytes} {name : Name}
  {inode : ℕ}

theorem realpath_eq_some {text : Bytes} :
    fs.realpath cwd path = some text ↔
      ∃ found, fs.resolve cwd path = some found ∧ text = pathString found ∧
        text.length < pathMax := by
  unfold realpath
  constructor
  · intro printed
    split at printed
    · simp at printed
    · rename_i found resolved
      simp only [Option.ite_none_right_eq_some, Option.some.injEq] at printed
      rcases printed with ⟨short, rfl⟩
      exact ⟨found, resolved, rfl, short⟩
  · rintro ⟨found, resolved, rfl, short⟩
    simp [resolved, short]

/-- A path without a slash at its end names its entry. -/
theorem lstat_of_entryOf (named : fs.entryOf cwd path = some (name, place))
    (unslashed : endsInSlash path = false) : fs.lstat cwd path = fs.tree (name :: place) := by
  rw [lstat, named]
  simp [unslashed]

theorem readFile_of_resolve (resolved : fs.resolve cwd path = some found)
    (file : fs.tree found = some (.file inode)) : fs.readFile cwd path = some (fs.data inode) := by
  simp [readFile, stat, resolved, file]

theorem mkdir_eq_some (made : fs.mkdir cwd path = some fs') :
    ∃ name place, fs.entryOf cwd path = some (name, place) ∧ fs.tree (name :: place) = none ∧
      (∀ entry, fs'.tree entry = if entry = name :: place then some .directory else fs.tree entry) ∧
      fs'.data = fs.data ∧ fs'.fresh = fs.fresh := by
  unfold mkdir at made
  split at made
  · simp at made
  · rename_i name place named
    split at made
    · rename_i free
      rw [Option.some.injEq] at made
      subst made
      exact ⟨name, place, named, free.1, fun _ => tree_insert, rfl, rfl⟩
    · simp at made

/-- A directory is not made where its path leads somewhere. -/
theorem mkdir_of_resolve (resolved : fs.resolve cwd path = some found) :
    fs.mkdir cwd path = none := by
  cases made : fs.mkdir cwd path with
  | none => rfl
  | some fs' =>
      rcases mkdir_eq_some made with ⟨name, place, named, free, -⟩
      exact absurd free (exists_of_resolve resolved named)

/-- An absolute path of a directory can be used from everywhere. -/
theorem mkdir_absolute {cwd' : Location} (absolute : path.head? = some slash) :
    fs.mkdir cwd path = fs.mkdir cwd' path := by
  rw [mkdir, mkdir, entryOf_absolute absolute]

/-- Trying to make a directory adds at most the entry that the path names. -/
theorem mkdir_getD (fs : FileSystem) (cwd : Location) (path : Bytes) :
    fs.Extends ((fs.mkdir cwd path).getD fs) ∧ ((fs.mkdir cwd path).getD fs).data = fs.data ∧
      ((fs.mkdir cwd path).getD fs).fresh = fs.fresh ∧
      ∀ entry, ((fs.mkdir cwd path).getD fs).tree entry ≠ fs.tree entry →
        ((fs.mkdir cwd path).getD fs).tree entry = some .directory ∧
          ∃ name place, entry = name :: place ∧ fs.entryOf cwd path = some (name, place) := by
  cases made : fs.mkdir cwd path with
  | none => exact ⟨fun _ _ => rfl, rfl, rfl, fun _ changed => absurd rfl changed⟩
  | some fs' =>
      rcases mkdir_eq_some made with ⟨name, place, named, free, tree_eq, data_eq, fresh_eq⟩
      refine ⟨?_, data_eq, fresh_eq, ?_⟩
      · intro entry exists_entry
        rw [Option.getD_some, tree_eq, if_neg]
        rintro rfl
        exact exists_entry free
      · intro entry changed
        rw [Option.getD_some, tree_eq] at changed ⊢
        by_cases here : entry = name :: place
        · exact ⟨if_pos here, name, place, here, named⟩
        · exact absurd (if_neg here) changed

theorem unlink_eq_some :
    fs.unlink cwd path = some fs' ↔
      ∃ name place, fs.entryOf cwd path = some (name, place) ∧ fs.tree (name :: place) ≠ none ∧
        fs.tree (name :: place) ≠ some .directory ∧ endsInSlash path = false ∧
        fs' = fs.remove (name :: place) (List.cons_ne_nil _ _) := by
  unfold unlink
  constructor
  · intro removed
    split at removed
    · simp at removed
    rename_i name place named
    split at removed
    · simp at removed
    · simp at removed
    · rename_i node notDirectory found_node
      simp only [Option.ite_none_left_eq_some, Option.some.injEq] at removed
      rcases removed with ⟨unslashed, rfl⟩
      refine ⟨name, place, named, ne_none_of_eq_some found_node, ?_, by simpa using unslashed, rfl⟩
      rw [found_node]
      intro same
      exact notDirectory (Option.some.inj same)
  · rintro ⟨name, place, named, exists_entry, notDirectory, unslashed, rfl⟩
    cases found_node : fs.tree (name :: place) with
    | none => exact absurd found_node exists_entry
    | some node =>
        cases node with
        | directory => exact absurd found_node notDirectory
        | file inode => simp [named, found_node, unslashed]
        | link inode target => simp [named, found_node, unslashed]

/-- Trying to remove an entry adds none. -/
theorem tree_unlink_getD {entry : Location}
    (exists_entry : ((fs.unlink cwd path).getD fs).tree entry ≠ none) :
    ((fs.unlink cwd path).getD fs).tree entry = fs.tree entry := by
  cases removed : fs.unlink cwd path with
  | none => rfl
  | some fs' =>
      rcases unlink_eq_some.mp removed with ⟨name, place, -, -, leaf, -, rfl⟩
      rw [removed, Option.getD_some, tree_remove_leaf leaf] at exists_entry
      rw [Option.getD_some, tree_remove_leaf leaf]
      split
      · rename_i here
        exact absurd (if_pos here) exists_entry
      · rfl

/-- What a successful `rename` found and did. -/
theorem rename_eq_some (renamed : fs.rename cwd old new = some fs') :
    ∃ oldName oldPlace name place node,
      fs.entryOf cwd old = some (oldName, oldPlace) ∧ fs.entryOf cwd new = some (name, place) ∧
      fs.tree (oldName :: oldPlace) = some node ∧
      (node ≠ .directory → endsInSlash old = false ∧ endsInSlash new = false) ∧
      (fs.sameFile (oldName :: oldPlace) (name :: place) = true ∧ fs' = fs ∨
        fs.sameFile (oldName :: oldPlace) (name :: place) = false ∧
          fs.replaceable node (name :: place) = true ∧ ¬name :: place <:+ oldName :: oldPlace ∧
          ∃ above valid apart, fs' = fs.move (oldName :: oldPlace) name place
            (List.cons_ne_nil _ _) above valid apart) := by
  unfold rename at renamed
  split at renamed
  · rename_i oldName oldPlace name place named target
    split at renamed
    · simp at renamed
    rename_i node found_node
    split at renamed
    · simp at renamed
    rename_i slashes
    refine ⟨oldName, oldPlace, name, place, node, named, target, found_node, ?_, ?_⟩
    · intro leaf
      simpa [leaf] using slashes
    split at renamed
    · rename_i same
      exact Or.inl ⟨same, (Option.some.inj renamed).symm⟩
    rename_i different
    split at renamed
    · rename_i possible
      simp only [Option.ite_none_left_eq_some, Option.some.injEq, not_or,
        Bool.not_eq_false] at renamed
      exact Or.inr ⟨Bool.not_eq_true _ ▸ different, renamed.1.2, renamed.1.1, possible.1,
        possible.2.1, possible.2.2, renamed.2.symm⟩
    · simp at renamed
  · simp at renamed

theorem sameFile_of_free {oldPlace newPlace : Location} (exists_old : fs.tree oldPlace ≠ none)
    (free : fs.tree newPlace = none) : fs.sameFile oldPlace newPlace = false := by
  have different : oldPlace ≠ newPlace := by
    rintro rfl
    exact exists_old free
  simp [sameFile, different, free]

/-- A successful `rename` to a free place moves the entry there. -/
theorem rename_to_free (renamed : fs.rename cwd old new = some fs')
    (target : fs.entryOf cwd new = some (name, place)) (free : fs.tree (name :: place) = none) :
    ∃ oldName oldPlace node, fs.entryOf cwd old = some (oldName, oldPlace) ∧
      fs.tree (oldName :: oldPlace) = some node ∧
      (node ≠ .directory → endsInSlash old = false ∧ endsInSlash new = false) ∧
      ∃ above valid apart, fs' = fs.move (oldName :: oldPlace) name place (List.cons_ne_nil _ _)
        above valid apart := by
  rcases rename_eq_some renamed with
    ⟨oldName, oldPlace, newName, newPlace, node, named, target', found_node, slashes, done⟩
  rw [target, Option.some.injEq, Prod.mk.injEq] at target'
  rcases target' with ⟨rfl, rfl⟩
  rcases done with ⟨same, -⟩ | ⟨-, -, -, moved⟩
  · rw [sameFile_of_free (ne_none_of_eq_some found_node) free] at same
    simp at same
  · exact ⟨oldName, oldPlace, node, named, found_node, slashes, moved⟩

/-- An entry that is no directory can be moved to a free place. -/
theorem rename_leaf {oldName : Name} {oldPlace : Location}
    (named : fs.entryOf cwd old = some (oldName, oldPlace))
    (target : fs.entryOf cwd new = some (name, place)) (free : fs.tree (name :: place) = none)
    (exists_entry : fs.tree (oldName :: oldPlace) ≠ none)
    (leaf : fs.tree (oldName :: oldPlace) ≠ some .directory)
    (unslashed : endsInSlash old = false) (unslashed' : endsInSlash new = false)
    (valid : ValidName name) :
    ∃ above apart, fs.rename cwd old new = some (fs.move (oldName :: oldPlace) name place
      (List.cons_ne_nil _ _) above valid apart) := by
  rcases entryOf_eq_some.mp target with ⟨-, -, -, -, above, -⟩
  rcases Option.ne_none_iff_exists'.mp exists_entry with ⟨node, found_node⟩
  have apart : ¬oldName :: oldPlace <:+ name :: place := by
    intro suffix
    rcases List.suffix_cons_iff.mp suffix with same | inside
    · rw [same] at exists_entry
      exact exists_entry free
    · have exists_place := ne_none_of_eq_some above
      have same := eq_of_suffix leaf exists_place inside
      exact leaf (same ▸ above)
  have beside : ¬name :: place <:+ oldName :: oldPlace := not_suffix_of_free free exists_entry
  have different := sameFile_of_free exists_entry free
  refine ⟨above, apart, ?_⟩
  unfold rename
  rw [named, target]
  simp only [found_node, unslashed, unslashed', Bool.or_self, Bool.false_eq_true, and_false,
    if_false, different]
  rw [dif_pos ⟨above, valid, apart⟩, if_neg]
  simp [beside, replaceable, free]

@[simp]
theorem tree_create {free : fs.tree (name :: place) = none}
    {above : fs.tree place = some .directory} {valid : ValidName name} {entry : Location} :
    (fs.create name place free above valid).tree entry =
      if entry = name :: place then some (.file fs.fresh) else fs.tree entry := rfl

theorem data_create_of_lt {free : fs.tree (name :: place) = none}
    {above : fs.tree place = some .directory} {valid : ValidName name}
    (old_inode : inode < fs.fresh) :
    (fs.create name place free above valid).data inode = fs.data inode :=
  data_allocate_of_lt old_inode

/-- A new file can be opened where its name is valid. -/
theorem openWrite_free (named : fs.entryOf cwd path = some (name, place))
    (free : fs.tree (name :: place) = none) (unslashed : endsInSlash path = false)
    (valid : ValidName name) : ∃ opened, fs.openWrite cwd path = some (opened, fs.fresh) := by
  rcases entryOf_eq_some.mp named with ⟨-, -, -, -, above, -⟩
  refine ⟨fs.create name place free above valid, ?_⟩
  rw [openWrite, openPlace_of_free named free unslashed]
  exact dif_pos ⟨free, above, valid⟩

/-- Opening a path without a file creates one. -/
theorem openWrite_of_free (opened : fs.openWrite cwd path = some (fs', inode))
    (named : fs.openPlace cwd path = some found) (free : fs.tree found = none) :
    inode = fs.fresh ∧ ∃ name place, found = name :: place ∧
      ∃ free above valid, fs' = fs.create name place free above valid := by
  unfold openWrite at opened
  rw [named] at opened
  cases found with
  | nil => simp at opened
  | cons name place =>
      simp only [free, true_and] at opened
      split at opened
      · rename_i possible
        rw [Option.some.injEq, Prod.mk.injEq] at opened
        exact ⟨opened.2.symm, name, place, rfl, free, possible.1, possible.2, opened.1.symm⟩
      · simp at opened

/-- What opening a path for writing has found and done. -/
theorem openWrite_eq_some (opened : fs.openWrite cwd path = some (fs', inode)) :
    ∃ found, fs.openPlace cwd path = some found ∧ fs.Extends fs' ∧
      fs'.tree found = some (.file inode) ∧
      (∀ other, other ≠ inode → fs'.data other = fs.data other) ∧
      (fs.tree found = some (.file inode) ∨ inode = fs.fresh) := by
  unfold openWrite at opened
  split at opened
  · cases opened
  · cases opened
  · next name place at_place =>
      refine ⟨name :: place, at_place, ?_⟩
      split at opened
      · next possible =>
          rw [Option.some.injEq, Prod.mk.injEq] at opened
          rcases opened with ⟨rfl, rfl⟩
          refine ⟨?_, tree_create.trans (if_pos rfl), ?_, .inr rfl⟩
          · intro entry exists_entry
            rw [tree_create, if_neg]
            rintro rfl
            exact exists_entry possible.1
          · intro other different
            exact Function.update_of_ne different _ _
      · split at opened
        · next number file =>
            rw [Option.some.injEq, Prod.mk.injEq] at opened
            rcases opened with ⟨rfl, rfl⟩
            refine ⟨fun _ _ => rfl, file, fun other different => ?_, .inl file⟩
            exact Function.update_of_ne different _ _
        · cases opened

end Specifications

end FileSystem

end Osis.Posix
