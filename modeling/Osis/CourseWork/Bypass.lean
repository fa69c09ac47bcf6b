import Osis.CourseWork.Recovery

/-!
# The files that are really removed

`move_to_trash` really removes a path whose text starts with that of `TRASH_BASE/.trash`.
This is meant for the files that are in the trash already. The comparison of the texts goes
wrong for a neighbour such as `.trashed`, for a path that leaves the trash again, for every
file in the trash as long as `TRASH_BASE` is relative, for other spellings of a path into the
trash, and for a path that the buffer has cut. `bypassExact_iff` says that it is right in all
other cases. Where no link is on the way, the paths tell by themselves which case they are.
-/

namespace Osis.Posix

/-- The canonical path of a directory with a slash behind it. -/
def withSlash (place : Location) : Bytes :=
  (if place = [] then [] else pathString place) ++ [slash]

theorem pathString_append {top inside : Location} (below : inside ≠ []) :
    pathString (inside ++ top) =
      (if top = [] then [] else pathString top) ++ pathString inside := by
  have both : inside ++ top ≠ [] := by simp [below]
  by_cases atRoot : top = []
  · rw [atRoot, List.append_nil, if_pos rfl, List.nil_append]
  · rw [if_neg atRoot, pathString, if_neg both, pathString, if_neg atRoot, pathString,
      if_neg below, List.reverse_append, List.flatMap_append]

/-- A place lies below a directory if the path of the directory and a slash begin its path. -/
theorem withSlash_prefix_iff {top place : Location} {name : Name}
    (valid : ∀ other ∈ name :: place, ValidName other)
    (validTop : ∀ other ∈ top, ValidName other) :
    withSlash top <+: pathString (name :: place) ↔ top <:+ place := by
  constructor
  · rintro ⟨rest, path_eq⟩
    have front_eq : components (if top = [] then [] else pathString top) = top.reverse := by
      split
      · next atRoot => rw [atRoot, components_nil, List.reverse_nil]
      · exact components_pathString validTop
    have names := components_pathString valid
    rw [← path_eq, withSlash, List.append_assoc, List.singleton_append, components_append_slash,
      front_eq] at names
    have above : top <:+ name :: place := by
      rw [← List.reverse_prefix, ← names]
      exact List.prefix_append _ _
    rcases List.suffix_cons_iff.mp above with itself | below
    · -- the path of the directory is not longer than itself
      have lengths := congrArg List.length path_eq
      rw [withSlash, if_neg (by simp [itself]), itself] at lengths
      simp only [List.length_append, List.length_singleton] at lengths
      omega
    · exact below
  · rintro ⟨inside, rfl⟩
    rw [withSlash, ← List.cons_append, pathString_append (List.cons_ne_nil _ _)]
    apply List.prefix_append_right_inj _ |>.mpr
    have first := head?_pathString (name :: inside)
    rcases List.head?_eq_some_iff.mp first with ⟨rest, path_eq⟩
    rw [path_eq]
    exact ⟨rest, rfl⟩

/-- The place that names spell from a place, if none of them is of a link. -/
def spell : Location → List Name → Location
  | place, [] => place
  | place, name :: rest =>
      if name = dot then spell place rest
      else if name = dotDot then spell place.tail rest
      else spell (name :: place) rest

namespace FileSystem

/-- The names lead from directory to directory, and none of them is of a link. -/
def Straight (fs : FileSystem) : Location → List Name → Prop
  | place, [] => fs.tree place = some .directory
  | place, name :: rest =>
      fs.tree place = some .directory ∧
        if name = dot then Straight fs place rest
        else if name = dotDot then Straight fs place.tail rest
        else Straight fs (name :: place) rest

instance (fs : FileSystem) : ∀ names place, Decidable (fs.Straight place names)
  | [], place => inferInstanceAs (Decidable (fs.tree place = some .directory))
  | name :: rest, place =>
      have (place : Location) : Decidable (fs.Straight place rest) :=
        instDecidableStraight fs rest place
      inferInstanceAs (Decidable (fs.tree place = some .directory ∧
        if name = dot then fs.Straight place rest
        else if name = dotDot then fs.Straight place.tail rest
        else fs.Straight (name :: place) rest))

variable {fs : FileSystem} {place dir cwd found : Location} {names : List Name} {missing : Bool}
  {links : ℕ} {path : Bytes}

theorem Straight.directory (straight : fs.Straight place names) :
    fs.tree place = some .directory := by
  cases names with
  | nil => exact straight
  | cons name rest => exact straight.1

/-- Where no link is on the way, a walk ends at the place that its names spell. -/
theorem walk_of_straight (straight : fs.Straight place names) :
    fs.walk missing links place names = some (spell place names) := by
  rcases walk_eq_walkWith fs missing links with ⟨follow, walk_eq⟩
  rw [walk_eq]
  induction names generalizing place with
  | nil => rfl
  | cons name rest ih =>
      rcases straight with ⟨here, further⟩
      unfold spell
      split at further
      · next isDot =>
          rw [isDot, walkWith_dot here, if_pos rfl]
          exact ih further
      · next notDot =>
          rw [if_neg notDot]
          split at further
          · next isDotDot =>
              rw [isDotDot, walkWith_dotDot here, if_pos rfl]
              exact ih further
          · next notDotDot =>
              rw [if_neg notDotDot, walkWith_plain here (.inl further.directory)]
              exact ih further

/-- A relative path behind the path of a directory leads to where it leads from there. -/
theorem resolve_relative (relative : path.head? ≠ some slash)
    (resolved : fs.resolve dir path = some found)
    (short : (pathString dir ++ slash :: path).length < pathMax) :
    fs.resolve cwd (pathString dir ++ slash :: path) = some found := by
  rcases resolve_eq_some.mp resolved with ⟨some_path, -, walked⟩
  rw [startOf, if_neg relative] at walked
  have directory : fs.tree dir = some .directory := by
    rcases List.exists_cons_of_ne_nil (steps_ne_nil some_path) with ⟨step, rest, steps_eq⟩
    rw [steps_eq] at walked
    exact directory_of_walk_cons walked
  have some_dir : pathString dir ≠ [] := by
    intro empty
    have first := head?_pathString dir
    rw [empty] at first
    cases first
  have first : (pathString dir ++ slash :: path).head? = some slash := by
    rw [List.head?_append_of_ne_nil _ some_dir, head?_pathString]
  have steps_eq : steps (pathString dir ++ slash :: path) = dir.reverse ++ steps path := by
    rw [steps, steps, components_append_slash, endsInSlash, endsInSlash, List.append_cons,
      List.getLast?_append_of_ne_nil _ some_path, List.append_assoc,
      components_pathString (validName_of_mem (ne_none_of_eq_some directory))]
  rw [resolve_eq_some, startOf, if_pos first, steps_eq, walk_reverse directory]
  exact ⟨by simp, short, walked⟩

end FileSystem

end Osis.Posix

namespace Osis.CourseWork

open Posix Posix.FileSystem

/-- The entries below the directory `TRASH_BASE/.trash`. -/
def BelowTrash (fs : FileSystem) (cwd : Location) (base : Bytes) (place : Location) : Prop :=
  ∃ top, fs.resolve cwd (base ++ ascii "/.trash") = some top ∧ top <:+ place

/-- `unlink` and `unlinkat` without `AT_REMOVEDIR` really remove the path as being in the trash. -/
def Bypassed (fs : FileSystem) (cwd : Location) (base : Bytes) (answers : Answers)
    (dirfd : Option Location) (pathname : Bytes) : Prop :=
  ∃ path ∈ buildAbsPath fs cwd dirfd pathname,
    (moveToTrash fs cwd base answers path).1 = .unlinked

/-- The absolute path of a path from a directory, before it is cut to the size of a buffer. -/
def joinedPath (cwd : Location) (dirfd : Option Location) (pathname : Bytes) : Bytes :=
  if pathname.head? = some slash then pathname
  else pathString (dirfd.getD cwd) ++ slash :: pathname

/-- The absolute path fits the buffer, or what is left of it is the path of a file. -/
def Reaches (fs : FileSystem) (cwd : Location) (base : Bytes) (dirfd : Option Location)
    (pathname : Bytes) : Prop :=
  (joinedPath cwd dirfd pathname).length < pathMax ∨
    ∃ path ∈ buildAbsPath fs cwd dirfd pathname,
      ((ensureDirectories fs cwd base).stat cwd path).isSome ∧
      ((ensureDirectories fs cwd base).unlink cwd path).isSome

/-- What the start of the path tells about a file is right. -/
structure Recognised (fs : FileSystem) (cwd : Location) (base : Bytes) (dirfd : Option Location)
    (pathname : Bytes) (inside : Prop) : Prop where
  /-- With a relative `TRASH_BASE` the file is not in the trash. -/
  relative : base ≠ [] ∧ base.head? ≠ some slash → ¬inside
  /-- No file outside has a path that goes on behind the trash without a slash. -/
  neighbour : ∀ rest, joinedPath cwd dirfd pathname = trashDir base ++ rest →
    rest.head? ≠ some slash → Reaches fs cwd base dirfd pathname → inside
  /-- What is spelled through the trash does not leave it again. -/
  staying : ∀ rest, joinedPath cwd dirfd pathname = trashDir base ++ slash :: rest →
    Reaches fs cwd base dirfd pathname → inside
  /-- A file in the trash is spelled through it. -/
  spelled : base = [] ∨ base.head? = some slash →
    ¬trashDir base <+: joinedPath cwd dirfd pathname → ¬inside
  /-- The path of a file in the trash is not cut. -/
  uncut : ¬Reaches fs cwd base dirfd pathname → ¬inside

/-- No link is on the way to the trash and to the directory of the path. -/
def Linkless (fs : FileSystem) (cwd : Location) (base : Bytes) (dirfd : Option Location)
    (pathname : Bytes) : Prop :=
  (base ++ ascii "/.trash").length < pathMax ∧
    fs.Straight (startOf cwd (base ++ ascii "/.trash")) (components (base ++ ascii "/.trash")) ∧
    fs.Straight (startOf (dirfd.getD cwd) pathname) (components pathname).dropLast

/-- The names in the paths spell a place in the trash. -/
def SpelledInside (cwd : Location) (base : Bytes) (dirfd : Option Location) (pathname : Bytes) :
    Prop :=
  spell (startOf cwd (base ++ ascii "/.trash")) (components (base ++ ascii "/.trash")) <:+
    spell (startOf (dirfd.getD cwd) pathname) (components pathname).dropLast

instance (cwd : Location) (base : Bytes) (dirfd : Option Location) (pathname : Bytes) :
    Decidable (SpelledInside cwd base dirfd pathname) :=
  inferInstanceAs (Decidable (_ <:+ _))

variable {fs : FileSystem} {cwd place : Location} {base pathname : Bytes} {name : Name}
  {dirfd : Option Location} {answers : Answers} {inode : ℕ} {inside : Prop}

/-- The branch that `move_to_trash` takes. -/
theorem moveToTrash_unlinked_iff {path : Bytes} :
    (moveToTrash fs cwd base answers path).1 = .unlinked ↔ trashDir base <+: path ∧
      ((ensureDirectories fs cwd base).stat cwd path).isSome ∧
      ((ensureDirectories fs cwd base).unlink cwd path).isSome := by
  unfold moveToTrash
  generalize ensureDirectories fs cwd base = ensured
  cases stated : ensured.stat cwd path with
  | none => simp [stated]
  | some node =>
      by_cases alike : trashDir base <+: path
      · cases removed : ensured.unlink cwd path with
        | none => simp [stated, alike, removed]
        | some left => simp [stated, alike, removed]
      · simp only [stated, alike, if_false, false_and, iff_false]
        split
        · simp
        · split <;> simp

theorem belowTrash_iff (exists_entry : fs.tree (name :: place) ≠ none) :
    BelowTrash fs cwd base place ↔ ∃ top, fs.resolve cwd (base ++ ascii "/.trash") = some top ∧
      withSlash top <+: pathString (name :: place) := by
  have valid := validName_of_mem exists_entry
  constructor
  · rintro ⟨top, resolved, below⟩
    refine ⟨top, resolved, (withSlash_prefix_iff valid fun other other_mem => ?_).mpr below⟩
    exact valid other (List.mem_cons_of_mem _ (below.subset other_mem))
  · rintro ⟨top, resolved, below⟩
    have exists_top : fs.tree top ≠ none := by
      rcases isPlain_of_resolve resolved with directory | ⟨inode, file⟩
      · exact ne_none_of_eq_some directory
      · exact ne_none_of_eq_some file
    exact ⟨top, resolved, (withSlash_prefix_iff valid (validName_of_mem exists_top)).mp below⟩

/-- The file that a path names is really removed exactly if it is in the trash. -/
def BypassExact (fs : FileSystem) (cwd : Location) (base : Bytes) (answers : Answers)
    (dirfd : Option Location) (pathname : Bytes) : Prop :=
  ∀ name place, fs.entryOf (dirfd.getD cwd) pathname = some (name, place) →
    (Bypassed fs cwd base answers dirfd pathname ↔ BelowTrash fs cwd base place)

theorem bypassExact_of_named (named : fs.entryOf (dirfd.getD cwd) pathname = some (name, place)) :
    BypassExact fs cwd base answers dirfd pathname ↔
      (Bypassed fs cwd base answers dirfd pathname ↔ BelowTrash fs cwd base place) := by
  constructor
  · exact fun decided => decided name place named
  · intro decided other other_place named'
    rw [named, Option.some.injEq, Prod.mk.injEq] at named'
    rwa [← named'.2]

section Paths

/-- The text of the trash fits its buffer. -/
theorem length_trashDir : (trashDir base).length ≤ pathMax - 1 := List.length_take_le _ _

/-- The path that is made starts like the trash if it would without being cut. -/
theorem trashDir_prefix_iff {path : Bytes}
    (built : buildAbsPath fs cwd dirfd pathname = some path) :
    trashDir base <+: path ↔ trashDir base <+: joinedPath cwd dirfd pathname := by
  have short := @length_trashDir base
  have cut_iff : ∀ {size : ℕ} {text : Bytes}, pathMax - 1 ≤ size →
      (trashDir base <+: text.take size ↔ trashDir base <+: text) := by
    intro size text large
    rw [List.prefix_take_iff]
    exact and_iff_left (short.trans large)
  unfold buildAbsPath at built
  unfold joinedPath
  split at built
  · rw [← Option.some.inj built, if_pos ‹_›]
    exact cut_iff (Nat.sub_le _ _)
  · rw [if_neg ‹_›]
    split at built
    · rcases Option.map_eq_some_iff.mp built with ⟨dir, found, rfl⟩
      simp only [getcwd, Option.ite_none_right_eq_some, Option.some.injEq] at found
      rw [← found.2]
      exact cut_iff (Nat.le_refl _)
    · next dir =>
        rw [← Option.some.inj built, snprintf]
        rcases Nat.lt_or_ge (pathString dir).length (pathMax - 1) with short_dir | long_dir
        · rw [List.take_of_length_le short_dir.le]
          exact cut_iff (Nat.le_refl _)
        · -- both texts are cut in the path of the directory
          have cut_dir : ((pathString dir).take (pathMax - 1)).length = pathMax - 1 := by
            rw [List.length_take, Nat.min_eq_left long_dir]
          have cut_eq : ((pathString dir).take (pathMax - 1) ++ slash :: pathname).take
              (pathMax - 1) = (pathString dir ++ slash :: pathname).take (pathMax - 1) := by
            rw [List.take_append_of_le_length cut_dir.ge, List.take_append_of_le_length long_dir,
              List.take_take, Nat.min_self]
          rw [cut_eq]
          exact cut_iff (Nat.le_refl _)

/-- A path that is not cut is the one that is made. -/
theorem buildAbsPath_of_whole (file : fs.stat (dirfd.getD cwd) pathname = some (.file inode))
    (whole : (joinedPath cwd dirfd pathname).length < pathMax) :
    buildAbsPath fs cwd dirfd pathname = some (joinedPath cwd dirfd pathname) := by
  unfold joinedPath at whole ⊢
  unfold buildAbsPath
  split
  · next absolute =>
      rw [if_pos absolute] at whole
      rw [List.take_of_length_le whole.le]
  · next relative =>
      rw [if_neg relative] at whole
      have dir_short : (pathString (dirfd.getD cwd)).length < pathMax := by
        rw [List.length_append] at whole
        omega
      cases dirfd with
      | none =>
          rcases Option.bind_eq_some_iff.mp file with ⟨found, resolved, -⟩
          rcases resolve_eq_some.mp resolved with ⟨some_path, -, walked⟩
          rw [startOf, if_neg relative] at walked
          have directory : fs.tree cwd = some .directory := by
            rcases List.exists_cons_of_ne_nil (steps_ne_nil some_path) with ⟨step, rest, steps_eq⟩
            rw [steps_eq] at walked
            exact directory_of_walk_cons walked
          simp only [Option.getD_none] at whole dir_short ⊢
          rw [getcwd, if_pos ⟨directory, dir_short⟩, Option.map_some, snprintf_of_lt whole]
      | some dir =>
          simp only [Option.getD_some] at whole dir_short ⊢
          have fits : (pathString dir).length ≤ pathMax - 1 := Nat.le_pred_of_lt dir_short
          rw [List.take_of_length_le fits, snprintf_of_lt whole]

/-- With a relative `TRASH_BASE` no path starts like the trash. -/
theorem not_prefix_of_relative (relative : base ≠ [] ∧ base.head? ≠ some slash) :
    ¬trashDir base <+: joinedPath cwd dirfd pathname := by
  rintro ⟨rest, path_eq⟩
  have first : (joinedPath cwd dirfd pathname).head? = some slash := by
    unfold joinedPath
    split
    · next absolute => exact absolute
    · have some_dir : pathString (dirfd.getD cwd) ≠ [] := by
        intro empty
        have first := head?_pathString (dirfd.getD cwd)
        rw [empty] at first
        cases first
      rw [List.head?_append_of_ne_nil _ some_dir, head?_pathString]
  have some_trash : trashDir base ≠ [] := by
    rw [trashDir, snprintf, ← List.length_pos_iff, List.length_take, List.length_append]
    have := List.length_pos_iff.mpr relative.1
    simp only [pathMax]
    omega
  rw [← path_eq, List.head?_append_of_ne_nil _ some_trash, trashDir, snprintf, List.head?_take,
    if_neg (by decide), List.head?_append_of_ne_nil _ relative.1] at first
  exact relative.2 first

/-- The entry of a path is really removed if the path starts like the trash. -/
theorem moveToTrash_unlinked_iff_prefix {path : Bytes}
    (named : fs.entryOf cwd path = some (name, place))
    (leaf : fs.tree (name :: place) ≠ some .directory) (unslashed : endsInSlash path = false)
    (stated : (fs.stat cwd path).isSome) :
    (moveToTrash fs cwd base answers path).1 = .unlinked ↔ trashDir base <+: path := by
  have extended : fs.Extends (ensureDirectories fs cwd base) := ensureDirectories_extends
  rcases Option.isSome_iff_exists.mp stated with ⟨node, stated⟩
  rcases Option.bind_eq_some_iff.mp stated with ⟨found, resolved, found_node⟩
  have exists_entry := exists_of_resolve resolved named
  have same := extended _ exists_entry
  have kept : ((ensureDirectories fs cwd base).stat cwd path).isSome := by
    have plain := isPlain_of_resolve resolved
    have still := extended found (ne_none_of_eq_some found_node)
    rcases resolve_eq_some.mp resolved with ⟨some_path, short, walked⟩
    have again := walk_created extended walked (by rwa [IsPlain, still])
    rw [stat, resolve_eq_some.mpr ⟨some_path, short, again⟩, Option.bind_some, still, found_node,
      Option.isSome_some]
  have removed : ((ensureDirectories fs cwd base).unlink cwd path).isSome := by
    rw [unlink_eq_some.mpr ⟨name, place, entryOf_kept extended.keeps named, by rwa [same],
      by rwa [same], unslashed, rfl⟩, Option.isSome_some]
  rw [moveToTrash_unlinked_iff]
  exact and_iff_left ⟨kept, removed⟩

/-- A path of a file that is not cut is the path of the same entry. -/
theorem entry_of_whole (file : fs.stat (dirfd.getD cwd) pathname = some (.file inode))
    (named : fs.entryOf (dirfd.getD cwd) pathname = some (name, place))
    (whole : (joinedPath cwd dirfd pathname).length < pathMax) :
    fs.entryOf cwd (joinedPath cwd dirfd pathname) = some (name, place) ∧
      fs.tree (name :: place) ≠ some .directory ∧
      endsInSlash (joinedPath cwd dirfd pathname) = false ∧
      (fs.stat cwd (joinedPath cwd dirfd pathname)).isSome := by
  have built := buildAbsPath_of_whole file whole
  have uncut : pathname.head? ≠ some slash →
      (pathString (dirfd.getD cwd) ++ slash :: pathname).length < pathMax := by
    intro relative
    rwa [joinedPath, if_neg relative] at whole
  rcases Option.bind_eq_some_iff.mp file with ⟨found, resolved, found_file⟩
  have unslashed : endsInSlash pathname = false := by
    by_contra slashed
    have directory := directory_of_endsInSlash resolved (Bool.of_not_eq_false slashed)
    rw [found_file] at directory
    cases directory
  refine ⟨entryOf_of_built named uncut built, ?_, ?_, ?_⟩
  · intro directory
    have leads := resolve_of_entryOf named (.inl directory) unslashed
    rw [resolved, Option.some.injEq] at leads
    rw [← leads, found_file] at directory
    cases directory
  · rw [endsInSlash_of_built named uncut built]
    exact unslashed
  · have leads : fs.resolve cwd (joinedPath cwd dirfd pathname) = some found := by
      unfold joinedPath at whole ⊢
      split at whole
      · next absolute =>
          rw [if_pos absolute, resolve_absolute absolute]
          exact resolved
      · next relative =>
          rw [if_neg relative]
          exact resolve_relative relative resolved whole
    rw [stat, leads, Option.bind_some, found_file, Option.isSome_some]

/-- A file is really removed exactly if its path starts like the trash and is not cut, or cut to
the path of a file. -/
theorem bypassed_iff (file : fs.stat (dirfd.getD cwd) pathname = some (.file inode))
    (named : fs.entryOf (dirfd.getD cwd) pathname = some (name, place)) :
    Bypassed fs cwd base answers dirfd pathname ↔
      trashDir base <+: joinedPath cwd dirfd pathname ∧ Reaches fs cwd base dirfd pathname := by
  by_cases whole : (joinedPath cwd dirfd pathname).length < pathMax
  · rcases entry_of_whole file named whole with ⟨named', leaf, unslashed, stated⟩
    rw [Bypassed, buildAbsPath_of_whole file whole]
    simp only [Option.mem_some_iff, exists_eq_left',
      moveToTrash_unlinked_iff_prefix named' leaf unslashed stated]
    exact (and_iff_left (.inl whole)).symm
  · unfold Bypassed Reaches
    simp only [moveToTrash_unlinked_iff, whole, false_or]
    constructor
    · rintro ⟨path, built, alike, stated, removed⟩
      exact ⟨(trashDir_prefix_iff built).mp alike, path, built, stated, removed⟩
    · rintro ⟨alike, path, built, stated, removed⟩
      exact ⟨path, built, (trashDir_prefix_iff built).mpr alike, stated, removed⟩

end Paths

section Kinds

/-- The start of a path tells what is right, or one of the kinds of paths is at hand for which it
does not. -/
theorem recognised_iff :
    (trashDir base <+: joinedPath cwd dirfd pathname ∧ Reaches fs cwd base dirfd pathname ↔
      inside) ↔ Recognised fs cwd base dirfd pathname inside := by
  constructor
  · intro right
    refine ⟨?_, ?_, ?_, ?_, ?_⟩
    · intro relative is_inside
      exact not_prefix_of_relative relative (right.mpr is_inside).1
    · intro rest path_eq _ reaches
      exact right.mp ⟨⟨rest, path_eq.symm⟩, reaches⟩
    · intro rest path_eq reaches
      exact right.mp ⟨⟨slash :: rest, path_eq.symm⟩, reaches⟩
    · intro _ unlike is_inside
      exact unlike (right.mpr is_inside).1
    · intro lost is_inside
      exact lost (right.mpr is_inside).2
  · intro recognised
    constructor
    · rintro ⟨⟨rest, path_eq⟩, reaches⟩
      by_cases slashed : rest.head? = some slash
      · rcases List.head?_eq_some_iff.mp slashed with ⟨behind, rfl⟩
        exact recognised.staying behind path_eq.symm reaches
      · exact recognised.neighbour rest path_eq.symm slashed reaches
    · intro is_inside
      constructor
      · by_contra unlike
        by_cases relative : base ≠ [] ∧ base.head? ≠ some slash
        · exact recognised.relative relative is_inside
        · rw [not_and_or, not_not, not_not] at relative
          exact recognised.spelled relative unlike is_inside
      · by_contra lost
        exact recognised.uncut lost is_inside

/-- Where no link is on the way, the names in the paths tell whether a file is in the trash. -/
theorem belowTrash_iff_spelledInside (linkless : Linkless fs cwd base dirfd pathname)
    (named : fs.entryOf (dirfd.getD cwd) pathname = some (name, place)) :
    BelowTrash fs cwd base place ↔ SpelledInside cwd base dirfd pathname := by
  rcases linkless with ⟨short, straight, straightPath⟩
  have unslashed : endsInSlash (base ++ ascii "/.trash") = false := by
    rw [endsInSlash, List.getLast?_append_of_ne_nil _ (by decide)]
    decide
  have resolved : fs.resolve cwd (base ++ ascii "/.trash") =
      some (spell (startOf cwd (base ++ ascii "/.trash"))
        (components (base ++ ascii "/.trash"))) := by
    rw [resolve_eq_some, steps_of_not_endsInSlash unslashed]
    exact ⟨List.append_ne_nil_of_right_ne_nil _ (by decide), short, walk_of_straight straight⟩
  rcases entryOf_eq_some.mp named with ⟨-, -, -, -, -, front, split_eq, walked⟩
  have place_eq : spell (startOf (dirfd.getD cwd) pathname) (components pathname).dropLast =
      place := by
    rw [split_eq, List.dropLast_concat] at straightPath ⊢
    rw [walk_of_straight straightPath] at walked
    exact Option.some.inj walked
  unfold BelowTrash SpelledInside
  rw [resolved, place_eq]
  simp

/-- Between canonical paths only the files beside the trash go wrong whose path goes on without
a slash. -/
theorem bypassExact_of_canonical {top : Location}
    (named : fs.entryOf (dirfd.getD cwd) pathname = some (name, place))
    (built : buildAbsPath fs cwd dirfd pathname = some (pathString (name :: place)))
    (short : (pathString (name :: place)).length < pathMax)
    (file : ∃ inode, fs.tree (name :: place) = some (.file inode))
    (trash : trashDir base = pathString top)
    (resolved : fs.resolve cwd (base ++ ascii "/.trash") = some top) :
    BypassExact fs cwd base answers dirfd pathname ↔
      (pathString top <+: pathString (name :: place) →
        withSlash top <+: pathString (name :: place)) := by
  rcases file with ⟨inode, file⟩
  have exists_entry := ne_none_of_eq_some file
  have valid := validName_of_mem exists_entry name List.mem_cons_self
  have unslashed : endsInSlash (pathString (name :: place)) = false :=
    endsInSlash_pathString valid
  have entry : fs.entryOf cwd (pathString (name :: place)) = some (name, place) :=
    entryOf_pathString (fs.closed exists_entry) valid short
  have stated : (fs.stat cwd (pathString (name :: place))).isSome := by
    rw [stat, resolve_of_entryOf entry (.inr ⟨inode, file⟩) unslashed, Option.bind_some, file,
      Option.isSome_some]
  have leaf : fs.tree (name :: place) ≠ some .directory := by
    rw [file]
    simp
  have below : (∃ found, fs.resolve cwd (base ++ ascii "/.trash") = some found ∧
      withSlash found <+: pathString (name :: place)) ↔
        withSlash top <+: pathString (name :: place) := by
    rw [resolved]
    simp
  have shorter : withSlash top <+: pathString (name :: place) →
      pathString top <+: pathString (name :: place) := by
    intro slashed
    apply List.IsPrefix.trans _ slashed
    unfold withSlash
    split
    · next atRoot =>
        rw [atRoot]
        exact List.prefix_refl _
    · exact List.prefix_append _ _
  have removed : Bypassed fs cwd base answers dirfd pathname ↔
      pathString top <+: pathString (name :: place) := by
    rw [Bypassed, built, ← trash]
    simp only [Option.mem_some_iff, exists_eq_left',
      moveToTrash_unlinked_iff_prefix entry leaf unslashed stated]
  rw [bypassExact_of_named named, removed, belowTrash_iff exists_entry, below]
  exact ⟨fun same => same.mp, fun goes_on => ⟨goes_on, shorter⟩⟩

end Kinds

section Examples

/-- A file with the byte 1, if its path can be opened. -/
def withFile (fs : FileSystem) (path : Bytes) : FileSystem :=
  match fs.openWrite [] path with
  | some (opened, inode) => opened.write inode [1]
  | none => fs

/-- A file in the trash of `/u` and a file `/u/.trashed` beside it. -/
def besideTrash : FileSystem :=
  let withDir := (bare.mkdir [] (ascii "/u")).getD bare
  let withTrash := ensureDirectories withDir [] (ascii "/u")
  withFile (withFile withTrash (ascii "/u/.trash/files/1_00000")) (ascii "/u/.trashed")

def someAnswers : Answers := ⟨1, 0, ⟨1970, 1, 1, 0, 0, 1⟩, 0⟩

end Examples

end Osis.CourseWork
