import Osis.Posix.Walk

/-!
# Looking paths up

A path is looked up in three ways. `resolve` follows every link and wants an entry
at the end, `openPlace` also accepts a name without an entry there, and `entryOf`
stops at the entry that the last name of the path stands for, which need not
exist and is not followed.
-/

namespace Osis.Posix

section Libgen

variable {path : Bytes} {front : List Name} {name : Name}

/-- The part of a path that `basename` leaves. -/
def beforeBasename (path : Bytes) : Bytes :=
  (path.rdropWhile (· = slash)).rdropWhile (· ≠ slash)

theorem basename_ne_nil (named : path.rdropWhile (· = slash) ≠ []) : basename path ≠ [] := by
  have some_path : path ≠ [] := by
    rintro rfl
    exact named rfl
  rw [basename, if_neg some_path, if_neg named]
  intro empty
  have last := List.rdropWhile_last_not _ _ named
  have notLast := List.rtakeWhile_eq_nil_iff.mp empty named
  simp only [decide_eq_true_eq] at last notLast
  exact notLast last

theorem beforeBasename_append_basename (named : path.rdropWhile (· = slash) ≠ []) :
    beforeBasename path ++ basename path = path.rdropWhile (· = slash) := by
  have some_path : path ≠ [] := by
    rintro rfl
    exact named rfl
  rw [basename, if_neg some_path, if_neg named]
  exact List.rdropWhile_append_rtakeWhile

theorem exists_concat_slash (some_above : beforeBasename path ≠ []) :
    ∃ above, beforeBasename path = above ++ [slash] := by
  have last : (beforeBasename path).getLast some_above = slash := by
    have kept := List.rdropWhile_last_not _ _ some_above
    simpa [beforeBasename] using kept
  exact ⟨(beforeBasename path).dropLast, by rw [← last, List.dropLast_append_getLast]⟩

/-- `basename` is the last name of a path. -/
theorem components_eq_append_basename (named : path.rdropWhile (· = slash) ≠ []) :
    components path = components (beforeBasename path) ++ [basename path] := by
  have base_ne_nil := basename_ne_nil named
  have base_no_slash := no_slash_basename named
  rw [← components_rdropWhile_slash path, ← beforeBasename_append_basename named]
  by_cases atStart : beforeBasename path = []
  · rw [atStart, List.nil_append, components_nil, List.nil_append,
      components_name base_ne_nil base_no_slash]
  · rcases exists_concat_slash atStart with ⟨above, above_eq⟩
    rw [above_eq, List.append_assoc, List.singleton_append,
      components_append_name base_ne_nil base_no_slash, components_concat_slash]

theorem rdropWhile_slash_ne_nil (named : components path ≠ []) :
    path.rdropWhile (· = slash) ≠ [] := by
  intro empty
  apply named
  rw [← components_rdropWhile_slash path, empty, components_nil]

theorem components_eq_nil (slashes : path.rdropWhile (· = slash) = []) : components path = [] := by
  rw [← components_rdropWhile_slash path, slashes, components_nil]

/-- A path has a step. -/
theorem steps_ne_nil (some_path : path ≠ []) : steps path ≠ [] := by
  by_cases slashes : path.rdropWhile (· = slash) = []
  · have last := List.rdropWhile_eq_nil_iff.mp slashes _ (List.getLast_mem some_path)
    simp only [decide_eq_true_eq] at last
    simp [steps, endsInSlash, List.getLast?_eq_getLast_of_ne_nil some_path, last]
  · simp [steps, components_eq_append_basename slashes]

/-- What `dirname` gives for a path with a last name. -/
theorem dirname_cases (split : components path = front ++ [name]) :
    (dirname path = dot ∧ front = [] ∧ path.head? ≠ some slash) ∨
    (dirname path = [slash] ∧ front = [] ∧ path.head? = some slash) ∨
    (dirname path ≠ [] ∧ dirname path <+: path ∧ steps (dirname path) = front) := by
  have named : path.rdropWhile (· = slash) ≠ [] := rdropWhile_slash_ne_nil (by simp [split])
  have parts := components_eq_append_basename named
  rw [split] at parts
  rcases List.append_inj' parts rfl with ⟨front_eq, -⟩
  have above_prefix : beforeBasename path <+: path :=
    (List.rdropWhile_prefix _ _).trans (List.rdropWhile_prefix _ _)
  have dirname_eq : dirname path =
      if beforeBasename path = [] then if path.head? = some slash then [slash] else dot
      else if (beforeBasename path).rdropWhile (· = slash) = [] then [slash]
      else (beforeBasename path).rdropWhile (· = slash) := rfl
  by_cases atStart : beforeBasename path = []
  · left
    have plain : path.head? ≠ some slash := by
      intro first
      have joined := beforeBasename_append_basename named
      rw [atStart, List.nil_append] at joined
      have no_slash := no_slash_basename named
      rw [joined] at no_slash
      rcases List.rdropWhile_prefix (· = slash) path with ⟨tail, tail_eq⟩
      rw [← tail_eq, List.head?_append_of_ne_nil _ named] at first
      exact no_slash (List.mem_of_head? first)
    rw [dirname_eq, if_pos atStart, if_neg plain, front_eq, atStart]
    exact ⟨rfl, rfl, plain⟩
  · right
    rcases above_prefix with ⟨tail, tail_eq⟩
    by_cases slashes : (beforeBasename path).rdropWhile (· = slash) = []
    · left
      rw [dirname_eq, if_neg atStart, if_pos slashes, front_eq, components_eq_nil slashes]
      have first := List.rdropWhile_eq_nil_iff.mp slashes _ (List.head_mem atStart)
      simp only [decide_eq_true_eq] at first
      refine ⟨rfl, rfl, ?_⟩
      rw [← tail_eq, List.head?_append_of_ne_nil _ atStart, List.head?_eq_some_head atStart, first]
    · right
      rw [dirname_eq, if_neg atStart, if_neg slashes]
      refine ⟨slashes, (List.rdropWhile_prefix _ _).trans ⟨tail, tail_eq⟩, ?_⟩
      have last := List.rdropWhile_last_not _ _ slashes
      simp only [decide_eq_true_eq] at last
      rw [steps_of_not_endsInSlash, components_rdropWhile_slash, front_eq]
      simp [endsInSlash, List.getLast?_eq_getLast_of_ne_nil slashes, last]

end Libgen

namespace FileSystem

/-- The place an existing entry is found at, following links. -/
def resolve (fs : FileSystem) (cwd : Location) (path : Bytes) : Option Location :=
  if path = [] ∨ pathMax ≤ path.length then none
  else fs.walk false linkMax (startOf cwd path) (steps path)

/-- The place `open` with `O_CREAT` opens or creates a file at. -/
def openPlace (fs : FileSystem) (cwd : Location) (path : Bytes) : Option Location :=
  if path = [] ∨ pathMax ≤ path.length then none
  else fs.walk true linkMax (startOf cwd path) (steps path)

/-- The name and the directory of the entry a path names, itself not followed. -/
def entryOf (fs : FileSystem) (cwd : Location) (path : Bytes) : Option (Name × Location) :=
  if path = [] ∨ pathMax ≤ path.length then none
  else
    match (components path).getLast? with
    | none => none
    | some name =>
        if name = dot ∨ name = dotDot then none
        else
          match fs.walk false linkMax (startOf cwd path) (components path).dropLast with
          | none => none
          | some place =>
              if fs.tree place = some .directory then some (name, place) else none

/-- A path names a place in a directory at which nothing is. -/
def Free (fs : FileSystem) (cwd : Location) (path : Bytes) : Prop :=
  ∃ name place, fs.entryOf cwd path = some (name, place) ∧ fs.tree (name :: place) = none

variable {fs fs' : FileSystem} {cwd place found : Location} {path : Bytes} {name : Name}

theorem entryOf_eq_some :
    fs.entryOf cwd path = some (name, place) ↔
      path ≠ [] ∧ path.length < pathMax ∧ name ≠ dot ∧ name ≠ dotDot ∧
        fs.tree place = some .directory ∧ ∃ front, components path = front ++ [name] ∧
          fs.walk false linkMax (startOf cwd path) front = some place := by
  unfold entryOf
  constructor
  · intro named
    split at named
    · simp at named
    rename_i usable
    simp only [not_or, not_le] at usable
    split at named
    · simp at named
    rename_i last last_eq
    split at named
    · simp at named
    rename_i ordinary
    simp only [not_or] at ordinary
    split at named
    · simp at named
    rename_i parent walked
    simp only [Option.ite_none_right_eq_some, Option.some.injEq, Prod.mk.injEq] at named
    rcases named with ⟨directory, rfl, rfl⟩
    have split_eq := List.dropLast_append_getLast? last (by simpa using last_eq)
    exact ⟨usable.1, usable.2, ordinary.1, ordinary.2, directory, _, split_eq.symm, walked⟩
  · rintro ⟨some_path, short, ne_dot, ne_dotDot, directory, front, split_eq, walked⟩
    rw [if_neg (by simp [some_path, short]), split_eq]
    simp [ne_dot, ne_dotDot, walked, directory]

instance (fs : FileSystem) (cwd : Location) (path : Bytes) : Decidable (fs.Free cwd path) :=
  decidable_of_iff (∃ entry ∈ fs.entryOf cwd path, fs.tree (entry.1 :: entry.2) = none) (by
    constructor
    · rintro ⟨⟨name, place⟩, named, free⟩
      exact ⟨name, place, named, free⟩
    · rintro ⟨name, place, named, free⟩
      exact ⟨(name, place), named, free⟩)

/-- A path that names an entry in two trees that agree names it on what they share. -/
theorem entryOf_common {shared : FileSystem} {name' : Name} {place' : Location}
    (agree : fs.Agree fs') (shares : shared.Shares fs fs')
    (named : fs.entryOf cwd path = some (name, place))
    (named' : fs'.entryOf cwd path = some (name', place')) :
    shared.entryOf cwd path = some (name, place) ∧ name = name' ∧ place = place' := by
  rcases entryOf_eq_some.mp named with
    ⟨some_path, short, ne_dot, ne_dotDot, directory, front, split_eq, walked⟩
  rcases entryOf_eq_some.mp named' with ⟨-, -, -, -, directory', front', split_eq', walked'⟩
  rw [split_eq] at split_eq'
  rcases List.append_inj' split_eq' rfl with ⟨rfl, name_eq⟩
  rcases walk_common agree shares walked walked' with ⟨walkedShared, rfl⟩
  refine ⟨entryOf_eq_some.mpr ⟨some_path, short, ne_dot, ne_dotDot, ?_, front, split_eq,
    walkedShared⟩, (List.cons.inj name_eq).1, rfl⟩
  rw [shares place (ne_none_of_eq_some directory) (ne_none_of_eq_some directory'), directory]

/-- A path names one entry in trees that agree. -/
theorem entryOf_agree {entry entry' : Name × Location} (agree : fs.Agree fs')
    (named : fs.entryOf cwd path = some entry) (named' : fs'.entryOf cwd path = some entry') :
    entry = entry' := by
  rcases entryOf_common agree (fun _ _ _ => rfl) named named' with ⟨-, name_eq, place_eq⟩
  exact Prod.ext name_eq place_eq

theorem entryOf_unique {name' : Name} {place' : Location}
    (named : fs.entryOf cwd path = some (name, place))
    (named' : fs.entryOf cwd path = some (name', place')) : name = name' ∧ place = place' := by
  rw [named, Option.some.injEq, Prod.mk.injEq] at named'
  exact named'

/-- The last name of a path is its `basename`. -/
theorem basename_of_entryOf (named : fs.entryOf cwd path = some (name, place)) :
    basename path = name := by
  rcases entryOf_eq_some.mp named with ⟨-, -, -, -, -, front, split_eq, -⟩
  have some_name : path.rdropWhile (· = slash) ≠ [] :=
    rdropWhile_slash_ne_nil (by simp [split_eq])
  have parts := components_eq_append_basename some_name
  rw [split_eq] at parts
  rcases List.append_inj' parts rfl with ⟨-, name_eq⟩
  exact (List.cons.inj name_eq).1.symm

/-- A path names its entry as long as directories and links stay. -/
theorem entryOf_kept (keeps : fs.Keeps fs') (named : fs.entryOf cwd path = some (name, place)) :
    fs'.entryOf cwd path = some (name, place) := by
  rcases entryOf_eq_some.mp named with
    ⟨some_path, short, ne_dot, ne_dotDot, directory, front, split_eq, walked⟩
  exact entryOf_eq_some.mpr ⟨some_path, short, ne_dot, ne_dotDot,
    keeps _ _ directory (by simp), front, split_eq, walk_kept keeps walked directory⟩

/-- An absolute path names the same entry from everywhere. -/
theorem entryOf_absolute {cwd' : Location} (absolute : path.head? = some slash) :
    fs.entryOf cwd path = fs.entryOf cwd' path := by
  unfold entryOf
  rw [startOf, startOf, if_pos absolute, if_pos absolute]

/-- An absolute path through directories names the entry at its end. -/
theorem entryOf_of_components (absolute : path.head? = some slash) (short : path.length < pathMax)
    (names : components path = place.reverse ++ [name])
    (directory : fs.tree place = some .directory) (valid : ValidName name) :
    fs.entryOf cwd path = some (name, place) := by
  have some_path : path ≠ [] := by
    rintro rfl
    cases absolute
  refine entryOf_eq_some.mpr ⟨some_path, short, valid.ne_dot, valid.ne_dotDot, directory,
    place.reverse, names, ?_⟩
  rw [startOf, if_pos absolute, ← List.append_nil place.reverse, walk_reverse directory, walk_nil]

/-- The canonical path of a place names the entry there. -/
theorem entryOf_pathString (directory : fs.tree place = some .directory) (valid : ValidName name)
    (short : (pathString (name :: place)).length < pathMax) :
    fs.entryOf cwd (pathString (name :: place)) = some (name, place) := by
  apply entryOf_of_components (head?_pathString _) short _ directory valid
  have aboveValid := validName_of_mem (ne_none_of_eq_some directory)
  rw [components_pathString, List.reverse_cons]
  intro other other_mem
  rcases List.mem_cons.mp other_mem with rfl | above_mem
  · exact valid
  · exact aboveValid other above_mem

/-- Every lookup fails for a path that is empty or too long. -/
theorem usable_eq_some {result : Option Location} :
    (if path = [] ∨ pathMax ≤ path.length then none else result) = some found ↔
      path ≠ [] ∧ path.length < pathMax ∧ result = some found := by
  split
  · rename_i unusable
    simp only [reduceCtorEq, false_iff]
    rintro ⟨some_path, short, -⟩
    rcases unusable with empty | long
    · exact some_path empty
    · exact absurd short (Nat.not_lt.mpr long)
  · rename_i usable
    simp only [not_or, not_le] at usable
    simp [usable]

theorem resolve_eq_some :
    fs.resolve cwd path = some found ↔ path ≠ [] ∧ path.length < pathMax ∧
      fs.walk false linkMax (startOf cwd path) (steps path) = some found :=
  usable_eq_some

theorem openPlace_eq_some :
    fs.openPlace cwd path = some found ↔ path ≠ [] ∧ path.length < pathMax ∧
      fs.walk true linkMax (startOf cwd path) (steps path) = some found :=
  usable_eq_some

/-- What is found is there, and no link. -/
theorem isPlain_of_resolve (resolved : fs.resolve cwd path = some found) : fs.IsPlain found := by
  rcases resolve_eq_some.mp resolved with ⟨some_path, -, walked⟩
  rcases List.exists_cons_of_ne_nil (steps_ne_nil some_path) with ⟨step, rest, steps_eq⟩
  have start : fs.tree (startOf cwd path) = some .directory := by
    rw [steps_eq] at walked
    exact directory_of_walk_cons walked
  exact walk_isPlain (Or.inl start) walked

/-- The names in a path with a slash at its end lead to what it leads to, a directory. -/
theorem walk_of_endsInSlash (resolved : fs.resolve cwd path = some found)
    (slashed : endsInSlash path = true) :
    fs.walk false linkMax (startOf cwd path) (components path) = some found ∧
      fs.tree found = some .directory := by
  rcases resolve_eq_some.mp resolved with ⟨-, -, walked⟩
  have steps_eq : steps path = components path ++ [dot] := by rw [steps, if_pos slashed]
  have some_back : [dot] ≠ [] := List.cons_ne_nil _ _
  rw [steps_eq] at walked
  rcases walk_front some_back walked with ⟨middle, walked_front, directory⟩
  rcases walk_append false walked_front with ⟨left, goes⟩
  rw [goes _ some_back, walk_dot directory, Option.some.injEq] at walked
  rw [← walked]
  exact ⟨walked_front, directory⟩

/-- A path with a slash at its end leads to a directory only. -/
theorem directory_of_endsInSlash (resolved : fs.resolve cwd path = some found)
    (slashed : endsInSlash path = true) : fs.tree found = some .directory :=
  (walk_of_endsInSlash resolved slashed).2

/-- An absolute path leads to the same place from everywhere. -/
theorem resolve_absolute {cwd' : Location} (absolute : path.head? = some slash) :
    fs.resolve cwd path = fs.resolve cwd' path := by
  unfold resolve
  rw [startOf, startOf, if_pos absolute, if_pos absolute]

/-- A path leads to a directory as long as directories and links stay. -/
theorem resolve_kept (keeps : fs.Keeps fs') (resolved : fs.resolve cwd path = some found)
    (directory : fs.tree found = some .directory) : fs'.resolve cwd path = some found := by
  rcases resolve_eq_some.mp resolved with ⟨some_path, short, walked⟩
  exact resolve_eq_some.mpr ⟨some_path, short, walk_kept keeps walked directory⟩

/-- A slash more at the start of an absolute path does not matter. -/
theorem resolve_cons_slash (absolute : path.head? = some slash)
    (short : path.length + 1 < pathMax) :
    fs.resolve cwd (slash :: path) = fs.resolve cwd path := by
  have some_path : path ≠ [] := by
    rintro rfl
    cases absolute
  have ends_eq : endsInSlash (slash :: path) = endsInSlash path := by
    rw [endsInSlash, endsInSlash, ← List.singleton_append,
      List.getLast?_append_of_ne_nil _ some_path]
  have steps_eq : steps (slash :: path) = steps path := by
    rw [steps, steps, components_slash, ends_eq]
  have start_eq : startOf cwd (slash :: path) = startOf cwd path := by
    rw [startOf, startOf, if_pos absolute, List.head?_cons, if_pos rfl]
  rw [resolve, resolve, steps_eq, start_eq, if_neg (by simp [short]),
    if_neg (by simp [some_path]; omega)]

/-- The names in a path lead to what it leads to. -/
theorem walk_components (resolved : fs.resolve cwd path = some found) :
    fs.walk false linkMax (startOf cwd path) (components path) = some found := by
  by_cases slashed : endsInSlash path = true
  · exact (walk_of_endsInSlash resolved slashed).1
  · rcases resolve_eq_some.mp resolved with ⟨-, -, walked⟩
    rwa [steps_of_not_endsInSlash (by simpa using slashed)] at walked

/-- A path is found where the names in it lead, if this is a directory. -/
theorem resolve_of_walk_components (some_path : path ≠ []) (short : path.length < pathMax)
    (walked : fs.walk false linkMax (startOf cwd path) (components path) = some found)
    (directory : fs.tree found = some .directory) : fs.resolve cwd path = some found := by
  apply resolve_eq_some.mpr
  refine ⟨some_path, short, ?_⟩
  by_cases slashed : endsInSlash path = true
  · rcases walk_append false walked with ⟨left, goes⟩
    rw [steps, if_pos slashed, goes _ (List.cons_ne_nil _ _), walk_dot directory]
  · rwa [steps_of_not_endsInSlash (by simpa using slashed)]

/-- Looking a path up behind its last slash. -/
theorem exists_of_resolve_append {front : Bytes} (some_front : front ≠ []) (no_slash : slash ∉ name)
    (resolved : fs.resolve cwd (front ++ slash :: name) = some found) :
    ∃ place left, fs.resolve cwd front = some place ∧ fs.tree place = some .directory ∧
      fs.walk false left place [if name = [] then dot else name] = some found := by
  rcases resolve_eq_some.mp resolved with ⟨-, short, walked⟩
  have start_eq : startOf cwd (front ++ slash :: name) = startOf cwd front := by
    rw [startOf, startOf, List.head?_append_of_ne_nil _ some_front]
  rw [steps_append_name no_slash, start_eq] at walked
  rcases walk_front (List.cons_ne_nil _ _) walked with ⟨place, walked_front, directory⟩
  rcases walk_append false walked_front with ⟨left, goes⟩
  rw [goes _ (List.cons_ne_nil _ _)] at walked
  rw [List.length_append] at short
  have front_short : front.length < pathMax := by omega
  exact ⟨place, left,
    resolve_of_walk_components some_front front_short walked_front directory, directory, walked⟩

/-- What follows the path of a directory is looked up from there, with the links left. -/
theorem resolve_append {rest : Bytes} (resolved : fs.resolve cwd path = some place)
    (some_rest : rest ≠ []) (short : (path ++ slash :: rest).length < pathMax) :
    ∃ left ≤ linkMax, fs.resolve cwd (path ++ slash :: rest) =
      fs.walk false left place (steps rest) := by
  rcases resolve_eq_some.mp resolved with ⟨some_path, -, -⟩
  have steps_eq : steps (path ++ slash :: rest) = components path ++ steps rest := by
    rw [steps, steps, components_append_slash, endsInSlash, endsInSlash, List.append_cons,
      List.getLast?_append_of_ne_nil _ some_rest, List.append_assoc]
  have start_eq : startOf cwd (path ++ slash :: rest) = startOf cwd path := by
    rw [startOf, startOf, List.head?_append_of_ne_nil _ some_path]
  rcases walk_append_le false (walk_components resolved) with ⟨left, fewer, goes⟩
  refine ⟨left, fewer, ?_⟩
  rw [resolve, if_neg (by simp at short ⊢; omega), steps_eq, start_eq,
    goes _ (steps_ne_nil some_rest)]

/-- A link leads where its target does, with one link less to follow. -/
theorem resolve_link {inode : ℕ} {target : Bytes} (directory : fs.tree place = some .directory)
    (link : fs.tree (name :: place) = some (.link inode target)) :
    fs.resolve place name =
      fs.walk false (linkMax - 1) (startOf place target) (steps target) := by
  have valid := fs.named (ne_none_of_eq_some link)
  have short : name.length < pathMax := Nat.lt_of_le_of_lt valid.short (by decide)
  have first : name.head? ≠ some slash := fun first =>
    valid.no_slash (List.mem_of_head? first)
  have unslashed : endsInSlash name = false :=
    @endsInSlash_append_name [] name valid.ne_nil valid.no_slash
  rw [resolve, if_neg (by simp [valid.ne_nil, short]), startOf, if_neg first,
    steps_of_not_endsInSlash unslashed, components_name valid.ne_nil valid.no_slash]
  simp [linkMax, walk, walkWith, directory, valid.ne_dot, valid.ne_dotDot, link]

/-- A path that leads somewhere names an entry. -/
theorem exists_of_resolve (resolved : fs.resolve cwd path = some found)
    (named : fs.entryOf cwd path = some (name, place)) : fs.tree (name :: place) ≠ none := by
  intro absent
  rcases entryOf_eq_some.mp named with ⟨-, -, ne_dot, ne_dotDot, -, front, split_eq, walked⟩
  have goes_on := walk_components resolved
  rcases walk_append false walked with ⟨left, goes⟩
  rw [split_eq, goes _ (List.cons_ne_nil _ _), walk_absent absent ne_dot ne_dotDot] at goes_on
  cases goes_on

/-- With a slash more at its end a path leads to the same directory. -/
theorem resolve_concat_slash (some_path : path ≠ []) (short : path.length + 1 < pathMax) :
    fs.resolve cwd (path ++ [slash]) = some found ↔
      fs.resolve cwd path = some found ∧ fs.tree found = some .directory := by
  have slashed : endsInSlash (path ++ [slash]) = true := by simp [endsInSlash]
  have steps_eq : steps (path ++ [slash]) = components path ++ [dot] := by
    rw [steps, if_pos slashed, components_concat_slash]
  have start_eq : startOf cwd (path ++ [slash]) = startOf cwd path := by
    rw [startOf, startOf, List.head?_append_of_ne_nil _ some_path]
  constructor
  · intro resolved
    have directory := directory_of_endsInSlash resolved slashed
    have walked := walk_components resolved
    rw [components_concat_slash, start_eq] at walked
    refine ⟨resolve_eq_some.mpr ⟨some_path, by omega, ?_⟩, directory⟩
    by_cases path_slashed : endsInSlash path = true
    · rcases resolve_eq_some.mp resolved with ⟨-, -, walked_all⟩
      rw [steps, if_pos path_slashed, ← steps_eq, ← start_eq]
      exact walked_all
    · rwa [steps_of_not_endsInSlash (by simpa using path_slashed)]
  · rintro ⟨resolved, directory⟩
    rcases walk_append false (walk_components resolved) with ⟨left, goes⟩
    rw [resolve_eq_some, steps_eq, start_eq, goes _ (List.cons_ne_nil _ _), walk_dot directory]
    exact ⟨by simp, by simpa using short, rfl⟩

/-- The path of a directory, any number of slashes and a name lead to what is in the directory. -/
theorem resolve_child {front : Bytes} (resolved : fs.resolve cwd path = some place)
    (directory : fs.tree place = some .directory) (plain : fs.IsPlain (name :: place))
    (front_path : path <+: front) (front_eq : components front = components path)
    (short : (front ++ slash :: name).length < pathMax) :
    fs.resolve cwd (front ++ slash :: name) = some (name :: place) := by
  have valid := fs.named plain.ne_none
  rcases resolve_eq_some.mp resolved with ⟨some_path, -, -⟩
  rcases front_path with ⟨tail, rfl⟩
  have unslashed : endsInSlash ((path ++ tail) ++ slash :: name) = false := by
    rw [List.append_cons]
    exact endsInSlash_append_name valid.ne_nil valid.no_slash
  have start_eq : startOf cwd ((path ++ tail) ++ slash :: name) = startOf cwd path := by
    rw [startOf, startOf, List.append_assoc, List.head?_append_of_ne_nil _ some_path]
  rcases walk_append false (walk_components resolved) with ⟨left, goes⟩
  rw [resolve_eq_some, steps_of_not_endsInSlash unslashed,
    components_append_name valid.ne_nil valid.no_slash, front_eq, start_eq,
    goes _ (List.cons_ne_nil _ _)]
  exact ⟨by simp, short, walk_plain directory plain⟩

/-- An entry that is no link is what its path resolves to. -/
theorem resolve_of_entryOf (named : fs.entryOf cwd path = some (name, place))
    (plain : fs.IsPlain (name :: place)) (unslashed : endsInSlash path = false) :
    fs.resolve cwd path = some (name :: place) := by
  rcases entryOf_eq_some.mp named with ⟨some_path, short, -, -, directory, front, split_eq, walked⟩
  rcases walk_append false walked with ⟨left, goes⟩
  rw [resolve_eq_some, steps_of_not_endsInSlash unslashed, split_eq, goes _ (by simp)]
  exact ⟨some_path, short, walk_plain directory plain⟩

/-- What is found at a place is found under its canonical path. -/
theorem resolve_pathString (plain : fs.IsPlain found)
    (short : (pathString found).length < pathMax) :
    fs.resolve cwd (pathString found) = some found := by
  cases found with
  | nil =>
      rw [resolve_eq_some, show steps (pathString []) = [dot] by decide,
        show startOf cwd (pathString []) = [] from rfl, walk_dot fs.root]
      exact ⟨by decide, short, rfl⟩
  | cons name place =>
      have valid := fs.named plain.ne_none
      exact resolve_of_entryOf (entryOf_pathString (fs.closed plain.ne_none) valid short) plain
        (endsInSlash_pathString valid)

/-- The start of a path that is found names an entry, too. -/
theorem entryOf_of_prefix {whole : Bytes} (resolved : fs.resolve cwd whole = some found)
    (start : path <+: whole) (unslashed : endsInSlash path = false)
    {front : List Name} (split_eq : components path = front ++ [name])
    (ne_dot : name ≠ dot) (ne_dotDot : name ≠ dotDot) :
    ∃ place, fs.entryOf cwd path = some (name, place) := by
  rcases resolve_eq_some.mp resolved with ⟨some_whole, short, walked⟩
  rcases start with ⟨tail, rfl⟩
  have named : path.rdropWhile (· = slash) ≠ [] := rdropWhile_slash_ne_nil (by simp [split_eq])
  have some_path : path ≠ [] := by
    rintro rfl
    simp [components_nil] at split_eq
  have stripped := rdropWhile_slash_of_not_endsInSlash unslashed
  have parts := components_eq_append_basename named
  have joined := beforeBasename_append_basename named
  rw [stripped] at joined
  rw [split_eq] at parts
  rcases List.append_inj' parts rfl with ⟨front_eq, name_eq⟩
  -- the names of the whole path go on behind those before the last name of its start
  have steps_eq : ∃ back, back ≠ [] ∧ steps (path ++ tail) = front ++ back := by
    have base_ne_nil := basename_ne_nil named
    refine ⟨steps (basename path ++ tail), steps_ne_nil (by simp [base_ne_nil]), ?_⟩
    have whole_eq : path ++ tail = beforeBasename path ++ (basename path ++ tail) := by
      rw [← List.append_assoc, joined]
    have rest_ne_nil : basename path ++ tail ≠ [] := by simp [base_ne_nil]
    have slashes_eq : endsInSlash (path ++ tail) = endsInSlash (basename path ++ tail) := by
      rw [whole_eq, endsInSlash, endsInSlash, List.getLast?_append_of_ne_nil _ rest_ne_nil]
    rw [steps, steps, slashes_eq, ← List.append_assoc]
    congr 1
    rw [whole_eq, front_eq]
    by_cases atStart : beforeBasename path = []
    · rw [atStart, List.nil_append, components_nil, List.nil_append]
    · rcases exists_concat_slash atStart with ⟨above, above_eq⟩
      rw [above_eq, List.append_assoc, List.singleton_append, components_append_slash,
        components_concat_slash]
  rcases steps_eq with ⟨back, some_back, steps_eq⟩
  rw [steps_eq] at walked
  rcases walk_front some_back walked with ⟨place, walked_front, directory⟩
  have start_eq : startOf cwd (path ++ tail) = startOf cwd path := by
    rw [startOf, startOf, List.head?_append_of_ne_nil _ some_path]
  rw [start_eq] at walked_front
  rw [List.length_append] at short
  exact ⟨place, entryOf_eq_some.mpr ⟨some_path, by omega, ne_dot, ne_dotDot, directory, front,
    split_eq, walked_front⟩⟩

/-- A path whose entry is missing is opened there. -/
theorem openPlace_of_free (named : fs.entryOf cwd path = some (name, place))
    (free : fs.tree (name :: place) = none) (unslashed : endsInSlash path = false) :
    fs.openPlace cwd path = some (name :: place) := by
  rcases entryOf_eq_some.mp named with
    ⟨some_path, short, ne_dot, ne_dotDot, directory, front, split_eq, walked⟩
  rcases walk_append true walked with ⟨left, goes⟩
  rw [openPlace_eq_some, steps_of_not_endsInSlash unslashed, split_eq, goes _ (by simp)]
  exact ⟨some_path, short, walk_missing directory free ne_dot ne_dotDot⟩

/-- Once created, a file is found under the path it was opened with. -/
theorem resolve_created (extended : fs.Extends fs') (opened : fs.openPlace cwd path = some found)
    (plain : fs'.IsPlain found) : fs'.resolve cwd path = some found := by
  rcases openPlace_eq_some.mp opened with ⟨some_path, short, walked⟩
  exact resolve_eq_some.mpr ⟨some_path, short, walk_created extended walked plain⟩

/-- The directory of an entry is found under the `dirname` of its path. -/
theorem resolve_dirname (named : fs.entryOf cwd path = some (name, place)) :
    fs.resolve cwd (dirname path) = some place := by
  rcases entryOf_eq_some.mp named with ⟨some_path, short, -, -, directory, front, split_eq, walked⟩
  rw [resolve_eq_some]
  rcases dirname_cases split_eq with ⟨dirname_eq, rfl, relative⟩ | ⟨dirname_eq, rfl, absolute⟩ |
    ⟨some_dir, dir_prefix, steps_eq⟩
  · rw [walk_nil, startOf, if_neg relative, Option.some.injEq] at walked
    subst walked
    rw [dirname_eq, show steps dot = [dot] by decide, show startOf cwd dot = cwd from rfl,
      walk_dot directory]
    exact ⟨by decide, by decide, rfl⟩
  · rw [walk_nil, startOf, if_pos absolute, Option.some.injEq] at walked
    subst walked
    rw [dirname_eq, show steps [slash] = [dot] by decide, show startOf cwd [slash] = [] from rfl,
      walk_dot directory]
    exact ⟨by decide, by decide, rfl⟩
  · rcases dir_prefix with ⟨tail, tail_eq⟩
    have first : path.head? = (dirname path).head? := by
      rw [← tail_eq, List.head?_append_of_ne_nil _ some_dir, tail_eq]
    refine ⟨some_dir, ?_, ?_⟩
    · have bounded := congrArg List.length tail_eq
      rw [List.length_append] at bounded
      omega
    · rw [steps_eq, startOf, ← first]
      exact walked

/-- A path with one name more than the path of a directory is of an entry there. -/
theorem entryOf_below {whole : Bytes} (resolved : fs.resolve cwd path = some place)
    (directory : fs.tree place = some .directory) (valid : ValidName name)
    (starts : whole.head? = path.head?) (names : components whole = components path ++ [name])
    (short : whole.length < pathMax) : fs.entryOf cwd whole = some (name, place) := by
  have some_whole : whole ≠ [] := by
    rintro rfl
    simp [components_nil] at names
  refine entryOf_eq_some.mpr ⟨some_whole, short, valid.ne_dot, valid.ne_dotDot, directory,
    components path, names, ?_⟩
  have walked := walk_components resolved
  rwa [startOf, starts]

/-- A name behind the path of a directory names the entry in it. -/
theorem entryOf_child (resolved : fs.resolve cwd path = some place)
    (directory : fs.tree place = some .directory) (valid : ValidName name)
    (short : (path ++ slash :: name).length < pathMax) :
    fs.entryOf cwd (path ++ slash :: name) = some (name, place) := by
  rcases resolve_eq_some.mp resolved with ⟨some_path, -, -⟩
  apply entryOf_below resolved directory valid
  · exact List.head?_append_of_ne_nil _ some_path
  · exact components_append_name valid.ne_nil valid.no_slash
  · exact short

/-- What a name behind a path names is in the directory that the path leads to. -/
theorem entryOf_child_eq_some {child : Name} (some_path : path ≠ [])
    (unslashed : endsInSlash path = false) (some_name : name ≠ []) (no_slash : slash ∉ name)
    (named : fs.entryOf cwd (path ++ slash :: name) = some (child, place)) :
    child = name ∧ fs.resolve cwd path = some place := by
  rcases entryOf_eq_some.mp named with ⟨-, short, -, -, -, front, split_eq, walked⟩
  rw [components_append_name some_name no_slash] at split_eq
  rcases List.append_inj' split_eq rfl with ⟨rfl, name_eq⟩
  refine ⟨(List.cons.inj name_eq).1.symm, resolve_eq_some.mpr ⟨some_path, ?_, ?_⟩⟩
  · rw [List.length_append] at short
    omega
  · rw [steps_of_not_endsInSlash unslashed, ← walked, startOf, startOf,
      List.head?_append_of_ne_nil _ some_path]

end FileSystem

end Osis.Posix
