import Osis.Posix.FileSystem

/-!
# Walking paths

Walking takes the names of a path one by one. A symbolic link puts the names of
its target before the rest, and a walk follows at most 40 of them. `walkWith` walks
up to the next link, and `walk` continues behind it with one link less to follow.

The frame results compare walks in two trees: walks that succeed in trees which
agree wherever both have an entry end at the same place (`walk_agree`), and a walk to
a directory goes through as long as the directories and links stay (`walk_kept`).
-/

namespace Osis.Posix

/-- The number of links one walk may follow. -/
def linkMax : ℕ := 40

namespace FileSystem

/-- Walk from a place up to the next link; `missing` lets the last name be of no entry. -/
def walkWith (fs : FileSystem) (missing : Bool)
    (follow : Location → List Name → Option Location) :
    Location → List Name → Option Location
  | place, [] => some place
  | place, name :: rest =>
      if fs.tree place ≠ some .directory then none
      else if name = dot then walkWith fs missing follow place rest
      else if name = dotDot then walkWith fs missing follow place.tail rest
      else
        match fs.tree (name :: place) with
        | none => if missing = true ∧ rest = [] then some (name :: place) else none
        | some (.link _ target) => follow (startOf place target) (steps target ++ rest)
        | some _ => walkWith fs missing follow (name :: place) rest

/-- Walk from a place, following a number of links at most. -/
def walk (fs : FileSystem) (missing : Bool) : ℕ → Location → List Name → Option Location
  | 0 => fs.walkWith missing fun _ _ => none
  | links + 1 => fs.walkWith missing (fs.walk missing links)

section Steps

variable {fs fs' : FileSystem} {missing : Bool} {links : ℕ} {place found : Location}
  {name : Name} {rest names : List Name} {follow follow' : Location → List Name → Option Location}

/-- An entry that is not a link. -/
def IsPlain (fs : FileSystem) (place : Location) : Prop :=
  fs.tree place = some .directory ∨ ∃ inode, fs.tree place = some (.file inode)

theorem IsPlain.ne_none (plain : fs.IsPlain place) : fs.tree place ≠ none := by
  rcases plain with directory | ⟨inode, file⟩
  · exact ne_none_of_eq_some directory
  · exact ne_none_of_eq_some file

theorem IsPlain.of_eq (plain : fs.IsPlain place) (same : fs'.tree place = fs.tree place) :
    fs'.IsPlain place := by
  rwa [IsPlain, same]

theorem walkWith_dot (here : fs.tree place = some .directory) :
    fs.walkWith missing follow place (dot :: rest) = fs.walkWith missing follow place rest := by
  simp [walkWith, here]

theorem walkWith_dotDot (here : fs.tree place = some .directory) :
    fs.walkWith missing follow place (dotDot :: rest) =
      fs.walkWith missing follow place.tail rest := by
  have other : dotDot ≠ dot := by decide
  simp [walkWith, here, other]

theorem walkWith_plain (here : fs.tree place = some .directory)
    (plain : fs.IsPlain (name :: place)) :
    fs.walkWith missing follow place (name :: rest) =
      fs.walkWith missing follow (name :: place) rest := by
  have valid := fs.named plain.ne_none
  rcases plain with directory | ⟨inode, file⟩
  · simp [walkWith, here, directory, valid.ne_dot, valid.ne_dotDot]
  · simp [walkWith, here, file, valid.ne_dot, valid.ne_dotDot]

theorem walkWith_link {inode : ℕ} {target : Bytes} (here : fs.tree place = some .directory)
    (link : fs.tree (name :: place) = some (.link inode target)) :
    fs.walkWith missing follow place (name :: rest) =
      follow (startOf place target) (steps target ++ rest) := by
  have valid := fs.named (ne_none_of_eq_some link)
  simp [walkWith, here, link, valid.ne_dot, valid.ne_dotDot]

theorem walkWith_absent (here : fs.tree place = some .directory)
    (absent : fs.tree (name :: place) = none) (ne_dot : name ≠ dot) (ne_dotDot : name ≠ dotDot) :
    fs.walkWith missing follow place (name :: rest) =
      if missing = true ∧ rest = [] then some (name :: place) else none := by
  simp [walkWith, here, absent, ne_dot, ne_dotDot]

theorem directory_of_walkWith_cons
    (walked : fs.walkWith missing follow place (name :: rest) = some found) :
    fs.tree place = some .directory := by
  by_contra absent
  simp [walkWith, absent] at walked

/-- A walk takes no name without an entry. -/
theorem exists_of_walkWith_cons (valid : ValidName name)
    (walked : fs.walkWith false follow place (name :: rest) = some found) :
    fs.tree (name :: place) ≠ none := by
  intro absent
  simp [walkWith, absent, valid.ne_dot, valid.ne_dotDot] at walked

/-- How a walk takes a name. -/
theorem walkWith_cons_cases
    (walked : fs.walkWith missing follow place (name :: rest) = some found) :
    name = dot ∧ fs.walkWith missing follow place rest = some found ∨
      name = dotDot ∧ fs.walkWith missing follow place.tail rest = some found ∨
      fs.IsPlain (name :: place) ∧ fs.walkWith missing follow (name :: place) rest = some found ∨
      (∃ inode target, fs.tree (name :: place) = some (.link inode target) ∧
        follow (startOf place target) (steps target ++ rest) = some found) ∨
      fs.tree (name :: place) = none ∧ name ≠ dot ∧ name ≠ dotDot ∧ missing = true ∧ rest = [] ∧
        name :: place = found := by
  have here := directory_of_walkWith_cons walked
  by_cases isDot : name = dot
  · rw [isDot, walkWith_dot here] at walked
    exact .inl ⟨isDot, walked⟩
  by_cases isDotDot : name = dotDot
  · rw [isDotDot, walkWith_dotDot here] at walked
    exact .inr (.inl ⟨isDotDot, walked⟩)
  cases below : fs.tree (name :: place) with
  | none =>
      rw [walkWith_absent here below isDot isDotDot, Option.ite_none_right_eq_some,
        Option.some.injEq] at walked
      rcases walked with ⟨⟨missing_eq, rest_eq⟩, found_eq⟩
      exact .inr (.inr (.inr (.inr ⟨rfl, isDot, isDotDot, missing_eq, rest_eq, found_eq⟩)))
  | some node =>
      cases node with
      | directory =>
          have plain : fs.IsPlain (name :: place) := .inl below
          rw [walkWith_plain here plain] at walked
          exact .inr (.inr (.inl ⟨plain, walked⟩))
      | file inode =>
          have plain : fs.IsPlain (name :: place) := .inr ⟨inode, below⟩
          rw [walkWith_plain here plain] at walked
          exact .inr (.inr (.inl ⟨plain, walked⟩))
      | link inode target =>
          rw [walkWith_link here below] at walked
          exact .inr (.inr (.inr (.inl ⟨inode, target, rfl, walked⟩)))

/-- A walk with a number of links is one up to the next link. -/
theorem walk_eq_walkWith (fs : FileSystem) (missing : Bool) (links : ℕ) :
    ∃ follow, fs.walk missing links = fs.walkWith missing follow := by
  cases links with
  | zero => exact ⟨_, rfl⟩
  | succ links => exact ⟨_, rfl⟩

/-- A walk continues in a directory below. -/
theorem walk_cons_directory (here : fs.tree place = some .directory)
    (below : fs.tree (name :: place) = some .directory) :
    fs.walk missing links place (name :: rest) = fs.walk missing links (name :: place) rest := by
  rcases walk_eq_walkWith fs missing links with ⟨follow, walk_eq⟩
  rw [walk_eq]
  exact walkWith_plain here (.inl below)

theorem walk_nil : fs.walk missing links place [] = some place := by
  cases links <;> rfl

/-- Walking the names of a directory from the root leads to it. -/
theorem walk_reverse (directory : fs.tree place = some .directory) :
    fs.walk missing links [] (place.reverse ++ rest) = fs.walk missing links place rest := by
  induction place generalizing rest with
  | nil => rfl
  | cons name above ih =>
      have aboveDirectory := fs.closed (ne_none_of_eq_some directory)
      rw [List.reverse_cons, List.append_assoc, ih aboveDirectory, List.singleton_append,
        walk_cons_directory aboveDirectory directory]

theorem directory_of_walk_cons (walked : fs.walk missing links place (name :: rest) = some found) :
    fs.tree place = some .directory := by
  rcases walk_eq_walkWith fs missing links with ⟨follow, walk_eq⟩
  rw [walk_eq] at walked
  exact directory_of_walkWith_cons walked

theorem walkWith_isPlain
    (follows : ∀ place names found, fs.IsPlain place → follow place names = some found →
      fs.IsPlain found)
    (plain : fs.IsPlain place) (walked : fs.walkWith false follow place names = some found) :
    fs.IsPlain found := by
  induction names generalizing place with
  | nil =>
      rw [walkWith, Option.some.injEq] at walked
      exact walked ▸ plain
  | cons name rest ih =>
      have here := directory_of_walkWith_cons walked
      rcases walkWith_cons_cases walked with ⟨-, further⟩ | ⟨-, further⟩ | ⟨below, further⟩ |
        ⟨inode, target, -, further⟩ | ⟨-, -, -, ⟨⟩, -⟩
      · exact ih plain further
      · apply ih _ further
        cases place with
        | nil => exact plain
        | cons inner above => exact Or.inl (fs.closed (ne_none_of_eq_some here))
      · exact ih below further
      · apply follows _ _ _ _ further
        unfold startOf
        split
        · exact Or.inl fs.root
        · exact plain

/-- A walk never ends at a link. -/
theorem walk_isPlain (plain : fs.IsPlain place)
    (walked : fs.walk false links place names = some found) : fs.IsPlain found := by
  induction links generalizing place names found with
  | zero => exact walkWith_isPlain (fun _ _ _ _ absent => by simp at absent) plain walked
  | succ links ih => exact walkWith_isPlain (fun _ _ _ => ih) plain walked

theorem walkWith_mono
    (follows : ∀ place names, follow place names = some found → follow' place names = some found)
    (walked : fs.walkWith missing follow place names = some found) :
    fs.walkWith missing follow' place names = some found := by
  induction names generalizing place with
  | nil => exact walked
  | cons name rest ih =>
      have here := directory_of_walkWith_cons walked
      rcases walkWith_cons_cases walked with ⟨rfl, further⟩ | ⟨rfl, further⟩ | ⟨below, further⟩ |
        ⟨inode, target, link, further⟩ | ⟨absent, ne_dot, ne_dotDot, missing_eq, rest_eq, found_eq⟩
      · rw [walkWith_dot here]
        exact ih further
      · rw [walkWith_dotDot here]
        exact ih further
      · rw [walkWith_plain here below]
        exact ih further
      · rw [walkWith_link here link]
        exact follows _ _ further
      · rw [walkWith_absent here absent ne_dot ne_dotDot, if_pos ⟨missing_eq, rest_eq⟩, found_eq]

/-- A walk that may follow more links goes as far. -/
theorem walk_mono {more : ℕ} (fewer : links ≤ more)
    (walked : fs.walk missing links place names = some found) :
    fs.walk missing more place names = some found := by
  induction links generalizing place names more with
  | zero =>
      cases more with
      | zero => exact walked
      | succ more => exact walkWith_mono (fun _ _ absent => by simp at absent) walked
  | succ links ih =>
      cases more with
      | zero => exact absurd fewer (Nat.not_succ_le_zero links)
      | succ more =>
          exact walkWith_mono (fun _ _ => ih (Nat.le_of_succ_le_succ fewer)) walked

end Steps

section Frames

variable {fs fs' : FileSystem} {missing : Bool} {links : ℕ} {place found found' : Location}
  {names : List Name}

/-- Trees that agree wherever both have an entry. -/
def Agree (fs fs' : FileSystem) : Prop :=
  ∀ place, fs.tree place ≠ none → fs'.tree place ≠ none → fs.tree place = fs'.tree place

theorem Agree.symm (agree : fs.Agree fs') : fs'.Agree fs :=
  fun place exists_here exists_there => (agree place exists_there exists_here).symm

/-- A tree has the entries that two others have in common. -/
def Shares (shared fs fs' : FileSystem) : Prop :=
  ∀ place, fs.tree place ≠ none → fs'.tree place ≠ none → shared.tree place = fs.tree place

theorem walkWith_common {shared : FileSystem}
    {follow follow' followShared : Location → List Name → Option Location}
    (agree : fs.Agree fs') (shares : shared.Shares fs fs')
    (follows : ∀ place names found found', follow place names = some found →
      follow' place names = some found' → followShared place names = some found ∧ found = found')
    (walked : fs.walkWith false follow place names = some found)
    (walked' : fs'.walkWith false follow' place names = some found') :
    shared.walkWith false followShared place names = some found ∧ found = found' := by
  induction names generalizing place with
  | nil =>
      rw [walkWith, Option.some.injEq] at walked walked'
      rw [walkWith, ← walked, ← walked']
      exact ⟨rfl, rfl⟩
  | cons name rest ih =>
      have here := directory_of_walkWith_cons walked
      have here' := directory_of_walkWith_cons walked'
      have here_shared : shared.tree place = some .directory := by
        rw [shares place (ne_none_of_eq_some here) (ne_none_of_eq_some here'), here]
      rcases walkWith_cons_cases walked with ⟨rfl, further⟩ | ⟨rfl, further⟩ | ⟨below, further⟩ |
        ⟨inode, target, link, further⟩ | ⟨-, -, -, ⟨⟩, -⟩
      · rw [walkWith_dot here'] at walked'
        rw [walkWith_dot here_shared]
        exact ih further walked'
      · rw [walkWith_dotDot here'] at walked'
        rw [walkWith_dotDot here_shared]
        exact ih further walked'
      · have exists' := exists_of_walkWith_cons (fs.named below.ne_none) walked'
        rw [walkWith_plain here' (below.of_eq (agree _ below.ne_none exists').symm)] at walked'
        rw [walkWith_plain here_shared (below.of_eq (shares _ below.ne_none exists'))]
        exact ih further walked'
      · have exists_entry := ne_none_of_eq_some link
        have exists' := exists_of_walkWith_cons (fs.named exists_entry) walked'
        have link' := agree _ exists_entry exists'
        have link_shared := shares _ exists_entry exists'
        rw [link] at link' link_shared
        rw [walkWith_link here' link'.symm] at walked'
        rw [walkWith_link here_shared link_shared]
        exact follows _ _ _ _ further walked'

/-- A walk that succeeds in two trees that agree succeeds on what they share. -/
theorem walk_common {shared : FileSystem} (agree : fs.Agree fs') (shares : shared.Shares fs fs')
    (walked : fs.walk false links place names = some found)
    (walked' : fs'.walk false links place names = some found') :
    shared.walk false links place names = some found ∧ found = found' := by
  induction links generalizing place names found found' with
  | zero =>
      exact walkWith_common agree shares (fun _ _ _ _ absent => by simp at absent) walked walked'
  | succ links ih => exact walkWith_common agree shares (fun _ _ _ _ => ih) walked walked'

/-- Walks of one path that succeed in agreeing trees end at one place. -/
theorem walk_agree (agree : fs.Agree fs') (walked : fs.walk false links place names = some found)
    (walked' : fs'.walk false links place names = some found') : found = found' :=
  (walk_common agree (fun _ _ _ => rfl) walked walked').2

/-- The directories and links of a tree are still there. -/
def Keeps (fs fs' : FileSystem) : Prop :=
  ∀ place node, fs.tree place = some node → (∀ inode, node ≠ .file inode) →
    fs'.tree place = some node

/-- Directories and links stay where only files change. -/
theorem keeps_of_files (changed : ∀ place, fs'.tree place = fs.tree place ∨
    fs.tree place = none ∨ ∃ inode, fs.tree place = some (.file inode)) : fs.Keeps fs' := by
  intro place node here not_file
  rcases changed place with same | absent | ⟨inode, file⟩
  · rw [same, here]
  · rw [here] at absent
    cases absent
  · rw [here] at file
    exact absurd (Option.some.inj file) (not_file inode)

theorem walkWith_kept {follow follow' : Location → List Name → Option Location}
    (keeps : fs.Keeps fs')
    (follows : ∀ place names found, follow place names = some found →
      fs.tree found = some .directory → follow' place names = some found)
    (walked : fs.walkWith false follow place names = some found)
    (directory : fs.tree found = some .directory) :
    fs'.walkWith false follow' place names = some found := by
  induction names generalizing place with
  | nil => exact walked
  | cons name rest ih =>
      have here := directory_of_walkWith_cons walked
      have here' := keeps place _ here (by simp)
      rcases walkWith_cons_cases walked with ⟨rfl, further⟩ | ⟨rfl, further⟩ |
        ⟨below | ⟨inode, file⟩, further⟩ | ⟨inode, target, link, further⟩ | ⟨-, -, -, ⟨⟩, -⟩
      · rw [walkWith_dot here']
        exact ih further
      · rw [walkWith_dotDot here']
        exact ih further
      · rw [walkWith_plain here' (.inl (keeps _ _ below (by simp)))]
        exact ih further
      · -- a walk that goes on from a file fails
        cases rest with
        | nil =>
            rw [walkWith, Option.some.injEq] at further
            rw [← further, file] at directory
            cases directory
        | cons next rest =>
            rw [directory_of_walkWith_cons further] at file
            cases file
      · rw [walkWith_link here' (keeps _ _ link (by simp))]
        exact follows _ _ _ further directory

/-- A walk to a directory goes through as long as directories and links stay. -/
theorem walk_kept (keeps : fs.Keeps fs') (walked : fs.walk false links place names = some found)
    (directory : fs.tree found = some .directory) :
    fs'.walk false links place names = some found := by
  induction links generalizing place names found with
  | zero => exact walkWith_kept keeps (fun _ _ _ absent => by simp at absent) walked directory
  | succ links ih => exact walkWith_kept keeps (fun _ _ _ => ih) walked directory

/-- Every entry of a tree is still there as it was. -/
def Extends (fs fs' : FileSystem) : Prop :=
  ∀ place, fs.tree place ≠ none → fs'.tree place = fs.tree place

theorem Extends.keeps (extended : fs.Extends fs') : fs.Keeps fs' := by
  intro place node here _
  rw [extended place (by simp [here]), here]

theorem walkWith_created {follow follow' : Location → List Name → Option Location}
    (extended : fs.Extends fs')
    (follows : ∀ place names found, follow place names = some found →
      fs'.IsPlain found → follow' place names = some found)
    (walked : fs.walkWith missing follow place names = some found) (plain : fs'.IsPlain found) :
    fs'.walkWith false follow' place names = some found := by
  induction names generalizing place with
  | nil => exact walked
  | cons name rest ih =>
      have here := directory_of_walkWith_cons walked
      have here' : fs'.tree place = some .directory := by
        rw [extended place (ne_none_of_eq_some here), here]
      rcases walkWith_cons_cases walked with ⟨rfl, further⟩ | ⟨rfl, further⟩ | ⟨below, further⟩ |
        ⟨inode, target, link, further⟩ | ⟨-, -, -, -, rfl, rfl⟩
      · rw [walkWith_dot here']
        exact ih further
      · rw [walkWith_dotDot here']
        exact ih further
      · rw [walkWith_plain here' (below.of_eq (extended _ below.ne_none))]
        exact ih further
      · have link' : fs'.tree (name :: place) = some (.link inode target) := by
          rw [extended _ (ne_none_of_eq_some link), link]
        rw [walkWith_link here' link']
        exact follows _ _ _ further plain
      · rw [walkWith_plain here' plain]
        rfl

/-- Once its file is created, a path that was opened leads to it. -/
theorem walk_created (extended : fs.Extends fs')
    (walked : fs.walk missing links place names = some found) (plain : fs'.IsPlain found) :
    fs'.walk false links place names = some found := by
  induction links generalizing place names found with
  | zero => exact walkWith_created extended (fun _ _ _ absent => by simp at absent) walked plain
  | succ links ih => exact walkWith_created extended (fun _ _ _ => ih) walked plain

end Frames

section Splitting

variable {fs : FileSystem} {missing : Bool} {links : ℕ} {place found : Location}
  {front names : List Name}

theorem walkWith_append (links : ℕ) {follow followAll : Location → List Name → Option Location}
    (follows : ∀ place front found, follow place front = some found → ∃ left ≤ links,
      ∀ back ≠ [], followAll place (front ++ back) = fs.walk missing left found back)
    (continues : ∀ place back, fs.walkWith missing followAll place back =
      fs.walk missing links place back)
    (walked : fs.walkWith false follow place front = some found) :
    ∃ left ≤ links, ∀ back ≠ [], fs.walkWith missing followAll place (front ++ back) =
      fs.walk missing left found back := by
  induction front generalizing place with
  | nil =>
      rw [walkWith, Option.some.injEq] at walked
      exact ⟨links, Nat.le_refl links, fun back _ => by rw [List.nil_append, continues, walked]⟩
  | cons name rest ih =>
      have here := directory_of_walkWith_cons walked
      simp only [List.cons_append]
      rcases walkWith_cons_cases walked with ⟨rfl, further⟩ | ⟨rfl, further⟩ | ⟨below, further⟩ |
        ⟨inode, target, link, further⟩ | ⟨-, -, -, ⟨⟩, -⟩
      · simp only [walkWith_dot here]
        exact ih further
      · simp only [walkWith_dotDot here]
        exact ih further
      · simp only [walkWith_plain here below]
        exact ih further
      · rcases follows _ _ _ further with ⟨left, fewer, goes⟩
        refine ⟨left, fewer, fun back some_back => ?_⟩
        rw [walkWith_link here link, ← goes back some_back, List.append_assoc]

/-- Behind the walk of its first names, a walk goes on with the links left. -/
theorem walk_append_le (missing : Bool)
    (walked : fs.walk false links place front = some found) :
    ∃ left ≤ links, ∀ back ≠ [], fs.walk missing links place (front ++ back) =
      fs.walk missing left found back := by
  induction links generalizing place front found with
  | zero =>
      exact walkWith_append 0 (fun _ _ _ absent => by simp at absent)
        (fun _ _ => rfl) walked
  | succ links ih =>
      apply walkWith_append (links + 1) _ (fun _ _ => rfl) walked
      intro place front found walked
      rcases ih walked with ⟨left, fewer, goes⟩
      exact ⟨left, Nat.le_succ_of_le fewer, goes⟩

theorem walk_append (missing : Bool)
    (walked : fs.walk false links place front = some found) :
    ∃ left, ∀ back ≠ [], fs.walk missing links place (front ++ back) =
      fs.walk missing left found back := by
  rcases walk_append_le missing walked with ⟨left, -, goes⟩
  exact ⟨left, goes⟩

theorem walkWith_front {follow followAll : Location → List Name → Option Location}
    {back : List Name} (some_back : back ≠ [])
    (follows : ∀ place front, followAll place (front ++ back) = some found →
      ∃ middle, follow place front = some middle ∧ fs.tree middle = some .directory)
    (walked : fs.walkWith missing followAll place (front ++ back) = some found) :
    ∃ middle, fs.walkWith false follow place front = some middle ∧
      fs.tree middle = some .directory := by
  induction front generalizing place with
  | nil =>
      cases back with
      | nil => exact absurd rfl some_back
      | cons name rest =>
          exact ⟨place, rfl, directory_of_walkWith_cons walked⟩
  | cons name rest ih =>
      rw [List.cons_append] at walked
      have here := directory_of_walkWith_cons walked
      rcases walkWith_cons_cases walked with ⟨rfl, further⟩ | ⟨rfl, further⟩ | ⟨below, further⟩ |
        ⟨inode, target, link, further⟩ | ⟨-, -, -, -, none_left, -⟩
      · rw [walkWith_dot here]
        exact ih further
      · rw [walkWith_dotDot here]
        exact ih further
      · rw [walkWith_plain here below]
        exact ih further
      · rw [walkWith_link here link]
        rw [← List.append_assoc] at further
        exact follows _ _ further
      · exact absurd (List.append_eq_nil_iff.mp none_left).2 some_back

/-- The first names of a walk that succeeds lead to a directory. -/
theorem walk_front {back : List Name} (some_back : back ≠ [])
    (walked : fs.walk missing links place (front ++ back) = some found) :
    ∃ middle, fs.walk false links place front = some middle ∧
      fs.tree middle = some .directory := by
  induction links generalizing place front with
  | zero => exact walkWith_front some_back (fun _ _ absent => by simp at absent) walked
  | succ links ih => exact walkWith_front some_back (fun _ _ => ih) walked

theorem walk_dot (here : fs.tree place = some .directory) :
    fs.walk missing links place [dot] = some place := by
  rcases walk_eq_walkWith fs missing links with ⟨follow, walk_eq⟩
  rw [walk_eq, walkWith_dot here]
  rfl

/-- A name without an entry ends a walk that lets it. -/
theorem walk_missing {name : Name} (here : fs.tree place = some .directory)
    (free : fs.tree (name :: place) = none) (ne_dot : name ≠ dot) (ne_dotDot : name ≠ dotDot) :
    fs.walk true links place [name] = some (name :: place) := by
  rcases walk_eq_walkWith fs true links with ⟨follow, walk_eq⟩
  rw [walk_eq, walkWith_absent here free ne_dot ne_dotDot]
  exact if_pos ⟨rfl, rfl⟩

/-- A walk that does not let it fails at a name without an entry. -/
theorem walk_absent {name : Name} (free : fs.tree (name :: place) = none) (ne_dot : name ≠ dot)
    (ne_dotDot : name ≠ dotDot) : fs.walk false links place [name] = none := by
  rcases walk_eq_walkWith fs false links with ⟨follow, walk_eq⟩
  simp [walk_eq, walkWith, free, ne_dot, ne_dotDot]

/-- A name of an entry that is not a link ends a walk at it. -/
theorem walk_plain {name : Name} (here : fs.tree place = some .directory)
    (plain : fs.IsPlain (name :: place)) :
    fs.walk missing links place [name] = some (name :: place) := by
  rcases walk_eq_walkWith fs missing links with ⟨follow, walk_eq⟩
  rw [walk_eq, walkWith_plain here plain]
  rfl

end Splitting

end FileSystem

end Osis.Posix
