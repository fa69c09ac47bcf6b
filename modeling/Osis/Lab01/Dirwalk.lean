import Osis.Posix.Preorder
import Osis.Posix.SystemCalls

/-!
# `dirwalk`

`walk_directory` goes through a directory in the order of `scandir`, prints the path of
each entry that the options select and descends into directories. The paths it prints
are the paths it works with: it joins them itself, in a buffer of `PATH_MAX` bytes.
-/

namespace Osis.Lab01

open Posix

/-- `Options`. -/
structure Options where
  showLinks : Bool
  showDirs : Bool
  showFiles : Bool
  sortOutput : Bool
  deriving DecidableEq, Repr

/-- What the program finds on its machine. -/
structure Host where
  fs : FileSystem
  cwd : Location
  /-- The inodes of regular files; the others are of devices, pipes and sockets. -/
  regular : ℕ → Bool
  /-- The order in which `scandir` gives the names of a directory, sorted or not. -/
  order : Bool → Location → List Name
  listed : ∀ sorted place, fs.tree place = some .directory →
    (order sorted place).Perm (dot :: dotDot :: fs.names place)

namespace Host

/-- `scandir`, `none` where it fails. -/
def scandir (host : Host) (sorted : Bool) (path : Bytes) : Option (List Name) :=
  match host.fs.resolve host.cwd path with
  | none => none
  | some place =>
      if host.fs.tree place = some .directory then some (host.order sorted place) else none

def lstat (host : Host) (path : Bytes) : Option Node := host.fs.lstat host.cwd path

end Host

section Walk

/-- `full_path` of an entry. -/
def fullPath (path : Bytes) (name : Name) : Bytes :=
  if path = dot then snprintf pathMax (ascii "./" ++ name)
  else if path ≠ [] ∧ path.getLast? = some slash then snprintf pathMax (path ++ name)
  else snprintf pathMax (path ++ slash :: name)

/-- The test before `printf`. -/
def selected (host : Host) (options : Options) (filter : Bool) (node : Node) : Bool :=
  if filter then
    match node with
    | .directory => options.showDirs
    | .file inode => options.showFiles && host.regular inode
    | .link _ _ => options.showLinks
  else true

variable (host : Host) (options : Options) (filter : Bool)

/-- The loop of `walk_directory` over the names of a directory, given what the call for a
directory below prints; `none` where a call does not return. -/
def walkEntries (descend : Bytes → Option (List Bytes)) (path : Bytes) :
    List Name → Option (List Bytes)
  | [] => some []
  | name :: rest =>
      if name = dot ∨ name = dotDot then walkEntries descend path rest
      else
        match host.lstat (fullPath path name) with
        -- perror("lstat")
        | none => walkEntries descend path rest
        | some node =>
            match (if node = .directory then descend (fullPath path name) else some []),
              walkEntries descend path rest with
            | some below, some later =>
                some ((if selected host options filter node then [fullPath path name] else []) ++
                  below ++ later)
            | _, _ => none

/-- The lines that `walk_directory` prints with calls nested at most `fuel` deep. -/
def walkDirectory : ℕ → Bytes → Option (List Bytes)
  | 0, _ => none
  | fuel + 1, path =>
      match host.scandir options.sortOutput path with
      -- perror("scandir")
      | none => some []
      | some names => walkEntries host options filter (walkDirectory fuel) path names

variable {host options filter} {path : Bytes} {names : List Name} {lines : List Bytes}

theorem walkEntries_mono {descend deeper : Bytes → Option (List Bytes)}
    (goes_on : ∀ path lines, descend path = some lines → deeper path = some lines)
    (walked : walkEntries host options filter descend path names = some lines) :
    walkEntries host options filter deeper path names = some lines := by
  induction names generalizing lines with
  | nil => exact walked
  | cons name rest ih =>
      unfold walkEntries at walked ⊢
      split at walked
      · next own =>
          rw [if_pos own]
          exact ih walked
      · next own =>
          rw [if_neg own]
          split at walked
          · exact ih walked
          · next node seen =>
              split at walked
              · next below later below_eq later_eq =>
                  have below_eq' : (if node = .directory then deeper (fullPath path name)
                      else some []) = some below := by
                    split at below_eq
                    · next directory =>
                        rw [if_pos directory]
                        exact goes_on _ _ below_eq
                    · next leaf =>
                        rw [if_neg leaf]
                        exact below_eq
                  rw [below_eq', ih later_eq]
                  exact walked
              · cases walked

/-- A walk that returns does not depend on how deep the calls might go. -/
theorem walkDirectory_mono {fuel more : ℕ} (enough : fuel ≤ more)
    (walked : walkDirectory host options filter fuel path = some lines) :
    walkDirectory host options filter more path = some lines := by
  induction fuel generalizing more path lines with
  | zero => cases walked
  | succ fuel ih =>
      cases more with
      | zero => exact absurd enough (Nat.not_succ_le_zero fuel)
      | succ more =>
          unfold walkDirectory at walked ⊢
          split at walked
          · exact walked
          · next names found =>
              apply walkEntries_mono _ walked
              intro path lines walked_below
              exact ih (Nat.le_of_succ_le_succ enough) walked_below

end Walk

section Main

/-- The variables that `main` sets from its arguments. -/
structure Settings where
  options : Options
  filter : Bool
  path : Bytes
  deriving DecidableEq, Repr

/-- One letter of an argument that begins with `-`, `none` where it is unknown. -/
def parseFlag (settings : Settings) (flag : UInt8) : Option Settings :=
  if flag = 108 then
    some { settings with options.showLinks := true, filter := true }
  else if flag = 100 then
    some { settings with options.showDirs := true, filter := true }
  else if flag = 102 then
    some { settings with options.showFiles := true, filter := true }
  else if flag = 115 then some { settings with options.sortOutput := true }
  else none

def parseArg (settings : Settings) (arg : Bytes) : Option Settings :=
  match arg with
  | 45 :: flags => flags.foldlM parseFlag settings
  | _ => some { settings with path := arg }

/-- The loop of `main` over its arguments. -/
def parseArgs (args : List Bytes) : Option Settings :=
  args.foldlM parseArg ⟨⟨false, false, false, false⟩, false, dot⟩

/-- `main`: the exit status and the lines it prints. -/
def main (host : Host) (fuel : ℕ) (args : List Bytes) : Option (ℕ × List Bytes) :=
  match parseArgs args with
  -- a message about the usage
  | none => some (1, [])
  | some settings =>
      match walkDirectory host settings.options settings.filter fuel settings.path with
      | none => none
      | some below =>
          some (0, (if settings.options.showDirs || !settings.filter then [settings.path]
            else []) ++ below)

/-- Filtering begins with the first option that selects something. -/
def Settings.Consistent (settings : Settings) : Prop :=
  settings.filter =
    (settings.options.showLinks || settings.options.showDirs || settings.options.showFiles)

theorem consistent_parseFlag {settings parsed : Settings} {flag : UInt8}
    (consistent : settings.Consistent) (accepted : parseFlag settings flag = some parsed) :
    parsed.Consistent := by
  unfold Settings.Consistent at *
  unfold parseFlag at accepted
  split at accepted
  · cases accepted
    simp
  · split at accepted
    · cases accepted
      simp
    · split at accepted
      · cases accepted
        simp
      · split at accepted
        · cases accepted
          exact consistent
        · cases accepted

/-- What holds of the settings and is kept by a step holds after a loop. -/
theorem foldlM_induction {α : Type} {step : Settings → α → Option Settings}
    {keeps : Settings → Prop}
    (kept : ∀ settings a parsed, keeps settings → step settings a = some parsed → keeps parsed)
    {list : List α} {settings parsed : Settings} (start : keeps settings)
    (ran : list.foldlM step settings = some parsed) : keeps parsed := by
  induction list generalizing settings with
  | nil =>
      cases ran
      exact start
  | cons a list ih =>
      rw [List.foldlM_cons] at ran
      rcases Option.bind_eq_some_iff.mp ran with ⟨next, stepped, ran⟩
      exact ih (kept _ _ _ start stepped) ran

theorem consistent_parseArgs {args : List Bytes} {settings : Settings}
    (parsed : parseArgs args = some settings) : settings.Consistent := by
  apply foldlM_induction _ _ parsed
  · intro settings arg next consistent accepted
    unfold parseArg at accepted
    split at accepted
    · exact foldlM_induction (fun _ _ _ => consistent_parseFlag) consistent accepted
    · cases accepted
      exact consistent
  · rfl

end Main

section Joining

variable {path : Bytes} {name : Name}

/-- A path with one name more. -/
def join (path : Bytes) (name : Name) : Bytes :=
  (if endsInSlash path then path else path ++ [slash]) ++ name

/-- The three ways of joining are one. -/
theorem fullPath_eq (path : Bytes) (name : Name) :
    fullPath path name = snprintf pathMax (join path name) := by
  unfold fullPath join endsInSlash
  by_cases current : path = dot
  · subst current
    rfl
  · by_cases slashed : path.getLast? = some slash
    · have some_path : path ≠ [] := by
        rintro rfl
        cases slashed
      simp [current, slashed, some_path]
    · simp [current, slashed]

theorem fullPath_of_short (short : (join path name).length < pathMax) :
    fullPath path name = join path name := by
  rw [fullPath_eq]
  apply List.take_of_length_le
  omega

theorem length_join_gt (some_name : name ≠ []) : path.length < (join path name).length := by
  have := List.length_pos_iff.mpr some_name
  unfold join
  rw [List.length_append]
  split
  · omega
  · rw [List.length_append]
    omega

theorem components_join (some_name : name ≠ []) (no_slash : slash ∉ name) :
    components (join path name) = components path ++ [name] := by
  unfold join
  split
  · next slashed =>
      have some_path : path ≠ [] := by
        rintro rfl
        cases slashed
      have last : path.getLast some_path = slash := by
        rw [endsInSlash, List.getLast?_eq_getLast_of_ne_nil some_path] at slashed
        simpa using slashed
      rw [← List.dropLast_append_getLast some_path, last, List.append_assoc,
        List.singleton_append, components_append_name some_name no_slash, components_concat_slash]
  · rw [List.append_assoc, List.singleton_append, components_append_name some_name no_slash]

theorem head?_join (some_path : path ≠ []) : (join path name).head? = path.head? := by
  unfold join
  split
  · exact List.head?_append_of_ne_nil _ some_path
  · rw [List.append_assoc, List.head?_append_of_ne_nil _ some_path]

theorem endsInSlash_join (some_name : name ≠ []) (no_slash : slash ∉ name) :
    endsInSlash (join path name) = false :=
  endsInSlash_append_name some_name no_slash

end Joining

section Entries

variable {host : Host} {path : Bytes} {name : Name} {place : Location} {sorted : Bool}

theorem scandir_of_resolve (found : host.fs.resolve host.cwd path = some place)
    (directory : host.fs.tree place = some .directory) :
    host.scandir sorted path = some (host.order sorted place) := by
  simp only [Host.scandir, found, directory, if_true]

/-- The path of an entry of a directory that is found names the entry. -/
theorem entryOf_join (found : host.fs.resolve host.cwd path = some place)
    (directory : host.fs.tree place = some .directory) (valid : ValidName name)
    (short : (join path name).length < pathMax) :
    host.fs.entryOf host.cwd (join path name) = some (name, place) := by
  have some_path := (FileSystem.resolve_eq_some.mp found).1
  exact FileSystem.entryOf_below found directory valid (head?_join some_path)
    (components_join valid.ne_nil valid.no_slash) short

theorem lstat_join (found : host.fs.resolve host.cwd path = some place)
    (directory : host.fs.tree place = some .directory) (valid : ValidName name)
    (short : (join path name).length < pathMax) :
    host.lstat (join path name) = host.fs.tree (name :: place) :=
  FileSystem.lstat_of_entryOf (entryOf_join found directory valid short)
    (endsInSlash_join valid.ne_nil valid.no_slash)

theorem resolve_join (found : host.fs.resolve host.cwd path = some place)
    (directory : host.fs.tree place = some .directory)
    (below : host.fs.tree (name :: place) = some .directory)
    (short : (join path name).length < pathMax) :
    host.fs.resolve host.cwd (join path name) = some (name :: place) := by
  have valid := host.fs.named (FileSystem.ne_none_of_eq_some below)
  exact FileSystem.resolve_of_entryOf (entryOf_join found directory valid short) (Or.inl below)
    (endsInSlash_join valid.ne_nil valid.no_slash)

end Entries

end Osis.Lab01
