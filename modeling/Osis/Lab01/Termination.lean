import Osis.Lab01.Listing

/-!
# When `walk_directory` returns

The path of an entry is longer than the path of its directory until it reaches
`PATH_MAX - 1` bytes. A longer one is cut there: the entries of a directory with such a
path all get the path of the directory itself, so the walk goes round in it unless it is
empty. It returns if and only if it never gets into such a directory.
-/

namespace Osis.Lab01

open Posix FileSystem

/-- A path too long for `full_path` is cut to one that does not name a directory with an entry. -/
def CutsHarmless (host : Host) (path : Bytes) (top : Location) : Prop :=
  ∀ place, top <:+ place → host.fs.tree place = some .directory →
    (pathTo path top place).length < pathMax →
    ∀ name ∈ host.fs.names place, pathMax ≤ (join (pathTo path top place) name).length →
      host.lstat (fullPath (pathTo path top place) name) = some .directory →
      ∀ found ∈ host.fs.resolve host.cwd (fullPath (pathTo path top place) name),
        host.fs.names found = []

variable {host : Host} {options : Options} {filter : Bool} {path : Bytes}
  {top place found : Location} {name : Name} {names : List Name} {lines : List Bytes} {fuel : ℕ}

section Calls

/-- What `lstat` finds to be a directory can be looked up. -/
theorem resolve_of_lstat (seen : host.lstat path = some .directory) :
    ∃ found, host.fs.resolve host.cwd path = some found ∧
      host.fs.tree found = some .directory := by
  unfold Host.lstat FileSystem.lstat at seen
  split at seen
  · exact Option.bind_eq_some_iff.mp seen
  · next name place named =>
      split at seen
      · exact Option.bind_eq_some_iff.mp seen
      · next unslashed =>
          have unslashed' : endsInSlash path = false := by simpa using unslashed
          exact ⟨_, resolve_of_entryOf named (Or.inl seen) unslashed', seen⟩

/-- A loop over names returns if the calls it makes return. -/
theorem walkEntries_returns
    (returns : ∀ name ∈ names, name ≠ dot → name ≠ dotDot →
      host.lstat (fullPath path name) = some .directory →
      ∃ fuel lines, walkDirectory host options filter fuel (fullPath path name) = some lines) :
    ∃ fuel lines,
      walkEntries host options filter (walkDirectory host options filter fuel) path names =
        some lines := by
  induction names with
  | nil => exact ⟨0, [], rfl⟩
  | cons name names ih =>
      rcases ih fun other other_mem => returns other (List.mem_cons_of_mem _ other_mem) with
        ⟨fuel, later, walked⟩
      by_cases own : name = dot ∨ name = dotDot
      · exact ⟨fuel, later, by simp only [walkEntries, own, if_true, walked]⟩
      · have ne_dot : name ≠ dot := fun same => own (Or.inl same)
        have ne_dotDot : name ≠ dotDot := fun same => own (Or.inr same)
        cases seen : host.lstat (fullPath path name) with
        | none => exact ⟨fuel, later, by simp only [walkEntries, own, if_false, seen, walked]⟩
        | some node =>
            by_cases directory : node = .directory
            · rw [directory] at seen
              rcases returns name List.mem_cons_self ne_dot ne_dotDot seen with
                ⟨fuel', below, walked_below⟩
              have walked' := walkEntries_mono (fun _ _ => walkDirectory_mono
                (Nat.le_max_left fuel fuel')) walked
              have walked_below' := walkDirectory_mono (Nat.le_max_right fuel fuel') walked_below
              refine ⟨max fuel fuel', (if selected host options filter .directory then
                [fullPath path name] else []) ++ below ++ later, ?_⟩
              simp only [walkEntries, own, if_false, seen, if_true, walked', walked_below']
            · refine ⟨fuel, (if selected host options filter node then
                [fullPath path name] else []) ++ [] ++ later, ?_⟩
              simp only [walkEntries, own, if_false, seen, directory, walked]

/-- A loop that returns has returned from the calls it makes. -/
theorem returns_of_walkEntries {descend : Bytes → Option (List Bytes)}
    (walked : walkEntries host options filter descend path names = some lines)
    (name_mem : name ∈ names) (ne_dot : name ≠ dot) (ne_dotDot : name ≠ dotDot)
    (seen : host.lstat (fullPath path name) = some .directory) :
    ∃ lines, descend (fullPath path name) = some lines := by
  induction names generalizing lines with
  | nil => cases name_mem
  | cons first names ih =>
      unfold walkEntries at walked
      split at walked
      · next own =>
          rcases List.mem_cons.mp name_mem with rfl | later
          · rcases own with same | same
            · exact absurd same ne_dot
            · exact absurd same ne_dotDot
          · exact ih walked later
      · split at walked
        · next missing =>
            rcases List.mem_cons.mp name_mem with rfl | later
            · rw [seen] at missing
              cases missing
            · exact ih walked later
        · next node here =>
            split at walked
            · next below after below_eq after_eq =>
                rcases List.mem_cons.mp name_mem with rfl | later
                · rw [seen] at here
                  cases here
                  exact ⟨below, by simpa using below_eq⟩
                · exact ih after_eq later
            · cases walked

/-- A walk that returns has returned from the directories it finds. -/
theorem returns_inside
    (walked : walkDirectory host options filter (fuel + 1) path = some lines)
    (resolved : host.fs.resolve host.cwd path = some place)
    (directory : host.fs.tree place = some .directory) (name_mem : name ∈ host.fs.names place)
    (seen : host.lstat (fullPath path name) = some .directory) :
    ∃ lines, walkDirectory host options filter fuel (fullPath path name) = some lines := by
  have valid := host.fs.named (mem_names.mp name_mem)
  rw [walkDirectory, scandir_of_resolve resolved directory] at walked
  apply returns_of_walkEntries walked _ valid.ne_dot valid.ne_dotDot seen
  apply (host.listed _ _ directory).mem_iff.mpr
  exact List.mem_cons_of_mem _ (List.mem_cons_of_mem _ name_mem)

end Calls

section Cut

theorem length_cut (long : pathMax ≤ (join path name).length) :
    (fullPath path name).length = pathMax - 1 := by
  rw [fullPath_eq, snprintf, List.length_take]
  omega

/-- Behind a path that fills `full_path` there is no room for a name. -/
theorem fullPath_full (full : path.length = pathMax - 1) : fullPath path name = path := by
  rw [fullPath_eq, snprintf, join]
  split
  · rw [← full, List.take_left]
  · rw [List.append_assoc, ← full, List.take_left]

/-- A walk does not come out of a directory with an entry whose path fills `full_path`. -/
theorem walkDirectory_full (full : path.length = pathMax - 1)
    (seen : host.lstat path = some .directory)
    (resolved : host.fs.resolve host.cwd path = some place)
    (directory : host.fs.tree place = some .directory) (some_entry : host.fs.names place ≠ [])
    (fuel : ℕ) : walkDirectory host options filter fuel path = none := by
  rcases List.exists_mem_of_ne_nil _ some_entry with ⟨name, name_mem⟩
  have same : fullPath path name = path := fullPath_full full
  induction fuel with
  | zero => rfl
  | succ fuel ih =>
      by_contra returned
      rcases Option.ne_none_iff_exists'.mp returned with ⟨lines, walked⟩
      rcases returns_inside walked resolved directory name_mem (by rwa [same]) with
        ⟨lines', walked'⟩
      rw [same, ih] at walked'
      cases walked'

end Cut

section Return

/-- The walk comes to every directory whose path fits, and returns only if it does there. -/
theorem reaches (start : host.fs.resolve host.cwd path = some top)
    (directory : host.fs.tree place = some .directory) (below : top <:+ place)
    (short : (pathTo path top place).length < pathMax) :
    host.fs.resolve host.cwd (pathTo path top place) = some place ∧
      ((∃ fuel lines, walkDirectory host options filter fuel path = some lines) →
        ∃ fuel lines,
          walkDirectory host options filter fuel (pathTo path top place) = some lines) := by
  induction place with
  | nil =>
      have here : top = [] := List.suffix_nil.mp below
      subst here
      exact ⟨start, id⟩
  | cons name above ih =>
      rcases List.suffix_cons_iff.mp below with here | below_above
      · subst here
        rw [pathTo_top]
        exact ⟨start, id⟩
      · have above_directory := host.fs.closed (ne_none_of_eq_some directory)
        have valid := host.fs.named (ne_none_of_eq_some directory)
        rw [pathTo_below below_above] at short ⊢
        have shorter : (pathTo path top above).length < pathMax :=
          (length_join_gt valid.ne_nil).trans short
        rcases ih above_directory below_above shorter with ⟨found, returns⟩
        refine ⟨resolve_join found above_directory directory short, ?_⟩
        intro returned
        rcases returns returned with ⟨fuel, lines, walked⟩
        cases fuel with
        | zero => cases walked
        | succ fuel =>
            have seen : host.lstat (fullPath (pathTo path top above) name) = some .directory := by
              rw [fullPath_of_short short, lstat_join found above_directory valid short, directory]
            rcases returns_inside walked found above_directory
              (mem_names.mpr (ne_none_of_eq_some directory)) seen with ⟨lines', walked'⟩
            rw [fullPath_of_short short] at walked'
            exact ⟨fuel, lines', walked'⟩

theorem returns_of_entries (found : host.fs.resolve host.cwd path = some place)
    (directory : host.fs.tree place = some .directory)
    (returns : ∀ name ∈ host.fs.names place,
      host.lstat (fullPath path name) = some .directory →
      ∃ fuel lines, walkDirectory host options filter fuel (fullPath path name) = some lines) :
    ∃ fuel lines, walkDirectory host options filter fuel path = some lines := by
  have calls : ∀ name ∈ host.order options.sortOutput place, name ≠ dot → name ≠ dotDot →
      host.lstat (fullPath path name) = some .directory →
      ∃ fuel lines, walkDirectory host options filter fuel (fullPath path name) = some lines := by
    intro name listed ne_dot ne_dotDot seen
    have listed := (host.listed _ _ directory).mem_iff.mp listed
    simp only [List.mem_cons, ne_dot, ne_dotDot, false_or] at listed
    exact returns name listed seen
  rcases walkEntries_returns calls with ⟨fuel, lines, walked⟩
  refine ⟨fuel + 1, lines, ?_⟩
  rw [walkDirectory, scandir_of_resolve found directory]
  exact walked

/-- Where no cut path leads into a directory with an entry the walk returns from every directory
whose path fits: the paths get longer. -/
theorem returns_of_harmless (harmless : CutsHarmless host path top) {left : ℕ}
    (found : host.fs.resolve host.cwd (pathTo path top place) = some place)
    (directory : host.fs.tree place = some .directory) (below : top <:+ place)
    (short : (pathTo path top place).length < pathMax)
    (enough : pathMax ≤ (pathTo path top place).length + left) :
    ∃ fuel lines,
      walkDirectory host options filter fuel (pathTo path top place) = some lines := by
  induction left generalizing place with
  | zero => omega
  | succ left ih =>
      apply returns_of_entries found directory
      intro name name_mem seen
      have valid := host.fs.named (mem_names.mp name_mem)
      by_cases long : pathMax ≤ (join (pathTo path top place) name).length
      · -- an empty directory has no call to wait for
        rcases resolve_of_lstat seen with ⟨inside, resolved, inside_directory⟩
        apply returns_of_entries resolved inside_directory
        intro other other_mem
        rw [harmless place below directory short name name_mem long seen inside resolved]
          at other_mem
        cases other_mem
      · have fits : (join (pathTo path top place) name).length < pathMax := Nat.lt_of_not_le long
        have longer : (pathTo path top place).length <
            (join (pathTo path top place) name).length := length_join_gt valid.ne_nil
        rw [fullPath_of_short fits] at seen ⊢
        rw [lstat_join found directory valid fits] at seen
        have resolved := resolve_join found directory seen fits
        rw [← pathTo_below below] at resolved fits longer ⊢
        exact ih resolved seen (below.trans (List.suffix_cons _ _)) fits (by omega)

/-- `walk_directory` returns if and only if no path that is cut names a directory with an entry. -/
theorem walkDirectory_returns_iff (host : Host) (options : Options) (filter : Bool) (path : Bytes)
    (top : Location) (start : host.fs.resolve host.cwd path = some top)
    (directory : host.fs.tree top = some .directory) :
    (∃ fuel lines, walkDirectory host options filter fuel path = some lines) ↔
      CutsHarmless host path top := by
  constructor
  · intro returned place below place_directory short name name_mem long seen found found_mem
    by_contra some_entry
    rcases reaches start place_directory below short with ⟨resolved, returns⟩
    rcases returns returned with ⟨fuel, lines, walked⟩
    cases fuel with
    | zero => cases walked
    | succ fuel =>
        rcases returns_inside walked resolved place_directory name_mem seen with ⟨lines', walked'⟩
        rcases resolve_of_lstat seen with ⟨found', resolved', found_directory⟩
        rw [Option.mem_unique found_mem resolved'] at some_entry
        rw [walkDirectory_full (length_cut long) seen resolved' found_directory some_entry]
          at walked'
        cases walked'
  · intro harmless
    have found : host.fs.resolve host.cwd (pathTo path top top) = some top := by
      rw [pathTo_top, start]
    have returned : ∃ fuel lines,
        walkDirectory host options filter fuel (pathTo path top top) = some lines :=
      returns_of_harmless harmless found directory (List.suffix_refl top)
        (resolve_eq_some.mp found).2.1 (Nat.le_add_left pathMax _)
    rwa [pathTo_top] at returned

end Return

section Examples

theorem harmless_directory : CutsHarmless (hostOf directoryWithFile []) (ascii "/") [] := by
  intro place below _ _ name name_mem long
  have all : ∀ place ∈ directoryWithFile.domain,
      (pathTo (ascii "/") [] place).length < pathMax := by decide +kernel
  have fits := all (name :: place) (directoryWithFile.supported (mem_names.mp name_mem))
  rw [pathTo_below below] at fits
  omega

theorem returns_directory :
    ∃ fuel lines, walkDirectory (hostOf directoryWithFile []) ⟨false, false, false, false⟩ false
      fuel (ascii "/") = some lines :=
  (walkDirectory_returns_iff _ _ _ _ [] (by decide +kernel) directoryWithFile.root).mpr
    harmless_directory

theorem components_replicate_slash (count : ℕ) : components (List.replicate count slash) = [] := by
  induction count with
  | zero => rfl
  | succ count ih => rw [List.replicate_succ, components_slash, ih]

theorem endsInSlash_replicate_slash {count : ℕ} (some_path : 0 < count) :
    endsInSlash (List.replicate count slash) = true := by
  simp [endsInSlash, List.getLast?_replicate, some_path.ne']

/-- A path of slashes leads to the root. -/
theorem resolve_replicate_slash {fs : FileSystem} {cwd : Location} {count : ℕ}
    (some_path : 0 < count) (short : count < pathMax) :
    fs.resolve cwd (List.replicate count slash) = some [] := by
  have nonempty : List.replicate count slash ≠ [] := by
    rw [ne_eq, List.replicate_eq_nil_iff]
    omega
  have steps_eq : steps (List.replicate count slash) = [dot] := by
    rw [steps, components_replicate_slash, if_pos (endsInSlash_replicate_slash some_path),
      List.nil_append]
  have start_eq : startOf cwd (List.replicate count slash) = [] := by
    simp [startOf, List.head?_replicate, some_path.ne']
  refine resolve_eq_some.mpr ⟨nonempty, by rwa [List.length_replicate], ?_⟩
  rw [steps_eq, start_eq, walk_dot fs.root]

/-- `/d`, under a path of `PATH_MAX - 1` bytes: the path of `f` in it is cut to that of `d`. -/
theorem not_returns_deep :
    ¬ ∀ (host : Host) (options : Options) (filter : Bool) (path : Bytes) (top : Location),
      host.fs.resolve host.cwd path = some top → host.fs.tree top = some .directory →
      ∃ fuel lines, walkDirectory host options filter fuel path = some lines := by
  intro claimed
  have root : (hostOf directoryWithFile []).fs.resolve [] (List.replicate 4094 slash) = some [] :=
    resolve_replicate_slash (by decide) (by decide)
  have directory : (hostOf directoryWithFile []).fs.tree [ascii "d"] = some .directory := by
    decide +kernel
  have joined : pathTo (List.replicate 4094 slash) [] [ascii "d"] =
      join (List.replicate 4094 slash) (ascii "d") := by
    rw [pathTo_below (List.suffix_refl _), pathTo_top]
  have full : (join (List.replicate 4094 slash) (ascii "d")).length = pathMax - 1 := by
    rw [join, if_pos (endsInSlash_replicate_slash (by decide)), List.length_append,
      List.length_replicate]
    rfl
  have seen := lstat_join root (hostOf directoryWithFile []).fs.root
    (by decide : ValidName (ascii "d")) (by rw [full]; decide)
  have some_entry : (hostOf directoryWithFile []).fs.names [ascii "d"] ≠ [] := by decide +kernel
  rcases claimed (hostOf directoryWithFile []) ⟨false, false, false, false⟩ false _ [] root
    directoryWithFile.root with ⟨fuel, lines, walked⟩
  rcases reaches root directory List.nil_suffix (by rw [joined, full]; decide) with
    ⟨resolved, returns⟩
  rcases returns ⟨fuel, lines, walked⟩ with ⟨fuel', lines', walked'⟩
  rw [joined] at resolved walked'
  rw [walkDirectory_full full (seen.trans directory) resolved directory some_entry] at walked'
  cases walked'

end Examples

end Osis.Lab01
