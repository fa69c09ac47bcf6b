import Osis.Lab01.Dirwalk

/-!
# What `dirwalk` lists

As long as the paths of all entries fit in `full_path`, the lines of a walk are the paths of
the entries below the start: each once, directories before what is in them, siblings in the
order of `scandir`, without those whose type is not selected.
-/

namespace Osis.Lab01

open Posix FileSystem

/-- The path of a place below the start, which is found under `path`. -/
def pathTo (path : Bytes) (top : Location) : Location → Bytes
  | [] => path
  | name :: place => if name :: place = top then path else join (pathTo path top place) name

/-- An entry is of a type that the options select, or they select none. -/
def chosen (host : Host) (options : Options) (place : Location) : Bool :=
  !(options.showLinks || options.showDirs || options.showFiles) ||
    match host.fs.tree place with
    | some .directory => options.showDirs
    | some (.file inode) => options.showFiles && host.regular inode
    | some (.link _ _) => options.showLinks
    | none => false

/-- The entries below a place. -/
def Below (place found : Location) : Prop := place <:+ found ∧ found ≠ place

/-- All entries below the start have paths of less than `PATH_MAX` bytes. -/
def PathsFit (host : Host) (path : Bytes) (top : Location) : Prop :=
  ∀ place, Below top place → host.fs.tree place ≠ none → (pathTo path top place).length < pathMax

section Paths

variable {path : Bytes} {top place : Location} {name : Name}

theorem pathTo_top : pathTo path top top = path := by
  cases top with
  | nil => rfl
  | cons name place => exact if_pos rfl

theorem pathTo_below (below : top <:+ place) :
    pathTo path top (name :: place) = join (pathTo path top place) name := by
  apply if_neg
  intro here
  rw [← here] at below
  exact not_cons_suffix_self below

/-- An entry of a directory below the start has a path that fits. -/
theorem PathsFit.join_lt {host : Host} (fits : PathsFit host path top) (below : top <:+ place)
    (exists_entry : host.fs.tree (name :: place) ≠ none) :
    (join (pathTo path top place) name).length < pathMax := by
  rw [← pathTo_below below]
  apply fits _ _ exists_entry
  refine ⟨below.trans (List.suffix_cons _ _), ?_⟩
  rintro rfl
  exact not_cons_suffix_self below

end Paths

variable {host : Host} {options : Options} {path : Bytes} {top place : Location} {name : Name}

theorem selected_eq_chosen {filter : Bool} {node : Node}
    (filtering : filter = (options.showLinks || options.showDirs || options.showFiles))
    (here : host.fs.tree place = some node) :
    selected host options filter node = chosen host options place := by
  subst filtering
  unfold selected chosen
  rw [here]
  cases options.showLinks || options.showDirs || options.showFiles <;> cases node <;> rfl

/-- The lines for some entries. -/
def linesOf (host : Host) (options : Options) (path : Bytes) (top : Location)
    (entries : List Location) : List Bytes :=
  (entries.filter fun place => chosen host options place).map (pathTo path top)

theorem linesOf_append (entries later : List Location) :
    linesOf host options path top (entries ++ later) =
      linesOf host options path top entries ++ linesOf host options path top later := by
  simp [linesOf]

theorem linesOf_cons (entries : List Location) :
    linesOf host options path top (place :: entries) =
      (if chosen host options place then [pathTo path top place] else []) ++
        linesOf host options path top entries := by
  unfold linesOf
  rw [List.filter_cons]
  split <;> simp

theorem nodup_order (directory : host.fs.tree place = some .directory) (sorted : Bool) :
    (host.order sorted place).Nodup := by
  rw [(host.listed sorted place directory).nodup_iff]
  have valid : ∀ name ∈ host.fs.names place, ValidName name := fun name name_mem =>
    host.fs.named (mem_names.mp name_mem)
  simp only [List.nodup_cons, List.mem_cons, not_or]
  refine ⟨⟨by decide, fun dot_mem => (valid _ dot_mem).ne_dot rfl⟩,
    fun dotDot_mem => (valid _ dotDot_mem).ne_dotDot rfl, nodup_names⟩

/-- The loop over the names of a directory lists what is below them if the calls for the
directories among them do. -/
theorem walkEntries_lists {filter : Bool} {descend : Bytes → Option (List Bytes)}
    (filtering : filter = (options.showLinks || options.showDirs || options.showFiles))
    (fits : PathsFit host path top) (below : top <:+ place)
    (directory : host.fs.tree place = some .directory)
    (found : host.fs.resolve host.cwd (pathTo path top place) = some place)
    (descends : ∀ name, host.fs.tree (name :: place) = some .directory → ∃ entries,
      host.fs.Preordered (host.order options.sortOutput) (Below (name :: place)) entries ∧
        descend (pathTo path top (name :: place)) =
          some (linesOf host options path top entries))
    {names : List Name} (in_order : names.Sublist (host.order options.sortOutput place)) :
    ∃ entries, host.fs.Preordered (host.order options.sortOutput)
        (fun found => ∃ name ∈ names, name :: place <:+ found) entries ∧
      walkEntries host options filter descend (pathTo path top place) names =
        some (linesOf host options path top entries) := by
  induction names with
  | nil => exact ⟨[], Preordered.nil (by simp), rfl⟩
  | cons name names ih =>
      rcases ih ((List.sublist_cons_self name names).trans in_order) with
        ⟨later, listed_later, walked_later⟩
      have once : name ∉ names :=
        (List.nodup_cons.mp ((nodup_order directory _).sublist in_order)).1
      by_cases own : name = dot ∨ name = dotDot
      · -- nothing stands below the names of the directory itself and of its parent
        refine ⟨later, listed_later.congr ?_, ?_⟩
        · intro found exists_found
          simp only [List.mem_cons, exists_eq_or_imp, iff_or_self]
          intro inside
          have valid := host.fs.named (tree_ne_none_of_suffix exists_found inside)
          rcases own with same | same
          · exact absurd same valid.ne_dot
          · exact absurd same valid.ne_dotDot
        · simp only [walkEntries, own, if_true, walked_later]
      · have name_mem : name ∈ host.fs.names place := by
          have listed := (host.listed options.sortOutput place directory).mem_iff.mp
            (in_order.subset List.mem_cons_self)
          simp only [List.mem_cons] at listed
          rcases listed with same | same | name_mem
          · exact absurd (Or.inl same) own
          · exact absurd (Or.inr same) own
          · exact name_mem
        have exists_entry := mem_names.mp name_mem
        have valid := host.fs.named exists_entry
        have joined : pathTo path top (name :: place) = join (pathTo path top place) name :=
          pathTo_below below
        have short := fits.join_lt below exists_entry
        have full := fullPath_of_short short
        have seen := lstat_join found directory valid short
        rcases Option.ne_none_iff_exists'.mp exists_entry with ⟨node, here⟩
        rw [← joined] at full
        rw [← joined, here] at seen
        have choice := selected_eq_chosen filtering here
        by_cases isDirectory : node = .directory
        · subst isDirectory
          rcases descends name here with ⟨entries, listed, walked⟩
          refine ⟨((name :: place) :: entries) ++ later, (listed.above exists_entry).siblings
            listed_later in_order once, ?_⟩
          simp only [walkEntries, own, if_false, full, seen, if_true, walked, walked_later, choice,
            linesOf_cons, linesOf_append]
        · have leaf : host.fs.tree (name :: place) ≠ some .directory := by
            rw [here]
            exact fun same => isDirectory (Option.some.inj same)
          refine ⟨[(name :: place)] ++ later, (Preordered.leaf exists_entry leaf).siblings
            listed_later in_order once, ?_⟩
          have none_below : linesOf host options path top [] = [] := rfl
          simp only [walkEntries, own, if_false, full, seen, isDirectory, walked_later, choice,
            linesOf_cons, linesOf_append, none_below]

/-- A walk with room for calls as deep as paths are long lists what is below its directory. -/
theorem walkDirectory_lists {filter : Bool}
    (filtering : filter = (options.showLinks || options.showDirs || options.showFiles))
    (fits : PathsFit host path top) {fuel : ℕ}
    (enough : pathMax ≤ (pathTo path top place).length + fuel) (below : top <:+ place)
    (directory : host.fs.tree place = some .directory)
    (found : host.fs.resolve host.cwd (pathTo path top place) = some place) :
    ∃ entries,
      host.fs.Preordered (host.order options.sortOutput) (Below place) entries ∧
        walkDirectory host options filter fuel (pathTo path top place) =
          some (linesOf host options path top entries) := by
  have short := (resolve_eq_some.mp found).2.1
  induction fuel generalizing place with
  | zero => omega
  | succ fuel ih =>
      have descends : ∀ name, host.fs.tree (name :: place) = some .directory → ∃ entries,
          host.fs.Preordered (host.order options.sortOutput) (Below (name :: place)) entries ∧
            walkDirectory host options filter fuel (pathTo path top (name :: place)) =
              some (linesOf host options path top entries) := by
        intro name inside
        have exists_entry := ne_none_of_eq_some inside
        have joined : pathTo path top (name :: place) = join (pathTo path top place) name :=
          pathTo_below below
        have longer : (pathTo path top place).length < (join (pathTo path top place) name).length :=
          length_join_gt (host.fs.named exists_entry).ne_nil
        have fits_here := fits.join_lt below exists_entry
        have inside_found := resolve_join found directory inside fits_here
        rw [← joined] at inside_found longer fits_here
        exact ih (by omega) (below.trans (List.suffix_cons _ _)) inside inside_found fits_here
      rcases walkEntries_lists filtering fits below directory found descends
        (List.Sublist.refl _) with ⟨entries, listed, walked⟩
      refine ⟨entries, listed.congr ?_, ?_⟩
      · intro found exists_found
        rw [Below, below_iff exists_found]
        constructor
        · rintro ⟨name, -, inside⟩
          exact ⟨name, mem_names.mpr (tree_ne_none_of_suffix exists_found inside), inside⟩
        · rintro ⟨name, name_mem, inside⟩
          refine ⟨name, (host.listed _ _ directory).mem_iff.mpr ?_, inside⟩
          exact List.mem_cons_of_mem _ (List.mem_cons_of_mem _ name_mem)
      · rw [walkDirectory, scandir_of_resolve found directory]
        exact walked

/-- Directories are selected, or nothing is. -/
def showsDirectories (options : Options) : Bool :=
  options.showDirs || !(options.showLinks || options.showDirs || options.showFiles)

/-- `dirwalk` prints its start if directories are selected or nothing is, and then all selected
entries below it. -/
theorem main_lists (host : Host) (args : List Bytes) (settings : Settings) (top : Location)
    (parsed : parseArgs args = some settings)
    (start : host.fs.resolve host.cwd settings.path = some top)
    (directory : host.fs.tree top = some .directory)
    (fits : PathsFit host settings.path top) :
    ∃ entries,
      host.fs.Preordered (host.order settings.options.sortOutput) (Below top) entries ∧
        ∀ fuel, pathMax ≤ fuel → main host fuel args =
          some (0, (if showsDirectories settings.options then [settings.path] else []) ++
            (entries.filter fun place => chosen host settings.options place).map
              (pathTo settings.path top)) := by
  have filtering := consistent_parseArgs parsed
  have found : host.fs.resolve host.cwd (pathTo settings.path top top) = some top := by
    rw [pathTo_top, start]
  rcases walkDirectory_lists filtering fits (Nat.le_add_left pathMax _) (List.suffix_refl top)
    directory found with ⟨entries, listed, walked⟩
  refine ⟨entries, listed, ?_⟩
  intro fuel enough
  have longer := walkDirectory_mono enough walked
  rw [pathTo_top] at longer
  have first : (settings.options.showDirs || !settings.filter) =
      showsDirectories settings.options := by
    rw [filtering]
    rfl
  simp only [main, parsed, longer, first]
  rfl

section Example

/-- A directory `/d` with a file `f`. -/
def directoryWithFile : FileSystem :=
  let withDirectory := (bare.mkdir [] (ascii "/d")).getD bare
  match withDirectory.openWrite [] (ascii "/d/f") with
  | some (opened, _) => opened
  | none => withDirectory

/-- A machine on which `scandir` finds the names of the entries last. -/
def hostOf (fs : FileSystem) (cwd : Location) : Host where
  fs := fs
  cwd := cwd
  regular _ := true
  order _ place := dot :: dotDot :: fs.names place
  listed _ _ _ := List.Perm.refl _

theorem main_lists_directory :
    ∃ entries,
      directoryWithFile.Preordered
          (fun place => dot :: dotDot :: directoryWithFile.names place) (Below []) entries ∧
        ∀ fuel, pathMax ≤ fuel →
          main (hostOf directoryWithFile []) fuel [ascii "-fs", ascii "/"] =
            some (0, (entries.filter fun place => chosen (hostOf directoryWithFile [])
              ⟨false, false, true, true⟩ place).map (pathTo (ascii "/") [])) := by
  have parsed : parseArgs [ascii "-fs", ascii "/"] =
      some ⟨⟨false, false, true, true⟩, true, ascii "/"⟩ := by decide
  have fits : PathsFit (hostOf directoryWithFile []) (ascii "/") [] := by
    intro place _ exists_place
    have all : ∀ place ∈ directoryWithFile.domain,
        (pathTo (ascii "/") [] place).length < pathMax := by decide +kernel
    exact all place (directoryWithFile.supported exists_place)
  exact main_lists (hostOf directoryWithFile []) _ _ [] parsed (by decide +kernel)
    directoryWithFile.root fits

end Example

end Osis.Lab01
