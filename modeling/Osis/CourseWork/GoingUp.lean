import Osis.CourseWork.Browse

/-!
# Going up in the browser

The directory the browser shows is a path, and Backspace cuts it at its last slash. That
leads to the parent directory where the cut takes a name off. It does not where it takes off a
dot entry, which Enter puts there as it puts any name, nor where the path has no slash: there
Backspace goes to the root.
-/

namespace Osis.CourseWork

open Posix Concurrency

def NoLinks (fs : FileSystem) : Prop :=
  ∀ place inode target, fs.tree place ≠ some (.link inode target)

/-- A path leads to a directory. -/
def Shows (fs : FileSystem) (proc : Location) (path : Bytes) (place : Location) : Prop :=
  fs.resolve proc path = some place ∧ fs.tree place = some .directory

/-- A key that runs no command on an item. -/
def Key.Navigates : Key → Prop
  | .delete | .restore | .purge | .purgeAll => False
  | _ => True

/-- `cmd_browse` of a directory in a tree without links. -/
def navigating (proc : Location) (base startDir : Bytes) : System Browse (Key × KeyAnswers) where
  initial state := (browsing proc base startDir).initial state ∧ NoLinks state.files ∧
    ∃ place, Shows state.files proc startDir place
  next := (browsing proc base startDir).next

/-- What is behind the last slash is a name, or is behind the root; a path without a slash is the
root or in the root. -/
def CutsAName (fs : FileSystem) (proc : Location) (cwd : Bytes) : Prop :=
  if slash ∈ cwd then
    cwd.rtakeWhile (· ≠ slash) ∈ [[], dot, dotDot] →
      fs.resolve proc (cwd.rdropWhile (· ≠ slash)) = some []
  else ∃ place, fs.resolve proc cwd = some place ∧ place.tail = []

variable {proc place : Location} {base startDir : Bytes} {state successor : Browse} {key : Key}
  {answers : KeyAnswers} {fs : FileSystem} {path front : Bytes} {name : Name}

section Paths

theorem Shows.unique {other : Location} (shown : Shows fs proc path place)
    (shown' : Shows fs proc path other) : place = other :=
  Option.some.inj (shown.1.symm.trans shown'.1)

theorem shows_root (fs : FileSystem) (proc : Location) : Shows fs proc [slash] [] :=
  ⟨FileSystem.resolve_pathString (Or.inl fs.root) (by decide), fs.root⟩

theorem parentPath_of_no_slash (unslashed : slash ∉ path) : parentPath path = [slash] := by
  have cut : path.rdropWhile (· ≠ slash) = [] := by
    apply List.rdropWhile_eq_nil_iff.mpr
    intro byte byte_mem
    simp only [decide_eq_true_eq]
    rintro rfl
    exact unslashed byte_mem
  rw [parentPath, cut]
  simp

theorem parentPath_of_cut (cut : path.rdropWhile (· ≠ slash) = front ++ [slash]) :
    parentPath path = if front = [] then [slash] else front := by
  rw [parentPath, cut]
  by_cases atStart : front = []
  · simp [atStart]
  · simp [atStart]

/-- One step of a walk in a tree without links. -/
theorem step_cases {above : Location} {left : ℕ} (noLinks : NoLinks fs)
    (walked : fs.walk false left above [name] = some place) :
    place = if name = dot then above else if name = dotDot then above.tail else name :: above := by
  rcases FileSystem.walk_eq_walkWith fs false left with ⟨follow, walk_eq⟩
  rw [walk_eq] at walked
  rcases FileSystem.walkWith_cons_cases walked with ⟨isDot, further⟩ | ⟨isDotDot, further⟩ |
    ⟨plain, further⟩ | ⟨inode, target, link, -⟩ | ⟨-, -, -, ⟨⟩, -⟩
  · rw [if_pos isDot]
    exact (Option.some.inj further).symm
  · have notDot : name ≠ dot := by
      rw [isDotDot]
      decide
    rw [if_neg notDot, if_pos isDotDot]
    exact (Option.some.inj further).symm
  · have valid := fs.named plain.ne_none
    rw [if_neg valid.ne_dot, if_neg valid.ne_dotDot]
    exact (Option.some.inj further).symm
  · exact absurd link (noLinks _ _ _)

/-- What a directory behind the last slash of a path is to the directory in front of it. -/
theorem shown_cases (noLinks : NoLinks fs) (some_front : front ≠ []) (no_slash : slash ∉ name)
    (shown : Shows fs proc (front ++ slash :: name) place) :
    ∃ above, Shows fs proc front above ∧
      place = if name = [] ∨ name = dot then above else if name = dotDot then above.tail
        else name :: above := by
  rcases FileSystem.exists_of_resolve_append some_front no_slash shown.1 with
    ⟨above, left, resolved, directory, walked⟩
  refine ⟨above, ⟨resolved, directory⟩, ?_⟩
  have stepped := step_cases noLinks walked
  by_cases empty : name = []
  · simpa [empty] using stepped
  · simpa [empty] using stepped

/-- A name behind a slash at the start of a path is of the root or in it. -/
theorem tail_of_absolute (noLinks : NoLinks fs) (no_slash : slash ∉ name)
    (shown : Shows fs proc (slash :: name) place) : place.tail = [] := by
  rcases FileSystem.resolve_eq_some.mp shown.1 with ⟨-, -, walked⟩
  have steps_eq : steps (slash :: name) = [if name = [] then dot else name] :=
    @steps_append_name [] name no_slash
  rw [steps_eq] at walked
  have stepped := step_cases noLinks walked
  generalize (if name = [] then dot else name) = last at stepped
  rw [stepped]
  split
  · rfl
  · split <;> rfl

/-- What Backspace leads to is a directory. -/
theorem exists_shows_parentPath (shown : Shows fs proc path place) :
    ∃ above, Shows fs proc (parentPath path) above := by
  by_cases slashed : slash ∈ path
  · rcases exists_cut slashed with ⟨front, cut, path_eq⟩
    rw [parentPath_of_cut cut]
    split
    · exact ⟨[], shows_root fs proc⟩
    · rename_i some_front
      have resolved := shown.1
      rw [path_eq] at resolved
      rcases FileSystem.exists_of_resolve_append some_front (no_slash_rtakeWhile path) resolved
        with ⟨above, left, resolved_front, directory, -⟩
      exact ⟨above, resolved_front, directory⟩
  · rw [parentPath_of_no_slash slashed]
    exact ⟨[], shows_root fs proc⟩

theorem eq_tail_iff (place : Location) : place = place.tail ↔ place = [] := by
  cases place with
  | nil => simp
  | cons name above => simp

theorem eq_tail_tail_iff (place : Location) : place = place.tail.tail ↔ place = [] := by
  cases place with
  | nil => simp
  | cons name above =>
      simp only [List.tail_cons, reduceCtorEq, iff_false]
      intro same
      have lengths := congrArg List.length same
      rw [List.length_cons, List.length_tail] at lengths
      omega

/-- Backspace leads to the parent directory exactly where it cuts a name off. -/
theorem shows_parentPath_iff (noLinks : NoLinks fs) (shown : Shows fs proc path place) :
    Shows fs proc (parentPath path) place.tail ↔ CutsAName fs proc path := by
  by_cases slashed : slash ∈ path
  · rcases exists_cut slashed with ⟨front, cut, path_eq⟩
    have no_slash := no_slash_rtakeWhile path
    rw [CutsAName, if_pos slashed, parentPath_of_cut cut, cut]
    generalize path.rtakeWhile (· ≠ slash) = name at path_eq no_slash ⊢
    subst path_eq
    by_cases atStart : front = []
    · subst atStart
      have above_root := tail_of_absolute noLinks no_slash shown
      rw [if_pos rfl, above_root]
      exact iff_of_true (shows_root fs proc) fun _ => (shows_root fs proc).1
    · rcases resolved : FileSystem.resolve_eq_some.mp shown.1 with ⟨-, short, -⟩
      rcases shown_cases noLinks atStart no_slash shown with ⟨above, above_shown, place_eq⟩
      have leads_above : Shows fs proc front place.tail ↔ above = place.tail :=
        ⟨above_shown.unique, fun same => same ▸ above_shown⟩
      have at_root : fs.resolve proc (front ++ [slash]) = some [] ↔ above = [] := by
        rw [FileSystem.resolve_concat_slash atStart (by simp at short; omega)]
        exact ⟨above_shown.unique, fun same => same ▸ above_shown⟩
      rw [if_neg atStart, leads_above, at_root, place_eq]
      by_cases stays : name = [] ∨ name = dot
      · have stays_mem : name ∈ [[], dot, dotDot] := by
          rcases stays with rfl | rfl <;> simp
        rw [if_pos stays, eq_tail_iff]
        exact ⟨fun top _ => top, fun top => top stays_mem⟩
      · rw [if_neg stays]
        by_cases isDotDot : name = dotDot
        · rw [if_pos isDotDot, eq_tail_tail_iff]
          exact ⟨fun top _ => top, fun top => top (by simp [isDotDot])⟩
        · rw [if_neg isDotDot]
          apply iff_of_true rfl
          intro dots
          simp only [List.mem_cons, List.not_mem_nil, or_false] at dots
          rcases dots with isEmpty | isDot | isDotDot'
          · exact absurd (Or.inl isEmpty) stays
          · exact absurd (Or.inr isDot) stays
          · exact absurd isDotDot' isDotDot
  · have no_name : CutsAName fs proc path ↔ place.tail = [] := by
      rw [CutsAName, if_neg slashed]
      constructor
      · rintro ⟨other, resolved, other_top⟩
        rwa [Option.some.inj (shown.1.symm.trans resolved)]
      · intro top
        exact ⟨place, shown.1, top⟩
    rw [no_name, parentPath_of_no_slash slashed]
    constructor
    · intro shown_tail
      exact shown_tail.unique (shows_root fs proc)
    · intro top
      rw [top]
      exact shows_root fs proc

end Paths

section Runs

theorem exists_shows_of_stat (found : fs.stat proc path = some .directory) :
    ∃ place, Shows fs proc path place :=
  Option.bind_eq_some_iff.mp found

/-- The files stay as they are, and the path is that of a directory or the one Backspace
leaves. -/
theorem handle_navigates (navigates : key.Navigates)
    (handled : handle proc base answers state key = some successor) :
    successor.files = state.files ∧
      (successor.cwd = state.cwd ∨ successor.cwd = parentPath state.cwd ∨
        ∃ place, Shows state.files proc successor.cwd place) := by
  cases key with
  | toggle =>
      cases handled
      exact ⟨rfl, Or.inl rfl⟩
  | up =>
      cases handled
      split <;> exact ⟨rfl, Or.inl rfl⟩
  | down =>
      cases handled
      split <;> exact ⟨rfl, Or.inl rfl⟩
  | enter =>
      cases handled
      unfold pressEnter
      split
      · split
        · rename_i found
          exact ⟨rfl, Or.inr (Or.inr (exists_shows_of_stat found))⟩
        · exact ⟨rfl, Or.inl rfl⟩
      · exact ⟨rfl, Or.inl rfl⟩
  | backspace =>
      cases handled
      unfold pressBackspace
      split
      · exact ⟨rfl, Or.inr (Or.inl rfl)⟩
      · exact ⟨rfl, Or.inl rfl⟩
  | delete => exact navigates.elim
  | restore => exact navigates.elim
  | purge => exact navigates.elim
  | purgeAll => exact navigates.elim
  | resize rows =>
      cases handled
      exact ⟨rfl, Or.inl rfl⟩
  | other =>
      cases handled
      exact ⟨rfl, Or.inl rfl⟩

/-- The browser always shows a directory. -/
theorem shows_of_reachable
    (reached : (navigating proc base startDir).ReachableUnder
      (fun _ step => step.1.Navigates) state) :
    NoLinks state.files ∧ ∃ place, Shows state.files proc state.cwd place := by
  apply reached.invariant
  · rintro state ⟨⟨-, -, -, started⟩, noLinks, place, shown⟩
    rcases FileSystem.resolve_eq_some.mp shown.1 with ⟨-, short, -⟩
    rw [List.take_of_length_le (Nat.le_sub_one_of_lt short)] at started
    rw [started]
    exact ⟨noLinks, place, shown⟩
  · rintro state ⟨key, answers⟩ successor ⟨noLinks, place, shown⟩ navigates pressed
    rcases Option.map_eq_some_iff.mp pressed with ⟨handled, handles, rfl⟩
    rcases handle_navigates navigates handles with ⟨files_eq, leads⟩
    rw [drawList_files, drawList_cwd, files_eq]
    refine ⟨noLinks, ?_⟩
    rcases leads with same | cut | found
    · rw [same]
      exact ⟨place, shown⟩
    · rw [cut]
      exact exists_shows_parentPath shown
    · exact found

/-- Backspace shows the parent of the directory shown before exactly where it cuts a name off the
path. -/
theorem backspace_goesUp_iff
    (reached : (navigating proc base startDir).ReachableUnder
      (fun _ step => step.1.Navigates) state)
    (inFs : state.mode = .fs) (answers : KeyAnswers) :
    ∃ shown, Shows state.files proc state.cwd shown ∧
      ((∀ successor,
        (navigating proc base startDir).next state (.backspace, answers) = some successor →
          Shows successor.files proc successor.cwd shown.tail) ↔
        CutsAName state.files proc state.cwd) := by
  rcases shows_of_reachable reached with ⟨noLinks, shown, shows_it⟩
  refine ⟨shown, shows_it, ?_⟩
  rw [← shows_parentPath_iff noLinks shows_it]
  have pressed :
      (navigating proc base startDir).next state (.backspace, answers) =
        some (drawList proc base { state with
          cwd := parentPath state.cwd, highlight := 0, scrollOffset := 0 }) := by
    simp only [navigating, browsing, press, handle, pressBackspace, inFs, Option.map_some]
  constructor
  · intro goes
    have leads := goes _ pressed
    rwa [drawList_files, drawList_cwd] at leads
  · intro goes successor taken
    rw [pressed, Option.some.injEq] at taken
    rw [← taken, drawList_files, drawList_cwd]
    exact goes

end Runs

section Examples

theorem validName_d : ValidName (ascii "d") := by decide

theorem validName_e : ValidName (ascii "e") := by decide

/-- Directories have no inode in the model. -/
theorem allocated_directory {fresh : ℕ} :
    ∀ inode, Node.directory.inode? = some inode → inode < fresh := by
  intro inode numbered
  cases numbered

/-- The directory `/d`. -/
def single : FileSystem :=
  FileSystem.bare.insert (ascii "d") [] .directory (FileSystem.bare_free _ _) FileSystem.bare.root
    validName_d allocated_directory

theorem single_free : single.tree [ascii "e", ascii "d"] = none := rfl

theorem single_directory : single.tree [ascii "d"] = some .directory := rfl

/-- The directories `/d` and `/d/e`. -/
def nested : FileSystem :=
  single.insert (ascii "e") [ascii "d"] .directory single_free single_directory validName_e
    allocated_directory

theorem noLinks_nested : NoLinks nested := by
  intro place inode target
  simp only [nested, single, FileSystem.insert, FileSystem.bare]
  split
  · simp
  · split
    · simp
    · split <;> simp

/-- The browser in this tree. -/
def nestedAt (cwd : Bytes) : Browse := ⟨nested, .fs, 0, 0, 24, cwd⟩

def nestedAnswers : KeyAnswers :=
  ⟨[dot, dotDot], [], [], fun _ => 0, id, false, noRefusals,
    fun _ => ⟨fun _ => false, false, false, []⟩⟩

theorem shows_nested : Shows nested [] (ascii "/d/e") [ascii "e", ascii "d"] :=
  ⟨by decide +kernel, by decide +kernel⟩

theorem shows_dot : Shows nested [ascii "e", ascii "d"] (ascii ".") [ascii "e", ascii "d"] :=
  ⟨by decide +kernel, by decide +kernel⟩

theorem initial_nested : (navigating [] (ascii ".") (ascii "/d/e")).initial
    (nestedAt (ascii "/d/e")) :=
  ⟨⟨rfl, rfl, rfl, by decide⟩, noLinks_nested, _, shows_nested⟩

theorem initial_dot : (navigating [ascii "e", ascii "d"] (ascii ".") (ascii ".")).initial
    (nestedAt (ascii ".")) :=
  ⟨⟨rfl, rfl, rfl, by decide⟩, noLinks_nested, _, shows_dot⟩

/-- Going up from a directory given by its absolute path. -/
theorem backspace_nested :
    ∃ shown, Shows nested [] (ascii "/d/e") shown ∧
      ∀ successor,
        (navigating [] (ascii ".") (ascii "/d/e")).next (nestedAt (ascii "/d/e"))
            (.backspace, nestedAnswers) = some successor →
          Shows successor.files [] successor.cwd shown.tail := by
  have cuts : CutsAName nested [] (ascii "/d/e") := by
    rw [CutsAName, if_pos (by decide)]
    intro special
    exact absurd special (by decide)
  rcases backspace_goesUp_iff (.start initial_nested) rfl nestedAnswers with
    ⟨shown, shows_it, goesUp_iff⟩
  exact ⟨shown, shows_it, goesUp_iff.mpr cuts⟩

/-- The browser started on `.` goes to the root. -/
theorem not_goesUp_dot :
    ¬ ∀ (proc shown : Location) (base startDir : Bytes) (state successor : Browse)
      (answers : KeyAnswers),
      (navigating proc base startDir).ReachableUnder (fun _ step => step.1.Navigates) state →
      state.mode = .fs → Shows state.files proc state.cwd shown →
      (navigating proc base startDir).next state (.backspace, answers) = some successor →
        Shows successor.files proc successor.cwd shown.tail := by
  intro claimed
  have goes := claimed [ascii "e", ascii "d"] [ascii "e", ascii "d"] (ascii ".") (ascii ".")
    (nestedAt (ascii ".")) (nestedAt (ascii "/")) nestedAnswers (.start initial_dot) rfl shows_dot
    rfl
  have top : Shows nested [ascii "e", ascii "d"] (ascii "/") [] := shows_root nested _
  exact absurd (goes.unique top) (by decide)

end Examples

end Osis.CourseWork
