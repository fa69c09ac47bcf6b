import Osis.CourseWork.Selection

/-!
# The window of the browser

`draw_list` moves the window of the trash view so that the selected item is in it. For a
directory it draws from `scroll_offset`, which no key of this mode moves from 0: the
selected item is on the screen as long as it is among the first rows.
-/

namespace Osis.CourseWork

open Posix Concurrency

/-- The selected item is among the rows drawn, given at least one row. -/
def OnScreen (proc : Location) (base : Bytes) (state : Browse) : Prop :=
  1 ≤ visibleItems state.rows → 0 ≤ state.highlight →
    state.highlight < itemsCount proc base state →
    state.scrollOffset ≤ state.highlight ∧
      state.highlight < state.scrollOffset + visibleItems state.rows

/-- In a directory a key does not leave the first rows: neither by moving down nor by making the
terminal smaller. -/
def AmongFirstRows (proc : Location) (base : Bytes) (state : Browse)
    (step : Key × KeyAnswers) : Prop :=
  match step.1, state.mode with
  | .down, .fs =>
      state.highlight + 1 < visibleItems state.rows ∨
        itemsCount proc base state ≤ state.highlight + 1
  | .resize rows, .fs => state.highlight = 0 ∨ state.highlight < visibleItems rows
  | _, _ => True

/-- What is kept: a directory is drawn from its first item on, and a window of the trash view
that was drawn has the selected item. -/
structure Windowed (proc : Location) (base : Bytes) (state : Browse) : Prop where
  fs : state.mode = .fs → state.scrollOffset = 0 ∧ 0 ≤ state.highlight ∧
    (state.highlight = 0 ∨ state.highlight < visibleItems state.rows)
  trash : state.mode = .trash → trashCount proc base state.files ≠ 0 →
    1 ≤ visibleItems state.rows → state.scrollOffset ≤ state.highlight ∧
      state.highlight < state.scrollOffset + visibleItems state.rows

variable {proc : Location} {base : Bytes} {state successor : Browse} {answers : KeyAnswers}
  {key : Key}

theorem Windowed.onScreen (windowed : Windowed proc base state) : OnScreen proc base state := by
  intro some_row nonneg inside
  cases mode_eq : state.mode with
  | fs =>
      rcases windowed.fs mode_eq with ⟨top, -, first | within⟩ <;> omega
  | trash =>
      have some_item : trashCount proc base state.files ≠ 0 := by
        simp only [itemsCount, mode_eq] at inside
        omega
      exact windowed.trash mode_eq some_item some_row

/-- Drawing puts the selected item of the trash view on the screen. -/
theorem windowed_drawList
    (first : state.mode = .fs → state.scrollOffset = 0 ∧ 0 ≤ state.highlight ∧
      (state.highlight = 0 ∨ state.highlight < visibleItems state.rows)) :
    Windowed proc base (drawList proc base state) := by
  constructor
  · intro inFs
    rw [drawList_mode] at inFs
    rcases drawList_eq proc base state with ⟨scrollOffset, drawn, same⟩
    rw [drawn, same inFs]
    exact first inFs
  · intro inTrash some_item some_row
    rw [drawList_mode] at inTrash
    rw [drawList_files] at some_item
    rw [drawList_rows] at some_row
    simp only [drawList, inTrash, some_item, if_false]
    split
    · exact ⟨Int.le_refl _, by simp only; omega⟩
    · split
      · simp only
        omega
      · omega

/-- The toggle apart, a key stays in its mode. -/
theorem mode_handle (no_toggle : key ≠ .toggle)
    (handled : handle proc base answers state key = some successor) :
    successor.mode = state.mode := by
  cases key with
  | toggle => exact absurd rfl no_toggle
  | up =>
      cases handled
      split <;> rfl
  | down =>
      cases handled
      split <;> rfl
  | enter =>
      cases handled
      unfold pressEnter
      split
      · split <;> rfl
      · rfl
  | backspace =>
      cases handled
      unfold pressBackspace
      split <;> rfl
  | delete =>
      cases handled
      unfold pressDelete
      split <;> rfl
  | restore =>
      simp only [handle, pressRestore] at handled
      split at handled
      · cases handled
        rfl
      · rcases Option.map_eq_some_iff.mp handled with ⟨entries, -, rfl⟩
        rw [drawList_mode]
        split <;> rfl
  | purge =>
      simp only [handle, pressPurge] at handled
      split at handled
      · cases handled
        rfl
      · rcases Option.map_eq_some_iff.mp handled with ⟨entries, -, rfl⟩
        rw [drawList_mode]
        split
        · rfl
        · split <;> rfl
  | purgeAll =>
      simp only [handle, pressPurgeAll] at handled
      split at handled
      · cases handled
        rfl
      · rcases Option.map_eq_some_iff.mp handled with ⟨result, -, rfl⟩
        rfl
  | resize rows =>
      cases handled
      rfl
  | other =>
      cases handled
      rfl

/-- In a directory only moving down and making the terminal smaller lead away from the first
rows. -/
theorem first_handle (windowed : Windowed proc base state)
    (among : AmongFirstRows proc base state (key, answers))
    (handled : handle proc base answers state key = some successor)
    (inFs : successor.mode = .fs) :
    successor.scrollOffset = 0 ∧ 0 ≤ successor.highlight ∧
      (successor.highlight = 0 ∨ successor.highlight < visibleItems successor.rows) := by
  by_cases toggles : key = .toggle
  · subst toggles
    cases handled
    exact ⟨rfl, Int.le_refl _, Or.inl rfl⟩
  · have wasFs : state.mode = .fs := by rw [← mode_handle toggles handled, inFs]
    have before := windowed.fs wasFs
    cases key with
    | toggle => exact absurd rfl toggles
    | up =>
        cases handled
        split
        · simp only
          omega
        · exact before
    | down =>
        simp only [AmongFirstRows, wasFs] at among
        cases handled
        split
        · simp only
          omega
        · exact before
    | enter =>
        cases handled
        unfold pressEnter
        split
        · split
          · exact ⟨rfl, Int.le_refl _, Or.inl rfl⟩
          · exact before
        · exact before
    | backspace =>
        cases handled
        unfold pressBackspace
        split
        · exact ⟨rfl, Int.le_refl _, Or.inl rfl⟩
        · exact before
    | delete =>
        cases handled
        unfold pressDelete
        split <;> exact before
    | restore =>
        simp only [handle, pressRestore, wasFs, Option.some.injEq] at handled
        exact handled ▸ before
    | purge =>
        simp only [handle, pressPurge, wasFs, Option.some.injEq] at handled
        exact handled ▸ before
    | purgeAll =>
        simp only [handle, pressPurgeAll, wasFs, Option.some.injEq] at handled
        exact handled ▸ before
    | resize rows =>
        simp only [AmongFirstRows, wasFs] at among
        cases handled
        exact ⟨before.1, before.2.1, among⟩
    | other =>
        cases handled
        exact before

/-- The selected item is on the screen as long as no key leads away from the first rows of a
directory. -/
theorem onScreen_of_reachable {startDir : Bytes}
    (reached : (browsing proc base startDir).ReachableUnder (AmongFirstRows proc base) state) :
    OnScreen proc base state := by
  apply Windowed.onScreen
  apply reached.invariant
  · rintro state ⟨inFs, first, top, -⟩
    refine ⟨fun _ => ⟨top, Int.le_of_eq first.symm, Or.inl first⟩, ?_⟩
    intro inTrash
    rw [inFs] at inTrash
    cases inTrash
  · intro state step successor windowed among pressed
    rcases Option.map_eq_some_iff.mp pressed with ⟨handled, handles, rfl⟩
    exact windowed_drawList (first_handle windowed among handles)

section Examples

/-- The browser in a directory, on a terminal with one row for items. -/
def oneRowAt (highlight : ℤ) : Browse := ⟨oneFile, .fs, highlight, 0, 4, ascii "/"⟩

theorem initial_oneRow : (browsing [] (ascii ".") (ascii "/")).initial (oneRowAt 0) :=
  ⟨rfl, rfl, rfl, by decide⟩

/-- Making the terminal larger and moving down. -/
theorem onScreen_larger : OnScreen [] (ascii ".") (oneFileAt 1) := by
  have larger : (browsing [] (ascii ".") (ascii "/")).ReachableUnder
      (AmongFirstRows [] (ascii ".")) (oneFileAt 0) :=
    .step (.start initial_oneRow) (by exact Or.inl rfl)
      (by rfl : (browsing [] (ascii ".") (ascii "/")).next (oneRowAt 0)
        (.resize 24, oneFileAnswers) = some (oneFileAt 0))
  exact onScreen_of_reachable
    (.step larger (by exact Or.inl (by decide)) (press_down_oneFile (by decide)))

/-- The second item of a directory is not drawn on a terminal with one row for items. -/
theorem not_onScreen_second :
    ¬ ∀ (proc : Location) (base startDir : Bytes) (state : Browse),
      (browsing proc base startDir).Reachable state → OnScreen proc base state := by
  intro claimed
  have count : fsCount [] oneFile (ascii "/") = 3 := by decide +kernel
  have pressed : (browsing [] (ascii ".") (ascii "/")).next (oneRowAt 0) (.down, oneFileAnswers) =
      some (oneRowAt 1) := by
    simp only [browsing, press, handle, oneRowAt, itemsCount, count]
    rfl
  have shown := claimed [] (ascii ".") (ascii "/") _
    (.step (.start initial_oneRow) trivial pressed)
  have inside : (oneRowAt 1).highlight < itemsCount [] (ascii ".") (oneRowAt 1) := by
    decide +kernel
  exact absurd (shown (by decide) (by decide) inside).2 (by decide)

end Examples

end Osis.CourseWork
