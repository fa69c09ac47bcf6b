import Osis.Posix.Removal

/-!
# Moving entries

What a successful `rename` leaves, as a relation between two trees: the entry stands at
the other place with all that is in it. The exception are two names of one file, between
which nothing is done.
-/

namespace Osis.Posix.FileSystem

/-- An entry stands at another place with all that is in it, over what was there. -/
structure Moved (fs moved : FileSystem) (old new : Location) : Prop where
  inside : ∀ inside, moved.tree (inside ++ new) = fs.tree (inside ++ old)
  away : ∀ entry, old <:+ entry → moved.tree entry = none
  elsewhere : ∀ entry, ¬old <:+ entry → ¬new <:+ entry → moved.tree entry = fs.tree entry
  data : moved.data = fs.data
  fresh : moved.fresh = fs.fresh

variable {fs moved moved' : FileSystem} {cwd old new place : Location} {name : Name}
  {path oldPath newPath : Bytes}

theorem moved_move {below_root : old ≠ []} {above : fs.tree place = some .directory}
    {valid : ValidName name} {apart : ¬old <:+ name :: place} (beside : ¬name :: place <:+ old) :
    fs.Moved (fs.move old name place below_root above valid apart) old (name :: place) := by
  refine ⟨fun _ => tree_move_append _, ?_, ?_, rfl, rfl⟩
  · intro entry below
    rw [tree_move]
    split
    · next inside =>
        rcases List.suffix_or_suffix_of_suffix below inside with above_new | above_old
        · exact absurd above_new apart
        · exact absurd above_old beside
    · rfl
  · intro entry outside_old outside_new
    rw [tree_move, if_neg outside_new, if_neg outside_old]

namespace Moved

theorem tree_new (moves : fs.Moved moved old new) : moved.tree new = fs.tree old :=
  moves.inside []

theorem tree_old (moves : fs.Moved moved old new) : moved.tree old = none :=
  moves.away old (List.suffix_refl _)

/-- The three ways in which an entry of the tree that is left came there. -/
theorem tree_cases (moves : fs.Moved moved old new) (entry : Location) :
    (∃ inside, entry = inside ++ new ∧ moved.tree entry = fs.tree (inside ++ old)) ∨
      old <:+ entry ∧ moved.tree entry = none ∨
      ¬old <:+ entry ∧ ¬new <:+ entry ∧ moved.tree entry = fs.tree entry := by
  by_cases below_new : new <:+ entry
  · rcases below_new with ⟨inside, rfl⟩
    exact .inl ⟨inside, rfl, moves.inside inside⟩
  · by_cases below_old : old <:+ entry
    · exact .inr (.inl ⟨below_old, moves.away entry below_old⟩)
    · exact .inr (.inr ⟨below_old, below_new, moves.elsewhere entry below_old below_new⟩)

/-- The tree that is left is determined. -/
theorem unique (moves : fs.Moved moved old new) (moves' : fs.Moved moved' old new) :
    moved.tree = moved'.tree := by
  funext entry
  rcases moves.tree_cases entry with ⟨inside, rfl, same⟩ | ⟨below_old, absent⟩ |
    ⟨outside_old, outside_new, same⟩
  · rw [same, moves'.inside]
  · rw [absent, moves'.away entry below_old]
  · rw [same, moves'.elsewhere entry outside_old outside_new]

/-- Apart from what is moved over, the tree that is left agrees with the one before. -/
theorem agree (moves : fs.Moved moved old new) (below_root : new ≠ []) :
    (fs.remove new below_root).Agree moved := by
  intro entry exists_here exists_there
  rw [tree_remove] at exists_here ⊢
  split at exists_here
  · exact absurd rfl exists_here
  · next outside_new =>
      rw [if_neg outside_new]
      rcases moves.tree_cases entry with ⟨inside, rfl, -⟩ | ⟨-, absent⟩ | ⟨-, -, same⟩
      · exact absurd ⟨inside, rfl⟩ outside_new
      · exact absurd absent exists_there
      · exact same.symm

end Moved

/-- Of two names of one file the other is left where one is removed. -/
theorem moved_of_removed (without : fs.Without moved fun entry => entry = old)
    (leaf : fs.tree old ≠ some .directory) (same : fs.tree new = fs.tree old)
    (different : new ≠ old) : fs.Moved moved old new := by
  refine ⟨?_, ?_, ?_, without.data, without.fresh⟩
  · intro inside
    by_cases itself : inside = []
    · rw [itself, List.nil_append, List.nil_append, without.present _ different, same]
    · have nothing : fs.tree (inside ++ old) = none := by
        by_contra exists_inside
        have here := eq_of_suffix leaf exists_inside ⟨inside, rfl⟩
        exact itself (List.self_eq_append_left.mp here)
      rw [nothing]
      by_contra exists_inside
      rw [← without.extended _ exists_inside] at exists_inside
      have here := eq_of_suffix (same ▸ leaf) exists_inside ⟨inside, rfl⟩
      exact itself (List.self_eq_append_left.mp here)
  · intro entry below
    by_contra exists_entry
    have before := without.extended _ exists_entry
    have here := eq_of_suffix leaf (before ▸ exists_entry) below
    exact exists_entry (without.absent _ here.symm)
  · intro entry outside_old _
    apply without.present
    rintro rfl
    exact outside_old (List.suffix_refl _)

/-- Nothing is in an entry that something may be moved over. -/
theorem names_of_replaceable {node : Node} (replaceable : fs.replaceable node place = true) :
    fs.names place = [] := by
  unfold FileSystem.replaceable at replaceable
  split at replaceable
  · next absent => exact names_of_leaf (by simp [absent])
  · simp only [Bool.and_eq_true, decide_eq_true_eq] at replaceable
    exact replaceable.2
  · next other leaf found => exact names_of_leaf (by simpa [found] using leaf)

/-- A successful `rename` moves the entry or has found two names of one file. -/
theorem rename_moved (renamed : fs.rename cwd oldPath newPath = some moved) :
    ∃ oldName oldPlace name place, fs.entryOf cwd oldPath = some (oldName, oldPlace) ∧
      fs.entryOf cwd newPath = some (name, place) ∧ fs.tree (oldName :: oldPlace) ≠ none ∧
      (fs.sameFile (oldName :: oldPlace) (name :: place) = true ∧ moved = fs ∨
        fs.sameFile (oldName :: oldPlace) (name :: place) = false ∧
          fs.names (name :: place) = [] ∧
          fs.Moved moved (oldName :: oldPlace) (name :: place)) := by
  rcases rename_eq_some renamed with ⟨oldName, oldPlace, name, place, node, old_named, named, found,
    -, same | ⟨different, replaceable, beside, above, valid, apart, rfl⟩⟩
  · exact ⟨oldName, oldPlace, name, place, old_named, named, ne_none_of_eq_some found, .inl same⟩
  · exact ⟨oldName, oldPlace, name, place, old_named, named, ne_none_of_eq_some found,
      .inr ⟨different, names_of_replaceable replaceable, moved_move beside⟩⟩

end Osis.Posix.FileSystem
