import Osis.Posix.FileSystem

/-!
# Listing trees

A listing of a tree names every directory before what is in it and goes through the
entries of a directory in some order, each with all that is below it. Every entry stands
in it once. A walk builds it entry by entry: what is below an entry, then the entry in front
of it (`Preordered.above`), then all this in front of its later siblings (`Preordered.siblings`).
-/

namespace Osis.Posix

/-- An entry is listed before what is below it, and two entries of one directory with what is
below them in the order of the directory. -/
def Precedes (order : Location → List Name) (earlier later : Location) : Prop :=
  (earlier <:+ later ∧ earlier ≠ later) ∨
    ∃ place name other, name :: place <:+ earlier ∧ other :: place <:+ later ∧ name ≠ other ∧
      [name, other].Sublist (order place)

namespace FileSystem

/-- All entries of some kind, listed in the order of their directories. -/
structure Preordered (fs : FileSystem) (order : Location → List Name) (within : Location → Prop)
    (entries : List Location) : Prop where
  mem : ∀ place, place ∈ entries ↔ within place ∧ fs.tree place ≠ none
  nodup : entries.Nodup
  ordered : entries.Pairwise (Precedes order)

variable {fs : FileSystem} {order : Location → List Name} {within within' : Location → Prop}
  {place found : Location} {name other : Name} {names : List Name} {own later : List Location}

/-- An entry is below one entry of a directory only. -/
theorem eq_of_suffixes (below : name :: place <:+ found) (below' : other :: place <:+ found) :
    name = other := by
  rcases List.suffix_or_suffix_of_suffix below below' with inner | inner
  · have same := inner.eq_of_length rfl
    exact (List.cons.inj same).1
  · have same := inner.eq_of_length rfl
    exact (List.cons.inj same).1.symm

/-- What is below a directory is below one of its entries. -/
theorem below_iff (exists_found : fs.tree found ≠ none) :
    place <:+ found ∧ found ≠ place ↔ ∃ name ∈ fs.names place, name :: place <:+ found := by
  constructor
  · rintro ⟨⟨front, rfl⟩, different⟩
    have some_front : front ≠ [] := by
      rintro rfl
      exact different rfl
    have last : front ++ place = front.dropLast ++ front.getLast some_front :: place := by
      rw [List.append_cons, List.dropLast_append_getLast]
    have below : front.getLast some_front :: place <:+ front ++ place := ⟨front.dropLast, last.symm⟩
    exact ⟨_, mem_names.mpr (tree_ne_none_of_suffix exists_found below), below⟩
  · rintro ⟨name, -, below⟩
    refine ⟨(List.suffix_cons name place).trans below, ?_⟩
    rintro rfl
    exact not_cons_suffix_self below

namespace Preordered

theorem nil (none_within : ∀ place, within place → fs.tree place = none) :
    fs.Preordered order within [] := by
  refine ⟨?_, List.nodup_nil, List.Pairwise.nil⟩
  intro place
  simp only [List.not_mem_nil, false_iff, not_and, not_not]
  exact none_within place

theorem congr (listed : fs.Preordered order within own)
    (same : ∀ place, fs.tree place ≠ none → (within place ↔ within' place)) :
    fs.Preordered order within' own := by
  refine ⟨?_, listed.nodup, listed.ordered⟩
  intro place
  rw [listed.mem]
  constructor
  · rintro ⟨inside, exists_place⟩
    exact ⟨(same place exists_place).mp inside, exists_place⟩
  · rintro ⟨inside, exists_place⟩
    exact ⟨(same place exists_place).mpr inside, exists_place⟩

/-- A directory stands in front of what is below it. -/
theorem above (listed : fs.Preordered order (fun found => place <:+ found ∧ found ≠ place) own)
    (exists_place : fs.tree place ≠ none) :
    fs.Preordered order (fun found => place <:+ found) (place :: own) := by
  refine ⟨?_, List.nodup_cons.mpr ⟨?_, listed.nodup⟩, List.pairwise_cons.mpr ⟨?_, listed.ordered⟩⟩
  · intro found
    rw [List.mem_cons, listed.mem]
    constructor
    · rintro (rfl | ⟨⟨below, -⟩, exists_found⟩)
      · exact ⟨List.suffix_refl _, exists_place⟩
      · exact ⟨below, exists_found⟩
    · rintro ⟨below, exists_found⟩
      by_cases here : found = place
      · exact Or.inl here
      · exact Or.inr ⟨⟨below, here⟩, exists_found⟩
  · intro inside
    exact ((listed.mem place).mp inside).1.2 rfl
  · intro found found_mem
    rcases (listed.mem found).mp found_mem with ⟨⟨below, different⟩, -⟩
    exact Or.inl ⟨below, different.symm⟩

/-- Nothing is below what is not a directory. -/
theorem leaf (exists_place : fs.tree place ≠ none)
    (no_directory : fs.tree place ≠ some .directory) :
    fs.Preordered order (fun found => place <:+ found) [place] := by
  apply above _ exists_place
  apply nil
  rintro found ⟨below, different⟩
  by_contra exists_found
  exact different (eq_of_suffix no_directory exists_found below).symm

/-- An entry with all that is below it stands in front of its later siblings. -/
theorem siblings (listed : fs.Preordered order (fun found => name :: place <:+ found) own)
    (listed_later : fs.Preordered order
      (fun found => ∃ other ∈ names, other :: place <:+ found) later)
    (in_order : (name :: names).Sublist (order place)) (once : name ∉ names) :
    fs.Preordered order (fun found => ∃ other ∈ name :: names, other :: place <:+ found)
      (own ++ later) := by
  refine ⟨?_, ?_, ?_⟩
  · intro found
    rw [List.mem_append, listed.mem, listed_later.mem, ← or_and_right]
    simp only [List.mem_cons, exists_eq_or_imp]
  · refine List.nodup_append.mpr ⟨listed.nodup, listed_later.nodup, ?_⟩
    rintro found found_mem _ later_mem rfl
    rcases ((listed_later.mem found).mp later_mem).1 with ⟨other, other_mem, below⟩
    rw [eq_of_suffixes ((listed.mem found).mp found_mem).1 below] at once
    exact once other_mem
  · refine List.pairwise_append.mpr ⟨listed.ordered, listed_later.ordered, ?_⟩
    intro found found_mem found' later_mem
    rcases ((listed_later.mem found').mp later_mem).1 with ⟨other, other_mem, below⟩
    refine Or.inr ⟨place, name, other, ((listed.mem found).mp found_mem).1, below, ?_, ?_⟩
    · rintro rfl
      exact once other_mem
    · exact ((List.singleton_sublist.mpr other_mem).cons_cons name).trans in_order

end Preordered

end FileSystem

end Osis.Posix
