import Mathlib.Data.List.Lex
import Mathlib.Order.Lattice

/-!
# Sorting with a comparison function

`qsort` leaves a rearrangement in the order of its comparison function and does not say
in which order elements stand that compare equal. The result is settled by the elements
alone exactly if no two of them compare equal: already a stable sort gives such a pair in
the order in which it was handed over.
-/

namespace Osis.Posix

universe u v

section Lexicographic

variable {κ : Type v} [LinearOrder κ]

theorem nil_le (list : List κ) : [] ≤ list := by
  apply not_lt.mp
  exact List.not_lt_nil list

theorem cons_le_cons_iff {a b : κ} {left right : List κ} :
    a :: left ≤ b :: right ↔ a < b ∨ a = b ∧ left ≤ right := by
  have flipped : b :: right < a :: left ↔ b < a ∨ b = a ∧ right < left := List.cons_lt_cons_iff
  rw [← not_lt, flipped, not_or, not_and, not_lt, not_lt]
  constructor
  · rintro ⟨le, tail⟩
    rcases le.lt_or_eq with lt | same
    · exact Or.inl lt
    · exact Or.inr ⟨same, tail same.symm⟩
  · rintro (lt | ⟨same, tail⟩)
    · exact ⟨lt.le, fun same => absurd same lt.ne'⟩
    · exact ⟨same.le, fun _ => tail⟩

end Lexicographic

variable {α : Type u} {κ : Type v} [LinearOrder κ]

/-- A comparison function that looks at a key of the elements. -/
def ComparesBy (cmp : α → α → ℤ) (key : α → κ) : Prop := ∀ a b, cmp a b ≤ 0 ↔ key a ≤ key b

/-- A correct sorting algorithm. -/
structure Sorts (cmp : α → α → ℤ) (sort : List α → List α) : Prop where
  permuted : ∀ elements, (sort elements).Perm elements
  sorted : ∀ elements, (sort elements).Pairwise fun a b => cmp a b ≤ 0

/-- Two elements stand in one order only in a list without repetitions. -/
theorem eq_of_pair_sublist {elements : List α} {a b : α} (nodup : elements.Nodup)
    (forth : [a, b].Sublist elements) (back : [b, a].Sublist elements) : a = b := by
  induction elements with
  | nil => cases forth
  | cons first rest ih =>
      rcases List.nodup_cons.mp nodup with ⟨first_once, rest_nodup⟩
      rcases List.sublist_cons_iff.mp forth with forth_rest | ⟨tail, forth_eq, tail_forth⟩
      · rcases List.sublist_cons_iff.mp back with back_rest | ⟨tail, back_eq, tail_back⟩
        · exact ih rest_nodup forth_rest back_rest
        · rcases List.cons.inj back_eq with ⟨rfl, rfl⟩
          exact absurd (forth_rest.subset (by simp)) first_once
      · rcases List.cons.inj forth_eq with ⟨rfl, rfl⟩
        rcases List.sublist_cons_iff.mp back with back_rest | ⟨tail, back_eq, _⟩
        · exact absurd (back_rest.subset (by simp)) first_once
        · exact (List.cons.inj back_eq).1.symm

theorem pair_sublist_or {elements : List α} {a b : α} (a_mem : a ∈ elements)
    (b_mem : b ∈ elements) (different : a ≠ b) :
    [a, b].Sublist elements ∨ [b, a].Sublist elements := by
  rcases List.append_of_mem a_mem with ⟨before, behind, rfl⟩
  rcases List.mem_append.mp b_mem with b_before | b_behind
  · right
    exact (List.singleton_sublist.mpr b_before).append
      (List.singleton_sublist.mpr List.mem_cons_self)
  · left
    have b_later := (List.mem_cons.mp b_behind).resolve_left different.symm
    apply List.Sublist.trans _ (List.sublist_append_right before _)
    exact List.Sublist.cons_cons a (List.singleton_sublist.mpr b_later)

namespace ComparesBy

variable {cmp : α → α → ℤ} {key : α → κ}

/-- The comparison as a test. -/
def test (cmp : α → α → ℤ) (a b : α) : Bool := decide (cmp a b ≤ 0)

theorem test_trans (compares : ComparesBy cmp key) (a b c : α) (first : test cmp a b)
    (second : test cmp b c) : test cmp a c := by
  simp only [test, decide_eq_true_eq] at first second ⊢
  rw [compares] at first second ⊢
  exact first.trans second

theorem test_total (compares : ComparesBy cmp key) (a b : α) : test cmp a b || test cmp b a := by
  simp only [test, Bool.or_eq_true, decide_eq_true_eq]
  rw [compares, compares]
  exact le_total _ _

theorem sorts_mergeSort (compares : ComparesBy cmp key) :
    Sorts cmp fun elements => elements.mergeSort (test cmp) where
  permuted elements := List.mergeSort_perm elements _
  sorted elements := by
    apply (List.pairwise_mergeSort compares.test_trans compares.test_total elements).imp
    intro a b ordered
    simpa [test] using ordered

/-- Whatever the algorithm and the order in which they come, elements with different keys end up
in one order. -/
theorem sort_eq (compares : ComparesBy cmp key) {sort sort' : List α → List α}
    (sorts : Sorts cmp sort) (sorts' : Sorts cmp sort') {elements elements' : List α}
    (permuted : elements.Perm elements')
    (distinct : ∀ a ∈ elements, ∀ b ∈ elements, key a = key b → a = b) :
    sort elements = sort' elements' := by
  have same_elements : (sort elements).Perm (sort' elements') :=
    (sorts.permuted elements).trans (permuted.trans (sorts'.permuted elements').symm)
  apply List.Perm.eq_of_pairwise _ (sorts.sorted elements) (sorts'.sorted elements') same_elements
  intro a b a_mem b_mem forth back
  apply distinct a ((sorts.permuted elements).mem_iff.mp a_mem) b
  · exact permuted.mem_iff.mpr ((sorts'.permuted elements').mem_iff.mp b_mem)
  · exact le_antisymm ((compares a b).mp forth) ((compares b a).mp back)

/-- A stable sort leaves two elements with one key in the order in which it gets them. -/
theorem eq_of_mergeSort_reverse (compares : ComparesBy cmp key) {elements : List α}
    (nodup : elements.Nodup)
    (same : elements.mergeSort (test cmp) = elements.reverse.mergeSort (test cmp)) :
    ∀ a ∈ elements, ∀ b ∈ elements, key a = key b → a = b := by
  intro a a_mem b b_mem alike
  by_contra different
  have forth : test cmp a b := decide_eq_true ((compares a b).mpr alike.le)
  have back : test cmp b a := decide_eq_true ((compares b a).mpr alike.ge)
  have stable {list : List α} {first second : α} (ordered : test cmp first second)
      (sublist : [first, second].Sublist list) :
      [first, second].Sublist (list.mergeSort (test cmp)) :=
    List.pair_sublist_mergeSort compares.test_trans compares.test_total ordered sublist
  have nodup_sorted : (elements.mergeSort (test cmp)).Nodup :=
    (List.mergeSort_perm elements _).nodup_iff.mpr nodup
  apply different
  rcases pair_sublist_or a_mem b_mem different with ordered | ordered
  · apply eq_of_pair_sublist nodup_sorted (stable forth ordered)
    rw [same]
    exact stable back ordered.reverse
  · apply eq_of_pair_sublist nodup_sorted _ (stable back ordered)
    rw [same]
    exact stable forth ordered.reverse

end ComparesBy

end Osis.Posix
