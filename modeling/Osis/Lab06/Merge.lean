import Mathlib.Data.Nat.Notation
import Mathlib.Order.Defs.LinearOrder
import Mathlib.Tactic.Ring
import Osis.Memory.Slice

/-!
# Records of lab 6 and how they are sorted and merged (`sort_index.c`)

The records of a chunk lie in a memory of records; `base` of the source is its
address 0. Time marks are a totally ordered key, so they are never NaN.
-/

namespace Osis.Lab06

open Memory

universe u

/-- `struct index_s`. -/
structure IndexS (Time : Type u) where
  timeMark : Time
  recno : UInt64

variable {Time : Type u} [LinearOrder Time]

/-- `cmp_index_s`. -/
def cmpIndexS (a b : IndexS Time) : ℤ :=
  if a.timeMark < b.timeMark then -1
  else if b.timeMark < a.timeMark then 1
  else if a.recno < b.recno then -1
  else if b.recno < a.recno then 1
  else 0

/-- The order that `qsort` and `do_merge` read off `cmp_index_s`. -/
def inOrder (a b : IndexS Time) : Bool :=
  decide (cmpIndexS a b ≤ 0)

section Order

variable {a b c : IndexS Time}

/-- Records are compared by time mark and then by number. -/
theorem inOrder_iff :
    inOrder a b = true ↔ a.timeMark < b.timeMark ∨ a.timeMark = b.timeMark ∧ a.recno ≤ b.recno := by
  unfold inOrder cmpIndexS
  rcases lt_trichotomy a.timeMark b.timeMark with earlier | same | later
  · simp [earlier]
  · by_cases fewer : a.recno < b.recno
    · simp [same, fewer, UInt64.le_of_lt fewer]
    · by_cases more : b.recno < a.recno
      · simp [same, fewer, more, UInt64.not_le.mpr more]
      · simp [same, fewer, more, UInt64.not_lt.mp more]
  · simp [later, later.not_gt, later.ne']

theorem inOrder_trans (a b c : IndexS Time) (first : inOrder a b = true)
    (second : inOrder b c = true) : inOrder a c = true := by
  rw [inOrder_iff] at first second ⊢
  rcases first with first | ⟨first, firstRecno⟩
  · rcases second with second | ⟨second, -⟩
    · exact Or.inl (first.trans second)
    · exact Or.inl (second ▸ first)
  · rcases second with second | ⟨second, secondRecno⟩
    · exact Or.inl (first ▸ second)
    · exact Or.inr ⟨first.trans second, UInt64.le_trans firstRecno secondRecno⟩

theorem inOrder_total (a b : IndexS Time) : (inOrder a b || inOrder b a) = true := by
  rw [Bool.or_eq_true, inOrder_iff, inOrder_iff]
  rcases lt_trichotomy a.timeMark b.timeMark with earlier | same | later
  · exact Or.inl (Or.inl earlier)
  · rcases UInt64.le_total a.recno b.recno with fewer | more
    · exact Or.inl (Or.inr ⟨same, fewer⟩)
    · exact Or.inr (Or.inr ⟨same.symm, more⟩)
  · exact Or.inr (Or.inl later)

end Order

/-- A list of records in non-decreasing order. -/
abbrev Sorted (records : List (IndexS Time)) : Prop :=
  records.Pairwise fun a b => inOrder a b = true

/-- The sorted rearrangement that `qsort` leaves of some records. -/
def qsort (records : List (IndexS Time)) : List (IndexS Time) :=
  records.mergeSort inOrder

theorem sorted_qsort (records : List (IndexS Time)) : Sorted (qsort records) :=
  List.pairwise_mergeSort inOrder_trans inOrder_total records

/-- The `qsort` call of `worker_thread` for one block. -/
def sortBlock (base : ℕ → IndexS Time) (per block : ℕ) : ℕ → IndexS Time :=
  write base (per * block) (qsort (slice base (per * block) per))

/-- What the three loops of `do_merge` put into `tmp` from `l` and `r` on. -/
def mergeLoop (left right : ℕ → IndexS Time) (span : ℕ) : ℕ → ℕ → ℕ → List (IndexS Time)
  | 0, _, _ => []
  | remaining + 1, l, r =>
      if l < span ∧ r < span then
        if cmpIndexS (left l) (right r) ≤ 0 then
          left l :: mergeLoop left right span remaining (l + 1) r
        else right r :: mergeLoop left right span remaining l (r + 1)
      else if l < span then left l :: mergeLoop left right span remaining (l + 1) r
      else if r < span then right r :: mergeLoop left right span remaining l (r + 1)
      else []

/-- `do_merge`. -/
def doMerge (base : ℕ → IndexS Time) (idx span : ℕ) : ℕ → IndexS Time :=
  let left := idx * 2 * span
  let right := left + span
  let total := span * 2
  write base left
    (mergeLoop (fun l => base (left + l)) (fun r => base (right + r)) span total 0 0)

section Merge

variable {base : ℕ → IndexS Time} {per span idx index size : ℕ}

/-- The loops merge what is left of the two runs. -/
theorem mergeLoop_eq (left right : ℕ → IndexS Time) (span : ℕ) :
    ∀ remaining l r, l ≤ span → r ≤ span → span - l + (span - r) ≤ remaining →
      mergeLoop left right span remaining l r =
        (slice left l (span - l)).merge (slice right r (span - r)) inOrder := by
  intro remaining
  induction remaining with
  | zero =>
      intro l r _ _ enough
      have leftDone : span - l = 0 := by omega
      have rightDone : span - r = 0 := by omega
      simp [mergeLoop, leftDone, rightDone, slice]
  | succ remaining ih =>
      intro l r l_le r_le enough
      unfold mergeLoop
      have leftEnd : ¬l < span → slice left l (span - l) = [] := fun done =>
        slice_sub_eq_nil left (Nat.le_of_not_lt done)
      have rightEnd : ¬r < span → slice right r (span - r) = [] := fun done =>
        slice_sub_eq_nil right (Nat.le_of_not_lt done)
      split
      · next both =>
          rw [slice_sub_succ left both.1, slice_sub_succ right both.2]
          split
          · next first =>
              rw [ih (l + 1) r both.1 r_le (by omega), slice_sub_succ right both.2,
                List.cons_merge_cons_pos _ _ _ (by simpa [inOrder] using first)]
          · next second =>
              rw [ih l (r + 1) l_le both.2 (by omega), slice_sub_succ left both.1,
                List.cons_merge_cons_neg _ _ _ (by simpa [inOrder] using second)]
      · split
        · next notBoth more =>
            have rightDone : ¬r < span := fun less => notBoth ⟨more, less⟩
            rw [ih (l + 1) r more r_le (by omega), slice_sub_succ left more, rightEnd rightDone,
              List.merge_right, List.merge_right]
        · next leftDone =>
            split
            · next more =>
                rw [ih l (r + 1) l_le more (by omega), slice_sub_succ right more, leftEnd leftDone,
                  List.nil_merge, List.nil_merge]
            · next rightDone =>
                rw [leftEnd leftDone, rightEnd rightDone, List.nil_merge]

/-- `do_merge` stores the merge of two neighbouring runs over them. -/
theorem doMerge_eq (base : ℕ → IndexS Time) (idx span : ℕ) :
    doMerge base idx span = write base (2 * span * idx)
      ((slice base (span * (2 * idx)) span).merge (slice base (span * (2 * idx + 1)) span)
        inOrder) := by
  have left_eq : idx * 2 * span = span * (2 * idx) := by ring
  have start_eq : span * (2 * idx) = 2 * span * idx := by ring
  have right_eq : span * (2 * idx) + span = span * (2 * idx + 1) := by ring
  simp only [doMerge, left_eq, right_eq]
  rw [mergeLoop_eq _ _ _ _ 0 0 (Nat.zero_le _) (Nat.zero_le _) (by omega), ← start_eq]
  simp [slice]

/-- Run `index` of the given size is sorted. -/
abbrev Run (base : ℕ → IndexS Time) (size index : ℕ) : Prop :=
  RunSorted (fun a b : IndexS Time => inOrder a b = true) base size index

/-- What sorting a block does to the first `size` records. -/
theorem sortBlock_perm (inside : per * index + per ≤ size) :
    (slice (sortBlock base per index) 0 size).Perm (slice base 0 size) :=
  slice_write_perm (List.mergeSort_perm _ _) inside

theorem sortBlock_outside (inside : per * index + per ≤ size) {address : ℕ}
    (outside : size ≤ address) : sortBlock base per index address = base address :=
  write_outside (Or.inr (by simp [qsort]; omega))

theorem run_sortBlock : Run (sortBlock base per index) per index :=
  runSorted_write (by simp [qsort]) (sorted_qsort _)

/-- A sorted block stays sorted when a block is sorted. -/
theorem run_sortBlock_of_run (block : ℕ) (sorted : Run base per index) :
    Run (sortBlock base per block) per index := by
  by_cases same : index = block
  · subst same
    exact run_sortBlock
  · exact (runSorted_write_of_ne same (by simp [qsort])).mpr sorted

/-- What merging a pair does to the first `size` records. -/
theorem doMerge_perm (inside : 2 * span * idx + 2 * span ≤ size) :
    (slice (doMerge base idx span) 0 size).Perm (slice base 0 size) := by
  rw [doMerge_eq]
  refine slice_write_perm ?_ inside
  rw [slice_double]
  exact List.merge_perm_append _

theorem doMerge_outside (inside : 2 * span * idx + 2 * span ≤ size) {address : ℕ}
    (outside : size ≤ address) : doMerge base idx span address = base address := by
  rw [doMerge_eq]
  exact write_outside (Or.inr (by simp; omega))

/-- Merging two sorted runs makes one sorted run of double size. -/
theorem run_doMerge (first : Run base span (2 * idx)) (second : Run base span (2 * idx + 1)) :
    Run (doMerge base idx span) (2 * span) idx := by
  rw [doMerge_eq]
  exact runSorted_write (by simp; omega)
    (List.pairwise_merge inOrder_trans inOrder_total _ _ first second)

/-- Merging one pair leaves the runs of the others as they are. -/
theorem run_doMerge_of_ne (different : index ≠ idx) (sorted : Run base (2 * span) index) :
    Run (doMerge base idx span) (2 * span) index := by
  rw [doMerge_eq]
  exact (runSorted_write_of_ne different (by simp; omega)).mpr sorted

/-- With the runs of a pair sorted, its merge leaves every sorted run sorted. -/
theorem run_doMerge_of_run (first : Run base span (2 * idx)) (second : Run base span (2 * idx + 1))
    (sorted : Run base span index) : Run (doMerge base idx span) span index := by
  by_cases inside : index = 2 * idx ∨ index = 2 * idx + 1
  · have halves := (run_doMerge first second).halves
    rcases inside with rfl | rfl
    · exact halves.1
    · exact halves.2
  · rw [doMerge_eq]
    unfold Run RunSorted
    rw [slice_write_disjoint]
    · exact sorted
    · rw [not_or] at inside
      have start_eq : 2 * span * idx = span * (2 * idx) := by ring
      rw [start_eq, List.length_merge, length_slice, length_slice, ← Nat.add_assoc,
        ← Nat.mul_succ span (2 * idx)]
      rcases Nat.lt_or_gt_of_ne inside.1 with below | above
      · exact Or.inl (by
          simpa [Nat.mul_succ] using Nat.mul_le_mul_left span (Nat.succ_le_of_lt below))
      · have beyond : 2 * idx + 2 ≤ index := by omega
        exact Or.inr (by
          simpa [Nat.mul_succ, Nat.mul_add, Nat.add_assoc] using Nat.mul_le_mul_left span beyond)

/-- Merging a sorted pair again keeps its joint run sorted. -/
theorem run_doMerge_double (first : Run base span (2 * idx)) (second : Run base span (2 * idx + 1))
    (sorted : Run base (2 * span) index) : Run (doMerge base idx span) (2 * span) index := by
  by_cases same : index = idx
  · subst same
    exact run_doMerge first second
  · exact run_doMerge_of_ne same sorted

end Merge

end Osis.Lab06
