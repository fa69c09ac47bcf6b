import Mathlib.Data.List.Range
import Mathlib.Data.List.Perm.Basic
import Mathlib.Logic.Function.Basic

/-!
# Slices of a memory

A memory is a function from addresses to cells. `slice` reads a contiguous
range as a list, `write` stores a list over one. A write of a permutation of
what was there permutes every range around it.

`Runs` says that a memory, cut into runs of one size, has each of the first few
runs sorted; what merging needs is that a run of double size is two neighbours.
-/

namespace Osis.Memory

universe u

variable {Cell : Type u}

/-- The `length` cells from `start` on. -/
def slice (memory : ℕ → Cell) (start length : ℕ) : List Cell :=
  (List.range length).map fun offset => memory (start + offset)

/-- Store a list from `start` on. -/
def write (memory : ℕ → Cell) (start : ℕ) (cells : List Cell) : ℕ → Cell := fun address =>
  if start ≤ address then (cells[address - start]?).getD (memory address) else memory address

section Slice

variable {memory other : ℕ → Cell} {start length : ℕ} {cells : List Cell}

@[simp]
theorem length_slice (memory : ℕ → Cell) (start length : ℕ) :
    (slice memory start length).length = length := by
  simp [slice]

theorem slice_congr (same : ∀ offset < length, memory (start + offset) = other (start + offset)) :
    slice memory start length = slice other start length :=
  List.map_congr_left fun offset offset_mem => same offset (List.mem_range.mp offset_mem)

theorem getElem?_slice {offset : ℕ} (inside : offset < length) :
    (slice memory start length)[offset]? = some (memory (start + offset)) := by
  simp [slice, inside]

/-- A slice is its first part followed by the rest. -/
theorem slice_add (memory : ℕ → Cell) (start first second : ℕ) :
    slice memory start (first + second) =
      slice memory start first ++ slice memory (start + first) second := by
  simp only [slice, List.range_add, List.map_append, List.map_map, Function.comp_def,
    Nat.add_assoc]

theorem slice_succ (memory : ℕ → Cell) (start length : ℕ) :
    slice memory start (length + 1) = memory start :: slice memory (start + 1) length := by
  simpa [slice, Nat.add_comm 1 length] using slice_add memory start 1 length

/-- The cells up to a bound are the first one and those behind it. -/
theorem slice_sub_succ {bound : ℕ} (memory : ℕ → Cell) (below : start < bound) :
    slice memory start (bound - start) =
      memory start :: slice memory (start + 1) (bound - (start + 1)) := by
  rw [← slice_succ]
  congr 1
  omega

/-- No cells are left at the bound. -/
theorem slice_sub_eq_nil {bound : ℕ} (memory : ℕ → Cell) (done : bound ≤ start) :
    slice memory start (bound - start) = [] := by
  rw [Nat.sub_eq_zero_of_le done]
  rfl

theorem slice_concat (memory : ℕ → Cell) (start length : ℕ) :
    slice memory start (length + 1) = slice memory start length ++ [memory (start + length)] := by
  rw [slice_add]
  simp [slice]

theorem write_outside {address : ℕ} (outside : address < start ∨ start + cells.length ≤ address) :
    write memory start cells address = memory address := by
  unfold write
  split
  · rw [List.getElem?_eq_none (by omega), Option.getD_none]
  · rfl

theorem write_inside {offset : ℕ} (inside : offset < cells.length) :
    write memory start cells (start + offset) = cells[offset] := by
  simp [write, inside]

/-- What was stored is read back. -/
theorem slice_write (length_eq : cells.length = length) :
    slice (write memory start cells) start length = cells := by
  subst length_eq
  apply List.ext_getElem (length_slice _ _ _)
  intro offset _ inside
  simp only [slice, List.getElem_map, List.getElem_range]
  exact write_inside inside

/-- Storing what is there changes nothing. -/
theorem write_slice (memory : ℕ → Cell) (start length : ℕ) :
    write memory start (slice memory start length) = memory := by
  funext address
  by_cases inside : start ≤ address ∧ address < start + length
  · rcases Nat.exists_eq_add_of_le inside.1 with ⟨offset, rfl⟩
    have offset_lt : offset < (slice memory start length).length := by
      rw [length_slice]
      omega
    rw [write_inside offset_lt]
    simp [slice]
  · apply write_outside
    rw [length_slice]
    omega

/-- A cell stored behind the first ones. -/
theorem slice_update (memory : ℕ → Cell) (length : ℕ) (cell : Cell) :
    slice (Function.update memory length cell) 0 (length + 1) =
      slice memory 0 length ++ [cell] := by
  rw [slice_concat, Nat.zero_add, Function.update_self]
  congr 1
  apply slice_congr
  intro offset inside
  rw [Nat.zero_add, Function.update_of_ne (Nat.ne_of_lt inside)]

/-- A disjoint slice does not see a write. -/
theorem slice_write_disjoint {start' : ℕ}
    (disjoint : start + length ≤ start' ∨ start' + cells.length ≤ start) :
    slice (write memory start' cells) start length = slice memory start length :=
  slice_congr fun offset inside => write_outside (by omega)

/-- Storing a permutation of what was there permutes every range around it. -/
theorem slice_write_perm {size : ℕ} (permuted : cells.Perm (slice memory start length))
    (inside : start + length ≤ size) :
    (slice (write memory start cells) 0 size).Perm (slice memory 0 size) := by
  have length_eq : cells.length = length := by simpa using permuted.length_eq
  have split : ∀ memory : ℕ → Cell, slice memory 0 size =
      slice memory 0 start ++ slice memory start length ++
        slice memory (start + length) (size - (start + length)) := by
    intro memory
    conv_lhs => rw [show size = start + length + (size - (start + length)) by omega]
    rw [slice_add, slice_add, Nat.zero_add, Nat.zero_add]
  rw [split, split, slice_write length_eq, slice_write_disjoint (by omega),
    slice_write_disjoint (by omega)]
  exact (permuted.append_left _).append_right _

end Slice

section Runs

variable {le : Cell → Cell → Prop} {memory : ℕ → Cell} {size index : ℕ} {cells : List Cell}

/-- The run with the given index, when the memory is cut into runs of one size, is sorted. -/
def RunSorted (le : Cell → Cell → Prop) (memory : ℕ → Cell) (size index : ℕ) : Prop :=
  (slice memory (size * index) size).Pairwise le

/-- Writing a sorted run leaves it sorted. -/
theorem runSorted_write (length_eq : cells.length = size) (sorted : cells.Pairwise le) :
    RunSorted le (write memory (size * index) cells) size index := by
  unfold RunSorted
  rwa [slice_write length_eq]

/-- Two runs of one size do not overlap. -/
theorem run_disjoint {index' : ℕ} (different : index' ≠ index) :
    size * index' + size ≤ size * index ∨ size * index + size ≤ size * index' := by
  rcases Nat.lt_or_gt_of_ne different with below | above
  · exact Or.inl (by simpa [Nat.mul_succ] using Nat.mul_le_mul_left size (Nat.succ_le_of_lt below))
  · exact Or.inr (by simpa [Nat.mul_succ] using Nat.mul_le_mul_left size (Nat.succ_le_of_lt above))

/-- Writing one run leaves the others as they are. -/
theorem runSorted_write_of_ne {index' : ℕ} (different : index' ≠ index)
    (length_eq : cells.length = size) :
    RunSorted le (write memory (size * index) cells) size index' ↔
      RunSorted le memory size index' := by
  unfold RunSorted
  rw [slice_write_disjoint (by rw [length_eq]; exact run_disjoint different)]

/-- A run of double size is two neighbouring runs. -/
theorem slice_double (memory : ℕ → Cell) (size index : ℕ) :
    slice memory (2 * size * index) (2 * size) =
      slice memory (size * (2 * index)) size ++ slice memory (size * (2 * index + 1)) size := by
  have start_eq : 2 * size * index = size * (2 * index) := by
    rw [Nat.mul_comm 2 size, Nat.mul_assoc]
  rw [start_eq, Nat.two_mul size, slice_add, Nat.mul_succ]

/-- The halves of a sorted run of double size are sorted. -/
theorem RunSorted.halves (sorted : RunSorted le memory (2 * size) index) :
    RunSorted le memory size (2 * index) ∧ RunSorted le memory size (2 * index + 1) := by
  unfold RunSorted at sorted
  rw [slice_double] at sorted
  exact ⟨(List.pairwise_append.mp sorted).1, (List.pairwise_append.mp sorted).2.1⟩

/-- A permutation of each run is a permutation of all of them together. -/
theorem slice_perm_of_runs {permuted : ℕ → Cell} {count : ℕ}
    (runs : ∀ index < count,
      (slice permuted (size * index) size).Perm (slice memory (size * index) size)) :
    (slice permuted 0 (size * count)).Perm (slice memory 0 (size * count)) := by
  induction count with
  | zero => simp [slice]
  | succ count ih =>
      rw [Nat.mul_succ, slice_add, slice_add, Nat.zero_add]
      exact (ih fun index below => runs index (Nat.lt_succ_of_lt below)).append
        (runs count (Nat.lt_succ_self count))

theorem mem_slice {cell : Cell} {start length : ℕ} :
    cell ∈ slice memory start length ↔ ∃ offset < length, memory (start + offset) = cell := by
  simp [slice]

/-- All cells of earlier runs come before all cells of later runs. -/
def RunsInOrder (le : Cell → Cell → Prop) (memory : ℕ → Cell) (size count : ℕ) : Prop :=
  ∀ earlier later, earlier < later → later < count →
    ∀ first ∈ slice memory (size * earlier) size,
      ∀ second ∈ slice memory (size * later) size, le first second

/-- Every cell below a run's start lies in an earlier run. -/
theorem mem_run_of_mem {cell : Cell} {count : ℕ} (cell_mem : cell ∈ slice memory 0 (size * count)) :
    ∃ index < count, cell ∈ slice memory (size * index) size := by
  induction count with
  | zero => simp [slice] at cell_mem
  | succ count ih =>
      rw [Nat.mul_succ, slice_add, Nat.zero_add, List.mem_append] at cell_mem
      rcases cell_mem with before | last
      · obtain ⟨index, below, inRun⟩ := ih before
        exact ⟨index, Nat.lt_succ_of_lt below, inRun⟩
      · exact ⟨count, Nat.lt_succ_self count, last⟩

theorem mem_of_mem_run {cell : Cell} {count : ℕ} (below : index < count)
    (inRun : cell ∈ slice memory (size * index) size) :
    cell ∈ slice memory 0 (size * count) := by
  obtain ⟨offset, offset_lt, rfl⟩ := mem_slice.mp inRun
  refine mem_slice.mpr ⟨size * index + offset, ?_, by rw [Nat.zero_add]⟩
  have := Nat.mul_le_mul_left size (Nat.succ_le_of_lt below)
  rw [Nat.mul_succ] at this
  omega

/-- Sorted runs together are sorted exactly if they come in order. -/
theorem pairwise_runs_iff {count : ℕ} (sorted : ∀ index < count, RunSorted le memory size index) :
    (slice memory 0 (size * count)).Pairwise le ↔ RunsInOrder le memory size count := by
  induction count with
  | zero => simp [slice, RunsInOrder]
  | succ count ih =>
      rw [Nat.mul_succ, slice_add, Nat.zero_add, List.pairwise_append,
        ih fun index below => sorted index (Nat.lt_succ_of_lt below)]
      constructor
      · rintro ⟨before, -, across⟩ earlier later ordered below first first_mem second second_mem
        rcases Nat.lt_succ_iff_lt_or_eq.mp below with inside | rfl
        · exact before earlier later ordered inside first first_mem second second_mem
        · exact across first (mem_of_mem_run ordered first_mem) second second_mem
      · intro inOrder
        refine ⟨fun earlier later ordered below => inOrder earlier later ordered
          (Nat.lt_succ_of_lt below), sorted count (Nat.lt_succ_self count), ?_⟩
        intro first first_mem second second_mem
        obtain ⟨earlier, below, inRun⟩ := mem_run_of_mem first_mem
        exact inOrder earlier count below (Nat.lt_succ_self count) first inRun second second_mem

/-- Whether runs come in order depends only on what is in each of them. -/
theorem runsInOrder_congr {permuted : ℕ → Cell} {count : ℕ}
    (runs : ∀ index < count,
      (slice permuted (size * index) size).Perm (slice memory (size * index) size)) :
    RunsInOrder le permuted size count ↔ RunsInOrder le memory size count := by
  constructor
  · intro inOrder earlier later ordered below first first_mem second second_mem
    exact inOrder earlier later ordered below first
      ((runs earlier (ordered.trans below)).mem_iff.mpr first_mem) second
      ((runs later below).mem_iff.mpr second_mem)
  · intro inOrder earlier later ordered below first first_mem second second_mem
    exact inOrder earlier later ordered below first
      ((runs earlier (ordered.trans below)).mem_iff.mp first_mem) second
      ((runs later below).mem_iff.mp second_mem)

theorem mem_run_of_div {address : ℕ} (positive : 0 < size) (inRun : address / size = index) :
    memory address ∈ slice memory (size * index) size := by
  refine mem_slice.mpr ⟨address % size, Nat.mod_lt _ positive, ?_⟩
  rw [← inRun, Nat.div_add_mod]

/-- Runs come in order exactly if the cells at addresses of different runs do. -/
theorem runsInOrder_iff_div {count : ℕ} (positive : 0 < size) :
    RunsInOrder le memory size count ↔
      ∀ i j, j < size * count → i / size < j / size → le (memory i) (memory j) := by
  constructor
  · intro inOrder i j below ordered
    exact inOrder _ _ ordered (Nat.div_lt_of_lt_mul below) _ (mem_run_of_div positive rfl) _
      (mem_run_of_div positive rfl)
  · intro inOrder earlier later ordered below first first_mem second second_mem
    obtain ⟨i, i_lt, rfl⟩ := mem_slice.mp first_mem
    obtain ⟨j, j_lt, rfl⟩ := mem_slice.mp second_mem
    have first_run : (size * earlier + i) / size = earlier := by
      rw [Nat.mul_add_div positive, Nat.div_eq_of_lt i_lt, Nat.add_zero]
    have second_run : (size * later + j) / size = later := by
      rw [Nat.mul_add_div positive, Nat.div_eq_of_lt j_lt, Nat.add_zero]
    refine inOrder _ _ ?_ (by rwa [first_run, second_run])
    calc size * later + j < size * later + size := Nat.add_lt_add_left j_lt _
      _ = size * (later + 1) := (Nat.mul_succ size later).symm
      _ ≤ size * count := Nat.mul_le_mul_left size below

end Runs

end Osis.Memory
