import Mathlib.Data.List.Basic
import Mathlib.Data.Nat.Notation

/-!
# Lists of blocks

A list is cut into blocks of one size and a rest that is no block. A block is read and
replaced at its number times the size; past the last block there is less than a block.
-/

namespace Osis.Memory

universe u

variable {Cell : Type u} {size : ℕ} {blocks : List (List Cell)} {rest : List Cell}

/-- Every block has the given size. -/
def Whole (size : ℕ) (blocks : List (List Cell)) : Prop := ∀ block ∈ blocks, block.length = size

theorem Whole.cons {block : List Cell} (whole : Whole size (block :: blocks)) :
    block.length = size ∧ Whole size blocks :=
  ⟨whole block List.mem_cons_self,
    fun other other_mem => whole other (List.mem_cons_of_mem _ other_mem)⟩

theorem Whole.length_flatten (whole : Whole size blocks) :
    blocks.flatten.length = blocks.length * size := by
  induction blocks with
  | nil => simp
  | cons block blocks ih =>
      rcases whole.cons with ⟨length_eq, whole⟩
      rw [List.flatten_cons, List.length_append, ih whole, length_eq, List.length_cons,
        Nat.succ_mul, Nat.add_comm]

/-- Behind the first blocks come the others. -/
theorem Whole.drop (whole : Whole size blocks) (rest : List Cell) {index : ℕ}
    (inside : index ≤ blocks.length) :
    (blocks.flatten ++ rest).drop (index * size) = (blocks.drop index).flatten ++ rest := by
  induction blocks generalizing index with
  | nil => simp_all
  | cons block blocks ih =>
      cases index with
      | zero => simp
      | succ index =>
          rcases whole.cons with ⟨length_eq, whole⟩
          rw [Nat.succ_mul, Nat.add_comm, ← List.drop_drop, List.flatten_cons, List.append_assoc,
            ← length_eq, List.drop_left, length_eq, List.drop_succ_cons]
          exact ih whole (Nat.le_of_succ_le_succ inside)

/-- A block is read at its place. -/
theorem Whole.read (whole : Whole size blocks) (rest : List Cell) {index : ℕ}
    (inside : index < blocks.length) :
    ((blocks.flatten ++ rest).drop (index * size)).take size = blocks[index] := by
  have length_eq : blocks[index].length = size := whole _ (List.getElem_mem inside)
  rw [whole.drop rest (Nat.le_of_lt inside), List.drop_eq_getElem_cons inside, List.flatten_cons,
    List.append_assoc, ← length_eq, List.take_left]

/-- Past the last block there is less than a block. -/
theorem Whole.read_past (whole : Whole size blocks) (short : rest.length < size) {index : ℕ}
    (past : blocks.length ≤ index) :
    (((blocks.flatten ++ rest).drop (index * size)).take size).length < size := by
  rw [List.length_take, List.length_drop, List.length_append, whole.length_flatten]
  have behind : blocks.length * size ≤ index * size := Nat.mul_le_mul_right size past
  omega

theorem Whole.set (whole : Whole size blocks) {block : List Cell} (length_eq : block.length = size)
    (index : ℕ) : Whole size (blocks.set index block) := by
  intro other other_mem
  rcases List.mem_or_eq_of_mem_set other_mem with old | new
  · exact whole other old
  · rw [new, length_eq]

/-- A block is replaced at its place. -/
theorem Whole.write (whole : Whole size blocks) (rest : List Cell) {block : List Cell} {index : ℕ}
    (inside : index < blocks.length) :
    (blocks.flatten ++ rest).take (index * size) ++ block ++
        (blocks.flatten ++ rest).drop ((index + 1) * size) =
      (blocks.set index block).flatten ++ rest := by
  have start : (blocks.flatten ++ rest).take (index * size) = (blocks.take index).flatten := by
    have first : Whole size (blocks.take index) := fun other other_mem =>
      whole other (List.mem_of_mem_take other_mem)
    have length_eq : (blocks.take index).flatten.length = index * size := by
      rw [first.length_flatten, List.length_take_of_le (Nat.le_of_lt inside)]
    conv_lhs => rw [← List.take_append_drop index blocks]
    rw [List.flatten_append, List.append_assoc, ← length_eq, List.take_left]
  rw [start, whole.drop rest inside, List.set_eq_take_append_cons_drop, if_pos inside]
  simp

/-- Every list is some blocks and a rest. -/
theorem exists_blocks (positive : 0 < size) (cells : List Cell) :
    ∃ blocks rest, cells = List.flatten blocks ++ rest ∧ Whole size blocks ∧
      rest.length < size := by
  induction bound : cells.length using Nat.strongRecOn generalizing cells with
  | _ length ih =>
      by_cases short : cells.length < size
      · exact ⟨[], cells, rfl, fun _ block_mem => absurd block_mem List.not_mem_nil, short⟩
      · have taken : (cells.take size).length = size :=
          List.length_take_of_le (Nat.le_of_not_lt short)
        have smaller : (cells.drop size).length < length := by
          rw [List.length_drop]
          omega
        rcases ih _ smaller (cells.drop size) rfl with ⟨blocks, rest, cells_eq, whole, rest_short⟩
        refine ⟨cells.take size :: blocks, rest, ?_, ?_, rest_short⟩
        · rw [List.flatten_cons, List.append_assoc, ← cells_eq, List.take_append_drop]
        · intro block block_mem
          rcases List.mem_cons.mp block_mem with rfl | later
          · exact taken
          · exact whole block later

end Osis.Memory
