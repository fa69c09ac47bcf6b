import Mathlib.Data.List.Range
import Mathlib.Logic.Function.Basic

/-!
# Ring buffers

The contents of a circular buffer are read from `head` onwards, indices taken
modulo the capacity. Three operations matter: writing the slot behind the last
occupied one, advancing the head, and moving the occupied slots to the front of
a buffer of another capacity.
-/

namespace Osis.Concurrency.Ring

universe u

variable {Slot : Type u}

/-- The `count` slots from `head` on, in the order they are read. -/
def contents (slot : ℕ → Slot) (head count capacity : ℕ) : List Slot :=
  (List.range count).map fun offset => slot ((head + offset) % capacity)

@[simp]
theorem length_contents (slot : ℕ → Slot) (head count capacity : ℕ) :
    (contents slot head count capacity).length = count := by
  simp [contents]

@[simp]
theorem contents_zero (slot : ℕ → Slot) (head capacity : ℕ) :
    contents slot head 0 capacity = [] := rfl

/-- Two offsets below the capacity address different slots. -/
theorem index_ne {head offset count capacity : ℕ} (below : offset < count)
    (room : count < capacity) : (head + offset) % capacity ≠ (head + count) % capacity := by
  intro same
  have divides : capacity ∣ (head + count) - (head + offset) :=
    Nat.dvd_of_mod_eq_zero (Nat.sub_mod_eq_zero_of_mod_eq same.symm)
  have := Nat.le_of_dvd (by omega) divides
  omega

/-- Writing the slot behind the last occupied one appends to the contents. -/
theorem contents_update {slot : ℕ → Slot} {head count capacity : ℕ} (room : count < capacity)
    (value : Slot) :
    contents (Function.update slot ((head + count) % capacity) value) head (count + 1) capacity =
      contents slot head count capacity ++ [value] := by
  simp only [contents, List.range_succ, List.map_append, List.map_cons, List.map_nil,
    Function.update_self]
  congr 1
  apply List.map_congr_left
  intro offset offset_mem
  rw [Function.update_of_ne (index_ne (List.mem_range.mp offset_mem) room)]

/-- Advancing the head removes the first of the contents. -/
theorem contents_succ {slot : ℕ → Slot} {head count capacity : ℕ} (inside : head < capacity) :
    contents slot head (count + 1) capacity =
      slot head :: contents slot ((head + 1) % capacity) count capacity := by
  simp only [contents, List.range_succ_eq_map, List.map_cons, List.map_map, Nat.add_zero,
    Nat.mod_eq_of_lt inside, List.cons.injEq, true_and]
  apply List.map_congr_left
  intro offset _
  simp only [Function.comp_apply, Nat.mod_add_mod]
  congr 2
  omega

/-- Contents moved to the front of a buffer with room for them are unchanged. -/
theorem contents_moved {slot moved : ℕ → Slot} {head count capacity newCapacity : ℕ}
    (copied : ∀ offset < count, moved offset = slot ((head + offset) % capacity))
    (room : count ≤ newCapacity) :
    contents moved 0 count newCapacity = contents slot head count capacity := by
  apply List.map_congr_left
  intro offset offset_mem
  have below : offset < count := List.mem_range.mp offset_mem
  rw [Nat.zero_add, Nat.mod_eq_of_lt (by omega), copied offset below]

/-- The slot behind the contents stays `(head + count) % capacity` when the head advances. -/
theorem tail_succ_mod {head count capacity : ℕ} (nonempty : 0 < count) :
    (head + count) % capacity = ((head + 1) % capacity + (count - 1)) % capacity := by
  rw [Nat.mod_add_mod]
  congr 1
  omega

end Osis.Concurrency.Ring
