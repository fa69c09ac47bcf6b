import Osis.Memory.Slice

/-!
# Taking an entry out of an array

An array that is filled from the front loses an entry by a loop that moves all entries
behind it by one slot. The last slot in use is read and not written, so that it still
holds its entry when it is not in use any more.
-/

namespace Osis.Memory

universe u

variable {Cell : Type u} {slots : ℕ → Cell} {index size slot : ℕ}

/-- The loop that moves the slots behind an index to the front, up to the last slot in use. -/
def closeGap (slots : ℕ → Cell) (index size : ℕ) : ℕ → Cell :=
  (List.range' index (size - 1 - index)).foldl
    (fun slots slot => Function.update slots slot (slots (slot + 1))) slots

theorem foldl_update_apply (count : ℕ) (slots : ℕ → Cell) :
    (List.range' index count).foldl
        (fun slots slot => Function.update slots slot (slots (slot + 1))) slots slot =
      if index ≤ slot ∧ slot < index + count then slots (slot + 1) else slots slot := by
  induction count generalizing index slots with
  | zero =>
      have outside : ¬(index ≤ slot ∧ slot < index + 0) := by omega
      rw [List.range'_zero, List.foldl_nil, if_neg outside]
  | succ count ih =>
      rw [List.range'_succ, List.foldl_cons, ih]
      by_cases here : slot = index
      · have before : ¬(index + 1 ≤ slot ∧ slot < index + 1 + count) := by omega
        have inside : index ≤ slot ∧ slot < index + (count + 1) := by omega
        rw [if_neg before, if_pos inside, here, Function.update_self]
      · have same : (index + 1 ≤ slot ∧ slot < index + 1 + count) ↔
            (index ≤ slot ∧ slot < index + (count + 1)) := by omega
        simp only [same]
        split
        · rw [Function.update_of_ne (by omega)]
        · rw [Function.update_of_ne here]

theorem closeGap_apply : closeGap slots index size slot =
    if index ≤ slot ∧ slot < size - 1 then slots (slot + 1) else slots slot := by
  have same : (index ≤ slot ∧ slot < index + (size - 1 - index)) ↔
      (index ≤ slot ∧ slot < size - 1) := by omega
  rw [closeGap, foldl_update_apply]
  simp only [same]

/-- The last slot in use and all behind it are left as they are. -/
theorem closeGap_behind (behind : size ≤ slot + 1) :
    closeGap slots index size slot = slots slot := by
  rw [closeGap_apply, if_neg (by omega)]

/-- Closing a gap takes one entry out. -/
theorem slice_closeGap (inside : index < size) :
    slice (closeGap slots index size) 0 (size - 1) = (slice slots 0 size).eraseIdx index := by
  apply List.ext_getElem
  · rw [length_slice, List.length_eraseIdx_of_lt (by rwa [length_slice]), length_slice]
  · intro slot here there
    rw [length_slice] at here
    rw [List.getElem_eraseIdx]
    simp only [slice, List.getElem_map, List.getElem_range, Nat.zero_add, closeGap_apply]
    by_cases before : slot < index
    · rw [dif_pos before, if_neg (by omega)]
    · rw [dif_neg before, if_pos (by omega)]

end Osis.Memory
