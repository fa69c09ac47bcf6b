import Osis.Memory.Slice
import Mathlib.Tactic.Ring

/-!
# Words in a memory of bytes

A word of 64 bits lies in eight cells, its lowest byte first. What is stored at
an address is loaded from it, and words that do not overlap do not see it.
-/

namespace Osis.Memory

/-- The lowest `width` bytes of a number, the lowest one first. -/
def toBytes : ℕ → ℕ → List UInt8
  | 0, _ => []
  | width + 1, number => UInt8.ofNat number :: toBytes width (number / 256)

/-- The number with the given bytes, the lowest one first. -/
def ofBytes : List UInt8 → ℕ
  | [] => 0
  | byte :: bytes => byte.toNat + 256 * ofBytes bytes

@[simp]
theorem length_toBytes (width number : ℕ) : (toBytes width number).length = width := by
  induction width generalizing number with
  | zero => rfl
  | succ width ih => simp [toBytes, ih]

/-- The bytes hold the number as far as they reach. -/
theorem ofBytes_toBytes (width number : ℕ) :
    ofBytes (toBytes width number) = number % 256 ^ width := by
  induction width generalizing number with
  | zero => simp [toBytes, ofBytes, Nat.mod_one]
  | succ width ih =>
      have lowest : (UInt8.ofNat number).toNat = number % 256 := UInt8.toNat_ofNat'
      rw [toBytes, ofBytes, ih, lowest, Nat.pow_succ, Nat.mul_comm (256 ^ width),
        Nat.mod_mul]

/-- The word at an address. -/
def loadWord (memory : ℕ → UInt8) (address : ℕ) : UInt64 :=
  UInt64.ofNat (ofBytes (slice memory address 8))

/-- Store a word at an address. -/
def storeWord (memory : ℕ → UInt8) (address : ℕ) (word : UInt64) : ℕ → UInt8 :=
  write memory address (toBytes 8 word.toNat)

variable {memory other : ℕ → UInt8} {address address' : ℕ}

theorem loadWord_congr
    (same : ∀ offset < 8, memory (address + offset) = other (address + offset)) :
    loadWord memory address = loadWord other address :=
  congrArg (fun bytes => UInt64.ofNat (ofBytes bytes)) (slice_congr same)

@[simp]
theorem loadWord_storeWord (memory : ℕ → UInt8) (address : ℕ) (word : UInt64) :
    loadWord (storeWord memory address word) address = word := by
  have whole : word.toNat % 256 ^ 8 = word.toNat := Nat.mod_eq_of_lt word.toNat_lt
  rw [loadWord, storeWord, slice_write (length_toBytes 8 word.toNat), ofBytes_toBytes, whole,
    UInt64.ofNat_toNat]

theorem storeWord_outside {word : UInt64}
    (outside : address' < address ∨ address + 8 ≤ address') :
    storeWord memory address word address' = memory address' := by
  apply write_outside
  simpa using outside

theorem loadWord_storeWord_disjoint {word : UInt64}
    (disjoint : address + 8 ≤ address' ∨ address' + 8 ≤ address) :
    loadWord (storeWord memory address word) address' = loadWord memory address' := by
  apply loadWord_congr
  intro offset inside
  apply storeWord_outside
  omega

/-- What a stored word leaves in its cells does not depend on what was there. -/
theorem storeWord_inside {word : UInt64} (inside : address ≤ address' ∧ address' < address + 8) :
    storeWord memory address word address' = storeWord other address word address' := by
  rcases Nat.exists_eq_add_of_le inside.1 with ⟨offset, rfl⟩
  have offset_lt : offset < (toBytes 8 word.toNat).length := by
    rw [length_toBytes]
    omega
  rw [storeWord, storeWord, write_inside offset_lt, write_inside offset_lt]

end Osis.Memory
