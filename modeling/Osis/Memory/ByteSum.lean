import Mathlib.Algebra.GroupWithZero.Nat
import Mathlib.Data.List.Basic
import Mathlib.Data.Nat.Notation

/-!
# Sums of bytes

A checksum adds bytes to a 16-bit accumulator, which is exact as long as their sum is below
2^16: 257 bytes always fit, and no more.
-/

namespace Osis.Memory

/-- The sum of some bytes as a number. -/
def byteSum (bytes : List UInt8) : ℕ := (bytes.map UInt8.toNat).sum

/-- The bytes added to an accumulator one after the other. -/
def addBytes (start : UInt16) (bytes : List UInt8) : UInt16 :=
  bytes.foldl (fun hash byte => hash + byte.toUInt16) start

variable {start : UInt16} {byte : UInt8} {bytes bytes' : List UInt8} {index : ℕ}

@[simp]
theorem byteSum_nil : byteSum [] = 0 := rfl

@[simp]
theorem byteSum_cons (byte : UInt8) (bytes : List UInt8) :
    byteSum (byte :: bytes) = byte.toNat + byteSum bytes := rfl

@[simp]
theorem byteSum_append (bytes bytes' : List UInt8) :
    byteSum (bytes ++ bytes') = byteSum bytes + byteSum bytes' := by
  simp [byteSum]

theorem byteSum_le (bytes : List UInt8) : byteSum bytes ≤ 255 * bytes.length := by
  induction bytes with
  | nil => exact Nat.le_refl 0
  | cons byte bytes ih =>
      have byte_lt := byte.toNat_lt
      rw [byteSum_cons, List.length_cons]
      omega

theorem byteSum_le_of_prefix (is_start : bytes <+: bytes') : byteSum bytes ≤ byteSum bytes' := by
  rcases is_start with ⟨rest, rfl⟩
  rw [byteSum_append]
  exact Nat.le_add_right _ _

/-- A change of one byte changes the sum by the difference. -/
theorem byteSum_set (inside : index < bytes.length) (byte : UInt8) :
    byteSum (bytes.set index byte) + bytes[index].toNat = byteSum bytes + byte.toNat := by
  induction bytes generalizing index with
  | nil => exact absurd inside (Nat.not_lt_zero _)
  | cons first bytes ih =>
      cases index with
      | zero =>
          simp only [List.set_cons_zero, byteSum_cons, List.getElem_cons_zero]
          omega
      | succ index =>
          have later := ih (Nat.lt_of_succ_lt_succ inside)
          simp only [List.set_cons_succ, byteSum_cons, List.getElem_cons_succ]
          omega

/-- The accumulator is exact as long as the sum fits. -/
theorem toNat_addBytes (fits : start.toNat + byteSum bytes < UInt16.size) :
    (addBytes start bytes).toNat = start.toNat + byteSum bytes := by
  induction bytes generalizing start with
  | nil => rfl
  | cons byte bytes ih =>
      rw [byteSum_cons] at fits
      have exact : (start + byte.toUInt16).toNat = start.toNat + byte.toNat := by
        rw [UInt16.toNat_add, UInt8.toNat_toUInt16]
        apply Nat.mod_eq_of_lt
        simp only [UInt16.size] at fits
        omega
      have later := @ih (start + byte.toUInt16) (by omega)
      rw [byteSum_cons, ← Nat.add_assoc, ← exact]
      exact later

end Osis.Memory
