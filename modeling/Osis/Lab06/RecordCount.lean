import Osis.Lab06.Chunks

/-!
# The record count in the header (`sort_index.c`, `view.c` and `gen.c` of lab 6)

All three programs compute the size that belongs to a record count in `size_t`.
From 2^60 records on it wraps around, so that a short file passes the size check
of the readers and `gen` sets a size that does not hold its records.
-/

namespace Osis.Lab06

/-- `sizeof(uint64_t) + records * sizeof(struct index_s)`, computed in `size_t`. -/
def sizeOfRecords (records : UInt64) : UInt64 := 8 + records * 16

/-- The size check of the readers; `short` is the message for a file without room for its
records. -/
def checkSize (tooSmall : String) (short : UInt64 → String) (filesize records : UInt64) :
    Except String Unit :=
  if filesize < 8 then .error tooSmall
  else
    let expected := sizeOfRecords records
    if filesize < expected then .error (short expected) else .ok ()

/-- What `main` of `sort_index.c` makes of a file with the given size and header. -/
def sortIndexCheck (filesize records : UInt64) : Except String Unit :=
  checkSize "File too small" (fun expected => s!"File size {filesize} < expected {expected}")
    filesize records

/-- What `main` of `view.c` makes of a file with the given size and header. -/
def viewCheck (filesize records : UInt64) : Except String Unit :=
  checkSize "File too small to be valid index"
    (fun expected =>
      s!"File size {filesize} is too small for {records} records (need {expected})")
    filesize records

/-- `ftruncate` on a file system whose files have up to `limit` bytes. -/
def ftruncate (limit : ℕ) (length : Int64) : Bool :=
  decide (0 ≤ length.toInt ∧ length.toInt ≤ limit)

/-- The size that `gen` gives its file, from what `strtoull` makes of the first argument. -/
def genSize (limit : ℕ) (errno : Bool) (records : UInt64) : Except String UInt64 :=
  if errno || records == 0 || records % 256 != 0 then
    .error "Error: records must be a positive multiple of 256"
  else
    let filesize := sizeOfRecords records
    if ftruncate limit filesize.toInt64 then .ok filesize else .error "ftruncate"

/-- A file of `size` bytes has room for the header and the records it announces. -/
def HasRoom (size : ℕ) (records : UInt64) : Prop :=
  headerSize + records.toNat * entrySize ≤ size ∧
    ∀ index < records.toNat, headerSize + index * entrySize + entrySize ≤ size

/-- No program is deceived by the record count, whatever the size of a file (an `off_t`). -/
def CountValidated (records : UInt64) : Prop :=
  (∀ size < 2 ^ 63, sortIndexCheck (UInt64.ofNat size) records = .ok () → HasRoom size records) ∧
    (∀ size < 2 ^ 63, viewCheck (UInt64.ofNat size) records = .ok () → HasRoom size records) ∧
      ∀ limit errno filesize, genSize limit errno records = .ok filesize →
        filesize.toNat = headerSize + records.toNat * entrySize

section Sizes

variable {records filesize : UInt64} {size : ℕ}

theorem toNat_sizeOfRecords (records : UInt64) :
    (sizeOfRecords records).toNat = (headerSize + records.toNat * entrySize) % 2 ^ 64 := by
  simp only [sizeOfRecords, UInt64.toNat_add, UInt64.toNat_mul, headerSize, entrySize]
  simp

/-- Below 2^60 records the size is exact. -/
theorem toNat_sizeOfRecords_of_lt (few : records.toNat < 2 ^ 60) :
    (sizeOfRecords records).toNat = headerSize + records.toNat * entrySize := by
  rw [toNat_sizeOfRecords]
  apply Nat.mod_eq_of_lt
  simp only [headerSize, entrySize]
  omega

/-- The size wraps around to that of `records % 2^60` records. -/
theorem toNat_sizeOfRecords_eq (records : UInt64) :
    (sizeOfRecords records).toNat = headerSize + records.toNat % 2 ^ 60 * entrySize := by
  rw [toNat_sizeOfRecords]
  simp only [headerSize, entrySize]
  omega

/-- The size check compares the size of the file with the wrapped size. -/
theorem checkSize_ok {tooSmall : String} {short : UInt64 → String} (size_lt : size < 2 ^ 63) :
    checkSize tooSmall short (UInt64.ofNat size) records = .ok () ↔
      (sizeOfRecords records).toNat ≤ size := by
  have size_eq : (UInt64.ofNat size).toNat = size :=
    UInt64.toNat_ofNat_of_lt' (size_lt.trans (by decide))
  have header : headerSize ≤ (sizeOfRecords records).toNat := by
    rw [toNat_sizeOfRecords_eq]
    exact Nat.le_add_right _ _
  simp only [checkSize, UInt64.lt_iff_toNat_lt, size_eq]
  simp only [headerSize] at header
  split
  · next small =>
      have small : size < 8 := small
      simp only [reduceCtorEq, false_iff]
      omega
  · split
    · next short =>
        simp only [reduceCtorEq, false_iff]
        omega
    · next enough =>
        simp only [true_iff]
        omega

/-- A file that is accepted for fewer than 2^60 records has room for them. -/
theorem hasRoom_of_few (few : records.toNat < 2 ^ 60)
    (enough : (sizeOfRecords records).toNat ≤ size) : HasRoom size records := by
  rw [toNat_sizeOfRecords_of_lt few] at enough
  refine ⟨enough, fun index below => ?_⟩
  simp only [headerSize, entrySize] at enough ⊢
  omega

/-- `gen` sets the wrapped size, and only one that is not negative. -/
theorem genSize_ok {limit : ℕ} {errno : Bool} (set : genSize limit errno records = .ok filesize) :
    filesize = sizeOfRecords records ∧ 0 ≤ (sizeOfRecords records).toInt64.toInt := by
  unfold genSize at set
  split at set
  · simp at set
  · dsimp only at set
    split at set
    · next truncated =>
        simp only [ftruncate, decide_eq_true_eq] at truncated
        exact ⟨(Except.ok.inj set).symm, truncated.1⟩
    · simp at set

/-- The wrapped size is an `off_t` that is not negative exactly if it is below 2^63. -/
theorem sizeOfRecords_nonneg_iff (records : UInt64) :
    0 ≤ (sizeOfRecords records).toInt64.toInt ↔ (sizeOfRecords records).toNat < 2 ^ 63 := by
  have below := (sizeOfRecords records).toNat_lt
  rw [← Int64.toInt_toBitVec, UInt64.toBitVec_toInt64, BitVec.toInt_eq_toNat_cond]
  simp only [UInt64.toNat_toBitVec]
  split <;> omega

end Sizes

/-- The record count is validated exactly if the size does not wrap or wraps to no size of a
file. -/
theorem countValidated_iff (records : UInt64) :
    CountValidated records ↔ records.toNat < 2 ^ 60 ∨ 2 ^ 59 ≤ records.toNat % 2 ^ 60 := by
  have wrapped := toNat_sizeOfRecords_eq records
  simp only [headerSize, entrySize] at wrapped
  constructor
  · intro validated
    by_contra deceived
    have small : (sizeOfRecords records).toNat < 2 ^ 63 := by omega
    have room := (validated.1 _ small ((checkSize_ok small).mpr (Nat.le_refl _))).1
    simp only [headerSize, entrySize] at room
    omega
  · intro exact_size
    rcases exact_size with few | negative
    · refine ⟨fun size size_lt accepted => ?_, fun size size_lt accepted => ?_, ?_⟩
      · exact hasRoom_of_few few ((checkSize_ok size_lt).mp accepted)
      · exact hasRoom_of_few few ((checkSize_ok size_lt).mp accepted)
      · intro limit errno filesize set
        rw [(genSize_ok set).1, toNat_sizeOfRecords_of_lt few]
    · refine ⟨fun size size_lt accepted => ?_, fun size size_lt accepted => ?_, ?_⟩
      · have fits := (checkSize_ok size_lt).mp accepted
        omega
      · have fits := (checkSize_ok size_lt).mp accepted
        omega
      · intro limit errno filesize set
        have small := (sizeOfRecords_nonneg_iff records).mp (genSize_ok set).2
        omega

/-- A file of 8 bytes whose header announces 2^60 records is accepted. -/
theorem not_countValidated_deceptive :
    sortIndexCheck 8 1152921504606846976 = .ok () ∧ viewCheck 8 1152921504606846976 = .ok () ∧
      genSize 8 false 1152921504606846976 = .ok 8 ∧ ¬CountValidated 1152921504606846976 := by
  refine ⟨by decide, by decide, by decide, fun validated => ?_⟩
  have room := validated.1 8 (by decide) (by decide)
  exact absurd room.1 (by decide)

end Osis.Lab06
