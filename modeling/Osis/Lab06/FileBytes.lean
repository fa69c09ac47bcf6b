import Osis.Lab06.RecordCount
import Osis.Memory.Word
import Osis.Posix.Text

/-!
# The bytes of an index file (`gen.c` and `view.c` of lab 6)

All three programs map the file and go through it as a `struct index_hdr_s`: a word with
the number of records and behind it two words for each record. The mappings are shared, so
what a program stores is what the next one loads.

What `gen` makes of `rand_r` and how `printf` shows a `double` are parameters, as is the
format of a `double`.
-/

namespace Osis.Lab06

open Memory Posix

universe u

/-- The format of a `double`: what is stored is what is loaded. -/
structure TimeFormat (Time : Type u) where
  bits : Time → UInt64
  value : UInt64 → Time
  value_bits : ∀ time, value (bits time) = time

/-- A file that is mapped as a whole. -/
@[ext]
structure MappedFile where
  size : ℕ
  bytes : ℕ → UInt8

/-- The offset of `idx[index]` in a `struct index_hdr_s`. -/
def entryOffset (index : ℕ) : ℕ := headerSize + entrySize * index

section Definitions

variable {Time : Type u} (format : TimeFormat Time)

/-- `hdr->idx[index]`. -/
def loadEntry (bytes : ℕ → UInt8) (index : ℕ) : IndexS Time :=
  ⟨format.value (loadWord bytes (entryOffset index)), loadWord bytes (entryOffset index + 8)⟩

/-- An assignment to both fields of `hdr->idx[index]`. -/
def storeEntry (bytes : ℕ → UInt8) (index : ℕ) (entry : IndexS Time) : ℕ → UInt8 :=
  storeWord (storeWord bytes (entryOffset index) (format.bits entry.timeMark))
    (entryOffset index + 8) entry.recno

/-- Assignments to the first `count` records in turn. -/
def storeEntries (entry : ℕ → IndexS Time) : ℕ → (ℕ → UInt8) → ℕ → UInt8
  | 0, bytes => bytes
  | count + 1, bytes => storeEntry format (storeEntries entry count bytes) count (entry count)

/-- The record that `gen` fills in for the given time marks. -/
def generated (marks : ℕ → Time) (index : ℕ) : IndexS Time :=
  ⟨marks index, UInt64.ofNat (index + 1)⟩

/-- `main` of `gen.c`, from what `strtoull` makes of the first argument. -/
def gen (limit : ℕ) (errno : Bool) (records : UInt64) (marks : ℕ → Time) :
    Except String MappedFile :=
  (genSize limit errno records).map fun filesize =>
    -- `ftruncate` leaves zeros
    ⟨filesize.toNat,
      storeEntries format (generated marks) records.toNat (storeWord (fun _ => 0) 0 records)⟩

/-- What `printf` makes of `%4lu: time = %.6f, recno = %lu`. -/
def viewLine (showMark : Time → Bytes) (index : ℕ) (entry : IndexS Time) : Bytes :=
  widened 4 (decimal index) ++ ascii ": time = " ++ showMark entry.timeMark ++
    ascii ", recno = " ++ decimal entry.recno.toNat ++ [newline]

/-- `main` of `view.c`: the lines it prints. -/
def view (showMark : Time → Bytes) (file : MappedFile) : Except String (List Bytes) :=
  let records := loadWord file.bytes 0
  (viewCheck (UInt64.ofNat file.size) records).map fun _ =>
    (List.range records.toNat).map fun index =>
      viewLine showMark index (loadEntry format file.bytes index)

variable [LinearOrder Time]

/-- `main` of `sort_index.c` returns 0 on a file and leaves another one. -/
inductive SortIndexReturns (arguments : Arguments) (file sorted : MappedFile) : Prop where
  | intro {size_lt : headerSize + (loadWord file.bytes 0).toNat * entrySize < 2 ^ 63}
      {final : ℕ → IndexS Time}
      (accepted : sortIndexCheck (UInt64.ofNat file.size) (loadWord file.bytes 0) = .ok ())
      (returns : MainReturns arguments
        ⟨(loadWord file.bytes 0).toNat, loadEntry format file.bytes, size_lt⟩ final)
      (size_eq : sorted.size = file.size)
      (bytes_eq : sorted.bytes =
        storeEntries format final (loadWord file.bytes 0).toNat file.bytes) :
      SortIndexReturns arguments file sorted

end Definitions

section Entries

variable {Time : Type u} {format : TimeFormat Time} {bytes other : ℕ → UInt8}
  {entry entry' : ℕ → IndexS Time} {index count : ℕ}

theorem entryOffset_apart {first second : ℕ} (before : first < second) :
    entryOffset first + 16 ≤ entryOffset second := by
  simp only [entryOffset, headerSize, entrySize]
  omega

/-- What is loaded after an assignment to a record. -/
theorem loadEntry_storeEntry (stored : IndexS Time) (index : ℕ) :
    loadEntry format (storeEntry format bytes index stored) index = stored := by
  have mark : loadWord (storeEntry format bytes index stored) (entryOffset index) =
      format.bits stored.timeMark := by
    rw [storeEntry, loadWord_storeWord_disjoint (.inr (Nat.le_refl _)), loadWord_storeWord]
  have recno : loadWord (storeEntry format bytes index stored) (entryOffset index + 8) =
      stored.recno := loadWord_storeWord _ _ _
  rw [loadEntry, mark, recno, format.value_bits]

theorem storeEntry_outside {stored : IndexS Time} {address : ℕ}
    (outside : address < entryOffset index ∨ entryOffset index + 16 ≤ address) :
    storeEntry format bytes index stored address = bytes address := by
  rw [storeEntry, storeWord_outside (by omega), storeWord_outside (by omega)]

/-- Assignments leave the header and what is behind their records. -/
theorem storeEntries_outside {address : ℕ}
    (outside : address < headerSize ∨ entryOffset count ≤ address) :
    storeEntries format entry count bytes address = bytes address := by
  induction count with
  | zero => rfl
  | succ count ih =>
      have last : entryOffset count + 16 ≤ entryOffset (count + 1) :=
        entryOffset_apart (Nat.lt_succ_self count)
      have first : headerSize ≤ entryOffset count := Nat.le_add_right _ _
      rw [storeEntries, storeEntry_outside (by omega)]
      apply ih
      omega

theorem loadEntry_congr
    (same : ∀ offset < 16,
      bytes (entryOffset index + offset) = other (entryOffset index + offset)) :
    loadEntry format bytes index = loadEntry format other index := by
  have mark : loadWord bytes (entryOffset index) = loadWord other (entryOffset index) :=
    loadWord_congr fun offset inside => same offset (by omega)
  have recno : loadWord bytes (entryOffset index + 8) = loadWord other (entryOffset index + 8) := by
    apply loadWord_congr
    intro offset inside
    rw [Nat.add_assoc]
    exact same (8 + offset) (by omega)
  rw [loadEntry, loadEntry, mark, recno]

/-- Each record that was assigned is loaded. -/
theorem loadEntry_storeEntries (below : index < count) :
    loadEntry format (storeEntries format entry count bytes) index = entry index := by
  induction count with
  | zero => exact absurd below (Nat.not_lt_zero index)
  | succ count ih =>
      rcases Nat.lt_succ_iff_lt_or_eq.mp below with earlier | last
      · rw [← ih earlier]
        apply loadEntry_congr
        intro offset inside
        apply storeEntry_outside
        have := entryOffset_apart earlier
        omega
      · subst last
        exact loadEntry_storeEntry _ _

theorem loadWord_header_storeEntries :
    loadWord (storeEntries format entry count bytes) 0 = loadWord bytes 0 := by
  apply loadWord_congr
  intro offset inside
  apply storeEntries_outside
  simp only [headerSize]
  omega

/-- What assignments leave in their records does not depend on what was there. -/
theorem storeEntry_inside {stored : IndexS Time} {address : ℕ}
    (inside : entryOffset index ≤ address ∧ address < entryOffset index + 16) :
    storeEntry format bytes index stored address =
      storeEntry format other index stored address := by
  by_cases second : entryOffset index + 8 ≤ address
  · exact storeWord_inside (by omega)
  · have first : address < entryOffset index + 8 := Nat.lt_of_not_le second
    rw [storeEntry, storeEntry, storeWord_outside (.inl first), storeWord_outside (.inl first)]
    exact storeWord_inside ⟨inside.1, first⟩

theorem storeEntries_eq {address : ℕ}
    (same : bytes address = other address ∨ headerSize ≤ address ∧ address < entryOffset count) :
    storeEntries format entry count bytes address =
      storeEntries format entry count other address := by
  induction count with
  | zero =>
      rcases same with same | ⟨behind, before⟩
      · exact same
      · exact absurd behind (Nat.not_le_of_lt before)
  | succ count ih =>
      rw [storeEntries, storeEntries]
      have last : entryOffset (count + 1) = entryOffset count + 16 := rfl
      by_cases own : entryOffset count ≤ address ∧ address < entryOffset count + 16
      · exact storeEntry_inside own
      · have outside : address < entryOffset count ∨ entryOffset count + 16 ≤ address := by omega
        rw [storeEntry_outside outside, storeEntry_outside outside]
        apply ih
        apply same.imp_right
        omega

/-- Assigning the same records again changes nothing. -/
theorem storeEntries_idem :
    storeEntries format entry count (storeEntries format entry count bytes) =
      storeEntries format entry count bytes := by
  funext address
  apply storeEntries_eq
  by_cases inside : headerSize ≤ address ∧ address < entryOffset count
  · exact Or.inr inside
  · apply Or.inl
    apply storeEntries_outside
    omega

theorem storeEntries_congr (same : ∀ index < count, entry index = entry' index) :
    storeEntries format entry count bytes = storeEntries format entry' count bytes := by
  induction count with
  | zero => rfl
  | succ count ih =>
      rw [storeEntries, storeEntries, ih fun index below => same index (by omega),
        same count (Nat.lt_succ_self count)]

end Entries

end Osis.Lab06
