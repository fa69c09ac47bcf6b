import Osis.Lab06.RecordCount
import Osis.Memory.Span

/-!
# The windows of the chunk loop (`main` of `sort_index.c`)

The payload of the file begins behind a header of 8 bytes, so that no chunk
starts at the start of a page. The loop maps whole pages from the one with
`data_offset` on and sorts the part of the mapping behind `page_offset`.

The arithmetic is that of the source, `size_t` and `off_t` in 64 bits.
-/

namespace Osis.Lab06

open Memory

/-- The variables of one turn of the chunk loop. -/
structure Chunk where
  dataOffset : UInt64
  page : UInt64
  pageOffset : UInt64
  mapLen : UInt64

/-- The mapping that the loop makes for `data_offset`. -/
def chunkAt (pagesize memsize expected dataOffset : UInt64) : Chunk :=
  let page := dataOffset &&& ~~~(pagesize - 1)
  let pageOffset := dataOffset - page
  let want := pageOffset + memsize
  let want := if page + want > expected then expected - page else want
  ⟨dataOffset, page, pageOffset, want⟩

/-- The chunks from `data_offset` on, `none` if the loop takes more than `fuel` tests to end. -/
def chunks (pagesize memsize expected : UInt64) : ℕ → UInt64 → Option (List Chunk)
  | 0, _ => none
  | fuel + 1, dataOffset =>
      if dataOffset.toInt64 < expected.toInt64 then
        (chunks pagesize memsize expected fuel (dataOffset + memsize)).map fun rest =>
          chunkAt pagesize memsize expected dataOffset :: rest
      else some []

/-- The bytes of the file from where `base` of the workers points to the end of the mapping. -/
def Chunk.payload (chunk : Chunk) : Span :=
  ⟨chunk.page.toNat + chunk.pageOffset.toNat, chunk.page.toNat + chunk.mapLen.toNat⟩

/-- A chunk is mapped on the page grid and inside the file, and its payload is whole records. -/
structure Chunk.Fits (chunk : Chunk) (pagesize expected : ℕ) : Prop where
  aligned : pagesize ∣ chunk.page.toNat
  inside : chunk.page.toNat + chunk.mapLen.toNat ≤ expected
  payload_start : chunk.payload.start = chunk.dataOffset.toNat
  first_whole : entrySize ∣ chunk.payload.start - headerSize
  whole : entrySize ∣ chunk.payload.stop - chunk.payload.start

/-- The chunks are mapped as they should be, and their payloads partition the file. -/
structure Partition (pagesize expected : ℕ) (chunks : List Chunk) : Prop where
  fits : ∀ chunk ∈ chunks, chunk.Fits pagesize expected
  consecutive : Consecutive headerSize (chunks.map Chunk.payload) expected
  disjoint : (chunks.map Chunk.payload).Pairwise fun first second =>
    ∀ byte, ¬(first.Has byte ∧ second.Has byte)
  covers : ∀ byte, (∃ payload ∈ chunks.map Chunk.payload, payload.Has byte) ↔
    headerSize ≤ byte ∧ byte < expected

section Loop

variable {pagesize memsize expected dataOffset : UInt64} {exponent : ℕ}

/-- Masking with `~(pagesize - 1)` takes off the remainder. -/
theorem toNat_mask (pagesize_eq : pagesize.toNat = 2 ^ exponent) (offset : UInt64) :
    (offset &&& ~~~(pagesize - 1)).toNat = offset.toNat - offset.toNat % pagesize.toNat := by
  have one_le : (1 : UInt64) ≤ pagesize := by
    rw [UInt64.le_iff_toNat_le, pagesize_eq]
    exact Nat.one_le_two_pow
  have remainder : (offset &&& (pagesize - 1)).toNat = offset.toNat % pagesize.toNat := by
    rw [UInt64.toNat_and, UInt64.toNat_sub_of_le _ _ one_le, pagesize_eq]
    exact Nat.and_two_pow_sub_one_eq_mod _ _
  have split : (offset &&& (pagesize - 1)) + (offset &&& ~~~(pagesize - 1)) = offset := by
    apply UInt64.toBitVec_inj.mp
    rw [UInt64.toBitVec_add, BitVec.add_eq_or_of_and_eq_zero]
    · ext i inside
      simp only [UInt64.toBitVec_and, UInt64.toBitVec_not, BitVec.getElem_or, BitVec.getElem_and,
        BitVec.getElem_not]
      cases offset.toBitVec[i] <;> simp
    · ext i inside
      simp only [UInt64.toBitVec_and, UInt64.toBitVec_not, BitVec.getElem_and, BitVec.getElem_not,
        BitVec.getElem_zero]
      cases offset.toBitVec[i] <;> simp
  have no_carry : (offset &&& (pagesize - 1)) ≤ offset := UInt64.and_le_left
  have masked : offset &&& ~~~(pagesize - 1) = offset - (offset &&& (pagesize - 1)) := by
    rw [eq_comm, UInt64.sub_eq_iff_eq_add, UInt64.add_comm, split]
  rw [masked, UInt64.toNat_sub_of_le _ _ no_carry, remainder]

/-- The test of the loop, where no size is as large as 2^63. -/
theorem toInt64_lt_iff (small : dataOffset.toNat < 2 ^ 63) (size_lt : expected.toNat < 2 ^ 63) :
    dataOffset.toInt64 < expected.toInt64 ↔ dataOffset.toNat < expected.toNat := by
  have value : ∀ word : UInt64, word.toNat < 2 ^ 63 → word.toInt64.toInt = word.toNat := by
    intro word below
    rw [← Int64.toInt_toBitVec, UInt64.toBitVec_toInt64]
    exact BitVec.toInt_eq_toNat_of_lt (by rw [UInt64.toNat_toBitVec]; omega)
  rw [Int64.lt_iff_toInt_lt, value _ small, value _ size_lt]
  omega

/-- The mapping at `data_offset` in numbers: nothing in its computation wraps around. -/
theorem chunkAt_eq (pagesize_eq : pagesize.toNat = 2 ^ exponent)
    (room : expected.toNat + memsize.toNat < 2 ^ 63) (more : dataOffset.toNat < expected.toNat) :
    (chunkAt pagesize memsize expected dataOffset).page.toNat =
        dataOffset.toNat - dataOffset.toNat % pagesize.toNat ∧
      (chunkAt pagesize memsize expected dataOffset).pageOffset.toNat =
        dataOffset.toNat % pagesize.toNat ∧
      (chunkAt pagesize memsize expected dataOffset).page.toNat +
          (chunkAt pagesize memsize expected dataOffset).mapLen.toNat =
        min (dataOffset.toNat + memsize.toNat) expected.toNat := by
  have page_eq := toNat_mask pagesize_eq dataOffset
  have remainder_le := Nat.mod_le dataOffset.toNat pagesize.toNat
  have page_le : dataOffset &&& ~~~(pagesize - 1) ≤ dataOffset := UInt64.and_le_left
  have offset_eq : (dataOffset - (dataOffset &&& ~~~(pagesize - 1))).toNat =
      dataOffset.toNat % pagesize.toNat := by
    rw [UInt64.toNat_sub_of_le _ _ page_le, page_eq]
    omega
  have want_eq : (dataOffset - (dataOffset &&& ~~~(pagesize - 1)) + memsize).toNat =
      dataOffset.toNat % pagesize.toNat + memsize.toNat := by
    rw [UInt64.toNat_add, offset_eq]
    apply Nat.mod_eq_of_lt
    omega
  have end_eq : ((dataOffset &&& ~~~(pagesize - 1)) +
        (dataOffset - (dataOffset &&& ~~~(pagesize - 1)) + memsize)).toNat =
      dataOffset.toNat + memsize.toNat := by
    rw [UInt64.toNat_add, want_eq, page_eq, Nat.mod_eq_of_lt] <;> omega
  refine ⟨page_eq, offset_eq, ?_⟩
  simp only [chunkAt, gt_iff_lt, UInt64.lt_iff_toNat_lt, end_eq]
  split
  · next beyond =>
      have page_le_expected : dataOffset &&& ~~~(pagesize - 1) ≤ expected := by
        rw [UInt64.le_iff_toNat_le, page_eq]
        omega
      rw [UInt64.toNat_sub_of_le _ _ page_le_expected, page_eq]
      omega
  · next enough =>
      rw [want_eq, page_eq]
      omega

/-- With a page size that is a power of two, `mapping` of the chunk loop is what the source maps. -/
theorem mapping_eq_chunkAt {arguments : Arguments} (pagesize_eq : pagesize.toNat = 2 ^ exponent)
    (same_pagesize : arguments.pagesize = pagesize.toNat)
    (same_memsize : arguments.memsize = memsize.toNat)
    (room : expected.toNat + memsize.toNat < 2 ^ 63) (more : dataOffset.toNat < expected.toNat) :
    arguments.mapping expected.toNat dataOffset.toNat =
      ⟨(chunkAt pagesize memsize expected dataOffset).page.toNat,
        (chunkAt pagesize memsize expected dataOffset).pageOffset.toNat,
        (chunkAt pagesize memsize expected dataOffset).mapLen.toNat⟩ := by
  rcases chunkAt_eq pagesize_eq room more with ⟨page_eq, offset_eq, end_eq⟩
  have remainder_le := Nat.mod_le dataOffset.toNat pagesize.toNat
  simp only [Arguments.mapping, same_pagesize, same_memsize, Mapping.mk.injEq]
  refine ⟨page_eq.symm, by omega, ?_⟩
  split <;> omega

/-- The payload of a chunk is `memsize` bytes, or what is left of the file. -/
theorem payload_chunkAt (pagesize_eq : pagesize.toNat = 2 ^ exponent)
    (room : expected.toNat + memsize.toNat < 2 ^ 63) (more : dataOffset.toNat < expected.toNat) :
    (chunkAt pagesize memsize expected dataOffset).payload =
      ⟨dataOffset.toNat, min (dataOffset.toNat + memsize.toNat) expected.toNat⟩ := by
  rcases chunkAt_eq pagesize_eq room more with ⟨page_eq, offset_eq, end_eq⟩
  have remainder_le := Nat.mod_le dataOffset.toNat pagesize.toNat
  simp only [Chunk.payload, page_eq ▸ end_eq, page_eq, offset_eq, Span.mk.injEq, and_true]
  omega

/-- A chunk that begins with a record is mapped as it should be. -/
theorem fits_chunkAt (pagesize_eq : pagesize.toNat = 2 ^ exponent)
    (room : expected.toNat + memsize.toNat < 2 ^ 63) (more : dataOffset.toNat < expected.toNat)
    (memsize_whole : entrySize ∣ memsize.toNat)
    (expected_whole : entrySize ∣ expected.toNat - headerSize)
    (header : headerSize ≤ dataOffset.toNat)
    (first_whole : entrySize ∣ dataOffset.toNat - headerSize) :
    (chunkAt pagesize memsize expected dataOffset).Fits pagesize.toNat expected.toNat := by
  rcases chunkAt_eq pagesize_eq room more with ⟨page_eq, offset_eq, end_eq⟩
  have payload_eq := payload_chunkAt pagesize_eq room more
  refine ⟨?_, ?_, ?_, ?_, ?_⟩
  · rw [page_eq]
    exact Nat.dvd_sub_mod _
  · rw [end_eq]
    exact Nat.min_le_right _ _
  · rw [payload_eq]
    rfl
  · rw [payload_eq]
    exact first_whole
  · rw [payload_eq]
    simp only [entrySize, headerSize] at memsize_whole expected_whole header first_whole ⊢
    omega

/-- The loop from `data_offset` on, with enough tests for the bytes that are left. -/
theorem chunks_from (pagesize_eq : pagesize.toNat = 2 ^ exponent)
    (room : expected.toNat + memsize.toNat < 2 ^ 63) (memsize_pos : 0 < memsize.toNat)
    (memsize_whole : entrySize ∣ memsize.toNat)
    (expected_whole : entrySize ∣ expected.toNat - headerSize) (fuel : ℕ)
    (small : dataOffset.toNat < 2 ^ 63) (header : headerSize ≤ dataOffset.toNat)
    (first_whole : entrySize ∣ dataOffset.toNat - headerSize)
    (enough : expected.toNat ≤ dataOffset.toNat + fuel) :
    ∃ list, chunks pagesize memsize expected (fuel + 1) dataOffset = some list ∧
      (∀ chunk ∈ list, chunk.Fits pagesize.toNat expected.toNat) ∧
      Consecutive (min dataOffset.toNat expected.toNat) (list.map Chunk.payload)
        expected.toNat := by
  have size_lt : expected.toNat < 2 ^ 63 := by omega
  induction fuel generalizing dataOffset with
  | zero =>
      have finished : ¬dataOffset.toInt64 < expected.toInt64 := by
        rw [toInt64_lt_iff small size_lt]
        omega
      refine ⟨[], by rw [chunks, if_neg finished], by simp, ?_⟩
      rw [Nat.min_eq_right (by omega)]
      exact .done
  | succ fuel ih =>
      by_cases more : dataOffset.toNat < expected.toNat
      · have next_eq : (dataOffset + memsize).toNat = dataOffset.toNat + memsize.toNat := by
          rw [UInt64.toNat_add]
          apply Nat.mod_eq_of_lt
          omega
        have next_whole : entrySize ∣ (dataOffset + memsize).toNat - headerSize := by
          simp only [next_eq, entrySize, headerSize] at memsize_whole first_whole header ⊢
          omega
        rcases ih (by omega) (by omega) next_whole (by omega) with ⟨rest, ran, fits, follows⟩
        refine ⟨chunkAt pagesize memsize expected dataOffset :: rest, ?_, ?_, ?_⟩
        · rw [chunks, if_pos ((toInt64_lt_iff small size_lt).mpr more), ran, Option.map_some]
        · intro chunk member
          rcases List.mem_cons.mp member with rfl | member
          · exact fits_chunkAt pagesize_eq room more memsize_whole expected_whole header first_whole
          · exact fits chunk member
        · rw [List.map_cons, payload_chunkAt pagesize_eq room more, Nat.min_eq_left more.le]
          rw [next_eq] at follows
          exact .next rfl (by simp; omega) follows
      · have finished : ¬dataOffset.toInt64 < expected.toInt64 := by
          rwa [toInt64_lt_iff small size_lt]
        refine ⟨[], by rw [chunks, if_neg finished], by simp, ?_⟩
        rw [Nat.min_eq_right (by omega)]
        exact .done

end Loop

/-- The chunk loop ends, and the windows it sorts partition the records of the file. -/
theorem partition_chunks {pagesize memsize records : UInt64} {exponent : ℕ}
    (pagesize_eq : pagesize.toNat = 2 ^ exponent) (pagesize_ge : 16 ≤ pagesize.toNat)
    (memsize_pos : 0 < memsize.toNat) (memsize_pages : pagesize.toNat ∣ memsize.toNat)
    (room : headerSize + entrySize * records.toNat + memsize.toNat < 2 ^ 63) :
    ∃ fuel list, chunks pagesize memsize (sizeOfRecords records) fuel 8 = some list ∧
      Partition pagesize.toNat (headerSize + entrySize * records.toNat) list := by
  have few : records.toNat < 2 ^ 60 := by
    simp only [headerSize, entrySize] at room
    omega
  have size_eq : (sizeOfRecords records).toNat = headerSize + entrySize * records.toNat := by
    rw [toNat_sizeOfRecords_of_lt few, Nat.mul_comm]
  have page_whole : entrySize ∣ pagesize.toNat := by
    have large : 2 ^ 4 ≤ 2 ^ exponent := pagesize_eq ▸ pagesize_ge
    rw [pagesize_eq]
    exact Nat.pow_dvd_pow 2 ((Nat.pow_le_pow_iff_right (by decide)).mp large)
  have expected_whole : entrySize ∣ (sizeOfRecords records).toNat - headerSize := by
    rw [size_eq, Nat.add_sub_cancel_left]
    exact Nat.dvd_mul_right _ _
  have small : (8 : UInt64).toNat < 2 ^ 63 := by decide
  have header : headerSize ≤ (8 : UInt64).toNat := Nat.le_refl headerSize
  have first_whole : entrySize ∣ (8 : UInt64).toNat - headerSize := ⟨0, rfl⟩
  have header_le : (8 : UInt64).toNat ≤ (sizeOfRecords records).toNat :=
    size_eq ▸ Nat.le_add_right _ _
  rcases chunks_from pagesize_eq (size_eq ▸ room) memsize_pos (page_whole.trans memsize_pages)
    expected_whole (sizeOfRecords records).toNat small header first_whole (Nat.le_add_left _ _)
    with ⟨list, ran, fits, consecutive⟩
  rw [Nat.min_eq_left header_le, size_eq] at consecutive
  rw [size_eq] at fits
  refine ⟨_, list, ran, fits, consecutive, ?_, fun byte => consecutive.covers⟩
  apply consecutive.apart.imp
  intro first second before byte both
  have := both.1.2
  have := both.2.1
  omega

/-- Pages of 4096 bytes, chunks of one page and 300 records: two chunks. -/
theorem partition_chunks_two :
    ∃ fuel list, chunks 4096 4096 (sizeOfRecords 300) fuel 8 = some list ∧
      Partition (UInt64.toNat 4096) (headerSize + entrySize * UInt64.toNat 300) list :=
  partition_chunks (show UInt64.toNat 4096 = 2 ^ 12 by decide) (by decide) (by decide)
    (by decide) (by decide)

end Osis.Lab06
