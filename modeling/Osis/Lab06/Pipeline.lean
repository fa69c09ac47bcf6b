import Osis.Lab06.FileBytes

/-!
# From `gen` over `sort_index` to `view`

`gen` numbers its records from 1, `sort_index` rearranges them within the chunks, and `view`
prints what is there. What `sort_index` leaves depends on the file and on `memsize` only, so
neither the blocks nor the threads nor their schedule can be seen in it.
-/

namespace Osis.Lab06

open Memory Posix

universe u

variable {Time : Type u} [LinearOrder Time] {arguments arguments' : Arguments}
  {format : TimeFormat Time} {file sorted sorted' again : MappedFile}

/-- The records are cut into chunks of `size`, and each chunk is what `qsort` makes of it. -/
def SortedInChunks (size records : ℕ) (entry final : ℕ → IndexS Time) : Prop :=
  ∃ count, records = size * count ∧ ∀ chunk < count,
    slice final (size * chunk) size = qsort (slice entry (size * chunk) size)

/-- `main` sorts every chunk and changes nothing else. -/
theorem sortedInChunks_of_returns {index : IndexFile Time} {final : ℕ → IndexS Time}
    (returned : MainReturns arguments index final)
    (blocksDivide : entrySize * arguments.blocks ∣ arguments.memsize)
    (memsizeDivides : arguments.memsize ∣ index.records * entrySize) :
    SortedInChunks (arguments.memsize / entrySize) index.records index.entry final := by
  rcases mainReturns_runs blocksDivide memsizeDivides returned with ⟨count, records_eq, -, runs⟩
  refine ⟨count, records_eq, fun chunk below => ?_⟩
  exact eq_qsort_of_perm (runs chunk below).1 (runs chunk below).2

omit [LinearOrder Time] in
/-- Chunks that are equal one by one are equal record by record. -/
theorem eq_of_slices {entry entry' : ℕ → IndexS Time} {size count : ℕ}
    (same : ∀ chunk < count, slice entry (size * chunk) size = slice entry' (size * chunk) size) :
    ∀ index < size * count, entry index = entry' index := by
  intro index below
  have positive : 0 < size := Nat.pos_of_mul_pos_right (Nat.zero_lt_of_lt below)
  have chunk_lt : index / size < count := Nat.div_lt_of_lt_mul below
  have offset_lt : index % size < size := Nat.mod_lt _ positive
  have place : size * (index / size) + index % size = index := Nat.div_add_mod index size
  have cell := congrArg (fun cells => cells[index % size]?) (same (index / size) chunk_lt)
  simpa only [getElem?_slice offset_lt, place, Option.some.injEq] using cell

namespace SortedInChunks

variable {size records : ℕ} {entry final final' : ℕ → IndexS Time}

/-- The records determine how they are sorted. -/
theorem unique (first : SortedInChunks size records entry final)
    (second : SortedInChunks size records entry final') :
    ∀ index < records, final index = final' index := by
  rcases first with ⟨count, rfl, first⟩
  rcases second with ⟨count', records_eq, second⟩
  intro index below
  have positive : 0 < size := Nat.pos_of_mul_pos_right (Nat.zero_lt_of_lt below)
  have counts : count = count' := Nat.eq_of_mul_eq_mul_left positive records_eq
  subst counts
  exact eq_of_slices
    (fun chunk chunk_lt => (first chunk chunk_lt).trans (second chunk chunk_lt).symm) index below

/-- Chunks that are sorted already stay as they are. -/
theorem stays (first : SortedInChunks size records entry final)
    (second : SortedInChunks size records final final') :
    ∀ index < records, final' index = final index := by
  rcases first with ⟨count, rfl, first⟩
  apply second.unique
  refine ⟨count, rfl, fun chunk below => ?_⟩
  rw [first chunk below]
  exact eq_qsort_of_perm (List.Perm.refl _) (sorted_qsort _)

/-- Only the records of the file are sorted. -/
theorem congr {entry' : ℕ → IndexS Time} (chunks : SortedInChunks size records entry final)
    (same : ∀ index < records, entry index = entry' index) :
    SortedInChunks size records entry' final := by
  rcases chunks with ⟨count, rfl, chunks⟩
  refine ⟨count, rfl, fun chunk below => ?_⟩
  have inside : size * chunk + size ≤ size * count := by
    have : size * (chunk + 1) ≤ size * count := Nat.mul_le_mul_left size below
    rwa [Nat.mul_succ] at this
  rw [chunks chunk below, slice_congr fun offset offset_lt => same _ (by omega)]

theorem perm (chunks : SortedInChunks size records entry final) :
    (slice final 0 records).Perm (slice entry 0 records) := by
  rcases chunks with ⟨count, rfl, chunks⟩
  apply slice_perm_of_runs
  intro chunk below
  rw [chunks chunk below]
  exact List.mergeSort_perm _ _

theorem ordered (chunks : SortedInChunks size records entry final) {first second : ℕ}
    (before : first < second) (below : second < records) (same : first / size = second / size) :
    inOrder (final first) (final second) = true := by
  rcases chunks with ⟨count, rfl, chunks⟩
  have positive : 0 < size := Nat.pos_of_mul_pos_right (Nat.zero_lt_of_lt below)
  have chunk_lt : second / size < count := Nat.div_lt_of_lt_mul below
  have sorted : Sorted (slice final (size * (second / size)) size) := by
    rw [chunks _ chunk_lt]
    exact sorted_qsort _
  have first_place : size * (second / size) + first % size = first := by
    rw [← same]
    exact Nat.div_add_mod first size
  have second_place : size * (second / size) + second % size = second := Nat.div_add_mod second size
  have pair := List.pairwise_iff_getElem.mp sorted (first % size) (second % size)
    (by simpa using Nat.mod_lt _ positive) (by simpa using Nat.mod_lt _ positive) (by omega)
  simpa [slice, first_place, second_place] using pair

end SortedInChunks

/-- What `sort_index` leaves in a file whose chunks are full. -/
structure Leaves (format : TimeFormat Time) (size : ℕ) (file sorted : MappedFile)
    (final : ℕ → IndexS Time) : Prop where
  size_eq : sorted.size = file.size
  bytes_eq : sorted.bytes = storeEntries format final (loadWord file.bytes 0).toNat file.bytes
  chunks : SortedInChunks size (loadWord file.bytes 0).toNat (loadEntry format file.bytes) final

theorem SortIndexReturns.leaves (returned : SortIndexReturns format arguments file sorted)
    (blocksDivide : entrySize * arguments.blocks ∣ arguments.memsize)
    (memsizeDivides : arguments.memsize ∣ (loadWord file.bytes 0).toNat * entrySize) :
    ∃ final, Leaves format (arguments.memsize / entrySize) file sorted final := by
  cases returned with
  | @intro _ final _ returns size_eq bytes_eq =>
      have chunks := sortedInChunks_of_returns returns blocksDivide memsizeDivides
      exact ⟨final, size_eq, bytes_eq, chunks⟩

namespace Leaves

variable {size : ℕ} {final final' : ℕ → IndexS Time}

theorem header (leaves : Leaves format size file sorted final) :
    loadWord sorted.bytes 0 = loadWord file.bytes 0 := by
  rw [leaves.bytes_eq]
  exact loadWord_header_storeEntries

theorem loaded (leaves : Leaves format size file sorted final) :
    ∀ index < (loadWord file.bytes 0).toNat, loadEntry format sorted.bytes index = final index := by
  intro index below
  rw [leaves.bytes_eq]
  exact loadEntry_storeEntries below

theorem unique (leaves : Leaves format size file sorted final)
    (leaves' : Leaves format size file sorted' final') : sorted' = sorted := by
  apply MappedFile.ext (leaves'.size_eq.trans leaves.size_eq.symm)
  rw [leaves.bytes_eq, leaves'.bytes_eq, storeEntries_congr (leaves'.chunks.unique leaves.chunks)]

/-- Sorting a sorted file stores what is there. -/
theorem again_eq (leaves : Leaves format size file sorted final)
    (leaves' : Leaves format size sorted again final') : again = sorted := by
  have chunks' := leaves'.chunks
  rw [leaves.header] at chunks'
  have stays := leaves.chunks.stays (chunks'.congr leaves.loaded)
  apply MappedFile.ext leaves'.size_eq
  rw [leaves'.bytes_eq, leaves.header, storeEntries_congr stays, leaves.bytes_eq,
    storeEntries_idem]

end Leaves

/-- What `gen` leaves. -/
structure Made (format : TimeFormat Time) (records : UInt64) (marks : ℕ → Time)
    (file : MappedFile) : Prop where
  size_eq : file.size = headerSize + records.toNat * entrySize
  size_lt : file.size < 2 ^ 63
  header : loadWord file.bytes 0 = records
  loaded : ∀ index < records.toNat, loadEntry format file.bytes index = generated marks index

omit [LinearOrder Time] in
theorem made_of_gen {limit : ℕ} {errno : Bool} {records : UInt64} {marks : ℕ → Time}
    (few : records.toNat < 2 ^ 60) (made : gen format limit errno records marks = .ok file) :
    Made format records marks file := by
  unfold gen at made
  cases set : genSize limit errno records with
  | error message => simp [set, Except.map] at made
  | ok filesize =>
      simp only [set, Except.map, Except.ok.injEq] at made
      rcases genSize_ok set with ⟨rfl, nonneg⟩
      have size_eq := toNat_sizeOfRecords_of_lt few
      have size_lt := (sizeOfRecords_nonneg_iff records).mp nonneg
      subst made
      refine ⟨size_eq, size_lt, ?_, fun index below => loadEntry_storeEntries below⟩
      exact loadWord_header_storeEntries.trans (loadWord_storeWord _ 0 records)

/-- The rows that `view` prints of a file that was made for the given marks and sorted. -/
structure SortedRows (marks : ℕ → Time) (records size : ℕ) (row : ℕ → IndexS Time) : Prop where
  /-- Every record that `gen` made is shown once. -/
  perm : (slice row 0 records).Perm (slice (generated marks) 0 records)
  numbers : ((slice row 0 records).map fun entry => entry.recno.toNat).Perm
    (List.range' 1 records)
  ordered : ∀ first second, first < second → second < records →
    first / size = second / size → inOrder (row first) (row second) = true

section View

variable {limit : ℕ} {errno : Bool} {records : UInt64} {marks : ℕ → Time}

omit [LinearOrder Time] in
/-- `gen` numbers its records from 1. -/
theorem numbers_generated (marks : ℕ → Time) (count : ℕ) (few : count < 2 ^ 60) :
    ((slice (generated marks) 0 count).map fun entry => entry.recno.toNat) =
      List.range' 1 count := by
  rw [slice, List.map_map, List.range'_eq_map_range]
  apply List.map_congr_left
  intro index below
  have small : index + 1 < UInt64.size :=
    (Nat.succ_le_of_lt (List.mem_range.mp below)).trans_lt (few.trans (by decide))
  simpa [generated, Nat.add_comm 1] using UInt64.toNat_ofNat_of_lt' small

theorem Leaves.sortedRows {size : ℕ} {final : ℕ → IndexS Time} (few : records.toNat < 2 ^ 60)
    (made : Made format records marks file) (leaves : Leaves format size file sorted final) :
    SortedRows marks records.toNat size final := by
  have chunks := leaves.chunks.congr (made.header.symm ▸ made.loaded)
  rw [made.header] at chunks
  refine ⟨chunks.perm, ?_, fun first second => chunks.ordered⟩
  rw [← numbers_generated marks records.toNat few]
  exact chunks.perm.map _

/-- `view` shows every record that `gen` made once, in order within each chunk. -/
theorem view_sorted (showMark : Time → Bytes) (few : records.toNat < 2 ^ 60)
    (blocksDivide : entrySize * arguments.blocks ∣ arguments.memsize)
    (memsizeDivides : arguments.memsize ∣ records.toNat * entrySize)
    (generates : gen format limit errno records marks = .ok file)
    (returned : SortIndexReturns format arguments file sorted) :
    ∃ row, SortedRows marks records.toNat (arguments.memsize / entrySize) row ∧
      view format showMark sorted =
        .ok ((List.range records.toNat).map fun index => viewLine showMark index (row index)) := by
  have made := made_of_gen few generates
  rcases returned.leaves blocksDivide (made.header.symm ▸ memsizeDivides) with ⟨final, leaves⟩
  refine ⟨final, leaves.sortedRows few made, ?_⟩
  have header : loadWord sorted.bytes 0 = records := leaves.header.trans made.header
  have accepted : viewCheck (UInt64.ofNat sorted.size) records = .ok () := by
    rw [leaves.size_eq, viewCheck, checkSize_ok made.size_lt, toNat_sizeOfRecords_of_lt few,
      made.size_eq]
  simp only [view, header, accepted, Except.map, Except.ok.injEq]
  apply List.map_congr_left
  intro index index_mem
  rw [leaves.loaded index (made.header.symm ▸ List.mem_range.mp index_mem)]

end View

section Solo

/-- Time marks that are their bits. -/
def bitFormat : TimeFormat (Fin UInt64.size) where
  bits time := UInt64.ofNat time
  value word := ⟨word.toNat, word.toNat_lt⟩
  value_bits time := Fin.ext (UInt64.toNat_ofNat_of_lt' time.isLt)

/-- Time marks that fall from record to record. -/
def fallingMarks (index : ℕ) : Fin UInt64.size := Fin.ofNat UInt64.size (512 - index)

theorem gen_falling :
    ∃ file, gen bitFormat 1048576 false 512 fallingMarks = .ok file ∧
      Made bitFormat 512 fallingMarks file := by
  have set : genSize 1048576 false 512 = .ok 8200 := by decide
  have generates : ∃ file, gen bitFormat 1048576 false 512 fallingMarks = .ok file := by
    rw [gen, set]
    exact ⟨_, rfl⟩
  rcases generates with ⟨file, generates⟩
  exact ⟨file, generates, made_of_gen (by decide) generates⟩

/-- One worker sorts a file of two chunks. -/
theorem solo_sortIndexReturns (size_eq : file.size = 8200) (header : loadWord file.bytes 0 = 512) :
    ∃ sorted, SortIndexReturns bitFormat soloArguments file sorted ∧ sorted.size = 8200 ∧
      loadWord sorted.bytes 0 = 512 := by
  have records_eq : (loadWord file.bytes 0).toNat = 512 := by
    rw [header]
    rfl
  have returns : ∀ (records : ℕ) (size_lt : headerSize + records * entrySize < 2 ^ 63),
      records = 512 → ∃ final,
        MainReturns soloArguments ⟨records, loadEntry bitFormat file.bytes, size_lt⟩ final := by
    rintro _ size_lt rfl
    exact solo_mainReturns _ size_lt
  have size_lt : headerSize + (loadWord file.bytes 0).toNat * entrySize < 2 ^ 63 := by
    rw [records_eq]
    decide
  rcases returns _ size_lt records_eq with ⟨final, returned⟩
  have accepted : sortIndexCheck (UInt64.ofNat file.size) (loadWord file.bytes 0) = .ok () := by
    rw [size_eq, header]
    decide
  have left : ∀ bytes : ℕ → UInt8, ∃ sorted : MappedFile,
      sorted.size = file.size ∧ sorted.bytes = bytes := fun bytes => ⟨⟨_, bytes⟩, rfl, rfl⟩
  rcases left (storeEntries bitFormat final (loadWord file.bytes 0).toNat file.bytes) with
    ⟨sorted, sorted_size, sorted_bytes⟩
  refine ⟨sorted, .intro accepted returned sorted_size sorted_bytes, sorted_size.trans size_eq, ?_⟩
  rw [sorted_bytes]
  exact loadWord_header_storeEntries.trans header

theorem view_sorted_falling :
    ∃ file sorted row, gen bitFormat 1048576 false 512 fallingMarks = .ok file ∧
      SortIndexReturns bitFormat soloArguments file sorted ∧
      SortedRows fallingMarks (512 : UInt64).toNat (soloArguments.memsize / entrySize) row ∧
      view bitFormat (fun time => decimal time) sorted =
        .ok ((List.range (512 : UInt64).toNat).map fun index =>
          viewLine (fun time : Fin UInt64.size => decimal time) index (row index)) := by
  rcases gen_falling with ⟨file, generates, made⟩
  rcases solo_sortIndexReturns made.size_eq made.header with ⟨sorted, returned, -⟩
  have few : (512 : UInt64).toNat < 2 ^ 60 := by decide
  have blocksDivide : entrySize * soloArguments.blocks ∣ soloArguments.memsize := by decide
  have memsizeDivides : soloArguments.memsize ∣ (512 : UInt64).toNat * entrySize := ⟨2, rfl⟩
  have displays := view_sorted (fun time : Fin UInt64.size => decimal time) few blocksDivide
    memsizeDivides generates returned
  rcases displays with ⟨row, rows, shown⟩
  exact ⟨file, sorted, row, generates, returned, rows, shown⟩

end Solo

end Osis.Lab06
