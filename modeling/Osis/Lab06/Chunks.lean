import Osis.Lab06.Sorting

/-!
# The chunk loop of lab 6 (`main` of `sort_index.c`)

`main` maps the file chunk by chunk, lets the workers sort each chunk, and ends
after the last one. Nothing merges the sorted chunks, so the file comes out
sorted exactly if its chunks were in order from the start.

An index file is a header with the number of records and the records behind it;
offsets are byte offsets into the file. The mapping is shared, so what the
workers leave in it is what the file holds afterwards.
-/

namespace Osis.Lab06

open Concurrency Memory

universe u

/-- `sizeof(uint64_t)`. -/
def headerSize : ℕ := 8

/-- `sizeof(struct index_s)`. -/
def entrySize : ℕ := 16

/-- The page size, the number of processors and the arguments that `main` accepts with them. -/
structure Arguments where
  pagesize : ℕ
  cores : ℕ
  memsize : ℕ
  blocks : ℕ
  threads : ℕ
  exponent : ℕ
  pagesize_pos : 0 < pagesize
  memsize_pos : 0 < memsize
  memsize_pages : memsize % pagesize = 0
  blocks_eq : blocks = 2 ^ exponent
  threads_pos : 0 < threads
  cores_le : cores ≤ threads
  threads_le : threads ≤ 8 * cores
  room : 4 * threads ≤ blocks

/-- The records of an index file; its size is an `off_t`. -/
structure IndexFile (Time : Type u) where
  records : ℕ
  entry : ℕ → IndexS Time
  size_lt : headerSize + records * entrySize < 2 ^ 63

/-- `expected`. -/
def IndexFile.expected {Time : Type u} (file : IndexFile Time) : ℕ :=
  headerSize + file.records * entrySize

/-- Where and how much of the file `main` maps for a chunk. -/
structure Mapping where
  page : ℕ
  pageOffset : ℕ
  mapLen : ℕ

namespace Arguments

variable (arguments : Arguments)

/-- The mapping of the chunk at `data_offset`. -/
def mapping (expected dataOffset : ℕ) : Mapping :=
  -- `data_offset & ~(pagesize - 1)` for a page size that is a power of two
  let page := dataOffset - dataOffset % arguments.pagesize
  let pageOffset := dataOffset - page
  let want := pageOffset + arguments.memsize
  ⟨page, pageOffset, if expected < page + want then expected - page else want⟩

/-- `block_size`. -/
def blockSize : ℕ := arguments.memsize / arguments.blocks

/-- What the workers of every chunk are given. -/
def config : Config where
  threads := arguments.threads
  blocks := arguments.blocks
  per := arguments.blockSize / entrySize
  exponent := arguments.exponent
  threads_pos := arguments.threads_pos
  blocks_eq := arguments.blocks_eq
  room := arguments.room

end Arguments

/-- The number of the record that `base` of the workers points at. -/
def Mapping.firstRecord (mapping : Mapping) : ℕ :=
  (mapping.page + mapping.pageOffset - headerSize) / entrySize

section Definitions

variable {Time : Type u} [LinearOrder Time]

/-- The chunk loop from `data_offset` on takes the records of the file to their final values. -/
inductive ChunkLoop (arguments : Arguments) (expected : ℕ) :
    ℕ → (ℕ → IndexS Time) → (ℕ → IndexS Time) → Prop where
  | done {dataOffset : ℕ} {entry : ℕ → IndexS Time} (finished : expected ≤ dataOffset) :
      ChunkLoop arguments expected dataOffset entry entry
  | chunk {dataOffset first : ℕ} {entry final : ℕ → IndexS Time}
      {state : State arguments.config Time} (more : dataOffset < expected)
      (first_eq : first = (arguments.mapping expected dataOffset).firstRecord)
      (worked : (system arguments.config fun k => entry (first + k)).Reachable state)
      (joined : ∀ thread, state.points thread = .returned)
      (rest : ChunkLoop arguments expected (dataOffset + arguments.memsize)
        (fun k => if first ≤ k then state.shared.base (k - first) else entry k) final) :
      ChunkLoop arguments expected dataOffset entry final

/-- `main` returns 0 and leaves the given records in the file. -/
def MainReturns (arguments : Arguments) (file : IndexFile Time) (final : ℕ → IndexS Time) : Prop :=
  ChunkLoop arguments file.expected headerSize file.entry final

/-- The records of the file are the original ones in non-decreasing order. -/
def IndexSorted (file : IndexFile Time) (final : ℕ → IndexS Time) : Prop :=
  (slice final 0 file.records).Perm (slice file.entry 0 file.records) ∧
    Sorted (slice final 0 file.records)

/-- No record of a `memsize`-sized chunk of the file belongs behind one of a later chunk. -/
def ChunksInOrder (arguments : Arguments) (file : IndexFile Time) : Prop :=
  ∀ i j, j < file.records →
    i / (arguments.memsize / entrySize) < j / (arguments.memsize / entrySize) →
      inOrder (file.entry i) (file.entry j) = true

end Definitions

section Loop

variable {Time : Type u} [LinearOrder Time] {arguments : Arguments}

/-- The chunk at `data_offset` starts with the record at that offset. -/
theorem firstRecord_mapping (expected index : ℕ) :
    (arguments.mapping expected (headerSize + entrySize * index)).firstRecord = index := by
  have page_le : (headerSize + entrySize * index) % arguments.pagesize ≤
      headerSize + entrySize * index := Nat.mod_le _ _
  simp only [Mapping.firstRecord, Arguments.mapping, headerSize, entrySize] at page_le ⊢
  omega

/-- With `memsize` divisible by `16 * blocks`, the blocks make up the whole chunk. -/
theorem blocks_mul_per (divides : entrySize * arguments.blocks ∣ arguments.memsize) :
    arguments.config.blocks * arguments.config.per = arguments.memsize / entrySize := by
  obtain ⟨per, memsize_eq⟩ := divides
  have blocks_pos : 0 < arguments.blocks := arguments.blocks_eq ▸ Nat.two_pow_pos _
  have blockSize_eq : arguments.blockSize = entrySize * per := by
    rw [Arguments.blockSize, memsize_eq, Nat.mul_right_comm, Nat.mul_div_cancel _ blocks_pos]
  show arguments.blocks * (arguments.blockSize / entrySize) = _
  rw [blockSize_eq, memsize_eq, Nat.mul_assoc, Nat.mul_div_cancel_left _ (by decide),
    Nat.mul_div_cancel_left _ (by decide)]

/-- What the workers leave in the mapping differs from the file within their chunk only. -/
theorem stored_outside {first address : ℕ} {entry base : ℕ → IndexS Time}
    (sorted : SortedChunk arguments.config (fun k => entry (first + k)) base)
    (outside : address < first ∨
      first + arguments.config.blocks * arguments.config.per ≤ address) :
    (if first ≤ address then base (address - first) else entry address) = entry address := by
  split
  · rw [sorted.frame _ (by omega)]
    congr 1
    omega
  · rfl

/-- The loop from chunk `c` on sorts each remaining chunk and leaves the ones before it. -/
theorem chunkLoop_runs {expected size count c dataOffset : ℕ} {entry final : ℕ → IndexS Time}
    (size_eq : arguments.config.blocks * arguments.config.per = size)
    (memsize_eq : arguments.memsize = entrySize * size) (positive : 0 < size)
    (expected_eq : expected = headerSize + entrySize * (size * count))
    (offset_eq : dataOffset = headerSize + entrySize * (size * c))
    (loop : ChunkLoop arguments expected dataOffset entry final) :
    (∀ index < c, slice final (size * index) size = slice entry (size * index) size) ∧
      ∀ index, c ≤ index → index < count →
        (slice final (size * index) size).Perm (slice entry (size * index) size) ∧
          Run final size index := by
  induction loop generalizing c with
  | @done dataOffset entry finished =>
      refine ⟨fun _ _ => rfl, fun index lower upper => ?_⟩
      have chunks : size * (c + 1) ≤ size * count := Nat.mul_le_mul_left size (by omega)
      rw [Nat.mul_succ] at chunks
      simp only [expected_eq, offset_eq, headerSize, entrySize] at finished
      omega
  | @chunk dataOffset first entry final state more first_eq worked joined rest ih =>
      have first_eq : first = size * c := by rw [first_eq, offset_eq, firstRecord_mapping]
      subst first_eq
      have sorted := sortedChunk_of_returned worked joined
      have others : ∀ index, index ≠ c →
          slice (fun k => if size * c ≤ k then state.shared.base (k - size * c) else entry k)
            (size * index) size = slice entry (size * index) size := by
        intro index different
        apply slice_congr
        intro offset offset_lt
        apply stored_outside sorted
        rw [size_eq]
        have apart : size * index + size ≤ size * c ∨ size * c + size ≤ size * index :=
          run_disjoint different
        omega
      have own : slice (fun k => if size * c ≤ k then state.shared.base (k - size * c) else entry k)
          (size * c) size = slice state.shared.base 0 size := by
        refine List.map_congr_left fun offset _ => ?_
        simp
      have next_offset : dataOffset + arguments.memsize =
          headerSize + entrySize * (size * (c + 1)) := by
        rw [offset_eq, memsize_eq, Nat.mul_succ, Nat.mul_add, Nat.add_assoc]
      obtain ⟨before, after⟩ := ih next_offset
      have original : slice (fun k => entry (size * c + k)) 0 size =
          slice entry (size * c) size := by
        refine List.map_congr_left fun offset _ => ?_
        simp
      have chunk_perm := sorted.perm
      have chunk_sorted := sorted.sorted
      rw [size_eq] at chunk_perm chunk_sorted
      rw [original] at chunk_perm
      refine ⟨fun index below => ?_, fun index lower upper => ?_⟩
      · rw [before index (by omega), others index (by omega)]
      · by_cases same : index = c
        · subst same
          have kept := before index (Nat.lt_succ_self index)
          rw [own] at kept
          exact ⟨kept ▸ chunk_perm, by unfold Run RunSorted; rwa [kept]⟩
        · rw [← others index same]
          exact after index (by omega) upper

/-- Every chunk of the file that `main` leaves is the chunk of the original file, sorted. -/
theorem mainReturns_runs {file : IndexFile Time} {final : ℕ → IndexS Time}
    (blocksDivide : entrySize * arguments.blocks ∣ arguments.memsize)
    (memsizeDivides : arguments.memsize ∣ file.records * entrySize)
    (returned : MainReturns arguments file final) :
    ∃ count, file.records = arguments.memsize / entrySize * count ∧
      0 < arguments.memsize / entrySize ∧ ∀ index < count,
        (slice final (arguments.memsize / entrySize * index)
            (arguments.memsize / entrySize)).Perm
          (slice file.entry (arguments.memsize / entrySize * index)
            (arguments.memsize / entrySize)) ∧
        Run final (arguments.memsize / entrySize) index := by
  have memsize_eq : arguments.memsize = entrySize * (arguments.memsize / entrySize) :=
    (Nat.mul_div_cancel' ((Nat.dvd_mul_right _ _).trans blocksDivide)).symm
  have positive : 0 < arguments.memsize / entrySize := by
    have := arguments.memsize_pos
    by_contra none
    rw [Nat.eq_zero_of_not_pos none] at memsize_eq
    omega
  obtain ⟨count, records_eq⟩ := memsizeDivides
  have records_eq : file.records = arguments.memsize / entrySize * count := by
    rw [memsize_eq, Nat.mul_comm, Nat.mul_assoc] at records_eq
    exact Nat.eq_of_mul_eq_mul_left (by decide) records_eq
  have expected_eq : file.expected =
      headerSize + entrySize * (arguments.memsize / entrySize * count) := by
    simp only [IndexFile.expected, records_eq, Nat.mul_comm]
  have start : headerSize = headerSize + entrySize * (arguments.memsize / entrySize * 0) := by
    simp
  have runs := (chunkLoop_runs (blocks_mul_per blocksDivide) memsize_eq positive expected_eq start
    returned).2
  exact ⟨count, records_eq, positive, fun index below => runs index (Nat.zero_le index) below⟩

/-- The file comes out sorted exactly if its chunks were in order. -/
theorem indexSorted_iff_of_runs {file : IndexFile Time} {final : ℕ → IndexS Time} {count : ℕ}
    (records_eq : file.records = arguments.memsize / entrySize * count)
    (positive : 0 < arguments.memsize / entrySize)
    (runs : ∀ index < count,
      (slice final (arguments.memsize / entrySize * index) (arguments.memsize / entrySize)).Perm
        (slice file.entry (arguments.memsize / entrySize * index)
          (arguments.memsize / entrySize)) ∧
      Run final (arguments.memsize / entrySize) index) :
    IndexSorted file final ↔ ChunksInOrder arguments file := by
  have permuted := slice_perm_of_runs fun index below => (runs index below).1
  unfold IndexSorted ChunksInOrder Sorted
  rw [records_eq, pairwise_runs_iff fun index below => (runs index below).2,
    runsInOrder_congr fun index below => (runs index below).1, runsInOrder_iff_div positive]
  exact and_iff_right permuted

/-- `main` sorts the index exactly if the chunks of the original file were in order. -/
theorem indexSorted_iff_chunksInOrder {file : IndexFile Time} {final : ℕ → IndexS Time}
    (blocksDivide : entrySize * arguments.blocks ∣ arguments.memsize)
    (memsizeDivides : arguments.memsize ∣ file.records * entrySize)
    (returned : MainReturns arguments file final) :
    IndexSorted file final ↔ ChunksInOrder arguments file := by
  obtain ⟨count, records_eq, positive, runs⟩ :=
    mainReturns_runs blocksDivide memsizeDivides returned
  exact indexSorted_iff_of_runs records_eq positive runs

end Loop

/-- One processor, pages of 4096 bytes, chunks of one page, and four blocks. -/
def soloArguments : Arguments where
  pagesize := 4096
  cores := 1
  memsize := 4096
  blocks := 4
  threads := 1
  exponent := 2
  pagesize_pos := by decide
  memsize_pos := by decide
  memsize_pages := by decide
  blocks_eq := solo_blocks_eq
  threads_pos := Nat.one_pos
  cores_le := by decide
  threads_le := by decide
  room := solo_room

/-- Two chunks of 256 records; those of the second are the earlier ones. -/
def swappedFile : IndexFile ℕ where
  records := 512
  entry := fun k => ⟨if k < 256 then 1 else 0, 0⟩
  size_lt := by decide

section Solo

variable {Time : Type u} [LinearOrder Time]

/-- A worker alone sorts its chunk. -/
theorem solo_returns (base : ℕ → IndexS Time) :
    ∃ state : State soloArguments.config Time, (system soloArguments.config base).Reachable state ∧
      ∀ thread, state.points thread = .returned := by
  have ran : ((system (soloConfig 64) base).run (init (soloConfig 64) base)
      (List.replicate 32 (soloThread 64))).map
        (fun state => state.points (soloThread 64)) = some .returned := by
    rfl
  obtain ⟨state, ran, returned⟩ := Option.map_eq_some_iff.mp ran
  exact ⟨state, System.Reachable.of_run (.start rfl) ran,
    fun thread => eq_soloThread thread ▸ returned⟩

/-- With one worker `main` gets through two chunks. -/
theorem solo_mainReturns (entry : ℕ → IndexS Time)
    (size_lt : headerSize + 512 * entrySize < 2 ^ 63) :
    ∃ final, MainReturns soloArguments ⟨512, entry, size_lt⟩ final := by
  obtain ⟨first, firstReached, firstReturned⟩ := solo_returns fun k => entry (0 + k)
  obtain ⟨second, secondReached, secondReturned⟩ := solo_returns fun k =>
    if 0 ≤ 256 + k then first.shared.base (256 + k - 0) else entry (256 + k)
  have begins : headerSize < headerSize + 512 * entrySize := by decide
  have firstRecord : 0 =
      (soloArguments.mapping (headerSize + 512 * entrySize) headerSize).firstRecord := by decide
  have goesOn : headerSize + 4096 < headerSize + 512 * entrySize := by decide
  have secondRecord : 256 =
      (soloArguments.mapping (headerSize + 512 * entrySize) (headerSize + 4096)).firstRecord := by
    decide
  have ends : headerSize + 512 * entrySize ≤ headerSize + 4096 + 4096 := by decide
  exact ⟨_, .chunk begins firstRecord firstReached firstReturned
    (.chunk goesOn secondRecord secondReached secondReturned (.done ends))⟩

end Solo

/-- Two chunks of 256 records, with falling times in each and later ones in the second. -/
def steppedFile : IndexFile ℕ where
  records := 512
  entry := fun k => ⟨255 - k % 256 + k / 256 * 256, 0⟩
  size_lt := by decide

/-- Two chunks in order make a sorted index. -/
theorem indexSorted_steppedFile :
    ∃ final, MainReturns soloArguments steppedFile final ∧ IndexSorted steppedFile final := by
  obtain ⟨final, returned⟩ := solo_mainReturns steppedFile.entry steppedFile.size_lt
  have returned : MainReturns soloArguments steppedFile final := returned
  have ordered : ChunksInOrder soloArguments steppedFile := by
    intro i j _ earlier
    have chunk : soloArguments.memsize / entrySize = 256 := rfl
    rw [chunk] at earlier
    have times : 255 - i % 256 + i / 256 * 256 < 255 - j % 256 + j / 256 * 256 := by omega
    exact inOrder_iff.mpr (.inl times)
  exact ⟨final, returned,
    (indexSorted_iff_chunksInOrder (by decide) (by decide) returned).mpr ordered⟩

/-- A run that returns 0 and leaves the records of two chunks out of order. -/
theorem not_indexSorted_swappedFile :
    ∃ final, MainReturns soloArguments swappedFile final ∧ ¬IndexSorted swappedFile final := by
  obtain ⟨final, returned⟩ := solo_mainReturns swappedFile.entry swappedFile.size_lt
  have returned : MainReturns soloArguments swappedFile final := returned
  obtain ⟨count, records_eq, positive, runs⟩ :=
    mainReturns_runs (by decide) (by decide) returned
  refine ⟨final, returned, fun sorted => ?_⟩
  have ordered := (indexSorted_iff_of_runs records_eq positive runs).mp sorted
  exact absurd (ordered 0 256 (by decide) (by decide)) (by decide)

end Osis.Lab06
