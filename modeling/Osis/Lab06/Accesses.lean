import Osis.Lab06.Blocks
import Osis.Lab06.RecordCount

/-!
# What the workers touch (`worker_thread` and `do_merge` of `sort_index.c`)

`main` cuts the mapping of the last chunk down to the end of the file, but the
workers of every chunk are given blocks of the size for a full chunk. They stay
inside the records of the last chunk exactly if the blocks together are no longer
than these.

An offset of a chunk is below the size of the file; beyond 2^63 `data_offset`
overflows, and nothing is mapped for it.
-/

namespace Osis.Lab06

open Concurrency Memory

universe u

/-- The records that a worker is sorting or merging, counted from `base`. -/
def Point.accesses (config : Config) (id : ℕ) : Point → Option Span
  | .sortOwn => some (blockSpan config.per id)
  | .sortBlock next => some (blockSpan config.per next)
  | .inMerge s j _ =>
      let left := j * 2 * config.span s
      let total := config.span s * 2
      some ⟨left, left + total⟩
  | _ => none

/-- What `main` has accepted before the chunk loop begins. -/
structure Invocation where
  arguments : Arguments
  filesize : ℕ
  /-- The number of records that the header of the file announces. -/
  records : UInt64
  /-- `threads` is an `unsigned`. -/
  threads_lt : arguments.threads < 2 ^ 32
  filesize_lt : filesize < 2 ^ 63
  checked : sortIndexCheck (UInt64.ofNat filesize) records = .ok ()

namespace Invocation

variable (invocation : Invocation)

/-- `expected`. -/
def expected : ℕ := (sizeOfRecords invocation.records).toNat

/-- `data_offset` in a turn of the chunk loop, the first turn being 0. -/
def dataOffset (turn : ℕ) : ℕ := headerSize + turn * invocation.arguments.memsize

/-- The offset in the file of a record, counted from `base` in a turn of the chunk loop. -/
def address (turn record : ℕ) : ℕ :=
  let mapping := invocation.arguments.mapping invocation.expected (invocation.dataOffset turn)
  mapping.page + mapping.pageOffset + entrySize * record

/-- In every turn of the chunk loop, in which the workers find the given records, they touch only
records between `data_offset` and the end of the chunk or of the file. -/
def StaysInside {Time : Type u} [LinearOrder Time] (base : ℕ → ℕ → IndexS Time) : Prop :=
  ∀ turn, invocation.dataOffset turn < invocation.expected →
    ∀ state, (system invocation.arguments.config (base turn)).Reachable state →
      ∀ thread span, (state.points thread).accesses invocation.arguments.config thread = some span →
        ∀ record, span.Has record →
          invocation.dataOffset turn ≤ invocation.address turn record ∧
            invocation.address turn record + entrySize ≤
              min (invocation.dataOffset turn + invocation.arguments.memsize) invocation.expected

/-- The number of blocks that the search in `block_map` can hand out. -/
def handedOut : ℕ := min invocation.arguments.blocks (2 ^ 32)

/-- The bytes of all records. -/
def payload : ℕ := invocation.expected - headerSize

/-- The blocks of the workers are no longer than the records of the last chunk. -/
def Room : Prop :=
  invocation.payload = 0 ∨
    entrySize * (invocation.arguments.config.per * invocation.handedOut) ≤
      (invocation.payload - 1) % invocation.arguments.memsize + 1

end Invocation

/-- A worker has blocks below 2^32 in hand, and it comes to the end of a search only in a map of
fewer entries. -/
def Point.Bounded (config : Config) : Point → Prop
  | .arrive .started | .wait .started | .sortOwn | .claimBlock => True
  | .sortBlock next => next < 2 ^ 32
  | _ => config.blocks < 2 ^ 32

section Search

variable {map : ℕ → Bool} {bound index : ℕ}

theorem search_found_lt (found : search map bound = .found index) : index < 2 ^ 32 := by
  rcases search_found_range found with ⟨searched, -⟩
  exact Nat.lt_of_lt_of_le (List.mem_range.mp searched) (Nat.min_le_right _ _)

theorem search_exhausted_lt (exhausted : search map bound = .exhausted) : bound < 2 ^ 32 := by
  unfold search at exhausted
  split at exhausted
  · simp at exhausted
  · split at exhausted
    · next small => exact small
    · simp at exhausted

/-- The search finds the first entry that is not marked. -/
theorem search_eq_found (below : index < bound) (small : index < 2 ^ 32)
    (marked : ∀ i < bound, map i = decide (i < index)) : search map bound = .found index := by
  have first : (List.range (min bound (2 ^ 32))).find? (fun i => !map i) = some index := by
    apply List.find?_range_eq_some.mpr
    refine ⟨by simp [marked index below], List.mem_range.mpr (by omega), ?_⟩
    intro i before
    simp [marked i (by omega), before]
  rw [search, first]

end Search

section Bounded

variable {Time : Type u} [LinearOrder Time] {config : Config} {original : ℕ → IndexS Time}
  {state successor : State config Time} {thread : Fin config.threads} {shared : Shared Time}
  {point : Point}

theorem bounded_after {barrier : Barrier} (arrived : (Point.arrive barrier).Bounded config) :
    barrier.after.Bounded config := by
  cases barrier with
  | started => trivial
  | sorted | cleared | merged => exact arrived

theorem bounded_resume (bounded : point.Bounded config) : point.resume.Bounded config := by
  cases point with
  | wait barrier => exact bounded_after (by cases barrier <;> exact bounded)
  | _ => exact bounded

theorem bounded_advance (bounded : (state.points thread).Bounded config)
    (taken : advance config state.shared thread (state.points thread) = some (shared, point)) :
    point.Bounded config := by
  cases stands : state.points thread with
  | arrive | wait | returned => simp [stands, advance] at taken
  | sortOwn | sortBlock =>
      simp only [stands, advance, Option.some.injEq, Prod.mk.injEq] at taken
      rcases taken with ⟨rfl, rfl⟩
      trivial
  | claimBlock =>
      simp only [stands, advance] at taken
      split at taken
      · next next found =>
          simp only [Option.some.injEq, Prod.mk.injEq] at taken
          rcases taken with ⟨rfl, rfl⟩
          exact search_found_lt found
      · next exhausted =>
          simp only [Option.some.injEq, Prod.mk.injEq] at taken
          rcases taken with ⟨rfl, rfl⟩
          exact search_exhausted_lt exhausted
      · simp at taken
  | round s | mergeOwn s =>
      rw [stands] at bounded
      simp only [stands, advance] at taken
      split at taken <;> simp only [Option.some.injEq, Prod.mk.injEq] at taken <;>
        rcases taken with ⟨rfl, rfl⟩
      · exact bounded
      · exact bounded
  | claimPair s =>
      rw [stands] at bounded
      simp only [stands, advance] at taken
      split at taken
      · simp only [Option.some.injEq, Prod.mk.injEq] at taken
        rcases taken with ⟨rfl, rfl⟩
        exact bounded
      · simp only [Option.some.injEq, Prod.mk.injEq] at taken
        rcases taken with ⟨rfl, rfl⟩
        exact bounded
      · simp at taken
  | mergePair | inMerge =>
      rw [stands] at bounded
      simp only [stands, advance, Option.some.injEq, Prod.mk.injEq] at taken
      rcases taken with ⟨rfl, rfl⟩
      exact bounded

theorem bounded_next (bounded : ∀ other, (state.points other).Bounded config)
    (taken : next state thread = some successor) (other : Fin config.threads) :
    (successor.points other).Bounded config := by
  rcases next_cases taken with ⟨barrier, arrived, rfl⟩ | ⟨shared, point, advanced, rfl⟩
  · have own := bounded thread
    rw [arrived] at own
    simp only [arriveAt]
    split
    · by_cases same : other = thread
      · simpa [same] using bounded_after own
      · simpa [same] using bounded_resume (bounded other)
    · by_cases same : other = thread
      · subst same
        rw [Function.update_self]
        cases barrier <;> exact own
      · simpa [same] using bounded other
  · by_cases same : other = thread
    · subst same
      simpa using bounded_advance (bounded other) advanced
    · simpa [same] using bounded other

theorem bounded_of_reachable (reached : (system config original).Reachable state) :
    ∀ thread, (state.points thread).Bounded config := by
  apply reached.invariant
  · rintro _ rfl thread
    trivial
  · intro state thread successor bounded _ taken
    exact bounded_next bounded taken

/-- The workers touch only records of the blocks that the search can hand out. -/
theorem accesses_stop_le (threads_lt : config.threads < 2 ^ 32)
    (reached : (system config original).Reachable state) {span : Span}
    (touched : (state.points thread).accesses config thread = some span) :
    span.stop ≤ config.per * min config.blocks (2 ^ 32) := by
  have bounded := bounded_of_reachable reached thread
  rcases inPhase_of_reachable reached with ⟨phase, inPhase⟩
  have valid := inPhase.valid thread
  have phase_eq := inPhase.phase_eq thread
  have in_block : ∀ block, block < config.blocks → block < 2 ^ 32 →
      (blockSpan config.per block).stop ≤ config.per * min config.blocks (2 ^ 32) := by
    intro block below small
    show config.per * block + config.per ≤ _
    rw [← Nat.mul_succ]
    exact Nat.mul_le_mul_left _ (Nat.lt_min.mpr ⟨below, small⟩)
  cases stands : state.points thread with
  | sortOwn =>
      simp only [stands, Point.accesses, Option.some.injEq] at touched
      subst touched
      exact in_block thread (thread_lt_blocks thread) (thread.isLt.trans threads_lt)
  | sortBlock next =>
      rw [stands] at bounded valid
      simp only [stands, Point.accesses, Option.some.injEq] at touched
      subst touched
      exact in_block next valid bounded
  | inMerge s j own =>
      rw [stands] at bounded valid phase_eq
      have few : config.blocks < 2 ^ 32 := bounded
      have below : j < config.numPairs s := by
        cases own with
        | true => exact valid.1
        | false => exact valid
      have round : s < config.levels := by
        have progress := inPhase.progress
        rw [← phase_eq] at progress
        exact progress.1
      have inside := pair_inside round below
      simp only [stands, Point.accesses, Option.some.injEq] at touched
      subst touched
      rw [Nat.min_eq_left few.le, Nat.mul_comm config.per]
      calc j * 2 * config.span s + config.span s * 2
          = 2 * config.span s * j + 2 * config.span s := by ring
        _ ≤ config.blocks * config.per := inside
  | arrive | wait | claimBlock | round | mergeOwn | claimPair | mergePair | returned =>
      simp [stands, Point.accesses] at touched

end Bounded

section Handing

variable {Time : Type u} [LinearOrder Time] {config : Config} {original : ℕ → IndexS Time}

/-- The points once the workers below a number have arrived at the first barrier. -/
def arrivedBelow (config : Config) (count : ℕ) (thread : Fin config.threads) : Point :=
  if thread.val < count then .wait .started else .arrive .started

/-- All workers but the last may be waiting at the first barrier. -/
theorem reachable_arrivedBelow {count : ℕ} (some_left : count < config.threads) :
    (system config original).Reachable
      { init config original with points := arrivedBelow config count } := by
  induction count with
  | zero => exact .start rfl
  | succ count ih =>
      have before := ih (by omega)
      let thread : Fin config.threads := ⟨count, by omega⟩
      have waits_below : arriveAt (arrivedBelow config count) thread .started =
          arrivedBelow config (count + 1) := by
        have away : ¬∀ other, other ≠ thread → (arrivedBelow config count other).waits = true := by
          intro all_wait
          have waits := all_wait ⟨count + 1, some_left⟩ (by simp [thread])
          simp [arrivedBelow, Point.waits] at waits
        rw [arriveAt, if_neg away]
        funext other
        by_cases same : other = thread
        · subst same
          simp [arrivedBelow, thread]
        · have apart : other.val ≠ count := fun eq => same (Fin.ext eq)
          rw [Function.update_of_ne same]
          simp only [arrivedBelow]
          by_cases below : other.val < count
          · rw [if_pos below, if_pos (by omega)]
          · rw [if_neg below, if_neg (by omega)]
      have taken : (system config original).next
          { init config original with points := arrivedBelow config count } thread =
          some { init config original with points := arrivedBelow config (count + 1) } := by
        have stands : arrivedBelow config count thread = .arrive .started := by
          simp [arrivedBelow, thread]
        simp only [system, next, stands, waits_below]
      exact before.step trivial taken

/-- All workers may have passed the first barrier. -/
theorem reachable_started :
    (system config original).Reachable
      { init config original with points := fun _ => .sortOwn } := by
  have positive := config.threads_pos
  have before : (system config original).Reachable
      { init config original with points := arrivedBelow config (config.threads - 1) } :=
    reachable_arrivedBelow (by omega)
  let thread : Fin config.threads := ⟨config.threads - 1, by omega⟩
  have below : ∀ other, other ≠ thread → other.val < config.threads - 1 := by
    intro other different
    have apart : other.val ≠ config.threads - 1 := fun eq => different (Fin.ext eq)
    have := other.isLt
    omega
  have opens : arriveAt (arrivedBelow config (config.threads - 1)) thread .started =
      fun _ => .sortOwn := by
    have all_wait : ∀ other, other ≠ thread →
        (arrivedBelow config (config.threads - 1) other).waits = true := by
      intro other different
      rw [arrivedBelow, if_pos (below other different)]
      rfl
    rw [arriveAt, if_pos all_wait]
    funext other
    by_cases same : other = thread
    · rw [if_pos same]
      rfl
    · rw [if_neg same, arrivedBelow, if_pos (below other same)]
      rfl
  have taken : (system config original).next
      { init config original with points := arrivedBelow config (config.threads - 1) } thread =
      some { init config original with points := fun _ => .sortOwn } := by
    have stands : arrivedBelow config (config.threads - 1) thread = .arrive .started := by
      simp [arrivedBelow, thread]
    simp only [system, next, stands, opens]
  exact before.step trivial taken

/-- The first worker. -/
def firstThread (config : Config) : Fin config.threads := ⟨0, config.threads_pos⟩

variable (original)

/-- The first worker may search for a block when those below a number have been handed out. -/
theorem exists_claimBlock {block : ℕ} (own : config.threads ≤ block)
    (below : block ≤ min config.blocks (2 ^ 32)) :
    ∃ state, (system config original).Reachable state ∧
      state.points (firstThread config) = .claimBlock ∧
      ∀ i < config.blocks, state.shared.blockMap i = decide (i < block) := by
  induction block, own using Nat.le_induction with
  | base =>
      have taken : (system config original).next
          { init config original with points := fun _ => .sortOwn } (firstThread config) =
          some ⟨{ (init config original).shared with
            base := sortBlock original config.per (firstThread config) },
            Function.update (fun _ => .sortOwn) (firstThread config) .claimBlock⟩ := rfl
      exact ⟨_, reachable_started.step trivial taken, by simp, fun _ _ => rfl⟩
  | succ block own ih =>
      rcases ih (by omega) with ⟨state, reached, stands, marked⟩
      have found : search state.shared.blockMap config.blocks = .found block :=
        search_eq_found (by omega) (by omega) marked
      have claimed : (system config original).next state (firstThread config) =
          some ⟨{ state.shared with blockMap := Function.update state.shared.blockMap block true },
            Function.update state.points (firstThread config) (.sortBlock block)⟩ := by
        simp [system, next, stands, advance, found]
      have sorted : (system config original).next
          ⟨{ state.shared with blockMap := Function.update state.shared.blockMap block true },
            Function.update state.points (firstThread config) (.sortBlock block)⟩
          (firstThread config) = some ⟨{ state.shared with
              base := sortBlock state.shared.base config.per block
              blockMap := Function.update state.shared.blockMap block true },
            Function.update state.points (firstThread config) .claimBlock⟩ := by
        simp [system, next, advance]
      refine ⟨_, (reached.step trivial claimed).step trivial sorted, by simp, ?_⟩
      intro i inside
      by_cases same : i = block
      · simp [same]
      · simp only [Function.update_of_ne same, marked i inside, decide_eq_decide]
        omega

/-- The search hands out every block that it can. -/
theorem exists_sortBlock {block : ℕ} (own : config.threads ≤ block) (below : block < config.blocks)
    (small : block < 2 ^ 32) :
    ∃ state, (system config original).Reachable state ∧
      state.points (firstThread config) = .sortBlock block := by
  rcases exists_claimBlock original own (by omega) with ⟨state, reached, stands, marked⟩
  have found : search state.shared.blockMap config.blocks = .found block :=
    search_eq_found below small marked
  have claimed : (system config original).next state (firstThread config) =
      some ⟨{ state.shared with blockMap := Function.update state.shared.blockMap block true },
        Function.update state.points (firstThread config) (.sortBlock block)⟩ := by
    simp [system, next, stands, advance, found]
  exact ⟨_, reached.step trivial claimed, by simp⟩

end Handing

namespace Invocation

variable {invocation : Invocation}

theorem expected_eq :
    invocation.expected = headerSize + invocation.records.toNat % 2 ^ 60 * entrySize :=
  toNat_sizeOfRecords_eq invocation.records

theorem address_eq (turn record : ℕ) :
    invocation.address turn record = invocation.dataOffset turn + entrySize * record := by
  have page_le := Nat.mod_le (invocation.dataOffset turn) invocation.arguments.pagesize
  simp only [address, Arguments.mapping]
  omega

/-- The blocks handed out are no longer than a full chunk. -/
theorem handedOut_le :
    entrySize * (invocation.arguments.config.per * invocation.handedOut) ≤
      invocation.arguments.memsize := by
  have blocks_le : invocation.arguments.config.per * invocation.handedOut ≤
      invocation.arguments.config.per * invocation.arguments.blocks :=
    Nat.mul_le_mul_left _ (Nat.min_le_left _ _)
  calc entrySize * (invocation.arguments.config.per * invocation.handedOut)
      ≤ entrySize * invocation.arguments.chunkRecords :=
        Nat.mul_le_mul_left _ (blocks_le.trans invocation.arguments.per_mul_blocks_le)
    _ ≤ invocation.arguments.memsize := Nat.mul_div_le _ _

/-- The last turn of the chunk loop is the one with the fewest bytes left. -/
theorem room_iff :
    invocation.Room ↔ ∀ turn, invocation.dataOffset turn < invocation.expected →
      entrySize * (invocation.arguments.config.per * invocation.handedOut) ≤
        invocation.expected - invocation.dataOffset turn := by
  have memsize_pos := invocation.arguments.memsize_pos
  have split := Nat.mod_add_div (invocation.payload - 1) invocation.arguments.memsize
  have header : headerSize ≤ invocation.expected := expected_eq ▸ Nat.le_add_right _ _
  constructor
  · intro room turn more
    simp only [dataOffset] at more ⊢
    rcases room with nothing | room
    · simp only [payload] at nothing
      omega
    · -- turns are numbered up to that of the last byte
      have turn_le : turn ≤ (invocation.payload - 1) / invocation.arguments.memsize := by
        rw [Nat.le_div_iff_mul_le memsize_pos, payload]
        omega
      have bytes_le := Nat.mul_le_mul_right invocation.arguments.memsize turn_le
      rw [Nat.mul_comm (_ / _)] at bytes_le
      simp only [payload] at room split bytes_le
      omega
  · intro enough
    by_cases nothing : invocation.payload = 0
    · exact .inl nothing
    · have last := enough ((invocation.payload - 1) / invocation.arguments.memsize)
      simp only [dataOffset, Nat.mul_comm (_ / _)] at last
      right
      simp only [payload] at nothing split last ⊢
      omega

/-- The workers stay inside the windows exactly if the last chunk has room for their blocks. -/
theorem staysInside_iff {Time : Type u} [LinearOrder Time] (base : ℕ → ℕ → IndexS Time) :
    invocation.StaysInside base ↔ invocation.Room := by
  rw [room_iff]
  constructor
  · intro inside turn more
    by_cases none_touched : invocation.arguments.config.per * invocation.handedOut = 0
    · simp [none_touched]
    · -- the first worker may get the last of the blocks
      have per_pos : 0 < invocation.arguments.config.per :=
        Nat.pos_of_mul_pos_right (Nat.pos_of_ne_zero none_touched)
      have room := invocation.arguments.room
      have threads_pos := invocation.arguments.threads_pos
      have threads_lt := invocation.threads_lt
      have own : invocation.arguments.config.threads ≤ invocation.handedOut - 1 := by
        show invocation.arguments.threads ≤ _
        simp only [handedOut]
        omega
      have last_lt : invocation.handedOut - 1 < invocation.arguments.blocks := by
        simp only [handedOut]
        omega
      have small : invocation.handedOut - 1 < 2 ^ 32 := by
        simp only [handedOut]
        omega
      rcases exists_sortBlock (base turn) own last_lt small with ⟨state, reached, stands⟩
      have touched : (state.points (firstThread _)).accesses invocation.arguments.config
          (firstThread invocation.arguments.config) =
          some (blockSpan invocation.arguments.config.per (invocation.handedOut - 1)) := by
        rw [stands]
        rfl
      have handed_pos : 0 < invocation.handedOut := by
        simp only [handedOut]
        omega
      have end_eq : invocation.arguments.config.per * (invocation.handedOut - 1) +
          invocation.arguments.config.per =
          invocation.arguments.config.per * invocation.handedOut := by
        rw [← Nat.mul_succ, Nat.succ_eq_add_one, Nat.sub_add_cancel handed_pos]
      have last := (inside turn more state reached _ _ touched
        (invocation.arguments.config.per * invocation.handedOut - 1)
        ⟨by simp only [blockSpan]; omega, by simp only [blockSpan]; omega⟩).2
      rw [address_eq] at last
      simp only [entrySize] at last ⊢
      omega
  · intro enough turn more state reached thread span touched record held
    have stop_le := accesses_stop_le invocation.threads_lt reached touched
    have room := enough turn more
    have full := invocation.handedOut_le
    have below : record + 1 ≤ invocation.arguments.config.per * invocation.handedOut :=
      held.2.trans_le stop_le
    have bytes_le := Nat.mul_le_mul_left entrySize below
    rw [address_eq]
    simp only [entrySize] at bytes_le room full ⊢
    omega

end Invocation

/-- One processor, four blocks, chunks of two pages, and a file of 256 records. -/
def halfFilled : Invocation where
  arguments :=
    { soloArguments with
      memsize := 8192
      memsize_pos := by decide
      memsize_pages := by decide }
  filesize := 4104
  records := 256
  threads_lt := by decide
  filesize_lt := by decide
  checked := by decide

/-- The worker sorts the third of four blocks of 128 records, although the file has 256. -/
theorem not_staysInside_halfFilled :
    ¬halfFilled.StaysInside fun _ _ => (⟨0, 0⟩ : IndexS ℕ) := by
  intro inside
  let worker : Fin halfFilled.arguments.config.threads := ⟨0, Nat.one_pos⟩
  have ran : ((system halfFilled.arguments.config fun _ => (⟨0, 0⟩ : IndexS ℕ)).run
      (init _ fun _ => ⟨0, 0⟩) (List.replicate 5 worker)).map (fun state => state.points worker) =
      some (.sortBlock 2) := by
    rfl
  rcases Option.map_eq_some_iff.mp ran with ⟨state, ran, stands⟩
  have touched : (state.points worker).accesses halfFilled.arguments.config worker =
      some ⟨256, 384⟩ := by
    rw [stands]
    rfl
  have first := inside 0 (by decide) state (System.Reachable.of_run (.start rfl) ran) worker _
    touched 256 ⟨by decide, by decide⟩
  exact absurd first.2 (by decide)

end Osis.Lab06
