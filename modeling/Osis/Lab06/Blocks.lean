import Osis.Lab06.Chunks
import Osis.Memory.Span

/-!
# The blocks of a chunk (`worker_thread` of `sort_index.c`)

A chunk is cut into `blocks` blocks of `(memsize / blocks) / 16` records. What
the two divisions leave over is in no block, and `main` accepts arguments for
which they leave something.
-/

namespace Osis.Lab06

open Memory

namespace Arguments

variable (arguments : Arguments)

/-- The number of records in a full chunk. -/
def chunkRecords : ℕ := arguments.memsize / entrySize

/-- Block `next` of a chunk: the records of `qsort(base + per*next, per, ...)`. -/
def block (next : ℕ) : Span := blockSpan arguments.config.per next

/-- The blocks lie in the chunk, and every record of it belongs to exactly one of them. -/
def Tiled : Prop :=
  (∀ next < arguments.blocks, (arguments.block next).stop ≤ arguments.chunkRecords) ∧
    ∀ record < arguments.chunkRecords,
      ∃! next, next < arguments.blocks ∧ (arguments.block next).Has record

/-- The two divisions for the size of a block make one. -/
theorem per_eq : arguments.config.per = arguments.chunkRecords / arguments.blocks := by
  show arguments.memsize / arguments.blocks / entrySize = _
  rw [chunkRecords, Nat.div_div_eq_div_mul, Nat.div_div_eq_div_mul, Nat.mul_comm]

/-- The blocks together are no longer than the chunk. -/
theorem per_mul_blocks_le :
    arguments.config.per * arguments.blocks ≤ arguments.chunkRecords := by
  rw [per_eq]
  exact Nat.div_mul_le_self _ _

theorem block_stop_le {next : ℕ} (below : next < arguments.blocks) :
    (arguments.block next).stop ≤ arguments.config.per * arguments.blocks := by
  show arguments.config.per * next + arguments.config.per ≤ _
  rw [← Nat.mul_succ]
  exact Nat.mul_le_mul_left _ below

/-- The blocks tile a full chunk exactly if their number divides the number of its records. -/
theorem tiled_iff : arguments.Tiled ↔ arguments.blocks ∣ arguments.chunkRecords := by
  have inside : ∀ next < arguments.blocks,
      (arguments.block next).stop ≤ arguments.chunkRecords := by
    intro next below
    exact (arguments.block_stop_le below).trans arguments.per_mul_blocks_le
  have exact_size : arguments.config.per * arguments.blocks = arguments.chunkRecords ↔
      arguments.blocks ∣ arguments.chunkRecords := by
    rw [per_eq]
    exact ⟨fun same => ⟨_, (Nat.mul_comm _ _).trans same |>.symm⟩, Nat.div_mul_cancel⟩
  rw [Tiled, and_iff_right inside, ← exact_size]
  exact blocks_tile_iff arguments.per_mul_blocks_le

end Arguments

/-- One processor, pages of 4096 bytes, chunks of three pages, and 512 blocks of one record. -/
def unevenArguments : Arguments :=
  { soloArguments with
    memsize := 12288
    blocks := 512
    exponent := 9
    memsize_pos := by decide
    memsize_pages := by decide
    blocks_eq := by decide
    room := by decide }

/-- Of the 768 records of such a chunk the last 256 are in no block. -/
theorem not_tiled_unevenArguments : ¬unevenArguments.Tiled := by
  intro tiled
  rcases tiled.2 700 (by decide) with ⟨next, ⟨below, lower, upper⟩, -⟩
  have per_eq : unevenArguments.config.per = 1 := by decide
  have blocks_eq : unevenArguments.blocks = 512 := by decide
  simp only [Arguments.block, blockSpan, per_eq] at upper
  omega

end Osis.Lab06
