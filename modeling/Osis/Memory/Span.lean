import Mathlib.Data.List.Basic
import Mathlib.Data.Nat.Notation
import Mathlib.Logic.ExistsUnique

/-!
# Spans of addresses

`Consecutive` spans are non-empty and each begins where the one before ends.
They are pairwise disjoint and hold together exactly the addresses between the
first start and the last stop. Blocks of one size, numbered from 0, leave out no
address of a range exactly if their sizes add up to its size.
-/

namespace Osis.Memory

/-- The addresses from `start` up to, not including, `stop`. -/
structure Span where
  start : ℕ
  stop : ℕ

/-- The span has the address. -/
def Span.Has (span : Span) (address : ℕ) : Prop := span.start ≤ address ∧ address < span.stop

/-- Non-empty spans that fill the addresses from `start` to `stop` one after the other. -/
inductive Consecutive : ℕ → List Span → ℕ → Prop where
  | done {stop : ℕ} : Consecutive stop [] stop
  | next {start stop : ℕ} {span : Span} {rest : List Span} (begins : span.start = start)
      (nonempty : span.start < span.stop) (follows : Consecutive span.stop rest stop) :
      Consecutive start (span :: rest) stop

namespace Consecutive

variable {start stop address : ℕ} {spans : List Span}

theorem le (consecutive : Consecutive start spans stop) : start ≤ stop := by
  induction consecutive with
  | done => exact Nat.le_refl _
  | next begins nonempty _ ih => omega

/-- Each span lies between the first start and the last stop. -/
theorem bounds (consecutive : Consecutive start spans stop) {span : Span}
    (member : span ∈ spans) : start ≤ span.start ∧ span.start < span.stop ∧ span.stop ≤ stop := by
  induction consecutive with
  | done => simp at member
  | next begins nonempty follows ih =>
      rcases List.mem_cons.mp member with rfl | member
      · exact ⟨by omega, nonempty, follows.le⟩
      · have inside := ih member
        exact ⟨by omega, inside.2⟩

/-- Each span ends before the later ones start. -/
theorem apart (consecutive : Consecutive start spans stop) :
    spans.Pairwise fun first second => first.stop ≤ second.start := by
  induction consecutive with
  | done => exact .nil
  | next _ _ follows ih =>
      exact List.pairwise_cons.mpr ⟨fun span member => (follows.bounds member).1, ih⟩

/-- Together the spans have all addresses in between and no others. -/
theorem covers (consecutive : Consecutive start spans stop) :
    (∃ span ∈ spans, span.Has address) ↔ start ≤ address ∧ address < stop := by
  constructor
  · intro held
    rcases held with ⟨span, member, lower, upper⟩
    have inside := consecutive.bounds member
    omega
  · intro inside
    induction consecutive with
    | done => omega
    | @next start stop span rest begins nonempty follows ih =>
        by_cases first : address < span.stop
        · exact ⟨span, List.mem_cons_self, by omega, first⟩
        · rcases ih (by omega) with ⟨other, member, held⟩
          exact ⟨other, List.mem_cons_of_mem _ member, held⟩

end Consecutive

section Blocks

variable {per blocks size index block : ℕ}

/-- The block of `per` addresses with the given number. -/
def blockSpan (per block : ℕ) : Span := ⟨per * block, per * block + per⟩

/-- Two blocks that share an address are the same. -/
theorem block_unique {block' : ℕ} (held : (blockSpan per block).Has index)
    (held' : (blockSpan per block').Has index) : block = block' := by
  rcases held with ⟨lower, upper⟩
  rcases held' with ⟨lower', upper'⟩
  simp only [blockSpan] at lower upper lower' upper'
  rcases Nat.lt_trichotomy block block' with before | same | behind
  · have apart : per * (block + 1) ≤ per * block' := Nat.mul_le_mul_left per before
    rw [Nat.mul_succ] at apart
    omega
  · exact same
  · have apart : per * (block' + 1) ≤ per * block := Nat.mul_le_mul_left per behind
    rw [Nat.mul_succ] at apart
    omega

/-- An address below the end of the last block is in one of the blocks. -/
theorem exists_block (inside : index < per * blocks) :
    ∃ block < blocks, (blockSpan per block).Has index := by
  have positive : 0 < per := Nat.pos_of_mul_pos_right (Nat.zero_lt_of_lt inside)
  refine ⟨index / per, Nat.div_lt_of_lt_mul inside, Nat.mul_div_le index per, ?_⟩
  exact Nat.lt_mul_div_succ index positive

/-- Blocks inside a range leave out nothing exactly if their sizes add up to its size. -/
theorem blocks_tile_iff (inside : per * blocks ≤ size) :
    (∀ index < size, ∃! block, block < blocks ∧ (blockSpan per block).Has index) ↔
      per * blocks = size := by
  constructor
  · intro tiled
    by_contra left_out
    rcases tiled (per * blocks) (by omega) with ⟨block, ⟨below, -, upper⟩, -⟩
    have apart : per * (block + 1) ≤ per * blocks := Nat.mul_le_mul_left per below
    rw [Nat.mul_succ] at apart
    exact absurd upper (Nat.not_lt.mpr apart)
  · intro exact_size index below
    rcases exists_block (exact_size ▸ below : index < per * blocks) with ⟨block, below, held⟩
    exact ⟨block, ⟨below, held⟩, fun other found => block_unique found.2 held⟩

end Blocks

end Osis.Memory
