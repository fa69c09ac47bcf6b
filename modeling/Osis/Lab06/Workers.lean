import Mathlib.Data.Fintype.Basic
import Osis.Concurrency.Transition
import Osis.Lab06.Merge

/-!
# The worker threads of lab 6 (`worker_thread`)

The workers of one chunk go through the same phases: all blocks are sorted, and
then in each merge round the pairs of neighbouring runs are merged. A barrier
separates the phases. Within a phase work is handed out twice, by thread number
first and by a search in a map under the mutex afterwards.

A call of `do_merge` starts and finishes in two steps and takes effect in the
second one. The mutex section of a search is one step; the counter of its loop
is a 32-bit `unsigned`, so that with 2^32 entries or more a search that finds
nothing never ends.
-/

namespace Osis.Lab06

open Concurrency Memory

universe u

/-- The arguments `main` has accepted, for a chunk of `blocks * per` records. -/
structure Config where
  threads : ℕ
  blocks : ℕ
  per : ℕ
  exponent : ℕ
  threads_pos : 0 < threads
  blocks_eq : blocks = 2 ^ exponent
  room : 4 * threads ≤ blocks

/-- The calls of `pthread_barrier_wait` in `worker_thread`. -/
inductive Barrier where
  | started
  | sorted
  | cleared (s : ℕ)
  | merged (s : ℕ)

/-- Where a worker is. -/
inductive Point where
  | arrive (barrier : Barrier)
  | wait (barrier : Barrier)
  | sortOwn
  | claimBlock
  | sortBlock (next : ℕ)
  | round (s : ℕ)
  | mergeOwn (s : ℕ)
  | claimPair (s : ℕ)
  | mergePair (s j : ℕ)
  /-- Inside `do_merge`; `own` tells the call with the thread's number from a claimed one. -/
  | inMerge (s j : ℕ) (own : Bool)
  | returned

/-- How a search for an unmarked entry ends. -/
inductive Search where
  | found (index : ℕ)
  | exhausted
  | endless

/-- The state all workers share. -/
structure Shared (Time : Type u) where
  base : ℕ → IndexS Time
  blockMap : ℕ → Bool
  mergeMap : ℕ → Bool

/-- The state of the workers of one chunk. -/
structure State (config : Config) (Time : Type u) where
  shared : Shared Time
  points : Fin config.threads → Point

/-- The loop over `block_map` or `merge_map` inside the mutex section. -/
def search (map : ℕ → Bool) (bound : ℕ) : Search :=
  match (List.range (min bound (2 ^ 32))).find? fun i => !map i with
  | some i => .found i
  | none => if bound < 2 ^ 32 then .exhausted else .endless

/-- The loop that counts `levels`; `tmp` of 2^`fuel` or less is shifted down to 1. -/
def levelsLoop : ℕ → ℕ → ℕ
  | 0, _ => 0
  | fuel + 1, tmp => if 1 < tmp then levelsLoop fuel (tmp >>> 1) + 1 else 0

namespace Config

/-- `levels`. -/
def levels (config : Config) : ℕ := levelsLoop config.blocks config.blocks

/-- `span` of a merge round. -/
def span (config : Config) (s : ℕ) : ℕ := (1 <<< s) * config.per

/-- `num_pairs` of a merge round. -/
def numPairs (config : Config) (s : ℕ) : ℕ := config.blocks >>> (s + 1)

end Config

/-- The point behind a barrier. -/
def Barrier.after : Barrier → Point
  | .started => .sortOwn
  | .sorted => .round 0
  | .cleared s => .mergeOwn s
  | .merged s => .round (s + 1)

/-- Blocked at the barrier. -/
def Point.waits : Point → Bool
  | .wait _ => true
  | _ => false

/-- Where a blocked worker goes on when the barrier opens. -/
def Point.resume : Point → Point
  | .wait barrier => barrier.after
  | point => point

section Definitions

variable {Time : Type u} [LinearOrder Time] {config : Config}

/-- The step of a worker between two barriers, `none` where it has none. -/
def advance (config : Config) (shared : Shared Time) (id : ℕ) :
    Point → Option (Shared Time × Point)
  | .arrive _ | .wait _ | .returned => none
  | .sortOwn => some ({ shared with base := sortBlock shared.base config.per id }, .claimBlock)
  | .claimBlock =>
      match search shared.blockMap config.blocks with
      | .found next =>
          some ({ shared with blockMap := Function.update shared.blockMap next true },
            .sortBlock next)
      | .exhausted => some (shared, .arrive .sorted)
      | .endless => none
  | .sortBlock next =>
      some ({ shared with base := sortBlock shared.base config.per next }, .claimBlock)
  | .round s =>
      if s < config.levels then
        let mergeMap :=
          if id = 0 then fun k => if k < config.numPairs s then false else shared.mergeMap k
          else shared.mergeMap
        some ({ shared with mergeMap := mergeMap }, .arrive (.cleared s))
      else some (shared, .returned)
  | .mergeOwn s =>
      if id < config.numPairs s then some (shared, .inMerge s id true)
      else some (shared, .claimPair s)
  | .claimPair s =>
      match search shared.mergeMap (config.numPairs s) with
      | .found j =>
          some ({ shared with mergeMap := Function.update shared.mergeMap j true },
            .mergePair s j)
      | .exhausted => some (shared, .arrive (.merged s))
      | .endless => none
  | .mergePair s j => some (shared, .inMerge s j false)
  | .inMerge s j _ =>
      some ({ shared with base := doMerge shared.base j (config.span s) }, .claimPair s)

/-- The last of the threads to arrive opens the barrier for all; the others block. -/
def arriveAt (points : Fin config.threads → Point) (thread : Fin config.threads)
    (barrier : Barrier) : Fin config.threads → Point :=
  if ∀ other, other ≠ thread → (points other).waits = true then
    fun other => if other = thread then barrier.after else (points other).resume
  else Function.update points thread (.wait barrier)

/-- The step of one worker. -/
def next (state : State config Time) (thread : Fin config.threads) :
    Option (State config Time) :=
  match state.points thread with
  | .arrive barrier => some { state with points := arriveAt state.points thread barrier }
  | point =>
      (advance config state.shared thread point).map fun (shared, point) =>
        ⟨shared, Function.update state.points thread point⟩

/-- What `main` sets up for the workers of a chunk. -/
def init (config : Config) (base : ℕ → IndexS Time) : State config Time where
  shared :=
    { base := base
      blockMap := fun i => decide (i < config.threads)
      mergeMap := fun _ => false }
  points := fun _ => .arrive .started

/-- All interleavings of the workers of one chunk. -/
def system (config : Config) (base : ℕ → IndexS Time) :
    System (State config Time) (Fin config.threads) where
  initial state := state = init config base
  next := next

end Definitions

section Search

variable {map : ℕ → Bool} {bound index : ℕ}

theorem search_found_range (found : search map bound = .found index) :
    index ∈ List.range (min bound (2 ^ 32)) ∧ map index = false := by
  unfold search at found
  split at found
  · next i first =>
      obtain rfl : i = index := by simpa using found
      have unmarked := List.find?_some first
      exact ⟨List.mem_of_find?_eq_some first, by simpa using unmarked⟩
  · split at found <;> simp at found

theorem search_found (found : search map bound = .found index) :
    index < bound ∧ map index = false := by
  rcases search_found_range found with ⟨searched, unmarked⟩
  exact ⟨Nat.lt_of_lt_of_le (List.mem_range.mp searched) (Nat.min_le_left _ _), unmarked⟩

theorem search_exhausted (exhausted : search map bound = .exhausted) :
    ∀ i < bound, map i = true := by
  unfold search at exhausted
  split at exhausted
  · simp at exhausted
  · next none_left =>
      split at exhausted
      · next small =>
          intro i below
          have marked := List.find?_eq_none.mp none_left i (List.mem_range.mpr (by omega))
          simpa using marked
      · simp at exhausted

end Search

namespace Config

variable (config : Config)

theorem levelsLoop_two_pow {exponent fuel : ℕ} (enough : exponent ≤ fuel) :
    levelsLoop fuel (2 ^ exponent) = exponent := by
  induction exponent generalizing fuel with
  | zero => cases fuel <;> simp [levelsLoop]
  | succ exponent ih =>
      obtain ⟨fuel, rfl⟩ := Nat.exists_eq_add_of_le' (Nat.one_le_of_lt enough)
      have more : 1 < 2 ^ (exponent + 1) := Nat.one_lt_two_pow (Nat.succ_ne_zero _)
      have halved : 2 ^ (exponent + 1) >>> 1 = 2 ^ exponent := by
        rw [Nat.shiftRight_eq_div_pow, Nat.pow_succ, Nat.pow_one, Nat.mul_div_cancel _ two_pos]
      rw [levelsLoop, if_pos more, halved, ih (by omega)]

/-- With 2^k blocks there are k merge rounds. -/
theorem levels_eq : config.levels = config.exponent := by
  unfold levels
  rw [config.blocks_eq]
  exact levelsLoop_two_pow Nat.lt_two_pow_self.le

/-- The number of sorted runs before a merge round. -/
def numRuns (s : ℕ) : ℕ := 2 ^ (config.exponent - s)

variable {config} {s : ℕ}

theorem numRuns_zero : config.numRuns 0 = config.blocks := config.blocks_eq.symm

theorem numRuns_eq (inside : s < config.levels) : config.numRuns s = 2 * config.numPairs s := by
  rw [levels_eq] at inside
  have exponent_eq : config.exponent - s = config.exponent - (s + 1) + 1 := by omega
  rw [numRuns, numPairs, config.blocks_eq, Nat.shiftRight_eq_div_pow,
    Nat.pow_div (by omega) two_pos, exponent_eq, Nat.pow_succ, Nat.mul_comm]

theorem numRuns_succ (inside : s < config.levels) : config.numRuns (s + 1) = config.numPairs s := by
  rw [levels_eq] at inside
  rw [numRuns, numPairs, config.blocks_eq, Nat.shiftRight_eq_div_pow,
    Nat.pow_div (by omega) two_pos]

theorem span_zero : config.span 0 = config.per := by simp [span]

theorem span_succ : config.span (s + 1) = 2 * config.span s := by
  simp only [span, Nat.shiftLeft_eq, Nat.one_mul, Nat.pow_succ]
  rw [Nat.mul_comm (2 ^ s) 2, Nat.mul_assoc]

/-- The runs of every round make up the whole chunk. -/
theorem numRuns_mul_span (inside : s ≤ config.levels) :
    config.numRuns s * config.span s = config.blocks * config.per := by
  rw [levels_eq] at inside
  rw [numRuns, span, Nat.shiftLeft_eq, Nat.one_mul, ← Nat.mul_assoc, ← Nat.pow_add,
    Nat.sub_add_cancel inside, config.blocks_eq]

end Config

end Osis.Lab06
