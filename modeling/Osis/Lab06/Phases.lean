import Mathlib.Tactic.SplitIfs
import Osis.Lab06.Workers

/-!
# Phases of the workers

Between two barriers every worker is in the same phase. In the two phases that
hand out work, a marked piece of work is done or owed by the worker that is
about to do it, and a worker that has reached the barrier has seen every piece
marked. When all have reached it, nobody owes anything and all of it is done.
-/

namespace Osis.Lab06

open Concurrency Memory

universe u

/-- What lies between two barriers. -/
inductive Phase where
  | start
  | sort
  | clear (s : ℕ)
  | merge (s : ℕ)

/-- The phase that ends at a barrier. -/
def Barrier.phase : Barrier → Phase
  | .started => .start
  | .sorted => .sort
  | .cleared s => .clear s
  | .merged s => .merge s

theorem Barrier.phase_injective {barrier other : Barrier} (same : barrier.phase = other.phase) :
    barrier = other := by
  cases barrier <;> cases other <;> simp_all [Barrier.phase]

/-- The phase a point belongs to; a worker returns from the phase after the last round. -/
def Point.phase (config : Config) : Point → Phase
  | .arrive barrier | .wait barrier => barrier.phase
  | .sortOwn | .claimBlock | .sortBlock _ => .sort
  | .round s => .clear s
  | .mergeOwn s | .claimPair s | .mergePair s _ | .inMerge s _ _ => .merge s
  | .returned => .clear config.levels

/-- At the barrier that ends the phase. -/
def Point.atBarrier : Point → Bool
  | .arrive _ | .wait _ => true
  | _ => false

/-- The piece of work that a worker has been handed and has not finished. -/
def Point.Owes (id : ℕ) : Point → ℕ → Prop
  | .sortOwn, i => i = id
  | .sortBlock next, i => i = next
  | .mergePair _ j, i | .inMerge _ j false, i => i = j
  | _, _ => False

/-- Blocks and pairs in hand exist, and so does the round of a barrier. -/
def Point.Valid (config : Config) (id : ℕ) : Point → Prop
  | .sortBlock next => next < config.blocks
  | .mergePair s j | .inMerge s j false => j < config.numPairs s
  | .inMerge s j true => j < config.numPairs s ∧ j = id
  | .arrive (.cleared s) | .wait (.cleared s) => s < config.levels
  | _ => True

theorem Point.not_owes_of_atBarrier {point : Point} {id i : ℕ} (arrived : point.atBarrier = true) :
    ¬point.Owes id i := by
  cases point <;> simp_all [Point.atBarrier, Point.Owes]

/-- Work marked in a map is done or owed, and nothing is unmarked for a worker at the barrier. -/
structure Handout {threads : ℕ} (map : ℕ → Bool) (bound : ℕ) (Done : ℕ → Prop)
    (points : Fin threads → Point) : Prop where
  marked : ∀ i < bound, map i = true → Done i ∨ ∃ thread, (points thread).Owes thread i
  exhausted : ∀ thread, (points thread).atBarrier = true → ∀ i < bound, map i = true

section Handout

variable {threads bound : ℕ} {map map' : ℕ → Bool} {Done Done' : ℕ → Prop}
  {points : Fin threads → Point} {thread : Fin threads} {point : Point}

/-- One worker moves on: it may mark work it owes from now on, and settle what it owed. -/
theorem Handout.move (handout : Handout map bound Done points)
    (kept : ∀ i < bound, map i = true → map' i = true)
    (marked : ∀ i < bound, map' i = true → map i = true ∨ point.Owes thread i)
    (done : ∀ i < bound, Done i → Done' i)
    (settled : ∀ i < bound, (points thread).Owes thread i → Done' i ∨ point.Owes thread i)
    (arrived : point.atBarrier = true → ∀ i < bound, map' i = true) :
    Handout map' bound Done' (Function.update points thread point) where
  marked := by
    intro i below isMarked
    have own : point.Owes thread i →
        ∃ other, (Function.update points thread point other).Owes other i :=
      fun owes => ⟨thread, by simpa using owes⟩
    rcases marked i below isMarked with before | owes
    · rcases handout.marked i below before with isDone | ⟨other, owes⟩
      · exact Or.inl (done i below isDone)
      · by_cases same : other = thread
        · subst same
          exact (settled i below owes).imp_right own
        · exact Or.inr ⟨other, by simpa [same] using owes⟩
    · exact Or.inr (own owes)
  exhausted := by
    intro other atBarrier i below
    by_cases same : other = thread
    · subst same
      exact arrived (by simpa using atBarrier) i below
    · exact kept i below (handout.exhausted other (by simpa [same] using atBarrier) i below)

/-- One worker moves on without marking anything. -/
theorem Handout.stay (handout : Handout map bound Done points)
    (owes : ∀ i, (points thread).Owes thread i → point.Owes thread i)
    (arrived : point.atBarrier = true → ∀ i < bound, map i = true) :
    Handout map bound Done (Function.update points thread point) :=
  handout.move (fun _ _ marked => marked) (fun _ _ marked => Or.inl marked) (fun _ _ done => done)
    (fun i _ owed => Or.inr (owes i owed)) arrived

/-- A worker with nothing in hand marks a piece of work and owes it. -/
theorem Handout.claim {index : ℕ} (handout : Handout map bound Done points)
    (idle : ∀ i, ¬(points thread).Owes thread i) (owes : point.Owes thread index)
    (away : point.atBarrier = false) :
    Handout (Function.update map index true) bound Done (Function.update points thread point) := by
  refine handout.move (fun i _ marked => ?_) (fun i _ marked => ?_) (fun _ _ done => done)
    (fun i _ owed => absurd owed (idle i)) (fun arrived => ?_)
  · by_cases same : i = index <;> simp [same, marked]
  · by_cases same : i = index
    · exact Or.inr (same ▸ owes)
    · exact Or.inl (by simpa [same] using marked)
  · simp [away] at arrived

/-- With every worker at the barrier all the work is done. -/
theorem Handout.complete (handout : Handout map bound Done points) (thread : Fin threads)
    (arrived : ∀ other, (points other).atBarrier = true) : ∀ i < bound, Done i := by
  intro i below
  rcases handout.marked i below (handout.exhausted thread (arrived thread) i below) with
    isDone | ⟨other, owes⟩
  · exact isDone
  · exact absurd owes (Point.not_owes_of_atBarrier (arrived other))

end Handout

section Progress

variable {Time : Type u} [LinearOrder Time] {config : Config}

/-- What holds of maps and records during a phase. -/
def Progress (config : Config) (shared : Shared Time) (points : Fin config.threads → Point) :
    Phase → Prop
  | .start => ∀ i < config.blocks, shared.blockMap i = decide (i < config.threads)
  | .sort => Handout shared.blockMap config.blocks (Run shared.base config.per) points
  | .clear s =>
      s ≤ config.levels ∧ (∀ i < config.numRuns s, Run shared.base (config.span s) i) ∧
        ∀ thread : Fin config.threads, thread.val = 0 → (points thread).atBarrier = true →
          ∀ k < config.numPairs s, shared.mergeMap k = false
  | .merge s =>
      s < config.levels ∧ (∀ i < config.numRuns s, Run shared.base (config.span s) i) ∧
        Handout shared.mergeMap (config.numPairs s) (Run shared.base (config.span (s + 1))) points

/-- The invariant of the workers of one chunk, with the phase they are in. -/
structure InPhase (original : ℕ → IndexS Time) (state : State config Time) (phase : Phase) :
    Prop where
  phase_eq : ∀ thread, (state.points thread).phase config = phase
  valid : ∀ thread, (state.points thread).Valid config thread
  perm : (slice state.shared.base 0 (config.blocks * config.per)).Perm
    (slice original 0 (config.blocks * config.per))
  frame : ∀ address, config.blocks * config.per ≤ address →
    state.shared.base address = original address
  progress : Progress config state.shared state.points phase

theorem inPhase_init (base : ℕ → IndexS Time) :
    InPhase base (init config base) .start where
  phase_eq := fun _ => rfl
  valid := fun _ => trivial
  perm := .refl _
  frame := fun _ _ => rfl
  progress := fun _ _ => rfl

/-- A step is the arrival at a barrier or a step between two barriers. -/
theorem next_cases {state successor : State config Time} {thread : Fin config.threads}
    (taken : next state thread = some successor) :
    (∃ barrier, state.points thread = .arrive barrier ∧
      successor = { state with points := arriveAt state.points thread barrier }) ∨
    ∃ shared point, advance config state.shared thread (state.points thread) =
        some (shared, point) ∧
      successor = ⟨shared, Function.update state.points thread point⟩ := by
  unfold next at taken
  split at taken
  · next barrier arrived =>
      exact Or.inl ⟨barrier, arrived, (Option.some.inj taken).symm⟩
  · simp only [Option.map_eq_some_iff, Prod.exists] at taken
    obtain ⟨shared, point, advanced, rfl⟩ := taken
    exact Or.inr ⟨shared, point, advanced, rfl⟩

theorem block_inside {block : ℕ} (below : block < config.blocks) :
    config.per * block + config.per ≤ config.blocks * config.per := by
  rw [← Nat.mul_succ, Nat.mul_comm config.blocks]
  exact Nat.mul_le_mul_left _ below

theorem pair_inside {s j : ℕ} (round : s < config.levels) (below : j < config.numPairs s) :
    2 * config.span s * j + 2 * config.span s ≤ config.blocks * config.per := by
  rw [← config.numRuns_mul_span (Nat.succ_le_of_lt round), config.numRuns_succ round,
    ← config.span_succ, ← Nat.mul_succ, Nat.mul_comm (config.numPairs s)]
  exact Nat.mul_le_mul_left _ below

theorem thread_lt_blocks (thread : Fin config.threads) : thread < config.blocks := by
  have := thread.isLt
  have := config.room
  omega

section Step

variable {original : ℕ → IndexS Time} {state successor : State config Time} {phase : Phase}
  {thread : Fin config.threads} {shared : Shared Time} {point : Point}

/-- A worker that stays in the phase keeps the invariant if it keeps the phase's own part. -/
theorem InPhase.move (inPhase : InPhase original state phase)
    (phase_eq : point.phase config = phase) (valid : point.Valid config thread)
    (perm : (slice shared.base 0 (config.blocks * config.per)).Perm
      (slice state.shared.base 0 (config.blocks * config.per)))
    (frame : ∀ address, config.blocks * config.per ≤ address →
      shared.base address = state.shared.base address)
    (progress : Progress config shared (Function.update state.points thread point) phase) :
    InPhase original ⟨shared, Function.update state.points thread point⟩ phase where
  phase_eq := by
    intro other
    by_cases same : other = thread
    · subst same
      simpa using phase_eq
    · simpa [same] using inPhase.phase_eq other
  valid := by
    intro other
    by_cases same : other = thread
    · subst same
      simpa using valid
    · simpa [same] using inPhase.valid other
  perm := perm.trans inPhase.perm
  frame := fun address outside => (frame address outside).trans (inPhase.frame address outside)
  progress := progress

theorem InPhase.progress_of {phase' : Phase} (inPhase : InPhase original state phase)
    (phase_eq : (state.points thread).phase config = phase') :
    phase = phase' ∧ Progress config state.shared state.points phase' := by
  have same : phase = phase' := (inPhase.phase_eq thread).symm.trans phase_eq
  exact ⟨same, same ▸ inPhase.progress⟩

/-- A block that a worker owes gets sorted. -/
theorem InPhase.sortBlock {block : ℕ} (inPhase : InPhase original state phase)
    (phase_eq : (state.points thread).phase config = .sort) (below : block < config.blocks)
    (owes : ∀ i, (state.points thread).Owes thread i → i = block) :
    InPhase original
      ⟨{ state.shared with base := Lab06.sortBlock state.shared.base config.per block },
        Function.update state.points thread .claimBlock⟩ phase := by
  obtain ⟨rfl, handout⟩ := inPhase.progress_of phase_eq
  refine inPhase.move rfl trivial (sortBlock_perm (block_inside below))
    (fun _ outside => sortBlock_outside (block_inside below) outside) ?_
  exact Handout.move handout (fun _ _ marked => marked) (fun _ _ marked => Or.inl marked)
    (fun _ _ sorted => run_sortBlock_of_run block sorted)
    (fun i _ owed => Or.inl (owes i owed ▸ run_sortBlock)) (fun arrived => by
      simp [Point.atBarrier] at arrived)

/-- A merge changes no sorted run of its round, and makes the run of its pair. -/
theorem InPhase.doMerge {s j : ℕ} (inPhase : InPhase original state phase)
    (phase_eq : (state.points thread).phase config = .merge s) (below : j < config.numPairs s)
    (owes : ∀ i, (state.points thread).Owes thread i → i = j) :
    InPhase original
      ⟨{ state.shared with base := Lab06.doMerge state.shared.base j (config.span s) },
        Function.update state.points thread (.claimPair s)⟩ phase := by
  obtain ⟨rfl, round, runs, handout⟩ := inPhase.progress_of phase_eq
  have numRuns_eq := config.numRuns_eq round
  have first := runs (2 * j) (by omega)
  have second := runs (2 * j + 1) (by omega)
  have inside := pair_inside round below
  refine inPhase.move rfl trivial (doMerge_perm inside)
    (fun _ outside => doMerge_outside inside outside)
    ⟨round, fun i i_lt => run_doMerge_of_run first second (runs i i_lt), ?_⟩
  rw [config.span_succ] at handout ⊢
  exact Handout.move handout (fun _ _ marked => marked) (fun _ _ marked => Or.inl marked)
    (fun _ _ sorted => run_doMerge_double first second sorted)
    (fun i _ owed => Or.inl (by rw [owes i owed]; exact run_doMerge first second))
    (fun arrived => by simp [Point.atBarrier] at arrived)

/-- A worker between two barriers keeps the invariant. -/
theorem InPhase.advance (inPhase : InPhase original state phase)
    (taken : advance config state.shared thread (state.points thread) = some (shared, point)) :
    InPhase original ⟨shared, Function.update state.points thread point⟩ phase := by
  have valid := inPhase.valid thread
  cases at_point : state.points thread with
  | arrive | wait | returned => simp [at_point, Lab06.advance] at taken
  | sortOwn =>
      simp only [at_point, Lab06.advance, Option.some.injEq, Prod.mk.injEq] at taken
      obtain ⟨rfl, rfl⟩ := taken
      exact inPhase.sortBlock (by rw [at_point]; rfl) (thread_lt_blocks thread)
        (by simp [at_point, Point.Owes])
  | claimBlock =>
      have phase_eq : (state.points thread).phase config = .sort := by rw [at_point]; rfl
      obtain ⟨rfl, handout⟩ := inPhase.progress_of phase_eq
      have idle : ∀ i, ¬(state.points thread).Owes thread i := by simp [at_point, Point.Owes]
      simp only [at_point, Lab06.advance] at taken
      split at taken
      · next next found =>
          simp only [Option.some.injEq, Prod.mk.injEq] at taken
          obtain ⟨rfl, rfl⟩ := taken
          exact inPhase.move rfl (search_found found).1 (.refl _) (fun _ _ => rfl)
            (Handout.claim handout idle rfl rfl)
      · next exhausted =>
          simp only [Option.some.injEq, Prod.mk.injEq] at taken
          obtain ⟨rfl, rfl⟩ := taken
          exact inPhase.move rfl trivial (.refl _) (fun _ _ => rfl)
            (Handout.stay handout (fun i owes => absurd owes (idle i))
              fun _ => search_exhausted exhausted)
      · simp at taken
  | sortBlock next =>
      simp only [at_point, Lab06.advance, Option.some.injEq, Prod.mk.injEq] at taken
      obtain ⟨rfl, rfl⟩ := taken
      rw [at_point] at valid
      exact inPhase.sortBlock (by rw [at_point]; rfl) valid (by simp [at_point, Point.Owes])
  | round s =>
      have phase_eq : (state.points thread).phase config = .clear s := by rw [at_point]; rfl
      obtain ⟨rfl, below, runs, cleared⟩ := inPhase.progress_of phase_eq
      simp only [at_point, Lab06.advance] at taken
      split at taken
      · next more =>
          simp only [Option.some.injEq, Prod.mk.injEq] at taken
          obtain ⟨rfl, rfl⟩ := taken
          refine inPhase.move rfl more (.refl _) (fun _ _ => rfl) ⟨below, runs, ?_⟩
          intro other zero arrived k k_lt
          by_cases first : thread.val = 0
          · simp [first, k_lt]
          · have different : other ≠ thread := fun same => first (same ▸ zero)
            simpa [first] using cleared other zero (by simpa [different] using arrived) k k_lt
      · next last =>
          simp only [Option.some.injEq, Prod.mk.injEq] at taken
          obtain ⟨rfl, rfl⟩ := taken
          have level : s = config.levels := by omega
          subst level
          refine inPhase.move rfl trivial (.refl _) (fun _ _ => rfl) ⟨below, runs, ?_⟩
          intro other zero arrived
          by_cases same : other = thread
          · subst same
            simp [Point.atBarrier] at arrived
          · exact cleared other zero (by simpa [same] using arrived)
  | mergeOwn s =>
      have phase_eq : (state.points thread).phase config = .merge s := by rw [at_point]; rfl
      obtain ⟨rfl, round, runs, handout⟩ := inPhase.progress_of phase_eq
      have idle : ∀ i, ¬(state.points thread).Owes thread i := by simp [at_point, Point.Owes]
      simp only [at_point, Lab06.advance] at taken
      split at taken <;> simp only [Option.some.injEq, Prod.mk.injEq] at taken <;>
        obtain ⟨rfl, rfl⟩ := taken
      · next pair =>
          exact inPhase.move rfl ⟨pair, rfl⟩ (.refl _) (fun _ _ => rfl)
            ⟨round, runs, handout.stay (fun i owes => absurd owes (idle i)) nofun⟩
      · exact inPhase.move rfl trivial (.refl _) (fun _ _ => rfl)
          ⟨round, runs, handout.stay (fun i owes => absurd owes (idle i)) nofun⟩
  | claimPair s =>
      have phase_eq : (state.points thread).phase config = .merge s := by rw [at_point]; rfl
      obtain ⟨rfl, round, runs, handout⟩ := inPhase.progress_of phase_eq
      have idle : ∀ i, ¬(state.points thread).Owes thread i := by simp [at_point, Point.Owes]
      simp only [at_point, Lab06.advance] at taken
      split at taken
      · next j found =>
          simp only [Option.some.injEq, Prod.mk.injEq] at taken
          obtain ⟨rfl, rfl⟩ := taken
          exact inPhase.move rfl (search_found found).1 (.refl _) (fun _ _ => rfl)
            ⟨round, runs, handout.claim idle rfl rfl⟩
      · next exhausted =>
          simp only [Option.some.injEq, Prod.mk.injEq] at taken
          obtain ⟨rfl, rfl⟩ := taken
          exact inPhase.move rfl trivial (.refl _) (fun _ _ => rfl)
            ⟨round, runs, handout.stay (fun i owes => absurd owes (idle i))
              fun _ => search_exhausted exhausted⟩
      · simp at taken
  | mergePair s j =>
      have phase_eq : (state.points thread).phase config = .merge s := by rw [at_point]; rfl
      obtain ⟨rfl, round, runs, handout⟩ := inPhase.progress_of phase_eq
      simp only [at_point, Lab06.advance, Option.some.injEq, Prod.mk.injEq] at taken
      obtain ⟨rfl, rfl⟩ := taken
      rw [at_point] at valid
      exact inPhase.move rfl valid (.refl _) (fun _ _ => rfl)
        ⟨round, runs, handout.stay (fun i owes => by rwa [at_point] at owes) nofun⟩
  | inMerge s j own =>
      simp only [at_point, Lab06.advance, Option.some.injEq, Prod.mk.injEq] at taken
      obtain ⟨rfl, rfl⟩ := taken
      rw [at_point] at valid
      have below : j < config.numPairs s := by
        cases own
        · exact valid
        · exact valid.1
      exact inPhase.doMerge (by rw [at_point]; rfl) below
        (by cases own <;> simp [at_point, Point.Owes])

/-- The phase that begins when a barrier opens. -/
def Barrier.nextPhase : Barrier → Phase
  | .started => .sort
  | .sorted => .clear 0
  | .cleared s => .merge s
  | .merged s => .clear (s + 1)

omit [LinearOrder Time] in
/-- When a barrier opens, every worker is blocked there and goes on behind it. -/
theorem arriveAt_cases {barrier : Barrier}
    (phase_eq : ∀ other, (state.points other).phase config = barrier.phase)
    (arrived : state.points thread = .arrive barrier) :
    ((∀ other, (state.points other).atBarrier = true) ∧
      arriveAt state.points thread barrier = fun _ => barrier.after) ∨
    arriveAt state.points thread barrier =
      Function.update state.points thread (.wait barrier) := by
  unfold arriveAt
  split
  · next waiting =>
      have atWait : ∀ other, other ≠ thread → state.points other = .wait barrier := by
        intro other different
        have waits := waiting other different
        have samePhase := phase_eq other
        cases at_point : state.points other with
        | wait barrier' =>
            rw [at_point] at samePhase
            rw [Barrier.phase_injective samePhase]
        | _ => simp [at_point, Point.waits] at waits
      refine Or.inl ⟨fun other => ?_, funext fun other => ?_⟩
      · by_cases same : other = thread
        · rw [same, arrived]
          rfl
        · rw [atWait other same]
          rfl
      · split
        · rfl
        · next different =>
            rw [atWait other different]
            rfl
  · exact Or.inr rfl

/-- With every worker at the barrier the next phase can begin. -/
theorem InPhase.opened {barrier : Barrier} (inPhase : InPhase original state barrier.phase)
    (arrived : state.points thread = .arrive barrier)
    (atBarrier : ∀ other, (state.points other).atBarrier = true) :
    InPhase original (⟨state.shared, fun _ => barrier.after⟩ : State config Time)
      barrier.nextPhase := by
  refine ⟨fun other => ?_, fun other => ?_, inPhase.perm, inPhase.frame, ?_⟩
  · cases barrier <;> rfl
  · cases barrier <;> trivial
  · have valid := inPhase.valid thread
    rw [arrived] at valid
    have progress := inPhase.progress
    cases barrier with
    | started =>
        constructor
        · intro i below marked
          simp only [progress i below, decide_eq_true_eq] at marked
          exact Or.inr ⟨⟨i, marked⟩, rfl⟩
        · intro other arrived
          simp [Barrier.after, Point.atBarrier] at arrived
    | sorted =>
        refine ⟨Nat.zero_le _, ?_, fun other _ arrived => ?_⟩
        · rw [config.numRuns_zero, config.span_zero]
          exact Handout.complete progress thread atBarrier
        · simp [Barrier.after, Point.atBarrier] at arrived
    | cleared s =>
        obtain ⟨-, runs, cleared⟩ := progress
        refine ⟨valid, runs, ?_, fun other arrived => ?_⟩
        · intro k below marked
          have first : (⟨0, config.threads_pos⟩ : Fin config.threads).val = 0 := rfl
          simp [cleared _ first (atBarrier _) k below] at marked
        · simp [Barrier.after, Point.atBarrier] at arrived
    | merged s =>
        obtain ⟨round, -, handout⟩ := progress
        refine ⟨Nat.succ_le_of_lt round, ?_, fun other _ arrived => ?_⟩
        · rw [config.numRuns_succ round]
          exact handout.complete thread atBarrier
        · simp [Barrier.after, Point.atBarrier] at arrived

/-- A worker that blocks at the barrier of its phase keeps the invariant. -/
theorem InPhase.wait {barrier : Barrier} (inPhase : InPhase original state barrier.phase)
    (arrived : state.points thread = .arrive barrier) :
    InPhase original
      { state with points := Function.update state.points thread (.wait barrier) }
      barrier.phase := by
  have valid := inPhase.valid thread
  rw [arrived] at valid
  have progress := inPhase.progress
  have atBarrier : (state.points thread).atBarrier = true := by
    rw [arrived]
    rfl
  have idle : ∀ i, ¬(state.points thread).Owes thread i := by simp [arrived, Point.Owes]
  refine inPhase.move rfl (by cases barrier <;> exact valid) (.refl _)
    (fun _ _ => rfl) ?_
  cases barrier with
  | started => exact progress
  | sorted =>
      exact Handout.stay progress (fun i owes => absurd owes (idle i)) fun _ =>
        progress.exhausted thread atBarrier
  | cleared s =>
      obtain ⟨below, runs, cleared⟩ := progress
      refine ⟨below, runs, fun other zero arrived' => ?_⟩
      by_cases same : other = thread
      · subst same
        exact cleared other zero atBarrier
      · exact cleared other zero (by simpa [same] using arrived')
  | merged s =>
      obtain ⟨round, runs, handout⟩ := progress
      exact ⟨round, runs, handout.stay (fun i owes => absurd owes (idle i)) fun _ =>
        handout.exhausted thread atBarrier⟩

theorem InPhase.next (inPhase : InPhase original state phase)
    (taken : next state thread = some successor) :
    ∃ phase', InPhase original successor phase' := by
  rcases next_cases taken with ⟨barrier, arrived, rfl⟩ | ⟨shared, point, advanced, rfl⟩
  · have phase_eq : phase = barrier.phase := by
      rw [← inPhase.phase_eq thread, arrived]
      rfl
    subst phase_eq
    rcases arriveAt_cases inPhase.phase_eq arrived with ⟨atBarrier, opened⟩ | blocked
    · rw [opened]
      exact ⟨barrier.nextPhase, inPhase.opened arrived atBarrier⟩
    · rw [blocked]
      exact ⟨barrier.phase, inPhase.wait arrived⟩
  · exact ⟨phase, inPhase.advance advanced⟩

end Step

/-- Every reachable state is in some phase. -/
theorem inPhase_of_reachable {original : ℕ → IndexS Time} {state : State config Time}
    (reached : (system config original).Reachable state) :
    ∃ phase, InPhase original state phase := by
  apply reached.invariant
  · rintro _ rfl
    exact ⟨.start, inPhase_init original⟩
  · rintro state thread successor ⟨phase, inPhase⟩ - taken
    exact inPhase.next taken

/-- When all workers have returned, the records of the chunk are sorted. -/
structure SortedChunk (config : Config) (original base : ℕ → IndexS Time) : Prop where
  perm : (slice base 0 (config.blocks * config.per)).Perm
    (slice original 0 (config.blocks * config.per))
  sorted : Sorted (slice base 0 (config.blocks * config.per))
  frame : ∀ address, config.blocks * config.per ≤ address → base address = original address

/-- Whatever the schedule, the workers leave the records of their chunk sorted. -/
theorem sortedChunk_of_returned {original : ℕ → IndexS Time} {state : State config Time}
    (reached : (system config original).Reachable state)
    (returned : ∀ thread, state.points thread = .returned) :
    SortedChunk config original state.shared.base := by
  obtain ⟨phase, inPhase⟩ := inPhase_of_reachable reached
  have phase_eq : (state.points ⟨0, config.threads_pos⟩).phase config = .clear config.levels := by
    rw [returned]
    rfl
  obtain ⟨rfl, -, runs, -⟩ := inPhase.progress_of phase_eq
  refine ⟨inPhase.perm, ?_, inPhase.frame⟩
  have one : config.numRuns config.levels = 1 := by
    rw [config.levels_eq, Config.numRuns, Nat.sub_self, Nat.pow_zero]
  have whole := config.numRuns_mul_span (Nat.le_refl config.levels)
  rw [one, Nat.one_mul] at whole
  have sorted := runs 0 (by omega)
  rwa [Run, RunSorted, whole, Nat.mul_zero] at sorted

end Progress

end Osis.Lab06
