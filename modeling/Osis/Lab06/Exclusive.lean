import Osis.Lab06.Phases

/-!
# Exclusive merging

A merge round clears `merge_map` and does not mark the pairs that the workers
merge by their thread number, while `main` does mark the blocks that they sort
by their thread number. So a pair below `threads` is handed out twice. Two
workers are never inside `do_merge` for one pair as long as no worker claims such
a pair before the worker of that number is done with it.
-/

namespace Osis.Lab06

open Concurrency Memory

universe u

variable {Time : Type u} [LinearOrder Time] {config : Config}

/-- No two workers are inside `do_merge` for one pair of a round. -/
def ExclusiveMerging (state : State config Time) : Prop :=
  ∀ thread other s j own own', state.points thread = .inMerge s j own →
    state.points other = .inMerge s j own' → thread = other

/-- Before or inside the `do_merge` call with the thread's own number. -/
def Point.ownPending : Point → Bool
  | .mergeOwn _ | .inMerge _ _ true => true
  | _ => false

/-- The pair a worker has claimed in `merge_map` and has not finished. -/
def Point.Claims : Point → ℕ → Prop
  | .mergePair _ j, i | .inMerge _ j false, i => i = j
  | _, _ => False

/-- A worker claims a pair below `threads` after the worker of that number is done with it. -/
def claimsAfterOwn (state : State config Time) (thread : Fin config.threads) : Bool :=
  match state.points thread with
  | .claimPair s =>
      match search state.shared.mergeMap (config.numPairs s) with
      | .found j =>
          if below : j < config.threads then !(state.points ⟨j, below⟩).ownPending else true
      | _ => true
  | _ => true

/-- Claims are marked and unique, and the worker with the number of a claimed pair is past it. -/
structure Claimed (shared : Shared Time) (points : Fin config.threads → Point) : Prop where
  marked : ∀ thread j, (points thread).Claims j → shared.mergeMap j = true
  unique : ∀ thread other j, (points thread).Claims j → (points other).Claims j → thread = other
  past : ∀ thread j, (points thread).Claims j → ∀ below : j < config.threads,
    (points ⟨j, below⟩).ownPending = false

section Step

variable {shared shared' : Shared Time} {points : Fin config.threads → Point}
  {thread : Fin config.threads} {point : Point}

omit [LinearOrder Time] in
theorem claimed_of_none (none_claimed : ∀ thread j, ¬(points thread).Claims j) :
    Claimed shared points where
  marked := fun thread j claims => absurd claims (none_claimed thread j)
  unique := fun thread _ j claims => absurd claims (none_claimed thread j)
  past := fun thread j claims => absurd claims (none_claimed thread j)

omit [LinearOrder Time] in
/-- A worker moves on without claiming anything or going back before its own pair. -/
theorem Claimed.move (claimed : Claimed shared points)
    (kept : shared'.mergeMap = shared.mergeMap)
    (claims : ∀ j, point.Claims j → (points thread).Claims j)
    (pending : point.ownPending = true → (points thread).ownPending = true) :
    Claimed shared' (Function.update points thread point) := by
  have before : ∀ other j, (Function.update points thread point other).Claims j →
      (points other).Claims j := by
    intro other j claimed'
    by_cases same : other = thread
    · subst same
      exact claims j (by simpa using claimed')
    · simpa [same] using claimed'
  refine ⟨fun other j claimed' => ?_, fun first second j claimed' claimed'' => ?_,
    fun other j claimed' below => ?_⟩
  · rw [kept]
    exact claimed.marked other j (before other j claimed')
  · exact claimed.unique first second j (before first j claimed') (before second j claimed'')
  · have past := claimed.past other j (before other j claimed') below
    by_cases same : (⟨j, below⟩ : Fin config.threads) = thread
    · rw [same] at past ⊢
      rw [Function.update_self]
      by_contra stays
      simp [past] at pending
      exact stays pending
    · simpa [same] using past

omit [LinearOrder Time] in
/-- A worker moves on to a point with no pair in hand. -/
theorem Claimed.leave (claimed : Claimed shared points)
    (kept : shared'.mergeMap = shared.mergeMap) (noClaims : ∀ j, ¬point.Claims j)
    (settled : point.ownPending = false) :
    Claimed shared' (Function.update points thread point) :=
  claimed.move kept (fun j claims => absurd claims (noClaims j))
    fun pending => absurd pending (by simp [settled])

omit [LinearOrder Time] in
/-- A worker claims an unmarked pair whose own worker is past it. -/
theorem Claimed.claim {j : ℕ} (claimed : Claimed shared points)
    (unmarked : shared.mergeMap j = false)
    (claims : ∀ i, point.Claims i → i = j) (settled : point.ownPending = false)
    (past : ∀ below : j < config.threads, (points ⟨j, below⟩).ownPending = false) :
    Claimed { shared with mergeMap := Function.update shared.mergeMap j true }
      (Function.update points thread point) := by
  have unclaimed : ∀ other, ¬(points other).Claims j := fun other claims => by
    simp [claimed.marked other j claims] at unmarked
  have cases_of : ∀ other i, (Function.update points thread point other).Claims i →
      other = thread ∧ i = j ∨ i ≠ j ∧ (points other).Claims i := by
    intro other i claimed'
    by_cases same : other = thread
    · subst same
      exact Or.inl ⟨rfl, claims i (by simpa using claimed')⟩
    · rw [Function.update_of_ne same] at claimed'
      exact Or.inr ⟨fun eq => unclaimed other (eq ▸ claimed'), claimed'⟩
  refine ⟨fun other i claimed' => ?_, fun first second i claimed' claimed'' => ?_,
    fun other i claimed' below => ?_⟩
  · rcases cases_of other i claimed' with ⟨-, rfl⟩ | ⟨different, before⟩
    · simp
    · simpa [different] using claimed.marked other i before
  · rcases cases_of first i claimed' with ⟨rfl, rfl⟩ | ⟨different, before⟩
    · rcases cases_of second i claimed'' with ⟨rfl, -⟩ | ⟨different, -⟩
      · rfl
      · exact absurd rfl different
    · rcases cases_of second i claimed'' with ⟨-, same⟩ | ⟨-, before'⟩
      · exact absurd same different
      · exact claimed.unique first second i before before'
  · by_cases own : (⟨i, below⟩ : Fin config.threads) = thread
    · rw [own, Function.update_self]
      exact settled
    · rw [Function.update_of_ne own]
      rcases cases_of other i claimed' with ⟨-, rfl⟩ | ⟨-, before⟩
      · exact past below
      · exact claimed.past other i before below

end Step

section Runs

variable {original : ℕ → IndexS Time} {state successor : State config Time} {phase : Phase}
  {thread : Fin config.threads} {shared : Shared Time} {point : Point}

/-- Pairs are claimed in merge rounds only. -/
theorem not_claims_of_phase {s j : ℕ} (phase_eq : point.phase config = .clear s) :
    ¬point.Claims j := by
  cases point <;> simp_all [Point.phase, Point.Claims]

theorem Claimed.advance (claimed : Claimed state.shared state.points)
    (inPhase : InPhase original state phase) (permitted : claimsAfterOwn state thread = true)
    (taken : advance config state.shared thread (state.points thread) = some (shared, point)) :
    Claimed shared (Function.update state.points thread point) := by
  cases at_point : state.points thread with
  | arrive | wait | returned => simp [at_point, Lab06.advance] at taken
  | sortOwn | sortBlock =>
      simp only [at_point, Lab06.advance, Option.some.injEq, Prod.mk.injEq] at taken
      obtain ⟨rfl, rfl⟩ := taken
      exact claimed.leave rfl (fun _ => id) rfl
  | claimBlock =>
      simp only [at_point, Lab06.advance] at taken
      split at taken
      · simp only [Option.some.injEq, Prod.mk.injEq] at taken
        obtain ⟨rfl, rfl⟩ := taken
        exact claimed.leave rfl (fun _ => id) rfl
      · simp only [Option.some.injEq, Prod.mk.injEq] at taken
        obtain ⟨rfl, rfl⟩ := taken
        exact claimed.leave rfl (fun _ => id) rfl
      · simp at taken
  | round s =>
      have in_clear : ∀ other, (state.points other).phase config = .clear s := by
        have same := inPhase.phase_eq thread
        rw [at_point] at same
        exact fun other => (inPhase.phase_eq other).trans same.symm
      simp only [at_point, Lab06.advance] at taken
      -- the map may be cleared, but nobody holds a claim at this point
      refine claimed_of_none fun other j => ?_
      by_cases own : other = thread
      · subst own
        rw [Function.update_self]
        split at taken <;> simp only [Option.some.injEq, Prod.mk.injEq] at taken <;>
          obtain ⟨rfl, rfl⟩ := taken <;> exact id
      · rw [Function.update_of_ne own]
        exact not_claims_of_phase (in_clear other)
  | mergeOwn s =>
      simp only [at_point, Lab06.advance] at taken
      split at taken <;> simp only [Option.some.injEq, Prod.mk.injEq] at taken <;>
        obtain ⟨rfl, rfl⟩ := taken <;>
        exact claimed.move rfl (fun _ => False.elim) (fun _ => by rw [at_point]; rfl)
  | claimPair s =>
      simp only [at_point, Lab06.advance] at taken
      split at taken
      · next j found =>
          simp only [Option.some.injEq, Prod.mk.injEq] at taken
          obtain ⟨rfl, rfl⟩ := taken
          refine claimed.claim (search_found found).2 (fun _ claims => claims) rfl fun below => ?_
          simpa [claimsAfterOwn, at_point, found, below] using permitted
      · simp only [Option.some.injEq, Prod.mk.injEq] at taken
        obtain ⟨rfl, rfl⟩ := taken
        exact claimed.leave rfl (fun _ => id) rfl
      · simp at taken
  | mergePair s j =>
      simp only [at_point, Lab06.advance, Option.some.injEq, Prod.mk.injEq] at taken
      obtain ⟨rfl, rfl⟩ := taken
      exact claimed.move rfl (fun i claims => by rwa [at_point]) (fun pending =>
        absurd pending Bool.false_ne_true)
  | inMerge s j own =>
      simp only [at_point, Lab06.advance, Option.some.injEq, Prod.mk.injEq] at taken
      obtain ⟨rfl, rfl⟩ := taken
      exact claimed.leave rfl (fun _ => id) rfl

theorem Claimed.next (claimed : Claimed state.shared state.points)
    (inPhase : InPhase original state phase) (permitted : claimsAfterOwn state thread = true)
    (taken : next state thread = some successor) :
    Claimed successor.shared successor.points := by
  rcases next_cases taken with ⟨barrier, arrived, rfl⟩ | ⟨shared, point, advanced, rfl⟩
  · have phase_eq : ∀ other, (state.points other).phase config = barrier.phase := by
      intro other
      rw [inPhase.phase_eq other, ← inPhase.phase_eq thread, arrived]
      rfl
    rcases arriveAt_cases phase_eq arrived with ⟨-, opened⟩ | blocked
    · simp only [opened]
      exact claimed_of_none fun _ _ => by cases barrier <;> exact id
    · simp only [blocked]
      exact claimed.leave rfl (fun _ => id) rfl
  · exact claimed.advance inPhase permitted advanced

theorem claimed_of_reachableUnder
    (reached : (system config original).ReachableUnder
      (fun state thread => claimsAfterOwn state thread = true) state) :
    (∃ phase, InPhase original state phase) ∧ Claimed state.shared state.points := by
  apply reached.invariant
  · rintro _ rfl
    exact ⟨⟨.start, inPhase_init original⟩, claimed_of_none fun _ _ => id⟩
  · rintro state thread successor ⟨⟨phase, inPhase⟩, claimed⟩ permitted taken
    exact ⟨inPhase.next taken, claimed.next inPhase permitted taken⟩

/-- Merging is exclusive in runs that claim pairs after the workers of their numbers. -/
theorem exclusiveMerging_of_reachableUnder
    (reached : (system config original).ReachableUnder
      (fun state thread => claimsAfterOwn state thread = true) state) :
    ExclusiveMerging state := by
  obtain ⟨⟨phase, inPhase⟩, claimed⟩ := claimed_of_reachableUnder reached
  -- the worker with the number of a claimed pair is not inside its own merge of it
  have apart : ∀ thread other s j, state.points thread = .inMerge s j true →
      ¬(state.points other).Claims j := by
    intro thread other s j own claims
    have valid := inPhase.valid thread
    rw [own] at valid
    obtain ⟨-, rfl⟩ := valid
    have past := claimed.past other thread.val claims thread.isLt
    rw [own] at past
    simp [Point.ownPending] at past
  intro thread other s j own own' inside inside'
  cases own with
  | true =>
      cases own' with
      | true =>
          have valid := inPhase.valid thread
          have valid' := inPhase.valid other
          rw [inside] at valid
          rw [inside'] at valid'
          exact Fin.ext (valid.2.symm.trans valid'.2)
      | false =>
          exact absurd (by rw [inside']; rfl) (apart thread other s j inside)
  | false =>
      cases own' with
      | true =>
          exact absurd (by rw [inside]; rfl) (apart other thread s j inside')
      | false =>
          exact claimed.unique thread other j (by rw [inside]; rfl) (by rw [inside']; rfl)

end Runs

/-- Two workers and eight blocks of one record. -/
def duoConfig : Config := ⟨2, 8, 1, 3, by decide, by decide, by decide⟩

/-- The two workers of `duoConfig`. -/
def duoThread (second : Bool) : Fin duoConfig.threads :=
  if second then ⟨1, by decide⟩ else ⟨0, by decide⟩

/-- Up to the first merge round: the first worker sorts all blocks but the second's own. -/
def duoSort : List (Fin duoConfig.threads) :=
  [duoThread false, duoThread true] ++ List.replicate 15 (duoThread false) ++
    List.replicate 3 (duoThread true) ++ List.replicate 2 (duoThread false) ++
    List.replicate 2 (duoThread true)

/-- The first worker claims its own pair again while the second is inside its own. -/
def duoApart : List (Fin duoConfig.threads) :=
  duoSort ++ [duoThread true] ++ List.replicate 4 (duoThread false)

theorem exclusiveMerging_duoApart :
    ∃ state, ((system duoConfig fun k => (⟨k, 0⟩ : IndexS ℕ)).restrict claimsAfterOwn).run
        (init duoConfig fun k => ⟨k, 0⟩) duoApart = some state ∧
      state.points (duoThread false) = .inMerge 0 0 false ∧
      state.points (duoThread true) = .inMerge 0 1 true ∧ ExclusiveMerging state := by
  have ran : (((system duoConfig fun k => (⟨k, 0⟩ : IndexS ℕ)).restrict claimsAfterOwn).run
      (init duoConfig fun k => ⟨k, 0⟩) duoApart).map
        (fun state => (state.points (duoThread false), state.points (duoThread true))) =
      some (.inMerge 0 0 false, .inMerge 0 1 true) := by
    rfl
  obtain ⟨state, ran, inside⟩ := Option.map_eq_some_iff.mp ran
  simp only [Prod.mk.injEq] at inside
  exact ⟨state, ran, inside.1, inside.2, exclusiveMerging_of_reachableUnder
    (System.Reachable.of_restrict (System.Reachable.of_run (.start rfl) ran))⟩

/-- The first worker is inside its own pair when the second ends its own and claims that one. -/
def duoOverlap : List (Fin duoConfig.threads) :=
  duoSort ++ [duoThread false] ++ List.replicate 4 (duoThread true)

/-- Two workers merge pair 0 of the first round at the same time. -/
theorem not_exclusiveMerging_duoOverlap :
    ∃ state, (system duoConfig fun k => (⟨k, 0⟩ : IndexS ℕ)).Reachable state ∧
      ¬ExclusiveMerging state := by
  have ran : ((system duoConfig fun k => (⟨k, 0⟩ : IndexS ℕ)).run
      (init duoConfig fun k => ⟨k, 0⟩) duoOverlap).map
        (fun state => (state.points (duoThread false), state.points (duoThread true))) =
      some (.inMerge 0 0 true, .inMerge 0 0 false) := by
    rfl
  obtain ⟨state, ran, inside⟩ := Option.map_eq_some_iff.mp ran
  simp only [Prod.mk.injEq] at inside
  refine ⟨state, System.Reachable.of_run (.start rfl) ran, fun exclusive => ?_⟩
  have same := exclusive _ _ _ _ _ _ inside.1 inside.2
  exact absurd same (by decide)

end Osis.Lab06
