import Mathlib.Logic.Function.Basic
import Mathlib.Data.List.Induction

/-!
# Labelled transition systems

Every concurrent program of this development is a partial transition function on
an explicit state. A label fixes everything a step leaves open (which thread
moves, what the environment answers), so that one label has at most one
successor and a schedule can be executed.

A safety theorem is proved for `Reachable` states by `ReachableUnder.invariant`.
Where a property holds only of runs whose steps all meet a condition, the
condition is the parameter of `ReachableUnder`.
-/

namespace Osis.Concurrency

universe u v w

/-- A partial labelled transition function with the states a run may start in. -/
structure System (State : Type u) (Label : Type v) where
  /-- The states a run may start in. -/
  initial : State → Prop
  /-- The successor along a label, `none` where the label is not enabled. -/
  next : State → Label → Option State

namespace System

variable {State : Type u} {Label : Type v} {system : System State Label}

/-- The states reached by runs all of whose steps are allowed in the state they leave. -/
inductive ReachableUnder (system : System State Label) (allowed : State → Label → Prop) :
    State → Prop where
  | start {state : State} (initial : system.initial state) :
      ReachableUnder system allowed state
  | step {state successor : State} {label : Label}
      (reached : ReachableUnder system allowed state) (permitted : allowed state label)
      (taken : system.next state label = some successor) :
      ReachableUnder system allowed successor

/-- The states reached by some run. -/
abbrev Reachable (system : System State Label) : State → Prop :=
  system.ReachableUnder fun _ _ => True

/-- What holds at the start and is kept by every allowed step holds of every state reached. -/
theorem ReachableUnder.invariant {allowed : State → Label → Prop} {invariant : State → Prop}
    {state : State} (reached : system.ReachableUnder allowed state)
    (start : ∀ state, system.initial state → invariant state)
    (preserved : ∀ state label successor, invariant state → allowed state label →
      system.next state label = some successor → invariant successor) :
    invariant state := by
  induction reached with
  | start initial => exact start _ initial
  | step _ permitted taken ih => exact preserved _ _ _ ih permitted taken

/-- Relaxing the condition on steps keeps a state reachable. -/
theorem ReachableUnder.mono {allowed weaker : State → Label → Prop} {state : State}
    (reached : system.ReachableUnder allowed state)
    (relaxed : ∀ state label, system.ReachableUnder allowed state → allowed state label →
      weaker state label) :
    system.ReachableUnder weaker state := by
  induction reached with
  | start initial => exact .start initial
  | step before permitted taken ih => exact .step ih (relaxed _ _ before permitted) taken

/-- Execute a schedule, `none` as soon as one of its labels is not enabled. -/
def run (system : System State Label) (state : State) : List Label → Option State
  | [] => some state
  | label :: rest => (system.next state label).bind fun successor => system.run successor rest

@[simp]
theorem run_nil (state : State) : system.run state [] = some state := rfl

@[simp]
theorem run_cons (state : State) (label : Label) (rest : List Label) :
    system.run state (label :: rest) =
      (system.next state label).bind fun successor => system.run successor rest := rfl

theorem run_append (state : State) (before after : List Label) :
    system.run state (before ++ after) =
      (system.run state before).bind fun middle => system.run middle after := by
  induction before generalizing state with
  | nil => rfl
  | cons label rest ih =>
      simp only [List.cons_append, run_cons]
      cases system.next state label with
      | none => rfl
      | some successor => simpa using ih successor

/-- One schedule after the other. -/
theorem run_trans {state middle final : State} {before after : List Label}
    (ran : system.run state before = some middle)
    (goesOn : system.run middle after = some final) :
    system.run state (before ++ after) = some final := by
  rw [run_append, ran, Option.bind_some, goesOn]

/-- The same label again and again. -/
theorem run_replicate {label : Label} {states : ℕ → State} {count : ℕ}
    (goes : ∀ index < count, system.next (states index) label = some (states (index + 1))) :
    system.run (states 0) (List.replicate count label) = some (states count) := by
  induction count with
  | zero => rfl
  | succ count ih =>
      have ran := ih fun index below => goes index (Nat.lt_succ_of_lt below)
      have last : system.run (states count) [label] = some (states (count + 1)) := by
        rw [run_cons, goes count (Nat.lt_succ_self count), Option.bind_some, run_nil]
      rw [List.replicate_succ']
      exact run_trans ran last

/-- What holds of the empty schedule and is kept when one more label is executed holds of every
schedule with the state it leads to. -/
theorem run_induction {state final : State} {labels : List Label}
    {motive : List Label → State → Prop} (start : motive [] state)
    (extended : ∀ labels middle label successor, system.run state labels = some middle →
      motive labels middle → system.next middle label = some successor →
      motive (labels ++ [label]) successor)
    (ran : system.run state labels = some final) : motive labels final := by
  induction labels using List.reverseRecOn generalizing final with
  | nil =>
      cases ran
      exact start
  | append_singleton labels label ih =>
      rw [run_append, Option.bind_eq_some_iff] at ran
      rcases ran with ⟨middle, ran, taken⟩
      rw [run_cons, Option.bind_eq_some_iff] at taken
      rcases taken with ⟨successor, taken, ended⟩
      cases ended
      exact extended labels middle label final ran (ih ran) taken

/-- Executing a schedule of allowed labels from a state reached reaches its final state. -/
theorem ReachableUnder.of_run {allowed : State → Label → Prop} {state final : State}
    {labels : List Label} (reached : system.ReachableUnder allowed state)
    (permitted : ∀ label ∈ labels, ∀ state, allowed state label)
    (ran : system.run state labels = some final) :
    system.ReachableUnder allowed final := by
  induction labels generalizing state with
  | nil =>
      simp only [run_nil, Option.some.injEq] at ran
      exact ran ▸ reached
  | cons label rest ih =>
      simp only [run_cons, Option.bind_eq_some_iff] at ran
      rcases ran with ⟨successor, taken, ran⟩
      exact ih (reached.step (permitted label List.mem_cons_self state) taken)
        (fun other other_mem => permitted other (List.mem_cons_of_mem _ other_mem)) ran

/-- Executing a schedule from a reachable state reaches its final state. -/
theorem Reachable.of_run {state final : State} {labels : List Label}
    (reached : system.Reachable state) (ran : system.run state labels = some final) :
    system.Reachable final :=
  ReachableUnder.of_run reached (fun _ _ _ => trivial) ran

/-- The system without the steps that a test forbids. -/
def restrict (system : System State Label) (allowed : State → Label → Bool) :
    System State Label where
  initial := system.initial
  next state label := if allowed state label then system.next state label else none

/-- Runs of a restricted system take allowed steps only. -/
theorem Reachable.of_restrict {allowed : State → Label → Bool} {state : State}
    (reached : (system.restrict allowed).Reachable state) :
    system.ReachableUnder (fun state label => allowed state label = true) state := by
  induction reached with
  | start initial => exact .start initial
  | step _ _ taken ih =>
      simp only [restrict, Option.ite_none_right_eq_some] at taken
      exact ih.step taken.1 taken.2

theorem run_of_restrict {allowed : State → Label → Bool} {state final : State}
    {labels : List Label} (ran : (system.restrict allowed).run state labels = some final) :
    system.run state labels = some final := by
  induction labels generalizing state with
  | nil => exact ran
  | cons label rest ih =>
      simp only [run_cons, restrict, Option.bind_eq_some_iff,
        Option.ite_none_right_eq_some] at ran ⊢
      rcases ran with ⟨successor, ⟨-, taken⟩, ran⟩
      exact ⟨successor, taken, ih ran⟩

/-- A schedule of steps that are allowed if they pass a test of the state. -/
theorem ReachableUnder.of_checked {allowed : State → Label → Prop} {test : State → Label → Bool}
    {state final : State} {labels : List Label} (reached : system.ReachableUnder allowed state)
    (permitted : ∀ label ∈ labels, ∀ state, test state label = true → allowed state label)
    (ran : (system.restrict test).run state labels = some final) :
    system.ReachableUnder allowed final := by
  induction labels generalizing state with
  | nil =>
      simp only [run_nil, Option.some.injEq] at ran
      exact ran ▸ reached
  | cons label rest ih =>
      simp only [run_cons, restrict, Option.bind_eq_some_iff, Option.ite_none_right_eq_some] at ran
      rcases ran with ⟨successor, ⟨passed, taken⟩, ran⟩
      exact ih (reached.step (permitted label List.mem_cons_self state passed) taken)
        (fun other other_mem => permitted other (List.mem_cons_of_mem _ other_mem)) ran

/-- `relation` ties every state reached by `system` to some state reached by `spec`. -/
theorem Reachable.simulation {SpecState : Type w} {SpecLabel : Type w}
    {spec : System SpecState SpecLabel} {relation : State → SpecState → Prop} {state : State}
    (reached : system.Reachable state)
    (start : ∀ state, system.initial state → ∃ abstract, spec.initial abstract ∧
      relation state abstract)
    (forward : ∀ state label successor abstract, relation state abstract →
      system.next state label = some successor →
      ∃ labels abstract', spec.run abstract labels = some abstract' ∧
        relation successor abstract') :
    ∃ abstract, spec.Reachable abstract ∧ relation state abstract := by
  induction reached with
  | start initial =>
      rcases start _ initial with ⟨abstract, abstractInitial, related⟩
      exact ⟨abstract, .start abstractInitial, related⟩
  | step _ _ taken ih =>
      rcases ih with ⟨abstract, abstractReached, related⟩
      rcases forward _ _ _ _ related taken with ⟨labels, abstract', ran, related'⟩
      exact ⟨abstract', abstractReached.of_run ran, related'⟩

end System

end Osis.Concurrency
