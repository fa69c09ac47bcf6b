import Mathlib.Data.List.Nodup
import Mathlib.Logic.Equiv.Basic
import Osis.Concurrency.Mutex
import Osis.Lab08.Accepting

/-!
# The list of pending connections

Every node and every open connection belong to one thread: to `main` until it has created the
thread for the connection, then to this thread. As long as no call fails, each step hands them on
or gives them up, so the list is well formed in every state of a run.
-/

namespace Osis.Lab08

open Concurrency

section Invariant

namespace Point

/-- The cell a thread uses, and what is in it. -/
@[simp]
def content : Point → Option (ℕ × ℤ)
  | lock cell | link cell | unlock cell | accept cell | store cell _ _ => some (cell, -1)
  | check cell fd _ | create cell fd | read cell fd | enter cell fd | search cell fd _
  | leave cell fd | release cell fd => some (cell, fd)
  | _ => none

/-- The descriptor of the connection a thread deals with. -/
@[simp]
def descriptor : Point → Option ℤ
  | store _ fd _ | check _ fd _ | create _ fd | read _ fd | enter _ fd | search _ fd _
  | leave _ fd | release _ fd | serve fd => some fd
  | _ => none

/-- The cell of the thread is in the list. -/
@[simp]
def linked : Point → Bool
  | unlock _ | accept _ | store _ _ _ | check _ _ _ | create _ _ | read _ _ | enter _ _
  | search _ _ _ => true
  | _ => false

/-- The thread holds `list_mutex`. -/
@[simp]
def inside : Point → Bool
  | link _ | unlock _ | search _ _ _ | leave _ _ => true
  | _ => false

/-- The thread frees a cell because a call has failed. -/
@[simp]
def failing : Point → Bool
  | drop _ _ | shut _ | discard _ => true
  | _ => false

end Point

/-- What the list and the cells are to a thread at a point. -/
structure Fits (heap : ℕ → Option ℤ) (nodes : List ℕ) (opened : ℤ → Bool) (point : Point) :
    Prop where
  succeeds : point.failing = false
  kept : ∀ cell fd, point.content = some (cell, fd) → heap cell = some fd
  linked : ∀ cell fd, point.content = some (cell, fd) → (cell ∈ nodes ↔ point.linked = true)
  opened : ∀ fd, point.descriptor = some fd → 0 ≤ fd ∧ opened fd = true
  ahead : ∀ cell fd passed, point = .search cell fd passed → cell ∈ nodes.drop passed

/-- Two threads use neither one cell nor one descriptor. -/
structure Point.Apart (point other : Point) : Prop where
  cells : ∀ cell fd fd', point.content = some (cell, fd) → other.content ≠ some (cell, fd')
  descriptors : ∀ fd, point.descriptor = some fd → other.descriptor ≠ some fd

/-- Every node and every open connection belong to one thread. -/
structure Pending.Sound (state : Pending) : Prop where
  held : ∀ id, Holds state.mutex id (state.points id).inside
  fits : ∀ id, Fits state.heap state.nodes state.opened (state.points id)
  apart : ∀ id other, other ≠ id → (state.points id).Apart (state.points other)
  nodup : state.nodes.Nodup
  owned : ∀ cell ∈ state.nodes, ∃ id fd, (state.points id).content = some (cell, fd)
  used : ∀ fd, state.opened fd = true → ∃ id, (state.points id).descriptor = some fd

theorem Point.Apart.symm {point other : Point} (apart : point.Apart other) :
    other.Apart point where
  cells cell fd fd' own others := apart.cells cell fd' fd others own
  descriptors fd own others := apart.descriptors fd others own

variable {state successor : Pending} {id other : ℕ} {cell : ℕ} {fd : ℤ}

/-- A cell holds the mark of `main` or the descriptor of the connection. -/
theorem Point.content_cases {point : Point} (own : point.content = some (cell, fd)) :
    fd = -1 ∨ point.descriptor = some fd := by
  cases point <;> simp_all

theorem Fits.of_heap {heap heap' : ℕ → Option ℤ} {nodes : List ℕ} {opened : ℤ → Bool}
    {point : Point} (fits : Fits heap nodes opened point)
    (same : ∀ cell fd, point.content = some (cell, fd) → heap' cell = heap cell) :
    Fits heap' nodes opened point where
  succeeds := fits.succeeds
  kept cell fd own := (same cell fd own).trans (fits.kept cell fd own)
  linked := fits.linked
  opened := fits.opened
  ahead := fits.ahead

theorem Fits.of_nodes {heap : ℕ → Option ℤ} {nodes nodes' : List ℕ} {opened : ℤ → Bool}
    {point : Point} (fits : Fits heap nodes opened point) (outside : point.inside = false)
    (same : ∀ cell fd, point.content = some (cell, fd) → (cell ∈ nodes' ↔ cell ∈ nodes)) :
    Fits heap nodes' opened point where
  succeeds := fits.succeeds
  kept := fits.kept
  linked cell fd own := (same cell fd own).trans (fits.linked cell fd own)
  opened := fits.opened
  ahead := by
    rintro cell fd passed rfl
    cases outside

theorem Fits.of_opened {heap : ℕ → Option ℤ} {nodes : List ℕ} {opened opened' : ℤ → Bool}
    {point : Point} (fits : Fits heap nodes opened point)
    (still : ∀ fd, point.descriptor = some fd → opened fd = true → opened' fd = true) :
    Fits heap nodes opened' point where
  succeeds := fits.succeeds
  kept := fits.kept
  linked := fits.linked
  opened fd own := ⟨(fits.opened fd own).1, still fd own (fits.opened fd own).2⟩
  ahead := fits.ahead

namespace Pending.Sound

/-- A thread that goes to another point, with what it does to the list and the cells. -/
theorem place {heap : ℕ → Option ℤ} {nodes : List ℕ} {mutex : Option ℕ} {opened : ℤ → Bool}
    {point : Point} (sound : state.Sound)
    (locks : MutexStep id state.mutex (state.points id).inside mutex point.inside)
    (own : Fits heap nodes opened point)
    (others : ∀ other ≠ id, Fits heap nodes opened (state.points other))
    (apart : ∀ other ≠ id, point.Apart (state.points other)) (nodup : nodes.Nodup)
    (owned : ∀ cell ∈ nodes, (∃ fd, point.content = some (cell, fd)) ∨
      ∃ other ≠ id, ∃ fd, (state.points other).content = some (cell, fd))
    (used : ∀ fd, opened fd = true → point.descriptor = some fd ∨
      ∃ other ≠ id, (state.points other).descriptor = some fd) :
    Pending.Sound ⟨heap, nodes, mutex, opened, Function.update state.points id point⟩ where
  held := by
    intro other
    by_cases same : other = id
    · simp only [same, Function.update_self]
      exact locks.own (sound.held id)
    · simp only [Function.update_of_ne same]
      exact locks.elsewhere (sound.held id) same (sound.held other)
  fits := by
    intro other
    by_cases same : other = id
    · simpa only [same, Function.update_self] using own
    · simpa only [Function.update_of_ne same] using others other same
  apart := by
    intro first second different
    by_cases first_here : first = id
    · have second_there : second ≠ id := fun same => different (same.trans first_here.symm)
      simpa only [first_here, Function.update_self, Function.update_of_ne second_there] using
        apart second second_there
    · by_cases second_here : second = id
      · simpa only [second_here, Function.update_self, Function.update_of_ne first_here] using
          (apart first first_here).symm
      · simpa only [Function.update_of_ne first_here, Function.update_of_ne second_here] using
          sound.apart first second different
  nodup := nodup
  owned := by
    intro cell cell_mem
    rcases owned cell cell_mem with ⟨fd, own⟩ | ⟨other, different, fd, others⟩
    · exact ⟨id, fd, by simpa only [Function.update_self] using own⟩
    · exact ⟨other, fd, by simpa only [Function.update_of_ne different] using others⟩
  used := by
    intro fd fd_open
    rcases used fd fd_open with own | ⟨other, different, others⟩
    · exact ⟨id, by simpa only [Function.update_self] using own⟩
    · exact ⟨other, by simpa only [Function.update_of_ne different] using others⟩

section AtPoint

variable {point : Point}

theorem fits_at (sound : state.Sound) (here : state.points id = point) :
    Fits state.heap state.nodes state.opened point := here ▸ sound.fits id

theorem apart_at (sound : state.Sound) (here : state.points id = point) (different : other ≠ id) :
    point.Apart (state.points other) := here ▸ sound.apart id other different

/-- The cells in the list are the own one or those of other threads. -/
theorem owned_cases {content : Option (ℕ × ℤ)} (sound : state.Sound)
    (here : (state.points id).content = content) (cell_mem : cell ∈ state.nodes) :
    (∃ fd, content = some (cell, fd)) ∨
      ∃ other ≠ id, ∃ fd, (state.points other).content = some (cell, fd) := by
  rcases sound.owned cell cell_mem with ⟨owner, fd, own⟩
  by_cases same : owner = id
  · rw [same, here] at own
    exact Or.inl ⟨fd, own⟩
  · exact Or.inr ⟨owner, same, fd, own⟩

theorem used_cases {descriptor : Option ℤ} (sound : state.Sound)
    (here : (state.points id).descriptor = descriptor) (fd_open : state.opened fd = true) :
    descriptor = some fd ∨ ∃ other ≠ id, (state.points other).descriptor = some fd := by
  rcases sound.used fd fd_open with ⟨user, own⟩
  by_cases same : user = id
  · rw [same, here] at own
    exact Or.inl own
  · exact Or.inr ⟨user, same, own⟩

/-- Only one thread is inside. -/
theorem outside_of_inside (sound : state.Sound) (here : state.points id = point)
    (inside : point.inside = true) (different : other ≠ id) :
    (state.points other).inside = false := by
  have own := sound.held id
  rw [here, inside] at own
  exact (sound.held other).exclusive own different.symm

/-- A thread does not see what is written to a cell that it does not use. -/
theorem fits_put {content : Option ℤ} (sound : state.Sound)
    (not_used : ∀ fd, (state.points other).content ≠ some (cell, fd)) :
    Fits (state.put cell content).heap state.nodes state.opened (state.points other) := by
  apply (sound.fits other).of_heap
  intro cell' fd own
  apply Function.update_of_ne
  rintro rfl
  exact not_used fd own

end AtPoint

/-- A thread that goes on with the same cell and the same descriptor. -/
theorem goOn {point : Point} {mutex : Option ℕ} (sound : state.Sound)
    (locks : MutexStep id state.mutex (state.points id).inside mutex point.inside)
    (content : point.content = (state.points id).content)
    (descriptor : point.descriptor = (state.points id).descriptor)
    (linked : point.linked = (state.points id).linked) (succeeds : point.failing = false)
    (ahead : ∀ cell fd passed, point = .search cell fd passed →
      cell ∈ state.nodes.drop passed) :
    Pending.Sound { state.goto id point with mutex } := by
  have fits := sound.fits id
  apply sound.place locks
  · refine ⟨succeeds, ?_, ?_, ?_, ahead⟩
    · rw [content]
      exact fits.kept
    · rw [content, linked]
      exact fits.linked
    · rw [descriptor]
      exact fits.opened
  · exact fun other _ => sound.fits other
  · intro other different
    have apart := sound.apart id other different
    refine ⟨?_, ?_⟩
    · rw [content]
      exact apart.cells
    · rw [descriptor]
      exact apart.descriptors
  · exact sound.nodup
  · exact fun cell cell_mem => sound.owned_cases content.symm cell_mem
  · exact fun fd fd_open => sound.used_cases descriptor.symm fd_open

/-- A cell in the list is allocated. -/
theorem allocated (sound : state.Sound) (cell_mem : cell ∈ state.nodes) :
    state.heap cell ≠ none := by
  rcases sound.owned cell cell_mem with ⟨owner, fd, own⟩
  rw [(sound.fits owner).kept cell fd own]
  exact Option.some_ne_none fd

/-- `malloc` of a cell. -/
theorem malloc (sound : state.Sound) (here : state.points id = .malloc)
    (free : state.heap cell = none) :
    ((state.put cell (some (-1))).goto id (.lock cell)).Sound := by
  have not_linked : cell ∉ state.nodes := fun cell_mem => sound.allocated cell_mem free
  have not_used (other : ℕ) (fd : ℤ) : (state.points other).content ≠ some (cell, fd) := by
    intro used
    rw [(sound.fits other).kept cell fd used] at free
    cases free
  apply sound.place
  · rw [here]
    exact MutexStep.keep
  · refine ⟨rfl, ?_, ?_, ?_, ?_⟩
    · rintro cell' fd ⟨⟩
      exact Function.update_self _ _ _
    · rintro cell' fd ⟨⟩
      exact iff_of_false not_linked Bool.false_ne_true
    · rintro fd ⟨⟩
    · rintro cell' fd passed ⟨⟩
  · exact fun other _ => sound.fits_put (not_used other)
  · intro other _
    refine ⟨?_, ?_⟩
    · rintro cell' fd fd' ⟨⟩
      exact not_used other fd'
    · rintro fd ⟨⟩
  · exact sound.nodup
  · intro cell' cell_mem
    have owned := sound.owned_cases (congrArg Point.content here) cell_mem
    exact Or.inr (owned.resolve_left (by rintro ⟨fd, ⟨⟩⟩))
  · intro fd fd_open
    have used := sound.used_cases (congrArg Point.descriptor here) fd_open
    exact Or.inr (used.resolve_left (by rintro ⟨⟩))

/-- Putting the node of a cell into the list. -/
theorem link (sound : state.Sound) (here : state.points id = .link cell) :
    Pending.Sound { state.goto id (.unlock cell) with nodes := cell :: state.nodes } := by
  have fits := sound.fits_at here
  have not_linked : cell ∉ state.nodes := by
    intro cell_mem
    cases (fits.linked cell (-1) rfl).mp cell_mem
  apply sound.place
  · rw [here]
    exact MutexStep.keep
  · refine ⟨rfl, ?_, ?_, ?_, ?_⟩
    · exact fits.kept
    · rintro cell' fd ⟨⟩
      simp [Point.linked]
    · rintro fd ⟨⟩
    · rintro cell' fd passed ⟨⟩
  · intro other different
    apply (sound.fits other).of_nodes (sound.outside_of_inside here rfl different)
    intro cell' fd own
    have apart := (sound.apart_at here different).cells cell (-1) fd rfl
    have other_cell : cell' ≠ cell := by
      rintro rfl
      exact apart own
    simp [other_cell]
  · intro other different
    refine ⟨(sound.apart_at here different).cells, ?_⟩
    rintro fd ⟨⟩
  · exact List.nodup_cons.mpr ⟨not_linked, sound.nodup⟩
  · intro cell' cell_mem
    rcases List.mem_cons.mp cell_mem with rfl | old_mem
    · exact Or.inl ⟨-1, rfl⟩
    · exact sound.owned_cases (by rw [here]; rfl) old_mem
  · exact fun fd fd_open => sound.used_cases (by rw [here]; rfl) fd_open

/-- `accept` returns a descriptor that is not in use. -/
theorem accept {number : ℕ} (sound : state.Sound) (here : state.points id = .accept cell)
    (unused : state.opened number ≠ true) :
    Pending.Sound { state.goto id (.store cell number false) with
      opened := Function.update state.opened number true } := by
  have fits := sound.fits_at here
  apply sound.place
  · rw [here]
    exact MutexStep.keep
  · refine ⟨rfl, fits.kept, fits.linked, ?_, ?_⟩
    · rintro fd ⟨⟩
      exact ⟨Int.natCast_nonneg number, Function.update_self _ _ _⟩
    · rintro cell' fd passed ⟨⟩
  · intro other different
    apply (sound.fits other).of_opened
    intro fd own fd_open
    by_cases same : fd = number
    · rw [same, Function.update_self]
    · rwa [Function.update_of_ne same]
  · intro other different
    refine ⟨(sound.apart_at here different).cells, ?_⟩
    rintro fd ⟨⟩ others
    exact unused ((sound.fits other).opened _ others).2
  · exact sound.nodup
  · exact fun cell' cell_mem => sound.owned_cases (by rw [here]; rfl) cell_mem
  · intro fd fd_open
    by_cases same : fd = number
    · exact Or.inl (by rw [same]; rfl)
    · rw [Function.update_of_ne same] at fd_open
      have used := sound.used_cases (congrArg Point.descriptor here) fd_open
      exact Or.inr (used.resolve_left (by rintro ⟨⟩))

/-- The descriptor goes into the cell. -/
theorem store {accepted : ℤ} {interrupted : Bool} (sound : state.Sound)
    (here : state.points id = .store cell accepted interrupted) :
    ((state.put cell (some accepted)).goto id (.check cell accepted interrupted)).Sound := by
  have fits := sound.fits_at here
  have apart_cells (other : ℕ) (different : other ≠ id) (fd : ℤ) :
      (state.points other).content ≠ some (cell, fd) :=
    (sound.apart_at here different).cells cell (-1) fd rfl
  apply sound.place
  · rw [here]
    exact MutexStep.keep
  · refine ⟨rfl, ?_, ?_, fits.opened, ?_⟩
    · rintro cell' fd ⟨⟩
      exact Function.update_self _ _ _
    · rintro cell' fd ⟨⟩
      exact fits.linked cell (-1) rfl
    · rintro cell' fd passed ⟨⟩
  · exact fun other different => sound.fits_put (apart_cells other different)
  · intro other different
    refine ⟨?_, (sound.apart_at here different).descriptors⟩
    rintro cell' fd fd' ⟨⟩
    exact apart_cells other different fd'
  · exact sound.nodup
  · intro cell' cell_mem
    rcases sound.owned_cases (congrArg Point.content here) cell_mem with ⟨fd, ⟨⟩⟩ | others
    · exact Or.inl ⟨accepted, rfl⟩
    · exact Or.inr others
  · exact fun fd fd_open => sound.used_cases (by rw [here]; rfl) fd_open

/-- Two threads that are both outside trade places. -/
theorem swap (sound : state.Sound) (outside : (state.points id).inside = false)
    (outside_other : (state.points other).inside = false) :
    Pending.Sound { state with points := state.points ∘ Equiv.swap id other } where
  held := by
    intro third
    have held_id := sound.held id
    have held_other := sound.held other
    rw [outside] at held_id
    rw [outside_other] at held_other
    by_cases is_id : third = id
    · simpa only [is_id, Function.comp_apply, Equiv.swap_apply_left, outside_other] using held_id
    · by_cases is_other : third = other
      · simpa only [is_other, Function.comp_apply, Equiv.swap_apply_right, outside] using held_other
      · simpa only [Function.comp_apply, Equiv.swap_apply_of_ne_of_ne is_id is_other] using
          sound.held third
  fits third := sound.fits (Equiv.swap id other third)
  apart first second different :=
    sound.apart _ _ fun same => different ((Equiv.swap id other).injective same)
  nodup := sound.nodup
  owned := by
    intro cell cell_mem
    rcases sound.owned cell cell_mem with ⟨owner, fd, own⟩
    exact ⟨Equiv.swap id other owner, fd, by
      simpa only [Function.comp_apply, Equiv.swap_apply_self] using own⟩
  used := by
    intro fd fd_open
    rcases sound.used fd fd_open with ⟨user, own⟩
    exact ⟨Equiv.swap id other user, by
      simpa only [Function.comp_apply, Equiv.swap_apply_self] using own⟩

/-- The new thread takes the connection over. -/
theorem create {accepted : ℤ} (sound : state.Sound) (here : state.points id = .create cell accepted)
    (new : state.points other = .absent) :
    ((state.goto id .detach).goto other (.read cell accepted)).Sound := by
  have different : other ≠ id := by
    rintro rfl
    rw [here] at new
    cases new
  have swapped := @swap state id other sound (by rw [here]; rfl) (by rw [new]; rfl)
  have at_other : (state.points ∘ Equiv.swap id other) other = .create cell accepted := by
    rw [Function.comp_apply, Equiv.swap_apply_right, here]
  have at_id : Function.update (state.points ∘ Equiv.swap id other) other
      (.read cell accepted) id = .absent := by
    rw [Function.update_of_ne different.symm, Function.comp_apply, Equiv.swap_apply_left, new]
  have reads : Pending.Sound ⟨state.heap, state.nodes, state.mutex, state.opened,
      Function.update (state.points ∘ Equiv.swap id other) other (.read cell accepted)⟩ := by
    apply swapped.goOn
    · simp only [at_other]
      exact MutexStep.keep
    · simp only [at_other]
      rfl
    · simp only [at_other]
      rfl
    · simp only [at_other]
      rfl
    · rfl
    · rintro cell' fd passed ⟨⟩
  have detaches : Pending.Sound ⟨state.heap, state.nodes, state.mutex, state.opened,
      Function.update (Function.update (state.points ∘ Equiv.swap id other) other
        (.read cell accepted)) id .detach⟩ := by
    apply reads.goOn
    · simp only [at_id]
      exact MutexStep.keep
    · simp only [at_id]
      rfl
    · simp only [at_id]
      rfl
    · simp only [at_id]
      rfl
    · rfl
    · rintro cell' fd passed ⟨⟩
  have same : Function.update (Function.update (state.points ∘ Equiv.swap id other) other
      (.read cell accepted)) id .detach =
        Function.update (Function.update state.points id .detach) other (.read cell accepted) := by
    funext third
    by_cases is_id : third = id
    · rw [is_id, Function.update_self, Function.update_of_ne different.symm, Function.update_self]
    · rw [Function.update_of_ne is_id]
      by_cases is_other : third = other
      · rw [is_other, Function.update_self, Function.update_self]
      · rw [Function.update_of_ne is_other, Function.update_of_ne is_other,
          Function.update_of_ne is_id, Function.comp_apply,
          Equiv.swap_apply_of_ne_of_ne is_id is_other]
  rw [same] at detaches
  exact detaches

/-- The search ends at the own node. -/
theorem found {passed node : ℕ} {content : ℤ} (sound : state.Sound)
    (here : state.points id = .search cell fd passed) (at_node : state.nodes[passed]? = some node)
    (holds : state.heap node = some content) (same : content = fd) :
    Pending.Sound { state.goto id (.leave cell fd) with nodes := state.nodes.eraseIdx passed } := by
  have fits := sound.fits_at here
  have own_node : node = cell := by
    rcases sound.owned_cases (congrArg Point.content here) (List.mem_of_getElem? at_node) with
      ⟨held, ⟨⟩⟩ | ⟨other, different, held, others⟩
    · rfl
    · have held_eq := (sound.fits other).kept node held others
      rw [holds, same, Option.some.injEq] at held_eq
      rcases Point.content_cases others with mark | descriptor
      · have nonneg := (fits.opened fd rfl).1
        omega
      · have apart := (sound.apart_at here different).descriptors fd rfl
        rw [← held_eq] at descriptor
        exact absurd descriptor apart
  subst own_node
  rcases List.getElem?_eq_some_iff.mp at_node with ⟨in_list, node_eq⟩
  have erased : state.nodes.eraseIdx passed = state.nodes.erase node := by
    rw [← node_eq]
    exact (sound.nodup.erase_getElem passed in_list).symm
  have mem_erased (other : ℕ) :
      other ∈ state.nodes.eraseIdx passed ↔ other ≠ node ∧ other ∈ state.nodes := by
    rw [erased]
    exact sound.nodup.mem_erase_iff
  apply sound.place
  · rw [here]
    exact MutexStep.keep
  · refine ⟨rfl, fits.kept, ?_, fits.opened, ?_⟩
    · rintro cell' fd' ⟨⟩
      exact iff_of_false (fun cell_mem => ((mem_erased _).mp cell_mem).1 rfl) Bool.false_ne_true
    · rintro cell' fd' passed' ⟨⟩
  · intro other different
    apply (sound.fits other).of_nodes (sound.outside_of_inside here rfl different)
    intro cell' fd' own
    have apart := (sound.apart_at here different).cells node fd fd' rfl
    rw [mem_erased]
    constructor
    · exact And.right
    · intro cell_mem
      refine ⟨?_, cell_mem⟩
      rintro rfl
      exact apart own
  · intro other different
    have apart := sound.apart_at here different
    exact ⟨apart.cells, apart.descriptors⟩
  · exact sound.nodup.sublist (List.eraseIdx_sublist _ _)
  · intro cell' cell_mem
    exact sound.owned_cases (by rw [here]; rfl) ((mem_erased cell').mp cell_mem).2
  · exact fun fd' fd_open => sound.used_cases (by rw [here]; rfl) fd_open

/-- `free` of the cell, which is in the list no more. -/
theorem release (sound : state.Sound) (here : state.points id = .release cell fd) :
    ((state.put cell none).goto id (.serve fd)).Sound := by
  have fits := sound.fits_at here
  have not_linked : cell ∉ state.nodes := by
    intro cell_mem
    cases (fits.linked cell fd rfl).mp cell_mem
  apply sound.place
  · rw [here]
    exact MutexStep.keep
  · refine ⟨rfl, ?_, ?_, fits.opened, ?_⟩
    · rintro cell' fd' ⟨⟩
    · rintro cell' fd' ⟨⟩
    · rintro cell' fd' passed ⟨⟩
  · intro other different
    apply sound.fits_put
    exact fun fd' => (sound.apart_at here different).cells cell fd fd' rfl
  · intro other different
    refine ⟨?_, (sound.apart_at here different).descriptors⟩
    rintro cell' fd' fd'' ⟨⟩
  · exact sound.nodup
  · intro cell' cell_mem
    rcases sound.owned_cases (congrArg Point.content here) cell_mem with ⟨fd', ⟨⟩⟩ | others
    · exact absurd cell_mem not_linked
    · exact Or.inr others
  · exact fun fd' fd_open => sound.used_cases (by rw [here]; rfl) fd_open

/-- The connection is closed. -/
theorem serve (sound : state.Sound) (here : state.points id = .serve fd) :
    ((state.close fd).goto id .ended).Sound := by
  apply sound.place
  · rw [here]
    exact MutexStep.keep
  · refine ⟨rfl, ?_, ?_, ?_, ?_⟩
    · rintro cell' fd' ⟨⟩
    · rintro cell' fd' ⟨⟩
    · rintro fd' ⟨⟩
    · rintro cell' fd' passed ⟨⟩
  · intro other different
    apply (sound.fits other).of_opened
    intro fd' own fd_open
    have other_fd : fd' ≠ fd := by
      rintro rfl
      exact (sound.apart_at here different).descriptors fd' rfl own
    rwa [close_opened, if_neg other_fd]
  · intro other different
    refine ⟨?_, ?_⟩
    · rintro cell' fd' fd'' ⟨⟩
    · rintro fd' ⟨⟩
  · exact sound.nodup
  · exact fun cell' cell_mem => sound.owned_cases (by rw [here]; rfl) cell_mem
  · intro fd' fd_open
    by_cases same : fd' = fd
    · rw [close_opened, if_pos same] at fd_open
      cases fd_open
    · rw [close_opened, if_neg same] at fd_open
      have used := sound.used_cases (congrArg Point.descriptor here) fd_open
      exact Or.inr (used.resolve_left (by rintro ⟨⟩; exact same rfl))

/-- A thread that keeps its cell and its descriptor and does not touch the mutex. -/
theorem walkOn {point : Point} (sound : state.Sound)
    (content : point.content = (state.points id).content)
    (descriptor : point.descriptor = (state.points id).descriptor)
    (linked : point.linked = (state.points id).linked)
    (inside : point.inside = (state.points id).inside) (succeeds : point.failing = false)
    (ahead : ∀ cell fd passed, point = .search cell fd passed →
      cell ∈ state.nodes.drop passed) :
    (state.goto id point).Sound :=
  sound.goOn (inside ▸ MutexStep.keep) content descriptor linked succeeds ahead

theorem acquire {point : Point} (sound : state.Sound)
    (taken : state.acquire id point = some successor)
    (content : point.content = (state.points id).content)
    (descriptor : point.descriptor = (state.points id).descriptor)
    (linked : point.linked = (state.points id).linked) (inside : point.inside = true)
    (succeeds : point.failing = false)
    (ahead : ∀ cell fd passed, point = .search cell fd passed →
      cell ∈ state.nodes.drop passed) : successor.Sound := by
  simp only [Pending.acquire, Option.ite_none_right_eq_some, Option.some.injEq] at taken
  rcases taken with ⟨free, rfl⟩
  apply sound.goOn _ content descriptor linked succeeds ahead
  rw [inside]
  exact MutexStep.lock free

theorem unlocked {point : Point} (sound : state.Sound)
    (entered : (state.points id).inside = true)
    (content : point.content = (state.points id).content)
    (descriptor : point.descriptor = (state.points id).descriptor)
    (linked : point.linked = (state.points id).linked) (inside : point.inside = false)
    (succeeds : point.failing = false)
    (ahead : ∀ cell fd passed, point = .search cell fd passed →
      cell ∈ state.nodes.drop passed) : (state.unlocked id point).Sound := by
  apply sound.goOn _ content descriptor linked succeeds ahead
  rw [inside]
  exact MutexStep.unlock entered

/-- The search meets a node. -/
theorem search {passed node : ℕ} {content : ℤ} (sound : state.Sound)
    (here : state.points id = .search cell fd passed) (at_node : state.nodes[passed]? = some node)
    (holds : state.heap node = some content) :
    Pending.Sound (if content = fd then
      { state.goto id (.leave cell fd) with nodes := state.nodes.eraseIdx passed }
      else state.goto id (.search cell fd (passed + 1))) := by
  split
  · rename_i same
    exact sound.found here at_node holds same
  · rename_i different
    have fits := sound.fits_at here
    apply sound.walkOn
    · rw [here]
      rfl
    · rw [here]
      rfl
    · rw [here]
      rfl
    · rw [here]
      rfl
    · rfl
    · rintro cell' fd' passed' ⟨⟩
      have ahead := fits.ahead cell fd passed rfl
      rcases List.getElem?_eq_some_iff.mp at_node with ⟨in_list, node_eq⟩
      rw [List.drop_eq_getElem_cons in_list, node_eq] at ahead
      rcases List.mem_cons.mp ahead with is_node | behind
      · -- the own cell holds the own descriptor
        have own := fits.kept cell fd rfl
        rw [is_node, holds, Option.some.injEq] at own
        exact absurd own different
      · exact behind

theorem advance (sound : state.Sound) (taken : state.advance id = some successor) :
    successor.Sound := by
  unfold Pending.advance at taken
  split at taken
  · rename_i cell here
    apply sound.acquire taken
    all_goals simp [here]
  · rename_i cell here
    cases taken
    exact sound.link here
  · rename_i cell here
    cases taken
    apply sound.unlocked
    all_goals simp [here]
  · rename_i cell accepted interrupted here
    rcases Option.map_eq_some_iff.mp taken with ⟨old, -, rfl⟩
    exact sound.store here
  · rename_i cell accepted interrupted here
    rcases Option.map_eq_some_iff.mp taken with ⟨fd, holds, rfl⟩
    have fits := sound.fits_at here
    have nonneg := (fits.opened accepted rfl).1
    rw [fits.kept cell accepted rfl, Option.some.injEq] at holds
    rw [if_neg (by omega)]
    apply sound.walkOn
    all_goals simp [here]
  · rename_i cell interrupted here
    have fits := sound.fits_at here
    cases fits.succeeds
  · rename_i cell here
    have fits := sound.fits_at here
    cases fits.succeeds
  · rename_i cell here
    have fits := sound.fits_at here
    cases fits.succeeds
  · rename_i here
    cases taken
    apply sound.walkOn
    all_goals simp [here]
  · rename_i cell accepted here
    rcases Option.map_eq_some_iff.mp taken with ⟨fd, holds, rfl⟩
    have fits := sound.fits_at here
    rw [fits.kept cell accepted rfl, Option.some.injEq] at holds
    subst holds
    apply sound.walkOn
    all_goals simp [here]
  · rename_i cell fd here
    have fits := sound.fits_at here
    have in_list := (fits.linked cell fd rfl).mpr rfl
    apply sound.acquire taken
    all_goals simp [here]
    exact in_list
  · rename_i cell fd passed here
    split at taken
    · -- the own node is ahead of the search
      rename_i at_end
      have fits := sound.fits_at here
      have ahead := fits.ahead cell fd passed rfl
      rw [List.drop_eq_nil_of_le (List.getElem?_eq_none_iff.mp at_end)] at ahead
      cases ahead
    · rename_i node at_node
      rcases Option.map_eq_some_iff.mp taken with ⟨content, holds, rfl⟩
      exact sound.search here at_node holds
  · rename_i cell fd here
    cases taken
    apply sound.unlocked
    all_goals simp [here]
  · rename_i cell fd here
    rcases Option.map_eq_some_iff.mp taken with ⟨old, -, rfl⟩
    exact sound.release here
  · rename_i fd here
    cases taken
    exact sound.serve here
  · cases taken

/-- The invariant is kept by every step in which no call fails. -/
theorem next {step : PendingStep} (sound : state.Sound) (succeeds : step.Succeeds)
    (taken : state.next step = some successor) : successor.Sound := by
  unfold Pending.next at taken
  split at taken
  · cases taken
  · split at taken
    · rename_i cell here
      simp only [Option.ite_none_right_eq_some, Option.some.injEq] at taken
      rcases taken with ⟨free, rfl⟩
      exact sound.malloc here free
    · rename_i number cell here
      split at taken
      · cases taken
      · rename_i unused
        cases taken
        exact sound.accept here unused
    · exact succeeds.elim
    · exact succeeds.elim
    · rename_i thread cell accepted here
      simp only [Option.ite_none_right_eq_some, Option.some.injEq] at taken
      rcases taken with ⟨new, rfl⟩
      exact sound.create here new
    · exact sound.advance taken
    · cases taken

end Pending.Sound

theorem sound_initial (initial : accepting.initial state) : state.Sound := by
  rcases initial with ⟨heap, nodes, mutex, opened, points⟩
  have no_content (id : ℕ) : (state.points id).content = none := by
    rw [points, Function.update_apply]
    split <;> rfl
  have no_descriptor (id : ℕ) : (state.points id).descriptor = none := by
    rw [points, Function.update_apply]
    split <;> rfl
  have outside (id : ℕ) : (state.points id).inside = false := by
    rw [points, Function.update_apply]
    split <;> rfl
  refine ⟨?_, ?_, ?_, ?_, ?_, ?_⟩
  · intro id
    rw [mutex, outside]
    exact Holds.of_none id
  · intro id
    refine ⟨?_, ?_, ?_, ?_, ?_⟩
    · rw [points, Function.update_apply]
      split <;> rfl
    · intro cell fd own
      rw [no_content] at own
      cases own
    · intro cell fd own
      rw [no_content] at own
      cases own
    · intro fd own
      rw [no_descriptor] at own
      cases own
    · intro cell fd passed here
      have inside := outside id
      rw [here] at inside
      cases inside
  · intro id other _
    refine ⟨?_, ?_⟩
    · intro cell fd fd' own
      rw [no_content] at own
      cases own
    · intro fd own
      rw [no_descriptor] at own
      cases own
  · rw [nodes]
    exact List.nodup_nil
  · simp [nodes]
  · simp [opened]

theorem sound_of_reachable
    (reached : accepting.ReachableUnder (fun _ step => step.Succeeds) state) : state.Sound := by
  apply reached.invariant
  · intro state initial
    exact sound_initial initial
  · intro state step successor sound succeeds taken
    exact sound.next succeeds taken

end Invariant

section WellFormed

variable {state : Pending} {id : ℕ} {fd : ℤ}

theorem descriptor_of_searched {point : Point} (searched : point.Searched fd) :
    point.descriptor = some fd ∧ point.linked = false := by
  rcases searched with ⟨cell, rfl | rfl⟩ | rfl <;> simp

/-- A connection that a thread deals with is in the list until it has been searched for. -/
theorem listed_or_searched (sound : state.Sound)
    (own : (state.points id).descriptor = some fd) :
    state.Listed fd ∨ (state.points id).Searched fd := by
  have fits := sound.fits id
  have in_list {cell : ℕ} (content : (state.points id).content = some (cell, fd))
      (linked : (state.points id).linked = true) : state.Listed fd :=
    ⟨cell, (fits.linked cell fd content).mpr linked, Or.inl (fits.kept cell fd content)⟩
  cases here : state.points id with
  | store cell accepted interrupted =>
      rw [here] at own fits
      cases own
      exact Or.inl ⟨cell, (fits.linked cell (-1) rfl).mpr rfl, Or.inr ⟨id, interrupted, here⟩⟩
  | check cell accepted interrupted =>
      rw [here] at own in_list
      cases own
      exact Or.inl (in_list rfl rfl)
  | create cell accepted =>
      rw [here] at own in_list
      cases own
      exact Or.inl (in_list rfl rfl)
  | read cell accepted =>
      rw [here] at own in_list
      cases own
      exact Or.inl (in_list rfl rfl)
  | enter cell clientFd =>
      rw [here] at own in_list
      cases own
      exact Or.inl (in_list rfl rfl)
  | search cell clientFd passed =>
      rw [here] at own in_list
      cases own
      exact Or.inl (in_list rfl rfl)
  | leave cell clientFd =>
      rw [here] at own
      cases own
      exact Or.inr (Or.inl ⟨cell, Or.inl rfl⟩)
  | release cell clientFd =>
      rw [here] at own
      cases own
      exact Or.inr (Or.inl ⟨cell, Or.inr rfl⟩)
  | serve clientFd =>
      rw [here] at own
      cases own
      exact Or.inr (Or.inr rfl)
  | _ =>
      rw [here] at own
      cases own

/-- What is in the list has not been searched for. -/
theorem not_searched_of_listed (sound : state.Sound) (nonneg : 0 ≤ fd) (listed : state.Listed fd) :
    ¬(state.points id).Searched fd := by
  intro searched
  rcases descriptor_of_searched searched with ⟨own, not_linked⟩
  have unique {other : ℕ} (others : (state.points other).descriptor = some fd) : other = id := by
    by_contra different
    exact (sound.apart id other different).descriptors fd own others
  rcases listed with ⟨cell, cell_mem, holds | ⟨other, interrupted, storing⟩⟩
  · rcases sound.owned cell cell_mem with ⟨owner, held, content⟩
    have held_eq := (sound.fits owner).kept cell held content
    rw [holds, Option.some.injEq] at held_eq
    subst held_eq
    rcases Point.content_cases content with mark | descriptor
    · omega
    · rw [unique descriptor] at content
      have linked := ((sound.fits id).linked cell fd content).mp cell_mem
      rw [not_linked] at linked
      cases linked
  · have is_id : other = id := unique (by rw [storing]; rfl)
    rw [is_id] at storing
    rw [storing] at not_linked
    cases not_linked

theorem wellFormed_of_sound (sound : state.Sound) : state.WellFormed where
  allocated _ cell_mem := sound.allocated cell_mem
  listed := by
    intro fd fd_open
    rcases sound.used fd fd_open with ⟨user, own⟩
    have nonneg := ((sound.fits user).opened fd own).1
    constructor
    · rintro listed ⟨id, searched⟩
      exact not_searched_of_listed sound nonneg listed searched
    · intro not_searched
      rcases listed_or_searched sound own with listed | searched
      · exact listed
      · exact absurd ⟨user, searched⟩ not_searched

/-- In a run in which no `accept` and no `pthread_create` fails, the list of pending connections
is well formed in every state. -/
theorem wellFormed_of_reachable
    (reached : accepting.ReachableUnder (fun _ step => step.Succeeds) state) :
    state.WellFormed :=
  wellFormed_of_sound (sound_of_reachable reached)

/-- The server before its first connection. -/
def freshServer : Pending :=
  ⟨fun _ => none, [], none, fun _ => false, Function.update (fun _ => .absent) 0 .malloc⟩

theorem initial_freshServer : accepting.initial freshServer := ⟨rfl, rfl, rfl, rfl, rfl⟩

/-- A connection is accepted and its thread looks at the first node. -/
def handover : List PendingStep :=
  [.malloc 0, .thread 0, .thread 0, .thread 0, .accept (.descriptor 5), .thread 0, .thread 0,
    .create (some 1), .thread 1, .thread 1, .thread 1]

theorem wellFormed_handover :
    ∃ state, accepting.run freshServer handover = some state ∧ state.WellFormed := by
  have runs : (accepting.run freshServer handover).isSome = true := by decide +kernel
  rcases Option.isSome_iff_exists.mp runs with ⟨state, ran⟩
  have succeeds : ∀ step ∈ handover, ∀ _ : Pending, step.Succeeds := by
    simp [handover, PendingStep.Succeeds]
  exact ⟨state, ran,
    wellFormed_of_reachable (.of_run (.start initial_freshServer) succeeds ran)⟩

/-- After one failed `accept` the list has a node with a cell that is freed. -/
theorem not_wellFormed_failedAccept :
    ¬ ∀ state, accepting.Reachable state → state.WellFormed := by
  intro claimed
  have ends : (accepting.run freshServer [.malloc 0, .thread 0, .thread 0, .thread 0,
      .accept (.failed false), .thread 0, .thread 0, .thread 0]).map
        (fun state => (state.nodes, state.heap 0)) = some ([0], none) := by decide +kernel
  rcases Option.map_eq_some_iff.mp ends with ⟨state, ran, left⟩
  rcases Prod.mk.inj left with ⟨nodes, freed⟩
  have wellFormed := claimed state (System.Reachable.of_run (.start initial_freshServer) ran)
  exact wellFormed.allocated 0 (by simp [nodes]) freed

end WellFormed

section Interrupt

variable {state : Pending}

/-- The loop of `handle_sigint` over the nodes that are left: the descriptors it closes, `none`
where it uses a cell that is not allocated. -/
def interruptLoop : (ℕ → Option ℤ) → List ℕ → Option (List ℤ)
  | _, [] => some []
  | heap, cell :: rest =>
      (heap cell).bind fun fd =>
        (interruptLoop (Function.update heap cell none) rest).map fun closed =>
          if 0 ≤ fd then fd :: closed else closed

/-- `handle_sigint` finds every cell allocated as long as no cell has two nodes. -/
theorem interruptLoop_isSome {heap : ℕ → Option ℤ} {nodes : List ℕ} (nodup : nodes.Nodup)
    (allocated : ∀ cell ∈ nodes, heap cell ≠ none) : (interruptLoop heap nodes).isSome := by
  induction nodes generalizing heap with
  | nil => rfl
  | cons cell rest ih =>
      rcases List.nodup_cons.mp nodup with ⟨once, rest_nodup⟩
      rcases Option.ne_none_iff_exists'.mp (allocated cell List.mem_cons_self) with ⟨fd, holds⟩
      have rest_allocated : ∀ other ∈ rest, Function.update heap cell none other ≠ none := by
        intro other other_mem
        have other_cell : other ≠ cell := by
          rintro rfl
          exact once other_mem
        rw [Function.update_of_ne other_cell]
        exact allocated other (List.mem_cons_of_mem _ other_mem)
      rw [interruptLoop, holds, Option.bind_some, Option.isSome_map]
      exact ih rest_nodup rest_allocated

/-- The handler of SIGINT can walk the list at any time. -/
theorem interruptLoop_of_reachable
    (reached : accepting.ReachableUnder (fun _ step => step.Succeeds) state) :
    (interruptLoop state.heap state.nodes).isSome := by
  have sound := sound_of_reachable reached
  exact interruptLoop_isSome sound.nodup fun _ cell_mem => sound.allocated cell_mem

end Interrupt

end Osis.Lab08
