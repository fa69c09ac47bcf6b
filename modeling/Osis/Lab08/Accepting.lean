import Mathlib.Data.Int.Notation
import Osis.Concurrency.Transition

/-!
# The accept loop (`server.c`)

For each connection `main` allocates a cell for its descriptor and puts a node that refers to
the cell into `pending_fds` before it calls `accept`. The thread that handles the connection
takes the node out, which it finds by the descriptor in the cell, and frees the cell. Where
`accept` or `pthread_create` fails, `main` frees the cell itself and leaves the node in the
list.

The threads take turns step by step. Nodes are read and changed under `list_mutex` only, so
the list is the list of their cells; a cell is written by `main` without it. `malloc` is taken
to succeed, and returns any address that is not in use. No signal arrives.
-/

namespace Osis.Lab08

open Concurrency

/-- Where a thread stands in `main` or in `handle_client`. What `accept` returned is kept in
the points behind it; the program reads it from the cell. -/
inductive Point where
  | malloc
  | lock (cell : ℕ)
  | link (cell : ℕ)
  | unlock (cell : ℕ)
  | accept (cell : ℕ)
  | store (cell : ℕ) (accepted : ℤ) (interrupted : Bool)
  | check (cell : ℕ) (accepted : ℤ) (interrupted : Bool)
  /-- `free` after `accept` has failed. -/
  | drop (cell : ℕ) (interrupted : Bool)
  | create (cell : ℕ) (accepted : ℤ)
  /-- `close` after `pthread_create` has failed. -/
  | shut (cell : ℕ)
  | discard (cell : ℕ)
  | detach
  | returned
  /-- The thread is not created yet. -/
  | absent
  | read (cell : ℕ) (accepted : ℤ)
  | enter (cell : ℕ) (clientFd : ℤ)
  /-- The search has passed the first nodes of the list. -/
  | search (cell : ℕ) (clientFd : ℤ) (passed : ℕ)
  | leave (cell : ℕ) (clientFd : ℤ)
  | release (cell : ℕ) (clientFd : ℤ)
  | serve (clientFd : ℤ)
  | ended
  deriving DecidableEq, Repr

/-- The server with its threads; thread 0 is `main`. -/
structure Pending where
  /-- The descriptor cells, `none` where nothing is allocated. -/
  heap : ℕ → Option ℤ
  /-- `pending_fds`, by the cells that its nodes refer to. -/
  nodes : List ℕ
  /-- `list_mutex`. -/
  mutex : Option ℕ
  /-- The descriptors of connections that are open. -/
  opened : ℤ → Bool
  points : ℕ → Point

/-- What `accept` returns. -/
inductive Accepted where
  | descriptor (fd : ℕ)
  | failed (interrupted : Bool)
  deriving DecidableEq, Repr

/-- A step of a thread with what a call returns in it. -/
inductive PendingStep where
  | malloc (cell : ℕ)
  | accept (result : Accepted)
  /-- `pthread_create`, with the thread it creates. -/
  | create (thread : Option ℕ)
  | thread (id : ℕ)
  deriving DecidableEq, Repr

namespace Pending

variable (state : Pending)

/-- A thread goes on to a point. -/
def goto (id : ℕ) (point : Point) : Pending :=
  { state with points := Function.update state.points id point }

/-- `pthread_mutex_lock`, blocked while the mutex is held. -/
def acquire (id : ℕ) (point : Point) : Option Pending :=
  if state.mutex = none then some { state.goto id point with mutex := some id } else none

/-- `pthread_mutex_unlock`. -/
def unlocked (id : ℕ) (point : Point) : Pending :=
  { state.goto id point with mutex := none }

/-- Writing a cell, or freeing it with `none`. -/
def put (cell : ℕ) (content : Option ℤ) : Pending :=
  { state with heap := Function.update state.heap cell content }

/-- `close` of the descriptor of a connection. -/
def close (fd : ℤ) : Pending :=
  { state with opened := Function.update state.opened fd false }

@[simp]
theorem close_opened (fd other : ℤ) :
    (state.close fd).opened other = if other = fd then false else state.opened other :=
  Function.update_apply _ _ _ _

/-- The steps that no call decides, `none` where the thread waits, is not there, or uses a cell
that is not allocated. -/
def advance (id : ℕ) : Option Pending :=
  match state.points id with
  | .lock cell => state.acquire id (.link cell)
  | .link cell => some { state.goto id (.unlock cell) with nodes := cell :: state.nodes }
  | .unlock cell => some (state.unlocked id (.accept cell))
  | .store cell accepted interrupted =>
      (state.heap cell).map fun _ =>
        (state.put cell (some accepted)).goto id (.check cell accepted interrupted)
  | .check cell accepted interrupted =>
      (state.heap cell).map fun fd =>
        state.goto id (if fd < 0 then .drop cell interrupted else .create cell accepted)
  | .drop cell interrupted =>
      -- EINTR ends the loop
      (state.heap cell).map fun _ =>
        (state.put cell none).goto id (if interrupted then .returned else .malloc)
  | .shut cell => (state.heap cell).map fun fd => (state.close fd).goto id (.discard cell)
  | .discard cell => (state.heap cell).map fun _ => (state.put cell none).goto id .detach
  | .detach => some (state.goto id .malloc)
  | .read cell _ => (state.heap cell).map fun fd => state.goto id (.enter cell fd)
  | .enter cell fd => state.acquire id (.search cell fd 0)
  | .search cell fd passed =>
      match state.nodes[passed]? with
      | none => some (state.goto id (.leave cell fd))
      | some node =>
          (state.heap node).map fun content =>
            if content = fd then
              { state.goto id (.leave cell fd) with nodes := state.nodes.eraseIdx passed }
            else state.goto id (.search cell fd (passed + 1))
  | .leave cell fd => some (state.unlocked id (.release cell fd))
  | .release cell fd => (state.heap cell).map fun _ => (state.put cell none).goto id (.serve fd)
  | .serve fd => some ((state.close fd).goto id .ended)
  | _ => none

/-- A step; when `main` has returned, the process has ended. -/
def next (step : PendingStep) : Option Pending :=
  if state.points 0 = .returned then none
  else
    match step, state.points 0 with
    | .malloc cell, .malloc =>
        if state.heap cell = none then some ((state.put cell (some (-1))).goto 0 (.lock cell))
        else none
    | .accept (.descriptor fd), .accept cell =>
        if state.opened fd = true then none
        else
          some { state.goto 0 (.store cell fd false) with
            opened := Function.update state.opened fd true }
    | .accept (.failed interrupted), .accept cell =>
        some (state.goto 0 (.store cell (-1) interrupted))
    | .create none, .create cell _ => some (state.goto 0 (.shut cell))
    | .create (some thread), .create cell accepted =>
        if state.points thread = .absent then
          some ((state.goto 0 .detach).goto thread (.read cell accepted))
        else none
    | .thread id, _ => state.advance id
    | _, _ => none

end Pending

/-- The accept loop and the threads it creates. -/
def accepting : System Pending PendingStep where
  initial state := state.heap = (fun _ => none) ∧ state.nodes = [] ∧ state.mutex = none ∧
    state.opened = (fun _ => false) ∧
    state.points = Function.update (fun _ => .absent) 0 .malloc
  next := Pending.next

section Claims

/-- The node of a connection is in the list: its cell holds the descriptor, or `main` is just
storing it there. -/
def Pending.Listed (state : Pending) (fd : ℤ) : Prop :=
  ∃ cell ∈ state.nodes, state.heap cell = some fd ∨
    ∃ id interrupted, state.points id = .store cell fd interrupted

/-- The search of the thread that handles a connection is over. -/
def Point.Searched (point : Point) (fd : ℤ) : Prop :=
  (∃ cell, point = .leave cell fd ∨ point = .release cell fd) ∨ point = .serve fd

/-- Every node refers to an allocated cell, and an open connection is in the list until the thread
that handles it has searched for it. -/
structure Pending.WellFormed (state : Pending) : Prop where
  allocated : ∀ cell ∈ state.nodes, state.heap cell ≠ none
  listed : ∀ fd, state.opened fd = true →
    (state.Listed fd ↔ ¬∃ id, (state.points id).Searched fd)

/-- No `accept` and no `pthread_create` fails. -/
def PendingStep.Succeeds : PendingStep → Prop
  | .accept (.failed _) => False
  | .create none => False
  | _ => True

end Claims

end Osis.Lab08
