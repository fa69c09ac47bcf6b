import Osis.Concurrency.Transition

/-!
# Bounded first-in first-out buffers

The specification that ring-buffer queues are measured against. A buffer keeps
the whole history of what went in and what came out, and carries as fields that
it never holds more than its capacity and that nothing is lost, duplicated or
reordered.
-/

namespace Osis.Concurrency

universe u

/-- A first-in first-out buffer together with its history. -/
structure BoundedFifo (Item : Type u) where
  /-- The number of items the buffer may hold. -/
  capacity : ℕ
  /-- The items held, oldest first. -/
  items : List Item
  /-- Every item ever put in, oldest first. -/
  inserted : List Item
  /-- Every item ever taken out, oldest first. -/
  removed : List Item
  capacity_pos : 0 < capacity
  length_le : items.length ≤ capacity
  conserved : removed ++ items = inserted

namespace BoundedFifo

variable {Item : Type u}

/-- What can be done to a bounded buffer. -/
inductive Operation (Item : Type u) where
  | insert (item : Item)
  | remove
  | resize (capacity : ℕ)

/-- A buffer that nothing has been put into yet. -/
def empty (capacity : ℕ) (capacity_pos : 0 < capacity) : BoundedFifo Item :=
  ⟨capacity, [], [], [], capacity_pos, Nat.zero_le _, rfl⟩

/-- Put an item behind the others. -/
def insert (fifo : BoundedFifo Item) (item : Item) (room : fifo.items.length < fifo.capacity) :
    BoundedFifo Item :=
  { fifo with
    items := fifo.items ++ [item]
    inserted := fifo.inserted ++ [item]
    length_le := by simpa [Nat.succ_le_iff] using room
    conserved := by rw [← List.append_assoc, fifo.conserved] }

/-- Take the oldest item out. -/
def remove (fifo : BoundedFifo Item) {item : Item} {rest : List Item}
    (nonempty : fifo.items = item :: rest) : BoundedFifo Item :=
  { fifo with
    items := rest
    removed := fifo.removed ++ [item]
    length_le := by
      have := fifo.length_le
      simp only [nonempty, List.length_cons] at this
      omega
    conserved := by
      rw [List.append_assoc, List.singleton_append, ← nonempty, fifo.conserved] }

/-- Change the capacity to one the items fit in. -/
def resize (fifo : BoundedFifo Item) (capacity : ℕ) (positive : 0 < capacity)
    (fits : fifo.items.length ≤ capacity) : BoundedFifo Item :=
  { fifo with
    capacity := capacity
    capacity_pos := positive
    length_le := fits }

/-- An operation succeeds unless it would exceed the capacity or take from an empty buffer. -/
def next (fifo : BoundedFifo Item) : Operation Item → Option (BoundedFifo Item)
  | .insert item =>
      if room : fifo.items.length < fifo.capacity then some (fifo.insert item room) else none
  | .remove =>
      match nonempty : fifo.items with
      | [] => none
      | _ :: _ => some (fifo.remove nonempty)
  | .resize capacity =>
      if fits : 0 < capacity ∧ fifo.items.length ≤ capacity then
        some (fifo.resize capacity fits.1 fits.2)
      else none

theorem next_insert {fifo : BoundedFifo Item} (item : Item)
    (room : fifo.items.length < fifo.capacity) :
    fifo.next (.insert item) = some (fifo.insert item room) := by
  simp [next, room]

theorem next_remove {fifo : BoundedFifo Item} {item : Item} {rest : List Item}
    (nonempty : fifo.items = item :: rest) :
    fifo.next .remove = some (fifo.remove nonempty) := by
  simp only [next]
  split
  · next empty => simp [empty] at nonempty
  · next found =>
      have same := found.symm.trans nonempty
      injection same with sameItem sameRest
      subst sameItem sameRest
      rfl

theorem next_resize {fifo : BoundedFifo Item} {capacity : ℕ} (positive : 0 < capacity)
    (fits : fifo.items.length ≤ capacity) :
    fifo.next (.resize capacity) = some (fifo.resize capacity positive fits) := by
  simp [next, positive, fits]

/-- Runs of a bounded buffer that starts empty with the given capacity. -/
def system (capacity : ℕ) (capacity_pos : 0 < capacity) :
    System (BoundedFifo Item) (Operation Item) where
  initial fifo := fifo = empty capacity capacity_pos
  next := next

end BoundedFifo

end Osis.Concurrency
