import Osis.Concurrency.BoundedFifo
import Osis.Concurrency.Ring

/-!
# The resizable queue of lab 5

Both variants of the lab (`5.1` with semaphores, `5.2` with condition variables)
keep the same ring buffer and change it by the same statements inside their
mutex sections. This file has those statements and what they do to the contents;
`SemQueue` and `CondQueue` add the two ways of synchronising them.

Messages are handled through pointers, so the message type is a parameter. A
slot of a freshly allocated buffer that was never written is `none`.
-/

namespace Osis.Lab05

open Concurrency

universe u v

/-- `INITIAL_QUEUE_CAPACITY` of `queue.h`. -/
def initialQueueCapacity : ℕ := 4

/-- The data fields of `Queue`. -/
structure Queue (Message : Type u) where
  buffer : ℕ → Option Message
  capacity : ℕ
  head : ℕ
  tail : ℕ
  count : ℕ
  addedCount : ℕ
  removedCount : ℕ

namespace Queue

variable {Message : Type u}

/-- `queue_init`. -/
def queueInit : Queue Message where
  buffer := fun _ => none
  capacity := initialQueueCapacity
  head := 0
  tail := 0
  count := 0
  addedCount := 0
  removedCount := 0

/-- The updates of `queue_push` once there is room. -/
def insert (queue : Queue Message) (msg : Message) : Queue Message :=
  { queue with
    buffer := Function.update queue.buffer queue.tail (some msg)
    tail := (queue.tail + 1) % queue.capacity
    count := queue.count + 1
    addedCount := queue.addedCount + 1 }

/-- The slot `queue_pop` reads. -/
def front (queue : Queue Message) : Option Message :=
  queue.buffer queue.head

/-- The updates of `queue_pop` once there is a message. -/
def remove (queue : Queue Message) : Queue Message :=
  { queue with
    head := (queue.head + 1) % queue.capacity
    count := queue.count - 1
    removedCount := queue.removedCount + 1 }

/-- The copy loop of both resize functions, `newbuf[i] = q->buffer[(q->head + i) % oldcap]`. -/
def newbuf (queue : Queue Message) : ℕ → Option Message :=
  (List.range queue.count).foldl
    (fun copied i => Function.update copied i (queue.buffer ((queue.head + i) % queue.capacity)))
    fun _ => none

/-- The updates of both resize functions after the new capacity has been settled. -/
def resize (queue : Queue Message) (newcap : ℕ) : Queue Message :=
  { queue with
    buffer := queue.newbuf
    capacity := newcap
    head := 0
    tail := queue.count }

/-- The messages held, oldest first. -/
def contents (queue : Queue Message) : List (Option Message) :=
  Ring.contents queue.buffer queue.head queue.count queue.capacity

/-- What every mutex section finds and leaves. -/
structure WellFormed (queue : Queue Message) : Prop where
  capacity_pos : 1 ≤ queue.capacity
  count_le : queue.count ≤ queue.capacity
  head_lt : queue.head < queue.capacity
  tail_eq : queue.tail = (queue.head + queue.count) % queue.capacity
  counted : queue.addedCount = queue.removedCount + queue.count

theorem WellFormed.tail_lt {queue : Queue Message} (wellFormed : queue.WellFormed) :
    queue.tail < queue.capacity :=
  wellFormed.tail_eq ▸ Nat.mod_lt _ wellFormed.capacity_pos

theorem wellFormed_queueInit : (queueInit : Queue Message).WellFormed := by
  constructor <;> simp [queueInit, initialQueueCapacity]

theorem wellFormed_insert {queue : Queue Message} (wellFormed : queue.WellFormed)
    (room : queue.count < queue.capacity) (msg : Message) : (queue.insert msg).WellFormed where
  capacity_pos := wellFormed.capacity_pos
  count_le := room
  head_lt := wellFormed.head_lt
  tail_eq := by
    simp only [insert]
    rw [wellFormed.tail_eq, Nat.mod_add_mod, Nat.add_assoc]
  counted := by
    have := wellFormed.counted
    simp only [insert]
    omega

theorem wellFormed_remove {queue : Queue Message} (wellFormed : queue.WellFormed)
    (nonempty : 0 < queue.count) : queue.remove.WellFormed where
  capacity_pos := wellFormed.capacity_pos
  count_le := (Nat.sub_le _ _).trans wellFormed.count_le
  head_lt := Nat.mod_lt _ wellFormed.capacity_pos
  tail_eq := by
    simp only [remove]
    rw [wellFormed.tail_eq]
    exact Ring.tail_succ_mod nonempty
  counted := by
    have := wellFormed.counted
    simp only [remove]
    omega

/-- The queue keeps its shape when resized to a capacity above the number of its messages. -/
theorem wellFormed_resize {queue : Queue Message} (wellFormed : queue.WellFormed) {newcap : ℕ}
    (room : queue.count < newcap) : (queue.resize newcap).WellFormed where
  capacity_pos := by
    simp only [resize]
    omega
  count_le := room.le
  head_lt := by
    simp only [resize]
    omega
  tail_eq := by
    simp only [resize, Nat.zero_add]
    exact (Nat.mod_eq_of_lt room).symm
  counted := wellFormed.counted

theorem contents_insert {queue : Queue Message} (wellFormed : queue.WellFormed)
    (room : queue.count < queue.capacity) (msg : Message) :
    (queue.insert msg).contents = queue.contents ++ [some msg] := by
  simp only [contents, insert, wellFormed.tail_eq]
  exact Ring.contents_update room (some msg)

theorem contents_remove {queue : Queue Message} (wellFormed : queue.WellFormed)
    (nonempty : 0 < queue.count) : queue.contents = queue.front :: queue.remove.contents := by
  obtain ⟨rest, count_eq⟩ : ∃ rest, queue.count = rest + 1 := ⟨queue.count - 1, by omega⟩
  simp only [contents, remove, front, count_eq, Nat.add_sub_cancel]
  exact Ring.contents_succ wellFormed.head_lt

/-- The copy loop fills `newbuf[i]` for every index below its bound. -/
theorem newbuf_apply (queue : Queue Message) {i : ℕ} (below : i < queue.count) :
    queue.newbuf i = queue.buffer ((queue.head + i) % queue.capacity) := by
  suffices copied : ∀ bound, i < bound →
      (List.range bound).foldl (fun copied i => Function.update copied i
        (queue.buffer ((queue.head + i) % queue.capacity))) (fun _ => none) i =
        queue.buffer ((queue.head + i) % queue.capacity) from copied _ below
  intro bound
  induction bound with
  | zero => omega
  | succ bound ih =>
      intro i_lt
      rw [List.range_succ, List.foldl_append, List.foldl_cons, List.foldl_nil]
      rcases Nat.lt_succ_iff_lt_or_eq.mp i_lt with earlier | rfl
      · rw [Function.update_of_ne (by omega), ih earlier]
      · rw [Function.update_self]

theorem contents_resize {queue : Queue Message} {newcap : ℕ} (room : queue.count ≤ newcap) :
    (queue.resize newcap).contents = queue.contents :=
  Ring.contents_moved (fun _ below => queue.newbuf_apply below) room

/-- The ring stands for a bounded buffer of the same capacity and contents. -/
structure Represents (queue : Queue Message) (fifo : BoundedFifo Message) : Prop where
  wellFormed : queue.WellFormed
  capacity_eq : fifo.capacity = queue.capacity
  contents_eq : queue.contents = fifo.items.map some

theorem Represents.length_items {queue : Queue Message} {fifo : BoundedFifo Message}
    (represents : queue.Represents fifo) : fifo.items.length = queue.count := by
  have := congrArg List.length represents.contents_eq
  simpa [contents] using this.symm

theorem represents_queueInit :
    (queueInit : Queue Message).Represents (.empty initialQueueCapacity (by decide)) where
  wellFormed := wellFormed_queueInit
  capacity_eq := rfl
  contents_eq := rfl

theorem Represents.insert {queue : Queue Message} {fifo : BoundedFifo Message}
    (represents : queue.Represents fifo) (room : queue.count < queue.capacity) (msg : Message) :
    ∃ fifo', fifo.next (.insert msg) = some fifo' ∧ (queue.insert msg).Represents fifo' ∧
      fifo'.inserted = fifo.inserted ++ [msg] ∧ fifo'.removed = fifo.removed := by
  have fifoRoom : fifo.items.length < fifo.capacity := by
    rw [represents.length_items, represents.capacity_eq]
    exact room
  refine ⟨fifo.insert msg fifoRoom, BoundedFifo.next_insert msg fifoRoom,
    ⟨wellFormed_insert represents.wellFormed room msg, represents.capacity_eq, ?_⟩, rfl, rfl⟩
  rw [contents_insert represents.wellFormed room, represents.contents_eq]
  simp [BoundedFifo.insert]

theorem Represents.remove {queue : Queue Message} {fifo : BoundedFifo Message}
    (represents : queue.Represents fifo) (nonempty : 0 < queue.count) :
    ∃ fifo' msg, fifo.next .remove = some fifo' ∧ queue.remove.Represents fifo' ∧
      queue.front = some msg ∧ fifo'.inserted = fifo.inserted ∧
      fifo'.removed = fifo.removed ++ [msg] := by
  have split := contents_remove represents.wellFormed nonempty
  rw [represents.contents_eq] at split
  rcases List.map_eq_cons_iff.mp split with ⟨msg, rest, items_eq, front_eq, rest_eq⟩
  exact ⟨fifo.remove items_eq, msg, BoundedFifo.next_remove items_eq,
    ⟨wellFormed_remove represents.wellFormed nonempty, represents.capacity_eq, rest_eq.symm⟩,
    front_eq.symm, rfl, rfl⟩

theorem Represents.resize {queue : Queue Message} {fifo : BoundedFifo Message}
    (represents : queue.Represents fifo) {newcap : ℕ} (room : queue.count < newcap) :
    ∃ fifo', fifo.next (.resize newcap) = some fifo' ∧ (queue.resize newcap).Represents fifo' ∧
      fifo'.inserted = fifo.inserted ∧ fifo'.removed = fifo.removed := by
  have positive : 0 < newcap := by omega
  have fits : fifo.items.length ≤ newcap := by
    rw [represents.length_items]
    exact room.le
  refine ⟨fifo.resize newcap positive fits, BoundedFifo.next_resize positive fits,
    ⟨wellFormed_resize represents.wellFormed room, rfl, ?_⟩, rfl, rfl⟩
  rw [contents_resize room.le, represents.contents_eq]
  rfl

/-- With the logs as the history of the buffer, what was put in has come out or is in the ring. -/
theorem Represents.logged {Thread : Type v} {queue : Queue Message} {fifo : BoundedFifo Message}
    {pushed : List (Thread × Message)} {popped : List (Thread × Option Message)}
    (represents : queue.Represents fifo) (pushed_eq : pushed.map Prod.snd = fifo.inserted)
    (popped_eq : popped.map Prod.snd = fifo.removed.map some) :
    popped.map Prod.snd ++ queue.contents = pushed.map fun entry => some entry.2 :=
  calc popped.map Prod.snd ++ queue.contents
    _ = (fifo.removed ++ fifo.items).map some := by
      rw [popped_eq, represents.contents_eq, List.map_append]
    _ = (pushed.map Prod.snd).map some := by rw [fifo.conserved, pushed_eq]
    _ = pushed.map fun entry => some entry.2 := List.map_map

end Queue

end Osis.Lab05
