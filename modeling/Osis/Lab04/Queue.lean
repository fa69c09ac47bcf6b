import Mathlib.Data.Fin.VecNotation
import Mathlib.Data.List.OfFn
import Osis.Concurrency.SemaphoreSet

/-!
# The shared-memory queue of lab 4 (`queue.c`)

The queue lies in a shared-memory segment and is guarded by a set of three
semaphores: 0 counts free slots, 1 counts messages, and 2 is the mutex. Messages
are copied by value. `queue_init` is a function of the IPC objects left by
earlier runs.

The counters are C `int`s and wrap around as 32-bit integers; `head` and `tail`
stay below `MAX_QUEUE_SIZE`.
-/

namespace Osis.Lab04

open Concurrency

/-- `MAX_QUEUE_SIZE`. -/
def maxQueueSize : ℕ := 10

/-- `Message`. -/
structure Message where
  type : UInt8
  hash : UInt16
  size : UInt8
  data : Fin 260 → UInt8

namespace Message

/-- The bytes that `size` covers; a `uint8_t` size never passes the end of the array. -/
def body (msg : Message) : List UInt8 :=
  List.ofFn fun i : Fin msg.size.toNat =>
    msg.data (i.castLE (msg.size.toNat_lt.le.trans (by decide)))

/-- `calculate_hash`. -/
def calculateHash (msg : Message) : UInt16 :=
  msg.body.foldl (fun hash byte => hash + byte.toUInt16)
    (0 + msg.type.toUInt16 + msg.size.toUInt16)

/-- A message of zero bytes. -/
def zero : Message := ⟨0, 0, 0, fun _ => 0⟩

/-- The message `producer_task` fills in from successive values of `rand`. -/
def produce (rand : ℕ → ℕ) : Message :=
  let size : UInt8 := UInt8.ofNat (rand 0 % 256 + 1)
  let msg : Message :=
    { type := UInt8.ofNat (rand 1 % 256)
      hash := 0
      size := size
      data := fun i => if i < size.toNat then UInt8.ofNat (rand (i + 2) % 256 + 1) else 0 }
  { msg with hash := msg.calculateHash }

/-- The hash is not part of what is hashed. -/
theorem calculateHash_produce (rand : ℕ → ℕ) :
    (produce rand).calculateHash = (produce rand).hash := rfl

end Message

/-- `Queue`. -/
structure Queue where
  buffer : ℕ → Message
  head : ℕ
  tail : ℕ
  addedCount : Int32
  removedCount : Int32
  freeSlots : Int32
  semId : ℤ

/-- The values of the semaphores of a set. -/
abbrev Semaphores := Fin 3 → ℕ

/-- The operations `queue_push` waits for. -/
def opsPush : List (SemBuf (Fin 3)) := [⟨0, -1⟩, ⟨2, -1⟩]

/-- The operations `queue_push` ends with. -/
def opsPushFinish : List (SemBuf (Fin 3)) := [⟨2, 1⟩, ⟨1, 1⟩]

/-- The operations `queue_pop` waits for. -/
def opsPop : List (SemBuf (Fin 3)) := [⟨1, -1⟩, ⟨2, -1⟩]

/-- The operations `queue_pop` ends with. -/
def opsPopFinish : List (SemBuf (Fin 3)) := [⟨2, 1⟩, ⟨0, 1⟩]

section Init

/-- The system calls of `queue_init` that may fail for reasons outside the model. -/
inductive SystemCall where
  | shmget
  | shmgetStale
  | shmctl
  | shmgetAgain
  | shmat
  | semget
  | semgetStale
  | semctl

/-- The set of semaphores found under `SEM_KEY`. -/
structure SemaphoreSet where
  id : ℤ
  values : Semaphores

/-- The IPC objects under `QUEUE_KEY` and `SEM_KEY`. -/
structure Ipc where
  segment : Option Queue
  semaphores : Option SemaphoreSet

/-- A segment as `shmget` creates it. -/
def Queue.zero : Queue := ⟨fun _ => .zero, 0, 0, 0, 0, 0, 0⟩

/-- The assignments at the end of `queue_init`. -/
def Queue.reset (queue : Queue) : Queue :=
  { queue with
    head := 0
    tail := 0
    addedCount := 0
    removedCount := 0
    freeSlots := Int32.ofNat maxQueueSize }

/-- `queue_init` from `shmat` on; `newId` is the identifier of a set it creates. -/
def Ipc.attach (ipc : Ipc) (fails : SystemCall → Bool) (newId : ℤ) : Ipc × Bool :=
  if fails .shmat then (ipc, false)
  else
    match ipc.semaphores, ipc.segment with
    | _, none => (ipc, false)
    | some set, some queue =>
        -- the values of a set found here are left as they are
        let semId := if fails .semgetStale then -1 else set.id
        ({ ipc with segment := some { queue.reset with semId := semId } }, true)
    | none, some queue =>
        if fails .semget then
          ({ ipc with segment := some { queue with semId := -1 } }, false)
        else
          let queue := { queue with semId := newId }
          if fails .semctl then
            ({ segment := some queue, semaphores := some ⟨newId, fun _ => 0⟩ }, false)
          else
            ({ segment := some queue.reset
               semaphores := some ⟨newId, ![maxQueueSize, 0, 1]⟩ }, true)

/-- `queue_init`; the second component tells whether it returns a queue. -/
def Ipc.queueInit (ipc : Ipc) (fails : SystemCall → Bool) (newId : ℤ) : Ipc × Bool :=
  match ipc.segment with
  | none =>
      if fails .shmget then (ipc, false)
      else { ipc with segment := some .zero }.attach fails newId
  | some _ =>
      -- with the stale segment still there the second `shmget` cannot succeed
      if fails .shmgetStale || fails .shmctl then (ipc, false)
      else if fails .shmgetAgain then ({ ipc with segment := none }, false)
      else { ipc with segment := some .zero }.attach fails newId

/-- What `queue_init` leaves behind when it has created the set of semaphores itself. -/
structure FreshlyInitialised (queue : Queue) (semaphores : Semaphores) : Prop where
  head_eq : queue.head = 0
  tail_eq : queue.tail = 0
  addedCount_eq : queue.addedCount = 0
  removedCount_eq : queue.removedCount = 0
  freeSlots_eq : queue.freeSlots = Int32.ofNat maxQueueSize
  semaphores_eq : semaphores = ![maxQueueSize, 0, 1]

/-- The IPC objects of an empty queue whose semaphores agree with its indices and counters. -/
def ConsistentEmpty (ipc : Ipc) : Prop :=
  ∃ queue set, ipc.segment = some queue ∧ ipc.semaphores = some set ∧ queue.semId = set.id ∧
    FreshlyInitialised queue set.values

/-- A set found under the key is opened, and its values are those of an empty queue. -/
def Ipc.SetReady (ipc : Ipc) (fails : SystemCall → Bool) : Prop :=
  ∀ set, ipc.semaphores = some set →
    fails .semgetStale = false ∧ set.values = ![maxQueueSize, 0, 1]

variable {ipc ipc' : Ipc} {fails : SystemCall → Bool} {newId : ℤ}

/-- What `queue_init` makes of a set that it finds: it opens the set and leaves its values alone. -/
theorem consistentEmpty_attach_found {set : SemaphoreSet} (found : ipc.semaphores = some set)
    (id_nonneg : 0 ≤ set.id) (returned : ipc.attach fails newId = (ipc', true)) :
    ConsistentEmpty ipc' ↔ fails .semgetStale = false ∧ set.values = ![maxQueueSize, 0, 1] := by
  unfold Ipc.attach at returned
  rw [found] at returned
  split at returned
  · simp at returned
  · cases segment : ipc.segment with
    | none => simp [segment] at returned
    | some queue =>
        simp only [segment, Prod.mk.injEq, and_true] at returned
        subst returned
        constructor
        · rintro ⟨queue', set', segment_eq, set_eq, id_eq, fresh⟩
          obtain rfl := Option.some.inj segment_eq
          obtain rfl := Option.some.inj set_eq
          refine ⟨?_, fresh.semaphores_eq⟩
          by_contra failed
          simp only [Bool.not_eq_false] at failed
          simp only [failed, if_true] at id_eq
          omega
        · rintro ⟨opened, values_eq⟩
          refine ⟨_, set, rfl, rfl, ?_, ⟨rfl, rfl, rfl, rfl, rfl, values_eq⟩⟩
          simp [opened]

/-- A set that `queue_init` creates itself has the values of an empty queue. -/
theorem consistentEmpty_attach_new (fresh : ipc.semaphores = none)
    (returned : ipc.attach fails newId = (ipc', true)) : ConsistentEmpty ipc' := by
  unfold Ipc.attach at returned
  rw [fresh] at returned
  split at returned
  · simp at returned
  · split at returned
    · simp at returned
    · next found _ => simp at found
    · split at returned
      · simp at returned
      · split at returned
        · simp at returned
        · simp only [Prod.mk.injEq, and_true] at returned
          subst returned
          exact ⟨_, _, rfl, rfl, rfl, ⟨rfl, rfl, rfl, rfl, rfl, rfl⟩⟩

/-- A `queue_init` that returns a queue has attached to a new segment. -/
theorem attach_of_queueInit (returned : ipc.queueInit fails newId = (ipc', true)) :
    Ipc.attach { ipc with segment := some .zero } fails newId = (ipc', true) := by
  unfold Ipc.queueInit at returned
  split at returned
  · split at returned
    · simp at returned
    · exact returned
  · split at returned
    · simp at returned
    · split at returned
      · simp at returned
      · exact returned

/-- A `queue_init` that creates the set of semaphores leaves an empty queue. -/
theorem freshlyInitialised_queueInit {queue : Queue} {set : SemaphoreSet}
    (fresh : ipc.semaphores = none) (returned : ipc.queueInit fails newId = (ipc', true))
    (segment : ipc'.segment = some queue) (semaphores : ipc'.semaphores = some set) :
    FreshlyInitialised queue set.values := by
  have attached := attach_of_queueInit returned
  rcases consistentEmpty_attach_new (by exact fresh) attached with
    ⟨queue', set', segment', semaphores', -, init⟩
  obtain rfl := Option.some.inj (segment.symm.trans segment')
  obtain rfl := Option.some.inj (semaphores.symm.trans semaphores')
  exact init

/-- `queue_init` returns a consistent empty queue exactly if it finds no set of semaphores, or one
that is as a new one would be. -/
theorem consistentEmpty_iff (ids : ∀ set, ipc.semaphores = some set → 0 ≤ set.id)
    (returned : ipc.queueInit fails newId = (ipc', true)) :
    ConsistentEmpty ipc' ↔ ipc.SetReady fails := by
  have attached := attach_of_queueInit returned
  cases found : ipc.semaphores with
  | some set =>
      rw [consistentEmpty_attach_found (by exact found) (ids set found) attached]
      simp only [Ipc.SetReady, found, Option.some.injEq, forall_eq']
  | none =>
      apply iff_of_true
      · exact consistentEmpty_attach_new (by exact found) attached
      · intro set present
        rw [found] at present
        contradiction

/-- What a run that was killed left: a segment and a set with these values. -/
def killed (values : Semaphores) : Ipc := ⟨some .zero, some ⟨7, values⟩⟩

/-- No message was in the queue that was left. -/
theorem consistentEmpty_killedEmpty :
    ConsistentEmpty ((killed ![10, 0, 1]).queueInit (fun _ => false) 8).1 := by
  have ids : ∀ set, (killed ![10, 0, 1]).semaphores = some set → 0 ≤ set.id := by
    intro set found
    obtain rfl := Option.some.inj found
    decide
  have returned : (killed ![10, 0, 1]).queueInit (fun _ => false) 8 =
      (((killed ![10, 0, 1]).queueInit (fun _ => false) 8).1, true) := rfl
  have ready : (killed ![10, 0, 1]).SetReady fun _ => false := by
    intro set found
    obtain rfl := Option.some.inj found
    exact ⟨rfl, rfl⟩
  exact (consistentEmpty_iff ids returned).mpr ready

/-- Three messages were in it. -/
def leftOver : Ipc := killed ![7, 3, 1]

/-- The queue is empty while semaphore 1 counts three messages. -/
theorem not_consistentEmpty_leftOver :
    (leftOver.queueInit (fun _ => false) 8).2 = true ∧
      ¬ConsistentEmpty (leftOver.queueInit (fun _ => false) 8).1 := by
  refine ⟨rfl, ?_⟩
  rintro ⟨queue, set, -, found, -, fresh⟩
  obtain rfl := Option.some.inj found
  exact absurd (congrFun fresh.semaphores_eq 1) (by decide)

end Init

end Osis.Lab04
