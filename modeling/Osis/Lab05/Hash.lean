import Osis.Lab04.Queue
import Osis.Memory.ByteSum

/-!
# The checksum of a message (`calculate_hash` of labs 4 and 5)

A producer puts the sum of the bytes of a message into its `hash`, and the consumer compares.
The three queues have their own copies of the function, over messages of the same fields. A
message has at most 257 summands, the most that a 16-bit accumulator adds up exactly, so a
change of one of them always shows.
-/

namespace Osis.Lab05

open Memory
open Lab04 (Message)

/-- The loop of `calculate_hash` in both variants of the lab, from `i` on. -/
def addData (msg : Message) (h : UInt16) (i : ℕ) : UInt16 :=
  if more : i < msg.size.toNat then
    let byte := msg.data ⟨i, more.trans (msg.size.toNat_lt.trans (by decide))⟩
    addData msg (h + byte.toUInt16) (i + 1)
  else h
termination_by msg.size.toNat - i

/-- `calculate_hash` of `5.1/queue.c`. -/
def SemQueue.calculateHash (msg : Message) : UInt16 :=
  addData msg (0 + msg.type.toUInt16 + msg.size.toUInt16) 0

/-- `calculate_hash` of `5.2/queue.c`. -/
def CondQueue.calculateHash (msg : Message) : UInt16 :=
  addData msg (0 + msg.type.toUInt16 + msg.size.toUInt16) 0

/-- What `calculate_hash` adds to the accumulator, in order. -/
def summands (msg : Message) : List UInt8 := msg.type :: msg.size :: msg.body

/-- The accumulator after some additions. -/
def accumulator (msg : Message) (additions : ℕ) : UInt16 :=
  addBytes 0 ((summands msg).take additions)

/-- Another message that differs in its type, in one of the bytes that are summed up, or in its
size over the same data. -/
inductive SingleChange (msg : Message) : Message → Prop where
  | type (type : UInt8) (changed : type ≠ msg.type) : SingleChange msg { msg with type := type }
  | byte (index : Fin 260) (byte : UInt8) (summed : index < msg.size.toNat)
      (changed : byte ≠ msg.data index) :
      SingleChange msg { msg with data := Function.update msg.data index byte }
  | size (size : UInt8) (changed : size ≠ msg.size) : SingleChange msg { msg with size := size }

/-- What a checksum over messages is for. -/
structure IsChecksum (calculateHash : Message → UInt16) : Prop where
  accumulates : ∀ msg, calculateHash msg = accumulator msg (summands msg).length
  /-- No addition wraps. -/
  unwrapped : ∀ msg additions,
    (accumulator msg additions).toNat = byteSum ((summands msg).take additions)
  exact : ∀ msg,
    (calculateHash msg).toNat = msg.type.toNat + msg.size.toNat + byteSum msg.body
  detects : ∀ msg msg', SingleChange msg msg' → calculateHash msg ≠ calculateHash msg'

section Body

variable {msg : Message}

@[simp]
theorem length_body (msg : Message) : msg.body.length = msg.size.toNat := by
  simp [Message.body]

theorem getElem_body {index : ℕ} (inside : index < msg.body.length) :
    msg.body[index] =
      msg.data ⟨index, by
        rw [length_body] at inside
        exact inside.trans (msg.size.toNat_lt.trans (by decide))⟩ := by
  simp [Message.body]

theorem body_eq_take (msg : Message) : msg.body = (List.ofFn msg.data).take msg.size.toNat := by
  have size_lt := msg.size.toNat_lt
  apply List.ext_getElem
  · rw [length_body, List.length_take, List.length_ofFn]
    omega
  · intro index inside _
    rw [getElem_body inside, List.getElem_take, List.getElem_ofFn]

/-- The loop adds what is left of the body. -/
theorem addData_eq (h : UInt16) (i : ℕ) : addData msg h i = addBytes h (msg.body.drop i) := by
  induction h, i using addData.induct msg with
  | case1 h i more byte ih =>
      have inside : i < msg.body.length := by rwa [length_body]
      rw [addData, dif_pos more, List.drop_eq_getElem_cons inside, getElem_body inside]
      exact ih
  | case2 h i done =>
      have used_up : msg.body.drop i = [] := List.drop_eq_nil_of_le (by
        rw [length_body]
        exact Nat.le_of_not_lt done)
      rw [addData, dif_neg done, used_up]
      rfl

end Body

section Summands

variable {msg : Message} {additions : ℕ}

/-- The summands fit exactly: 257 bytes add up to 65535 at most. -/
theorem byteSum_summands_lt (msg : Message) : byteSum (summands msg) < UInt16.size := by
  have length_eq : (summands msg).length = msg.size.toNat + 2 := by simp [summands]
  have size_lt := msg.size.toNat_lt
  calc byteSum (summands msg) ≤ 255 * (summands msg).length := byteSum_le _
    _ ≤ 255 * 257 := by omega
    _ < UInt16.size := by decide

theorem toNat_accumulator (msg : Message) (additions : ℕ) :
    (accumulator msg additions).toNat = byteSum ((summands msg).take additions) := by
  have part_le := byteSum_le_of_prefix (List.take_prefix additions (summands msg))
  have fits := Nat.lt_of_le_of_lt part_le (byteSum_summands_lt msg)
  rw [accumulator, toNat_addBytes]
  · exact Nat.zero_add _
  · rw [UInt16.toNat_zero, Nat.zero_add]
    exact fits

theorem byteSum_summands (msg : Message) :
    byteSum (summands msg) = msg.type.toNat + msg.size.toNat + byteSum msg.body := by
  rw [summands, byteSum_cons, byteSum_cons, Nat.add_assoc]

theorem body_update (index : Fin 260) (byte : UInt8) :
    Message.body { msg with data := Function.update msg.data index byte } =
      msg.body.set index byte := by
  apply List.ext_getElem
  · rw [List.length_set, length_body, length_body]
  · intro slot inside _
    rw [getElem_body inside, List.getElem_set]
    by_cases same : (index : ℕ) = slot
    · have index_eq : index = ⟨slot, same ▸ index.isLt⟩ := Fin.ext same
      rw [if_pos same, ← index_eq]
      exact Function.update_self _ _ _
    · rw [if_neg same, getElem_body]
      apply Function.update_of_ne
      intro slot_eq
      exact same (congrArg Fin.val slot_eq).symm

/-- Every single change changes the sum. -/
theorem SingleChange.byteSum_ne {msg' : Message} (change : SingleChange msg msg') :
    byteSum (summands msg) ≠ byteSum (summands msg') := by
  rw [byteSum_summands, byteSum_summands]
  cases change with
  | type type changed =>
      have differs : type.toNat ≠ msg.type.toNat := fun same => changed (UInt8.toNat_inj.mp same)
      change msg.type.toNat + msg.size.toNat + byteSum msg.body ≠
        type.toNat + msg.size.toNat + byteSum msg.body
      omega
  | byte index byte summed changed =>
      have inside : (index : ℕ) < msg.body.length := by rwa [length_body]
      have sum_eq := byteSum_set inside byte
      have differs : byte.toNat ≠ msg.body[(index : ℕ)].toNat := by
        intro same
        rw [getElem_body inside] at same
        exact changed (UInt8.toNat_inj.mp same)
      rw [body_update]
      change msg.type.toNat + msg.size.toNat + byteSum msg.body ≠
        msg.type.toNat + msg.size.toNat + byteSum (msg.body.set index byte)
      omega
  | size size changed =>
      -- the smaller size sums up a start of what the larger one does
      let msg' : Message := { msg with size := size }
      have grows : ∀ small large : Message, small.data = large.data →
          small.size.toNat ≤ large.size.toNat → byteSum small.body ≤ byteSum large.body := by
        intro small large same_data size_le
        rw [body_eq_take, body_eq_take, same_data]
        exact byteSum_le_of_prefix (List.take_prefix_take_left size_le)
      have differs : size.toNat ≠ msg.size.toNat := fun same => changed (UInt8.toNat_inj.mp same)
      change msg.type.toNat + msg.size.toNat + byteSum msg.body ≠
        msg.type.toNat + size.toNat + byteSum msg'.body
      rcases Nat.lt_or_gt_of_ne differs with shorter | longer
      · have sum_le := grows msg' msg rfl (Nat.le_of_lt shorter)
        omega
      · have sum_le := grows msg msg' rfl (Nat.le_of_lt longer)
        omega

/-- Whatever adds up the summands is a checksum. -/
theorem isChecksum_of_accumulates {calculateHash : Message → UInt16}
    (accumulates : ∀ msg, calculateHash msg = accumulator msg (summands msg).length) :
    IsChecksum calculateHash := by
  have sums : ∀ msg, (calculateHash msg).toNat = byteSum (summands msg) := by
    intro msg
    rw [accumulates, toNat_accumulator, List.take_length]
  refine ⟨accumulates, toNat_accumulator, ?_, ?_⟩
  · intro msg
    rw [sums, byteSum_summands]
  · intro msg msg' change same
    apply change.byteSum_ne
    rw [← sums, ← sums, same]

theorem accumulator_length (msg : Message) :
    accumulator msg (summands msg).length =
      addBytes (0 + msg.type.toUInt16 + msg.size.toUInt16) msg.body := by
  rw [accumulator, List.take_length]
  rfl

end Summands

/-- The three copies of `calculate_hash` never wrap, are exact and detect every single change. -/
theorem isChecksum_calculateHash :
    IsChecksum Message.calculateHash ∧ IsChecksum SemQueue.calculateHash ∧
      IsChecksum CondQueue.calculateHash := by
  refine ⟨isChecksum_of_accumulates ?_, isChecksum_of_accumulates ?_,
    isChecksum_of_accumulates ?_⟩
  · intro msg
    rw [accumulator_length]
    rfl
  · intro msg
    rw [accumulator_length]
    exact addData_eq _ 0
  · intro msg
    rw [accumulator_length]
    exact addData_eq _ 0

end Osis.Lab05
