import Osis.Lab03.Parent
import Osis.Posix.Stream

/-!
# The command line of the parent

`main` reads a line of input into a buffer of `CAPACITY` bytes, takes the option from its
first byte and the index from its second one. The menu offers `s<ind>` and `g<ind>` for
each child, and the table grows beyond the ten children that one digit can tell apart.
-/

namespace Osis.Lab03

open Posix (Bytes newline cString takeLine decimal)

/-- `CAPACITY`, the size of the buffer for the input. -/
def inputCapacity : ℕ := 8

/-- The index in the input: the digit behind the option, or -1. -/
def indexIn (input : Bytes) : ℤ :=
  match (cString input)[1]? with
  | some byte => if 48 ≤ byte ∧ byte ≤ 57 then (byte.toNat : ℤ) - 48 else -1
  | none => -1

/-- The call that the `switch` of `main` selects; the index is passed as a `size_t`. -/
def commandOf (forked : Option Pid) (option : UInt8) (index : ℤ) : Command :=
  match Char.ofUInt8 option with
  | '+' => .create forked
  | '-' => .deleteLast
  | 'l' => .list
  | 'k' => .deleteAll
  | 's' => .stop (UInt64.ofInt index).toNat
  | 'g' => .start (UInt64.ofInt index).toNat
  | 'q' => .quit
  | _ => .invalid

/-- A round of the loop of `main`: its command and the input left, `none` at the end of the
input, where `fgets` is called again. -/
def readCommand (forked : Option Pid) (stdin : Bytes) : Option (Command × Bytes) :=
  let input := takeLine (inputCapacity - 1) stdin
  match input.head? with
  | none => none
  | some option => some (commandOf forked option (indexIn input), stdin.drop input.length)

/-- The input line for an option and an index. -/
def indexedLine (option : Char) (index : ℕ) : Bytes :=
  option.toUInt8 :: decimal index ++ [newline]

section Reading

variable {option digit : UInt8} {index : ℕ}

/-- With a digit behind the option, the digit is the index, whatever follows. -/
theorem readCommand_digit (forked : Option Pid) (rest : Bytes) (visible : option ≠ newline)
    (nonzero : option ≠ 0) (isDigit : 48 ≤ digit ∧ digit ≤ 57) :
    readCommand forked (option :: digit :: rest) =
      some (commandOf forked option (digit.toNat - 48 : ℕ),
        rest.drop (takeLine 5 rest).length) := by
  have lower : 48 ≤ digit.toNat := UInt8.le_iff_toNat_le.mp isDigit.1
  have inline : digit ≠ newline ∧ digit ≠ 0 := by
    constructor
    · rintro rfl
      exact absurd lower (by decide)
    · rintro rfl
      exact absurd lower (by decide)
  have taken : takeLine (inputCapacity - 1) (option :: digit :: rest) =
      option :: digit :: takeLine 5 rest := by
    simp [inputCapacity, takeLine, visible, inline.1]
  have index_eq : indexIn (option :: digit :: takeLine 5 rest) = (digit.toNat - 48 : ℕ) := by
    simp [indexIn, cString, nonzero, inline.2, isDigit, Int.ofNat_sub lower]
  simp only [readCommand, taken, index_eq, List.head?_cons, List.length_cons, List.drop_succ_cons]

/-- The value of a digit is passed as it is. -/
theorem toNat_ofInt_of_lt_ten (small : index < 10) : (UInt64.ofInt index).toNat = index := by
  simp only [UInt64.ofInt, UInt64.toNat_ofNat']
  omega

theorem exists_decimal_eq_cons (index : ℕ) :
    ∃ digit more, decimal index = digit :: more ∧ 48 ≤ digit ∧ digit ≤ 57 := by
  rcases List.exists_cons_of_ne_nil (Posix.decimal_ne_nil index) with ⟨digit, more, decimal_eq⟩
  exact ⟨digit, more, decimal_eq,
    Posix.isNumeral_of_mem_decimal digit (decimal_eq ▸ List.mem_cons_self)⟩

/-- The value of a digit. -/
theorem sub_lt_ten (isDigit : 48 ≤ digit ∧ digit ≤ 57) : digit.toNat - 48 < 10 := by
  have upper : digit.toNat ≤ 57 := UInt8.le_iff_toNat_le.mp isDigit.2
  omega

theorem decimal_of_lt_ten : ∀ index < 10, decimal index = [UInt8.ofNat (48 + index)] := by
  decide

/-- The command that an indexed line gives has the first digit as its index, and what `fgets`
does not take of the other digits is left. -/
theorem readCommand_indexedLine {option : Char} (forked : Option Pid) (index : ℕ) (rest : Bytes)
    (visible : option.toUInt8 ≠ newline) (nonzero : option.toUInt8 ≠ 0) :
    ∃ first more, decimal index = UInt8.ofNat (48 + first) :: more ∧ first < 10 ∧
      readCommand forked (indexedLine option index ++ rest) =
        some (commandOf forked option.toUInt8 first,
          (more ++ newline :: rest).drop (takeLine 5 (more ++ newline :: rest)).length) := by
  rcases exists_decimal_eq_cons index with ⟨digit, more, decimal_eq, isDigit⟩
  have lower : 48 ≤ digit.toNat := UInt8.le_iff_toNat_le.mp isDigit.1
  have digit_eq : UInt8.ofNat (48 + (digit.toNat - 48)) = digit := by
    rw [Nat.add_sub_cancel' lower, UInt8.ofNat_toNat]
  refine ⟨digit.toNat - 48, more, ?_, sub_lt_ten isDigit, ?_⟩
  · rw [digit_eq, decimal_eq]
  · have line_eq : indexedLine option index ++ rest =
        option.toUInt8 :: digit :: (more ++ newline :: rest) := by
      simp [indexedLine, decimal_eq]
    rw [line_eq]
    exact readCommand_digit forked _ visible nonzero isDigit

end Reading

section Indices

variable (forked : Option Pid) (index : ℕ) (rest : Bytes)

/-- An option that passes the index on gets the index of its line exactly if it has one digit. -/
theorem readCommand_indexedLine_iff {option : Char} {command : ℕ → Command}
    (visible : option.toUInt8 ≠ newline) (nonzero : option.toUInt8 ≠ 0)
    (passes : ∀ index : ℤ, commandOf forked option.toUInt8 index =
      command (UInt64.ofInt index).toNat)
    (injective : ∀ index index', command index = command index' → index = index') :
    readCommand forked (indexedLine option index ++ rest) = some (command index, rest) ↔
      index < 10 := by
  rcases readCommand_indexedLine forked index rest visible nonzero with
    ⟨first, more, decimal_eq, first_lt, read⟩
  rw [read, passes, toNat_ofInt_of_lt_ten first_lt, Option.some.injEq, Prod.mk.injEq]
  constructor
  · rintro ⟨same, _⟩
    rw [← injective _ _ same]
    exact first_lt
  · intro small
    rw [decimal_of_lt_ten index small, List.cons.injEq] at decimal_eq
    have same : 48 + index = 48 + first := by
      have bytes_eq := congrArg UInt8.toNat decimal_eq.1
      simp only [UInt8.toNat_ofNat'] at bytes_eq
      omega
    rw [← decimal_eq.2, Nat.add_left_cancel same]
    exact ⟨rfl, rfl⟩

/-- `s<ind>` and `g<ind>` reach the child of their index and use up their line exactly if the
index has one digit. -/
theorem readCommand_index_iff :
    (readCommand forked (indexedLine 's' index ++ rest) = some (.stop index, rest) ↔
        index < 10) ∧
      (readCommand forked (indexedLine 'g' index ++ rest) = some (.start index, rest) ↔
        index < 10) := by
  constructor
  · apply readCommand_indexedLine_iff forked index rest (by decide) (by decide)
    · intro number
      rfl
    · intro number number' same
      exact Command.stop.inj same
  · apply readCommand_indexedLine_iff forked index rest (by decide) (by decide)
    · intro number
      rfl
    · intro number number' same
      exact Command.start.inj same

end Indices

/-- With eleven children, `s10` stops the child at index 1. -/
theorem not_readCommand_index :
    ¬∀ size index forked rest, index < size →
      readCommand forked (indexedLine 's' index ++ rest) = some (.stop index, rest) := by
  intro reaches
  exact absurd (reaches 11 10 none [] (by decide)) (by decide)

end Osis.Lab03
