import Osis.Lab07.Commands
import Osis.Posix.Stream

/-!
# What the prompts of `cmd_put` make of a record

The prompts for the texts read straight into the record, so that a bare Enter
empties a field instead of skipping it. A line that does not fit stays in `stdin`
from its 80th byte on and is the answer to the next prompt.
-/

namespace Osis.Lab07

open Concurrency Posix

universe u

/-- The lines typed at the three prompts; a bare Enter is an empty line. -/
structure Answers where
  name : Bytes
  address : Bytes
  semester : Bytes
  name_unbroken : newline ∉ name
  address_unbroken : newline ∉ address
  semester_unbroken : newline ∉ semester

/-- Lines as they stand in `stdin`. -/
def typed (lines : List Bytes) (rest : Bytes) : Bytes :=
  lines.foldr (fun line rest => line ++ newline :: rest) rest

/-- `stdin` with the three answers in front. -/
def Answers.stdin (answers : Answers) (rest : Bytes) : Bytes :=
  typed [answers.name, answers.address, answers.semester] rest

/-- The record that `cmd_put` compares with the file and writes, `none` if nothing changed. -/
def putRecord (orig buf stdin : Bytes) : Option Bytes :=
  let work := editRecord orig buf stdin
  if orig = work then none else some work

/-- The bytes of the text field at an offset. -/
def field (record : Bytes) (offset : ℕ) : Bytes := (record.drop offset).take fieldSize

/-- The text in the field at an offset. -/
def fieldText (record : Bytes) (offset : ℕ) : Bytes := cString (field record offset)

/-- Skipped fields keep their values in what `cmd_put` writes, and with nothing but skipped fields
it writes nothing. -/
structure SkipsKept (orig buf : Bytes) (answers : Answers) (rest : Bytes) : Prop where
  name : ∀ work, putRecord orig buf (answers.stdin rest) = some work → answers.name = [] →
    fieldText work 0 = fieldText orig 0
  address : ∀ work, putRecord orig buf (answers.stdin rest) = some work → answers.address = [] →
    fieldText work fieldSize = fieldText orig fieldSize
  semester : ∀ work, putRecord orig buf (answers.stdin rest) = some work →
    answers.semester = [] → work[semesterOffset]? = orig[semesterOffset]?
  unchanged : answers.name = [] → answers.address = [] → answers.semester = [] →
    putRecord orig buf (answers.stdin rest) = none

/-- The edited record has the answers, cut to the sizes of their fields. -/
structure EditsOwn (orig buf : Bytes) (answers : Answers) (rest : Bytes) (number : UInt8) :
    Prop where
  name : fieldText (editRecord orig buf (answers.stdin rest)) 0 = answers.name.take 79
  address : fieldText (editRecord orig buf (answers.stdin rest)) fieldSize =
    answers.address.take 79
  semester : (editRecord orig buf (answers.stdin rest))[semesterOffset]? = some number

section Process

variable {Process : Type u} [DecidableEq Process] {state : State Process} {process : Process}

/-- After the prompts a `PUT` ends or goes on with the record it is to write. -/
theorem next_edit {recNo : ℕ} {orig : Bytes} (waits : state.points process = .putEdit recNo orig)
    (buf stdin : Bytes) :
    next state (.edit process buf stdin) = some (state.move process
      (match putRecord orig buf stdin with
      | none => .idle
      | some work => .putLock recNo orig work)) := by
  simp only [next, waits, putRecord]
  split <;> simp [*]

end Process

/-- Either nothing changed or the edited record is written. -/
theorem putRecord_cases (orig buf stdin : Bytes) :
    putRecord orig buf stdin = none ∧ editRecord orig buf stdin = orig ∨
      putRecord orig buf stdin = some (editRecord orig buf stdin) := by
  by_cases same : orig = editRecord orig buf stdin
  · exact Or.inl ⟨if_pos same, same.symm⟩
  · exact Or.inr (if_neg same)

theorem putRecord_eq_some {orig buf stdin work : Bytes}
    (written : putRecord orig buf stdin = some work) : editRecord orig buf stdin = work := by
  rcases putRecord_cases orig buf stdin with ⟨nothing, -⟩ | something
  · rw [nothing] at written
    contradiction
  · rw [something] at written
    exact Option.some.inj written

section Prompts

variable {buffer line rest bytes tail : Bytes} {position size : ℕ}

/-- What a prompt for a text leaves at the start of its field. -/
def answered (line : Bytes) : Bytes :=
  cutAtNewline (takeLine 79 (line ++ [newline]) ++ [0]) 0

/-- The lines left in `stdin` when `fgets` has taken at most `limit` bytes of the first one. -/
def consume (limit : ℕ) : List Bytes → List Bytes
  | [] => []
  | line :: lines => if line.length < limit then lines else line.drop limit :: lines

theorem cutAtNewline_cons {byte : UInt8} (plain : inLine byte = true) (bytes : Bytes) :
    cutAtNewline (byte :: bytes) 0 = byte :: cutAtNewline bytes 0 := by
  have different : (decide (byte = newline) || decide (byte = 0)) = false := by
    simpa [inLine] using plain
  simp only [cutAtNewline, List.drop_zero, List.findIdx?_cons, different, Nat.zero_add]
  cases bytes.findIdx? fun byte => decide (byte = newline) || decide (byte = 0) <;> rfl

/-- What is read from a cut text is its first line. -/
theorem cString_cutAtNewline (ends : 0 ∈ bytes) (tail : Bytes) :
    cString (cutAtNewline bytes 0 ++ tail) = firstLine bytes := by
  induction bytes with
  | nil => simp at ends
  | cons byte bytes ih =>
      by_cases plain : inLine byte = true
      · have notNul : byte ≠ 0 := by
          simp only [inLine, Bool.and_eq_true, decide_eq_true_eq] at plain
          exact plain.2
        have ends : 0 ∈ bytes := (List.mem_cons.mp ends).resolve_left (Ne.symm notNul)
        have read := ih ends
        rw [cutAtNewline_cons plain]
        simp only [cString, firstLine] at read
        simpa [cString, firstLine, plain, notNul] using read
      · have special : (decide (byte = newline) || decide (byte = 0)) = true := by
          simpa [inLine, or_iff_not_imp_left] using plain
        simp [cutAtNewline, List.findIdx?_cons, special, cString, firstLine, plain]

/-- Cutting a text in a buffer changes no more than the text. -/
theorem cutAtNewline_store (position_le : position ≤ buffer.length) (ends : 0 ∈ bytes) :
    cutAtNewline (store buffer position bytes) position =
      store buffer position (cutAtNewline bytes 0) := by
  have before : (buffer.take position).length = position := List.length_take_of_le position_le
  have found : ∃ index, bytes.findIdx? (fun byte => byte = newline || byte = 0) = some index := by
    apply Option.isSome_iff_exists.mp
    rw [List.findIdx?_isSome, List.any_eq_true]
    exact ⟨0, ends, by decide⟩
  rcases found with ⟨index, found⟩
  have inside : index < bytes.length := (List.findIdx?_eq_some_iff_getElem.mp found).1
  have behind : (store buffer position bytes).drop position =
      bytes ++ buffer.drop (position + bytes.length) := by
    rw [store, List.append_assoc, List.drop_left' before]
  simp only [cutAtNewline, behind, List.findIdx?_append, found, List.drop_zero, Option.some_or,
    Nat.zero_add]
  rw [store, store, List.length_set, List.append_assoc, List.append_assoc,
    List.set_append_right _ _ (by omega), before, Nat.add_sub_cancel_left,
    List.set_append_left _ _ inside]

/-- The first line that `fgets` gets does not depend on the lines behind it. -/
theorem takeLine_typed {limit : ℕ} (unbroken : newline ∉ line) (lines : List Bytes) :
    takeLine limit (typed (line :: lines) rest) = takeLine limit (line ++ [newline]) := by
  show takeLine limit (line ++ newline :: typed lines rest) = _
  rw [takeLine_line _ unbroken, takeLine_line _ unbroken]

/-- What `fgets` makes of a buffer and leaves of the typed lines. -/
theorem fgets_typed (room : 1 < size) (unbroken : newline ∉ line) (lines : List Bytes) :
    fgets buffer position size (typed (line :: lines) rest) =
      (store buffer position (takeLine (size - 1) (line ++ [newline]) ++ [0]),
        typed (consume (size - 1) (line :: lines)) rest) := by
  have taken : takeLine (size - 1) (line ++ [newline]) ≠ [] :=
    takeLine_ne_nil (by omega) (by simp)
  simp only [fgets, takeLine_typed unbroken, taken, if_false, Prod.mk.injEq, true_and, consume]
  rw [takeLine_line _ unbroken]
  split
  · show (line ++ newline :: typed lines rest).drop (line ++ [newline]).length = typed lines rest
    have whole : line ++ newline :: typed lines rest = (line ++ [newline]) ++ typed lines rest := by
      simp
    rw [whole, List.drop_left]
  · show (line ++ newline :: typed lines rest).drop (line.take (size - 1)).length =
      line.drop (size - 1) ++ newline :: typed lines rest
    rw [List.length_take_of_le (by omega), List.drop_append_of_le_length (by omega)]

theorem length_answered_le (line : Bytes) : (answered line).length ≤ fieldSize := by
  have bounded := length_takeLine_le 79 (line ++ [newline])
  rw [answered, length_cutAtNewline, List.length_append]
  exact Nat.succ_le_succ bounded

/-- In a single line only a NUL ends a text. -/
theorem firstLine_eq_cString (unbroken : newline ∉ line) : firstLine line = cString line := by
  induction line with
  | nil => rfl
  | cons byte line ih =>
      simp only [List.mem_cons, not_or] at unbroken
      have same := ih unbroken.2
      have kept : inLine byte = decide (byte ≠ 0) := by simp [inLine, Ne.symm unbroken.1]
      simp only [firstLine, cString, List.takeWhile_cons, kept] at same ⊢
      rw [same]

/-- The text that a prompt leaves in its field. -/
theorem cString_answered (unbroken : newline ∉ line) (tail : Bytes) :
    cString (answered line ++ tail) = (cString line).take 79 := by
  have closed : ∀ piece : Bytes, firstLine (piece ++ [0]) = firstLine piece := by
    intro piece
    induction piece with
    | nil => rfl
    | cons byte piece ih =>
        simp only [firstLine, List.cons_append, List.takeWhile_cons] at ih ⊢
        rw [ih]
  rw [answered, cString_cutAtNewline (by simp), closed, firstLine_takeLine,
    firstLine_append_newline, firstLine_eq_cString unbroken]

/-- A prompt for a text field stores the answer in it. -/
theorem cutAtNewline_fgets (position_le : position ≤ buffer.length) (unbroken : newline ∉ line)
    (lines : List Bytes) :
    cutAtNewline (fgets buffer position fieldSize (typed (line :: lines) rest)).1 position =
      store buffer position (answered line) := by
  rw [fgets_typed (by decide) unbroken]
  exact cutAtNewline_store position_le (by simp)

/-- The third prompt tells a bare Enter by the first byte of its buffer. -/
theorem head?_answer (unbroken : newline ∉ line) :
    (store buffer 0 (takeLine 15 (line ++ [newline]) ++ [0])).head? = some newline ↔
      line = [] := by
  cases line with
  | nil => simp [store, takeLine]
  | cons byte line =>
      simp only [List.mem_cons, not_or] at unbroken
      simp [store, takeLine, Ne.symm unbroken.1]

/-- The number that `atoi` finds in the buffer of the third prompt. -/
theorem atoi_answer (unbroken : newline ∉ line) :
    atoi (store buffer 0 (takeLine 15 (line ++ [newline]) ++ [0])) = atoi (line.take 15) := by
  have nul : ∀ tail : Bytes, ∀ byte ∈ ((0 :: tail).dropWhile isSpace).head?,
      ¬IsDigit byte ∧ byte ≠ 45 ∧ byte ≠ 43 := by
    intro tail byte byte_eq
    obtain rfl : 0 = byte := Option.some.inj byte_eq
    decide
  rw [store, takeLine_line _ unbroken, List.take_zero, List.nil_append]
  split
  · rw [List.append_assoc, List.append_assoc, List.take_of_length_le (by omega)]
    apply atoi_append
    · intro byte byte_eq
      obtain rfl : newline = byte := Option.some.inj byte_eq
      decide
    · exact nul _
  · rw [List.append_assoc]
    apply atoi_append
    · intro byte byte_eq
      obtain rfl : 0 = byte := Option.some.inj byte_eq
      decide
    · exact nul _

end Prompts

section Edited

variable {orig buf rest first second third : Bytes} {lines left : List Bytes}

/-- The record after the three prompts, given the lines they get. -/
def edited (orig first second third : Bytes) : Bytes :=
  let work := store (store orig 0 (answered first)) fieldSize (answered second)
  if third = [] then work
  else work.set semesterOffset (UInt8.ofNat (atoi (third.take 15) % 256).toNat)

theorem editRecord_typed (length_eq : orig.length = recordSize) (first_unbroken : newline ∉ first)
    (second_unbroken : newline ∉ second) (third_unbroken : newline ∉ third)
    (afterFirst : consume 79 (first :: lines) = second :: left)
    {final : List Bytes} (afterSecond : consume 79 (second :: left) = third :: final) :
    editRecord orig buf (typed (first :: lines) rest) = edited orig first second third := by
  have named_length : (store orig 0 (answered first)).length = recordSize := by
    have short := length_answered_le first
    rw [length_store, length_eq]
    rw [length_eq, Nat.zero_add]
    exact short.trans (by decide)
  have address_inside : fieldSize ≤ (store orig 0 (answered first)).length := by
    rw [named_length]
    decide
  have stdinFirst : (fgets orig 0 fieldSize (typed (first :: lines) rest)).2 =
      typed (second :: left) rest := by
    rw [fgets_typed (by decide) first_unbroken]
    exact congrArg (typed · rest) afterFirst
  have stdinSecond : ∀ buffer, (fgets buffer fieldSize fieldSize (typed (second :: left) rest)).2 =
      typed (third :: final) rest := by
    intro buffer
    rw [fgets_typed (by decide) second_unbroken]
    exact congrArg (typed · rest) afterSecond
  simp only [editRecord, cutAtNewline_fgets (Nat.zero_le _) first_unbroken, stdinFirst,
    cutAtNewline_fgets address_inside second_unbroken, stdinSecond,
    fgets_typed (show 1 < 16 by decide) third_unbroken, edited]
  simp only [Nat.reduceSub, ne_eq, head?_answer third_unbroken, atoi_answer third_unbroken, ite_not]

/-- A byte outside of what is stored stays. -/
theorem getElem?_store_of_outside {buffer bytes : Bytes} {position index : ℕ}
    (inside : position + bytes.length ≤ buffer.length)
    (outside : index < position ∨ position + bytes.length ≤ index) :
    (store buffer position bytes)[index]? = buffer[index]? := by
  simp only [store, List.getElem?_append, List.length_append, List.length_take,
    List.getElem?_take, List.getElem?_drop]
  rcases outside with before | behind
  · rw [if_pos (by omega), if_pos (by omega), if_pos before]
  · rw [if_neg (by omega)]
    congr 1
    omega

/-- A field does not see bytes stored outside of it. -/
theorem field_store_of_disjoint {buffer bytes : Bytes} {position offset : ℕ}
    (inside : position + bytes.length ≤ buffer.length)
    (disjoint : offset + fieldSize ≤ position ∨ position + bytes.length ≤ offset) :
    field (store buffer position bytes) offset = field buffer offset := by
  apply List.ext_getElem?
  intro index
  simp only [field, List.getElem?_take, List.getElem?_drop]
  split
  · rw [getElem?_store_of_outside inside (by omega)]
  · rfl

/-- The text in a field after a prompt. -/
theorem fieldText_store {buffer line : Bytes} {position : ℕ} (unbroken : newline ∉ line)
    (position_le : position ≤ buffer.length) :
    fieldText (store buffer position (answered line)) position = (cString line).take 79 := by
  have before : (buffer.take position).length = position := List.length_take_of_le position_le
  rw [fieldText, field, store, List.append_assoc, List.drop_left' before, List.take_append,
    List.take_of_length_le (length_answered_le line), cString_answered unbroken]

theorem field_set {record : Bytes} {offset : ℕ} (inside : offset + fieldSize ≤ semesterOffset)
    (byte : UInt8) : field (record.set semesterOffset byte) offset = field record offset := by
  apply List.ext_getElem?
  intro index
  simp only [field, List.getElem?_take, List.getElem?_drop]
  split
  · rw [List.getElem?_set_ne (by omega)]
  · rfl

theorem answered_inside {buffer : Bytes} {position : ℕ} (line : Bytes)
    (room : position + fieldSize ≤ buffer.length) :
    position + (answered line).length ≤ buffer.length :=
  (Nat.add_le_add_left (length_answered_le line) position).trans room

theorem length_store_first (length_eq : orig.length = recordSize) :
    (store orig 0 (answered first)).length = recordSize := by
  have room : 0 + fieldSize ≤ orig.length := by
    rw [length_eq]
    decide
  rw [length_store (answered_inside first room), length_eq]

/-- The answer at the second prompt fits behind the first field. -/
theorem second_inside (length_eq : orig.length = recordSize) (first second : Bytes) :
    fieldSize + (answered second).length ≤ (store orig 0 (answered first)).length := by
  apply answered_inside
  rw [length_store_first length_eq]
  decide

theorem name_edited (length_eq : orig.length = recordSize) (unbroken : newline ∉ first) :
    fieldText (edited orig first second third) 0 = (cString first).take 79 := by
  have before : 0 + fieldSize ≤ fieldSize := Nat.le_of_eq (Nat.zero_add _)
  have named : fieldText (store (store orig 0 (answered first)) fieldSize (answered second)) 0 =
      (cString first).take 79 := by
    rw [fieldText, field_store_of_disjoint (second_inside length_eq _ _) (Or.inl before)]
    exact fieldText_store unbroken (Nat.zero_le _)
  unfold edited
  split
  · exact named
  · rw [fieldText, field_set (by decide)]
    exact named

theorem address_edited (length_eq : orig.length = recordSize) (unbroken : newline ∉ second) :
    fieldText (edited orig first second third) fieldSize = (cString second).take 79 := by
  have position_le : fieldSize ≤ (store orig 0 (answered first)).length :=
    (Nat.le_add_right _ _).trans (second_inside length_eq first second)
  have addressed : fieldText (store (store orig 0 (answered first)) fieldSize (answered second))
      fieldSize = (cString second).take 79 := fieldText_store unbroken position_le
  unfold edited
  split
  · exact addressed
  · rw [fieldText, field_set (by decide)]
    exact addressed

/-- The semester stays as it is or is the number of the third answer. -/
theorem semester_edited (length_eq : orig.length = recordSize) :
    (edited orig first second third)[semesterOffset]? =
      if third = [] then orig[semesterOffset]?
      else some (UInt8.ofNat (atoi (third.take 15) % 256).toNat) := by
  have bounded := second_inside length_eq first second
  have start : 0 + (answered first).length ≤ orig.length := by
    apply answered_inside
    rw [length_eq]
    decide
  have behindFirst : 0 + (answered first).length ≤ semesterOffset :=
    (Nat.zero_add _).trans_le ((length_answered_le first).trans (by decide))
  have behindSecond : fieldSize + (answered second).length ≤ semesterOffset :=
    Nat.add_le_add_left (length_answered_le second) fieldSize
  unfold edited
  split
  · rw [getElem?_store_of_outside bounded (Or.inr behindSecond),
      getElem?_store_of_outside start (Or.inr behindFirst)]
  · apply List.getElem?_set_self
    rw [length_store bounded, length_store start, length_eq]
    decide

end Edited

section Skipping

variable {orig buf rest : Bytes} {answers : Answers}

/-- With short answers each prompt gets its own line. -/
theorem editRecord_short (length_eq : orig.length = recordSize)
    (short_name : answers.name.length < 79) (short_address : answers.address.length < 79) :
    editRecord orig buf (answers.stdin rest) =
      edited orig answers.name answers.address answers.semester :=
  editRecord_typed length_eq answers.name_unbroken answers.address_unbroken
    answers.semester_unbroken (if_pos short_name) (if_pos short_address)

theorem store_of_startsWith {buffer bytes : Bytes} {position : ℕ}
    (present : bytes <+: buffer.drop position) : store buffer position bytes = buffer := by
  rcases present with ⟨behind, behind_eq⟩
  rw [store, ← List.drop_drop, ← behind_eq, List.drop_left, List.append_assoc, behind_eq,
    List.take_append_drop]

/-- The text fields both begin with two zeros. -/
def Blank (record : Bytes) : Prop :=
  [0, 0] <+: field record 0 ∧ [0, 0] <+: field record fieldSize

/-- What is stored at the start of a field is read there. -/
theorem stored_field {buffer bytes : Bytes} {position : ℕ} (position_le : position ≤ buffer.length)
    (short : bytes.length ≤ fieldSize) :
    bytes <+: field (store buffer position bytes) position := by
  have before : (buffer.take position).length = position := List.length_take_of_le position_le
  rw [field, store, List.append_assoc, List.drop_left' before, List.take_append,
    List.take_of_length_le short]
  exact List.prefix_append _ _

theorem answered_nil : answered [] = [0, 0] := by decide

/-- Skipping everything changes nothing exactly in a record whose text fields are blank. -/
theorem edited_nil_iff (length_eq : orig.length = recordSize) :
    edited orig [] [] [] = orig ↔ Blank orig := by
  have address_inside := second_inside length_eq [] []
  rw [answered_nil] at address_inside
  simp only [edited, if_true, answered_nil]
  constructor
  · intro unchanged
    have short : ([0, 0] : Bytes).length ≤ fieldSize := by decide
    have before : 0 + fieldSize ≤ fieldSize := Nat.le_of_eq (Nat.zero_add _)
    constructor
    · have name_zeros := stored_field (Nat.zero_le orig.length) short
      rw [← field_store_of_disjoint address_inside (Or.inl before), unchanged] at name_zeros
      exact name_zeros
    · have address_zeros := stored_field ((Nat.le_add_right _ _).trans address_inside) short
      rw [unchanged] at address_zeros
      exact address_zeros
  · intro blank
    have name_zeros : [0, 0] <+: orig.drop 0 := blank.1.trans (List.take_prefix _ _)
    have address_zeros : [0, 0] <+: orig.drop fieldSize := blank.2.trans (List.take_prefix _ _)
    rw [store_of_startsWith name_zeros, store_of_startsWith address_zeros]

/-- Short answers keep the skipped fields exactly if the skipped text fields were empty before. -/
theorem skipsKept_iff (length_eq : orig.length = recordSize)
    (short_name : answers.name.length < 79) (short_address : answers.address.length < 79) :
    SkipsKept orig buf answers rest ↔
      (answers.name = [] → fieldText orig 0 = []) ∧
        (answers.address = [] → fieldText orig fieldSize = []) ∧
          (answers.name = [] → answers.address = [] → answers.semester = [] → Blank orig) := by
  have work_eq : editRecord orig buf (answers.stdin rest) =
      edited orig answers.name answers.address answers.semester :=
    editRecord_short length_eq short_name short_address
  have name_eq : fieldText (editRecord orig buf (answers.stdin rest)) 0 =
      (cString answers.name).take 79 := work_eq ▸ name_edited length_eq answers.name_unbroken
  have address_eq : fieldText (editRecord orig buf (answers.stdin rest)) fieldSize =
      (cString answers.address).take 79 :=
    work_eq ▸ address_edited length_eq answers.address_unbroken
  constructor
  · intro kept
    refine ⟨fun skipped => ?_, fun skipped => ?_, fun name_nil address_nil semester_nil => ?_⟩
    · have emptied : fieldText (editRecord orig buf (answers.stdin rest)) 0 = [] := by
        rw [name_eq, skipped]
        rfl
      rcases putRecord_cases orig buf (answers.stdin rest) with ⟨-, same⟩ | written
      · rwa [same] at emptied
      · rw [← kept.name _ written skipped, emptied]
    · have emptied : fieldText (editRecord orig buf (answers.stdin rest)) fieldSize = [] := by
        rw [address_eq, skipped]
        rfl
      rcases putRecord_cases orig buf (answers.stdin rest) with ⟨-, same⟩ | written
      · rwa [same] at emptied
      · rw [← kept.address _ written skipped, emptied]
    · have nothing := kept.unchanged name_nil address_nil semester_nil
      rcases putRecord_cases orig buf (answers.stdin rest) with ⟨-, same⟩ | written
      · rw [work_eq, name_nil, address_nil, semester_nil] at same
        exact (edited_nil_iff length_eq).mp same
      · rw [nothing] at written
        contradiction
  · intro empty
    rcases empty with ⟨name_empty, address_empty, blank⟩
    refine ⟨fun work written skipped => ?_, fun work written skipped => ?_,
      fun work written skipped => ?_, fun name_nil address_nil semester_nil => ?_⟩
    · rw [← putRecord_eq_some written, name_eq, name_empty skipped, skipped]
      rfl
    · rw [← putRecord_eq_some written, address_eq, address_empty skipped, skipped]
      rfl
    · rw [← putRecord_eq_some written, work_eq, semester_edited length_eq, if_pos skipped]
    · have same := (edited_nil_iff length_eq).mpr (blank name_nil address_nil semester_nil)
      apply if_pos
      rw [work_eq, name_nil, address_nil, semester_nil, same]

end Skipping

/-- A bare Enter for the name and the semester, and a new address. -/
def newAddress : Answers where
  name := []
  address := ascii "Minsk"
  semester := []
  name_unbroken := by decide
  address_unbroken := by decide
  semester_unbroken := by decide

theorem length_initRecord_zero : (initRecord 0).length = recordSize := by
  decide +kernel

/-- The first record with an empty name. -/
def nameless : Bytes := (initRecord 0).set 0 0

/-- Where there is no name, it is kept when it is skipped. -/
theorem skipsKept_nameless : SkipsKept nameless [] newAddress [] := by
  have length_eq : nameless.length = recordSize := List.length_set.trans length_initRecord_zero
  have no_name : fieldText nameless 0 = [] := by decide +kernel
  exact (skipsKept_iff length_eq (by decide) (by decide)).mpr
    ⟨fun _ => no_name, fun skipped => absurd skipped (by decide),
      fun _ skipped => absurd skipped (by decide)⟩

/-- The name that was to be skipped is empty in the record written. -/
theorem not_skipsKept_newAddress : ¬SkipsKept (initRecord 0) [] newAddress [] := by
  intro kept
  rcases putRecord_cases (initRecord 0) [] (newAddress.stdin []) with ⟨-, same⟩ | written
  · exact absurd (congrArg List.head? same) (by decide)
  · exact absurd (kept.name _ written rfl) (by decide)

section Fitting

variable {orig buf rest : Bytes} {answers : Answers} {number : UInt8}

/-- Each line fits where it is read, and no NUL cuts it. -/
def Answers.Fit (answers : Answers) (number : UInt8) : Prop :=
  answers.name.length < 79 ∧ 0 ∉ answers.name ∧
    answers.address.length < 79 ∧ 0 ∉ answers.address ∧
      (answers.semester.length ≤ 15 ∨ number = 0)

/-- The semester that the third prompt makes of a line is the given one. -/
def Yields (orig line : Bytes) (number : UInt8) : Prop :=
  if line = [] then orig[semesterOffset]? = some number
  else UInt8.ofNat (atoi (line.take 15) % 256).toNat = number

/-- One of the first two lines is too long, and what is left of it happens to agree with what was
to be typed at the prompts that read it. -/
def Answers.Coincide (answers : Answers) (orig : Bytes) (number : UInt8) : Prop :=
  0 ∉ answers.name.take 79 ∧
    (answers.name.length < 79 ∧ 79 ≤ answers.address.length ∧ 0 ∉ answers.address.take 79 ∧
        Yields orig (answers.address.drop 79) number ∨
      79 ≤ answers.name.length ∧
        (cString (answers.name.drop 79)).take 79 = answers.address.take 79 ∧
          Yields orig (if answers.name.length < 158 then answers.address else answers.name.drop 158)
            number)

/-- A text is cut at its first NUL or not at all. -/
theorem take_cString_eq_iff (line : Bytes) (limit : ℕ) :
    (cString line).take limit = line.take limit ↔ 0 ∉ line.take limit := by
  induction line generalizing limit with
  | nil => simp [cString]
  | cons byte line ih =>
      cases limit with
      | zero => simp
      | succ limit =>
          have rest_iff := ih limit
          by_cases nul : byte = 0
          · simp [cString, nul]
          · simpa [cString, nul, Ne.symm nul] using rest_iff

/-- With what the prompts get the claim about a record comes down to three comparisons. -/
theorem editsOwn_edited {second third : Bytes} (length_eq : orig.length = recordSize)
    (second_unbroken : newline ∉ second)
    (work_eq : editRecord orig buf (answers.stdin rest) = edited orig answers.name second third) :
    EditsOwn orig buf answers rest number ↔
      0 ∉ answers.name.take 79 ∧ (cString second).take 79 = answers.address.take 79 ∧
        Yields orig third number := by
  have semester_iff : (edited orig answers.name second third)[semesterOffset]? = some number ↔
      Yields orig third number := by
    rw [semester_edited length_eq, Yields]
    split <;> simp
  rw [← take_cString_eq_iff, ← semester_iff]
  constructor
  · rintro ⟨name, address, semester⟩
    rw [work_eq] at name address semester
    rw [name_edited length_eq answers.name_unbroken] at name
    rw [address_edited length_eq second_unbroken] at address
    exact ⟨name, address, semester⟩
  · rintro ⟨name, address, semester⟩
    refine ⟨?_, ?_, ?_⟩
    · rw [work_eq, name_edited length_eq answers.name_unbroken, name]
    · rw [work_eq, address_edited length_eq second_unbroken, address]
    · rw [work_eq, semester]

/-- Of a number only 15 digits are read. -/
theorem yields_digits_iff {line : Bytes} (digits : ∀ byte ∈ line, IsDigit byte)
    (nonempty : line ≠ []) (number_eq : digitsFrom 0 line = number.toNat) :
    Yields orig line number ↔ line.length ≤ 15 ∨ number = 0 := by
  have first_digits : ∀ byte ∈ line.take 15, IsDigit byte :=
    fun byte byte_mem => digits byte (List.mem_of_mem_take byte_mem)
  have number_split : digitsFrom (digitsFrom 0 (line.take 15)) (line.drop 15) = number.toNat := by
    rw [← digitsFrom_digits first_digits, List.take_append_drop, number_eq]
  have first_le := le_digitsFrom (digitsFrom 0 (line.take 15)) (line.drop 15)
  have bounded := number.toNat_lt
  have read : UInt8.ofNat (atoi (line.take 15) % 256).toNat = number ↔
      digitsFrom 0 (line.take 15) = number.toNat := by
    rw [atoi_digits first_digits, ← UInt8.toNat_inj, UInt8.toNat_ofNat']
    omega
  rw [Yields, if_neg nonempty, read]
  constructor
  · intro same
    by_contra long
    rw [not_or] at long
    have more : line.drop 15 ≠ [] := by
      rw [ne_eq, List.drop_eq_nil_iff]
      omega
    have grows : digitsFrom 0 (line.take 15) * 10 ≤
        digitsFrom (digitsFrom 0 (line.take 15)) (line.drop 15) :=
      mul_le_digitsFrom (fun byte byte_mem => digits byte (List.mem_of_mem_drop byte_mem)) more
    apply long.2
    apply UInt8.toNat_inj.mp
    show number.toNat = 0
    omega
  · intro fits
    rcases fits with short | rfl
    · rw [← number_eq, List.take_of_length_le short]
    · have zero : (0 : UInt8).toNat = 0 := rfl
      omega

/-- Each answer edits its own field exactly if the lines fit, or the rest of a line that does not
fit happens to agree with what was to be typed. -/
theorem editsOwn_iff (length_eq : orig.length = recordSize)
    (digits : ∀ byte ∈ answers.semester, IsDigit byte) (nonempty : answers.semester ≠ [])
    (number_eq : digitsFrom 0 answers.semester = number.toNat) :
    EditsOwn orig buf answers rest number ↔
      answers.Fit number ∨ answers.Coincide orig number := by
  have name_rest : newline ∉ answers.name.drop 79 :=
    fun found => answers.name_unbroken (List.mem_of_mem_drop found)
  by_cases short_name : answers.name.length < 79
  · have name_eq : answers.name.take 79 = answers.name := List.take_of_length_le short_name.le
    by_cases short_address : answers.address.length < 79
    · have address_eq : answers.address.take 79 = answers.address :=
        List.take_of_length_le short_address.le
      rw [editsOwn_edited length_eq answers.address_unbroken
        (editRecord_short length_eq short_name short_address), take_cString_eq_iff,
        yields_digits_iff digits nonempty number_eq, name_eq, address_eq]
      simp [Answers.Fit, Answers.Coincide, short_name, short_address, Nat.not_le.mpr short_name,
        Nat.not_le.mpr short_address]
    · have address_rest : newline ∉ answers.address.drop 79 :=
        fun found => answers.address_unbroken (List.mem_of_mem_drop found)
      have work_eq : editRecord orig buf (answers.stdin rest) =
          edited orig answers.name answers.address (answers.address.drop 79) :=
        editRecord_typed length_eq answers.name_unbroken answers.address_unbroken address_rest
          (if_pos short_name) (if_neg short_address)
      rw [editsOwn_edited length_eq answers.address_unbroken work_eq, take_cString_eq_iff]
      simp [Answers.Fit, Answers.Coincide, short_name, short_address, Nat.not_lt.mp short_address,
        Nat.not_le.mpr short_name]
  · have long_name := Nat.not_lt.mp short_name
    have goes_on : editRecord orig buf (answers.stdin rest) = edited orig answers.name
        (answers.name.drop 79)
        (if answers.name.length < 158 then answers.address else answers.name.drop 158) := by
      have split : (answers.name.drop 79).length < 79 ↔ answers.name.length < 158 := by
        rw [List.length_drop]
        omega
      by_cases twice : answers.name.length < 158
      · rw [if_pos twice]
        exact editRecord_typed length_eq answers.name_unbroken name_rest answers.address_unbroken
          (if_neg short_name) (if_pos (split.mpr twice))
      · have name_end : newline ∉ answers.name.drop 158 :=
          fun found => answers.name_unbroken (List.mem_of_mem_drop found)
        have third_eq : (answers.name.drop 79).drop 79 = answers.name.drop 158 := List.drop_drop
        rw [if_neg twice]
        apply editRecord_typed length_eq answers.name_unbroken name_rest name_end
          (if_neg short_name)
        rw [consume, if_neg (mt split.mp twice), third_eq]
    rw [editsOwn_edited length_eq name_rest goes_on]
    simp [Answers.Fit, Answers.Coincide, short_name, long_name]

end Fitting

/-- A name of 79 letters, an address, and 7 for the semester. -/
def longName : Answers where
  name := List.replicate 79 65
  address := ascii "Minsk"
  semester := ascii "7"
  name_unbroken := by decide
  address_unbroken := by decide
  semester_unbroken := by decide

/-- A name of 78 letters, with the same address and semester. -/
def fittingName : Answers :=
  { longName with name := List.replicate 78 65, name_unbroken := by decide }

/-- The longest name that fits. -/
theorem editsOwn_fittingName : EditsOwn (initRecord 0) [] fittingName [] 7 := by
  have digits : ∀ byte ∈ fittingName.semester, IsDigit byte := by
    intro byte byte_mem
    obtain rfl : byte = 55 := List.mem_singleton.mp byte_mem
    decide
  have fit : fittingName.Fit 7 := ⟨by decide, by decide, by decide, by decide, by decide⟩
  exact (editsOwn_iff length_initRecord_zero digits (by decide) (by decide)).mpr (.inl fit)

/-- The address is what `fgets` left of the name: a newline. -/
theorem not_editsOwn_longName : ¬EditsOwn (initRecord 0) [] longName [] 7 := by
  intro own
  exact absurd own.address (by decide)

end Osis.Lab07
