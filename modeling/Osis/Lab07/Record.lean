import Osis.Posix.Text

/-!
# Records of lab 7 and how `cmd_put` edits them

A record is its 161 bytes in memory: `name` and `address` of 80 bytes each and
the byte `semester`; the structure has no padding. Editing follows the C library
on these bytes: `fgets` stores at most one byte less than it is given and leaves
the rest of a longer line in `stdin`, and cutting at the newline searches from the
start of a field for a newline or a NUL.
-/

namespace Osis.Lab07

open Osis.Posix

/-- `sizeof(struct record_s)`. -/
def recordSize : ℕ := 161

/-- `offsetof(struct record_s, address)`, which is also the size of `name` and of `address`. -/
def fieldSize : ℕ := 80

/-- `offsetof(struct record_s, semester)`. -/
def semesterOffset : ℕ := 160

/-- Bytes stored into a buffer from a position on. -/
def store (buffer : List UInt8) (position : ℕ) (bytes : List UInt8) : List UInt8 :=
  buffer.take position ++ bytes ++ buffer.drop (position + bytes.length)

/-- `fgets(buffer + position, size, stdin)`, with the buffer and `stdin` it leaves. -/
def fgets (buffer : List UInt8) (position size : ℕ) (stdin : List UInt8) :
    List UInt8 × List UInt8 :=
  let line := takeLine (size - 1) stdin
  -- at the end of the input the buffer is left alone
  if line = [] then (buffer, stdin)
  else (store buffer position (line ++ [0]), stdin.drop line.length)

/-- `buffer[position + strcspn(buffer + position, "\n")] = 0`. -/
def cutAtNewline (buffer : List UInt8) (position : ℕ) : List UInt8 :=
  match (buffer.drop position).findIdx? fun byte => byte = newline || byte = 0 with
  | some index => buffer.set (position + index) 0
  | none => buffer

/-- The three prompts of `cmd_put`; `buf` holds what was in the local buffer before. -/
def editRecord (orig buf stdin : List UInt8) : List UInt8 :=
  let (work, stdin) := fgets orig 0 fieldSize stdin
  let work := cutAtNewline work 0
  let (work, stdin) := fgets work fieldSize fieldSize stdin
  let work := cutAtNewline work fieldSize
  let (buf, _) := fgets buf 0 16 stdin
  if buf.head? ≠ some newline then work.set semesterOffset (UInt8.ofNat (atoi buf % 256).toNat)
  else work

section Length

variable {buffer stdin : List UInt8} {position size : ℕ}

theorem length_store {bytes : List UInt8} (inside : position + bytes.length ≤ buffer.length) :
    (store buffer position bytes).length = buffer.length := by
  simp only [store, List.length_append, List.length_take, List.length_drop]
  omega

theorem length_fgets (positive : 0 < size) (inside : position + size ≤ buffer.length) :
    (fgets buffer position size stdin).1.length = buffer.length := by
  have bounded := length_takeLine_le (size - 1) stdin
  simp only [fgets]
  split
  · rfl
  · apply length_store
    simp only [List.length_append, List.length_singleton]
    omega

theorem length_cutAtNewline : (cutAtNewline buffer position).length = buffer.length := by
  unfold cutAtNewline
  split
  · exact List.length_set
  · rfl

/-- Editing keeps the size of a record. -/
theorem length_editRecord {orig buf : List UInt8} (length_eq : orig.length = recordSize) :
    (editRecord orig buf stdin).length = recordSize := by
  have nameLength : ∀ stdin, (cutAtNewline (fgets orig 0 fieldSize stdin).1 0).length =
      recordSize := by
    intro stdin
    rw [length_cutAtNewline, length_fgets (by decide) (by rw [length_eq]; decide), length_eq]
  have addressLength : ∀ stdin stdin', (cutAtNewline (fgets
      (cutAtNewline (fgets orig 0 fieldSize stdin).1 0) fieldSize fieldSize stdin').1
        fieldSize).length = recordSize := by
    intro stdin stdin'
    rw [length_cutAtNewline, length_fgets (by decide) (by rw [nameLength]; decide), nameLength]
  simp only [editRecord]
  split
  · rw [List.length_set]
    exact addressLength _ _
  · exact addressLength _ _

end Length

end Osis.Lab07
