import Osis.Lab07.Session

/-!
# The data file of lab 7 is a list of records

Every file is the file of some records and a rest that is no record. Each command does to the
file what it does to the records, and so does every session, whatever is typed and whatever
the commands find on the stack.
-/

namespace Osis.Lab07

open Memory Posix

universe u v

section Maps

variable {Data : Type u} {Data' : Type v}

/-- A function that takes the data of one set of commands to the data of another. -/
structure Commands.Maps (commands : Commands Data) (commands' : Commands Data')
    (map : Data → Data') : Prop where
  lst : ∀ stack data, commands'.lst stack (map data) = commands.lst stack data
  get : ∀ stack data recNo, commands'.get stack (map data) recNo = commands.get stack data recNo
  put : ∀ stack data recNo stdin, commands'.put stack (map data) recNo stdin =
    ((commands.put stack data recNo stdin).1, map (commands.put stack data recNo stdin).2.1,
      (commands.put stack data recNo stdin).2.2)
  init : ∀ data, commands'.init (map data) = ((commands.init data).1, map (commands.init data).2)

def Turn.map (map : Data → Data') (turn : Turn Data) : Turn Data' :=
  ⟨turn.out, map turn.data, turn.stdin, turn.goesOn⟩

variable {commands : Commands Data} {commands' : Commands Data'} {map : Data → Data'}

theorem Commands.Maps.execute (maps : commands.Maps commands' map) (stack : Stack) (data : Data)
    (stdin : Bytes) (words : List Bytes) :
    execute commands' stack (map data) stdin words =
      (execute commands stack data stdin words).map map := by
  cases words with
  | nil => rfl
  | cons cmd args =>
      cases args with
      | nil =>
          simp only [Lab07.execute, maps.lst, maps.init]
          split_ifs <;> rfl
      | cons arg args =>
          simp only [Lab07.execute, maps.lst, maps.get, maps.put, maps.init]
          split_ifs <;> rfl

theorem Commands.Maps.turn (maps : commands.Maps commands' map) (stack : Stack) (data : Data)
    (stdin : Bytes) :
    turn commands' stack (map data) stdin = (turn commands stack data stdin).map map := by
  simp only [Lab07.turn, maps.execute]
  split <;> rfl

/-- Sessions print the same, and leave data that belong together. -/
theorem Commands.Maps.interactive (maps : commands.Maps commands' map) (stack : ℕ → Stack)
    (fuel index : ℕ) (data : Data) (stdin : Bytes) :
    interactive commands' stack fuel index (map data) stdin =
      (interactive commands stack fuel index data stdin).map fun result =>
        (result.1, map result.2) := by
  induction fuel generalizing index data stdin with
  | zero => rfl
  | succ fuel ih =>
      simp only [Lab07.interactive, maps.turn, Turn.map]
      split
      · rw [ih, Option.map_map, Option.map_map]
        rfl
      · rfl

end Maps

section File

variable {roster : Roster} {recNo : ℤ}

namespace Roster

theorem whole (roster : Roster) : Whole recordSize (roster.records.map Subtype.val) := by
  intro bytes bytes_mem
  rcases List.mem_map.mp bytes_mem with ⟨record, -, rfl⟩
  exact record.property

/-- A record is read where the list has it. -/
theorem readRecord_file (roster : Roster) (recNo : ℤ) :
    readRecord roster.file recNo = (roster.at? recNo).map Subtype.val := by
  unfold readRecord Roster.at?
  split
  · rfl
  · by_cases inside : recNo.toNat < roster.records.length
    · have inside' : recNo.toNat < (roster.records.map Subtype.val).length := by
        simpa using inside
      have read : (roster.file.drop (recNo.toNat * recordSize)).take recordSize =
          roster.records[recNo.toNat].val :=
        (roster.whole.read roster.rest inside').trans (List.getElem_map _)
      rw [read, List.getElem?_eq_getElem inside]
      exact if_pos roster.records[recNo.toNat].property
    · have past : (roster.records.map Subtype.val).length ≤ recNo.toNat := by
        simpa using Nat.le_of_not_lt inside
      have short := roster.whole.read_past roster.short past
      have missing : roster.records[recNo.toNat]? = none :=
        List.getElem?_eq_none (Nat.le_of_not_lt inside)
      rw [missing]
      simp only [file, Nat.ne_of_lt short, if_false, Option.map_none]

theorem lt_of_at {record : Record} (found : roster.at? recNo = some record) :
    recNo.toNat < roster.records.length := by
  unfold Roster.at? at found
  split at found
  · contradiction
  · exact (List.getElem?_eq_some_iff.mp found).1

/-- A record that was read is written where the list has it. -/
theorem writeRecord_file {record : Record} (found : roster.at? recNo = some record)
    (work : Record) : writeRecord roster.file recNo work.val = (roster.set recNo work).file := by
  have inside : recNo.toNat < (roster.records.map Subtype.val).length := by
    simpa using lt_of_at found
  rw [writeRecord, file, roster.whole.write roster.rest inside, file, set, List.map_set]

/-- The loop of `LST` ends at the rest. -/
theorem lstLoop_file (roster : Roster) (behind : ℕ → Bytes) (idx : ℕ) :
    lstLoop behind idx roster.file = roster.records.mapIdx fun i record =>
      lstLine (idx + i) record.val (behind (idx + i)) := by
  rcases roster with ⟨records, rest, short⟩
  induction records generalizing idx with
  | nil =>
      have cut : (rest.take recordSize).length ≠ recordSize := by
        rw [List.length_take]
        omega
      rw [lstLoop, dif_neg (by simpa [file] using cut)]
      rfl
  | cons record records ih =>
      have first : (file ⟨record :: records, rest, short⟩) =
          record.val ++ file ⟨records, rest, short⟩ := by simp [file]
      have taken : (file ⟨record :: records, rest, short⟩).take recordSize = record.val := by
        rw [first, List.take_left' record.property]
      have dropped : (file ⟨record :: records, rest, short⟩).drop recordSize =
          file ⟨records, rest, short⟩ := by
        rw [first, List.drop_left' record.property]
      rw [lstLoop, taken, dropped, dif_pos record.property, ih, List.mapIdx_cons]
      simp [Nat.add_assoc, Nat.add_comm 1]

/-- Every file is the file of some records. -/
theorem exists_roster (bytes : Bytes) : ∃ roster : Roster, roster.file = bytes := by
  rcases exists_blocks (show 0 < recordSize by decide) bytes with ⟨blocks, rest, rfl, whole, short⟩
  let records : List Record := blocks.attachWith _ fun block block_mem => whole block block_mem
  have values : records.map Subtype.val = blocks := List.attachWith_map_subtype_val _
  refine ⟨⟨records, rest, short⟩, ?_⟩
  rw [file, values]

/-- `INIT` writes the records one behind the other. -/
theorem initFile_eq (file : Option Bytes) :
    initFileAlone file = ([initialised], some initial.file) := by
  have appended : ∀ (indices : List ℕ) (file : Bytes),
      indices.foldl (fun file index => file ++ initRecord index) file =
        file ++ (indices.map initRecord).flatten := by
    intro indices
    induction indices with
    | nil => simp
    | cons index indices ih =>
        intro file
        rw [List.foldl_cons, ih]
        simp
  have values : initial.records.map Subtype.val = (List.range recordCount).map initRecord := by
    rw [initial, List.map_map, ← List.map_coe_finRange_eq_range, List.map_map]
    rfl
  rw [initFileAlone, appended, Roster.file, values]
  simp [initial]

/-- The commands do to the file what they do to its records. -/
theorem maps : Roster.commands.Maps fileCommands (Option.map Roster.file) where
  lst stack data := by
    cases data with
    | none => rfl
    | some roster =>
        show lstLoop stack.behindR 0 roster.file =
          roster.records.mapIdx fun idx record => lstLine idx record.val (stack.behindR idx)
        simpa using lstLoop_file roster stack.behindR 0
  get stack data recNo := by
    cases data with
    | none => rfl
    | some roster =>
        show cmdGetAlone stack (some roster.file) recNo = Roster.get stack (some roster) recNo
        simp only [cmdGetAlone, Roster.get, readRecord_file]
        cases roster.at? recNo <;> rfl
  put stack data recNo stdin := by
    cases data with
    | none => rfl
    | some roster =>
        show cmdPutAlone stack (some roster.file) recNo stdin = _
        simp only [cmdPutAlone, Roster.commands, Roster.put, readRecord_file]
        cases found : roster.at? recNo with
        | none => rfl
        | some orig =>
            have same : orig.val = editRecord orig.val stack.buf stdin ↔
                orig = orig.edit stack.buf stdin :=
              ⟨fun bytes_eq => Subtype.ext bytes_eq, congrArg Subtype.val⟩
            have written : writeRecord roster.file recNo (editRecord orig.val stack.buf stdin) =
                (roster.set recNo (orig.edit stack.buf stdin)).file :=
              writeRecord_file found (orig.edit stack.buf stdin)
            simp only [Option.map_some, same, written]
            split <;> rfl
  init data := initFile_eq (data.map Roster.file)

end Roster

end File

section Returns

variable {Data : Type u} {commands : Commands Data}

/-- A command gives back what is left of `stdin` behind what it has read. -/
def Commands.Reads (commands : Commands Data) : Prop :=
  ∀ stack data recNo stdin, (commands.put stack data recNo stdin).2.2 <:+ stdin

theorem execute_stdin (reads : commands.Reads) (stack : Stack) (data : Data) (stdin : Bytes)
    (words : List Bytes) : (execute commands stack data stdin words).stdin <:+ stdin := by
  have put := fun recNo => reads stack data recNo stdin
  cases words with
  | nil => exact List.suffix_refl stdin
  | cons cmd args =>
      cases args with
      | nil =>
          simp only [execute]
          split_ifs <;> exact List.suffix_refl stdin
      | cons arg args =>
          simp only [execute]
          split_ifs <;> first | exact List.suffix_refl stdin | exact put (recNoOf arg)

/-- A turn after which the loop goes on has read something. -/
theorem turn_stdin (reads : commands.Reads) {stack : Stack} {data : Data} {stdin : Bytes}
    (goesOn : (turn commands stack data stdin).goesOn = true) :
    (turn commands stack data stdin).stdin.length < stdin.length := by
  simp only [turn] at goesOn ⊢
  split at goesOn
  · contradiction
  · next line =>
      rw [if_neg line]
      have left := (execute_stdin reads stack data (stdin.drop (takeLine 127 stdin).length)
        (words (takeLine 127 stdin))).length_le
      have read : 0 < (takeLine 127 stdin).length := List.length_pos_iff.mpr line
      have bounded := (takeLine_prefix_text 127 stdin).length_le
      rw [List.length_drop] at left
      omega

/-- The loop ends by itself. -/
theorem interactive_returns (reads : commands.Reads) (stack : ℕ → Stack) {fuel index : ℕ}
    {data : Data} {stdin : Bytes} (enough : stdin.length < fuel) :
    ∃ result, interactive commands stack fuel index data stdin = some result := by
  induction fuel generalizing index data stdin with
  | zero => exact absurd enough (Nat.not_lt_zero _)
  | succ fuel ih =>
      simp only [interactive]
      split
      · next goesOn =>
          have shorter := turn_stdin reads goesOn
          have enough' : (turn commands (stack index) data stdin).stdin.length < fuel := by omega
          rcases ih enough' with ⟨result, returns⟩
          rw [returns]
          exact ⟨_, rfl⟩
      · exact ⟨_, rfl⟩

theorem fgets_stdin_suffix (buffer : Bytes) (position size : ℕ) (stdin : Bytes) :
    (fgets buffer position size stdin).2 <:+ stdin := by
  simp only [fgets]
  split
  · exact List.suffix_refl stdin
  · exact List.drop_suffix _ _

theorem afterPrompts_suffix (stdin : Bytes) : afterPrompts stdin <:+ stdin :=
  ((fgets_stdin_suffix _ _ _ _).trans (fgets_stdin_suffix _ _ _ _)).trans
    (fgets_stdin_suffix _ _ _ _)

theorem Roster.reads : Roster.commands.Reads := by
  intro stack data recNo stdin
  cases data with
  | none => exact List.suffix_refl stdin
  | some roster =>
      simp only [Roster.commands, Roster.put]
      split
      · exact List.suffix_refl stdin
      · split <;> exact afterPrompts_suffix stdin

end Returns

/-- Whatever the file and the stack hold and whatever is typed, the program ends, and it has printed
and written what the same commands print and leave on a list of records. -/
theorem mainLoop_refines (stack : ℕ → Stack) (file : Option Bytes) (stdin : Bytes) :
    ∃ (roster roster' : Option Roster) (out : List Bytes), roster.map Roster.file = file ∧
      mainLoop Roster.commands stack roster stdin = some (out, roster') ∧
      mainLoop fileCommands stack file stdin = some (out, roster'.map Roster.file) := by
  have represented : ∃ roster : Option Roster, roster.map Roster.file = file := by
    cases file with
    | none => exact ⟨none, rfl⟩
    | some bytes =>
        rcases Roster.exists_roster bytes with ⟨roster, file_eq⟩
        exact ⟨some roster, congrArg some file_eq⟩
  rcases represented with ⟨roster, rfl⟩
  rcases interactive_returns Roster.reads stack (Nat.lt_succ_self stdin.length) with
    ⟨⟨out, roster'⟩, returns⟩
  refine ⟨roster, roster', greeting :: out, rfl, ?_, ?_⟩
  · rw [mainLoop, returns]
    rfl
  · rw [mainLoop, Roster.maps.interactive, returns]
    rfl

end Osis.Lab07
