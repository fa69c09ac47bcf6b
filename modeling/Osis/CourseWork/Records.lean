import Mathlib.Algebra.Group.Nat.Defs
import Mathlib.Data.List.TakeDrop
import Osis.CourseWork.Browser
import Osis.CourseWork.Deletion

/-!
# What the readers get out of a record

A record is written once and parsed in three places. `cmd_restore` and `cmd_list` read
lines of at most 255 bytes, so they get the first 241 bytes of a path; the browser reads
whole lines and takes what is behind the last slash. `readBack_iff` says which paths
all of them read back.

The id of a record is read back from its name, into an array of 64 bytes in which the
longest id that is generated does not fit (`idFits_iff`).
-/

namespace Osis.CourseWork

open Posix

section Lines

variable {key line rest : Bytes}

/-- A line with another first byte does not have the key. -/
theorem not_prefix_of_head? (some_key : key ≠ []) (different : key.head? ≠ line.head?) :
    ¬key <+: line := by
  rintro ⟨tail, rfl⟩
  exact different (List.head?_append_of_ne_nil _ some_key).symm

theorem scanText_other (some_key : key ≠ []) (different : key.head? ≠ line.head?) :
    scanText key line = none :=
  scanText_of_not_prefix (not_prefix_of_head? some_key different)

theorem scanText_line {value : Bytes} (nonempty : value ≠ [])
    (plain : ∀ byte ∈ value, inLine byte = true) :
    scanText key (key ++ (value ++ newline :: rest)) = some value := by
  have value_eq : firstLine (value ++ newline :: rest) = value := by
    rw [firstLine_append_newline, firstLine_eq_self plain]
  rw [scanText_value (by rwa [value_eq]), value_eq]

end Lines

section Times

/-- What `localtime` gives: the year is an `int`. -/
structure LocalTime.Valid (time : LocalTime) : Prop where
  year : time.year.natAbs < 10 ^ 10
  month : time.month ≤ 12
  day : time.day ≤ 31
  hour : time.hour ≤ 23
  minute : time.minute ≤ 59
  second : time.second ≤ 60

theorem length_decimal_le {number : ℕ} (digits : ℕ) (some_digits : 0 < digits)
    (small : number < 10 ^ digits) : (decimal number).length ≤ digits := by
  rw [decimal, List.length_map]
  exact (Nat.length_toDigits_le_iff (by decide) some_digits).mpr small

theorem length_padded_two {number : ℕ} (small : number < 100) : (padded 2 number).length = 2 := by
  have := length_decimal_le 2 (by decide) small
  rw [padded, List.length_append, List.length_replicate]
  omega

theorem length_signed_le {number : ℤ} (digits : ℕ) (some_digits : 0 < digits)
    (small : number.natAbs < 10 ^ digits) : (signed number).length ≤ digits + 1 := by
  have := length_decimal_le digits some_digits small
  unfold signed
  split
  · rw [List.length_cons]
    omega
  · omega

/-- The time fits in `timestr` and in `deleted`, which have 32 bytes. -/
theorem LocalTime.Valid.length_timestr {time : LocalTime} (valid : time.Valid) :
    (timestr time).length < 32 := by
  have year := length_signed_le 10 (by decide) valid.year
  have month := length_padded_two (Nat.lt_of_le_of_lt valid.month (by decide))
  have day := length_padded_two (Nat.lt_of_le_of_lt valid.day (by decide))
  have hour := length_padded_two (Nat.lt_of_le_of_lt valid.hour (by decide))
  have minute := length_padded_two (Nat.lt_of_le_of_lt valid.minute (by decide))
  have second := length_padded_two (Nat.lt_of_le_of_lt valid.second (by decide))
  have dash : (ascii "-").length = 1 := by decide
  have letter : (ascii "T").length = 1 := by decide
  have colon : (ascii ":").length = 1 := by decide
  simp only [timestr, List.length_append, month, day, hour, minute, second, dash, letter, colon]
  omega

theorem inLine_of_isNumeral {byte : UInt8} (numeral : IsNumeral byte) : inLine byte = true := by
  simp only [IsNumeral, UInt8.le_iff_toNat_le, ← UInt8.toNat_inj, UInt8.reduceToNat] at numeral
  simp only [inLine, newline, ne_eq, ← UInt8.toNat_inj, UInt8.reduceToNat, decide_not,
    Bool.and_eq_true, Bool.not_eq_true', decide_eq_false_iff_not]
  omega

/-- The bytes of a time are those of numbers and the separators `-`, `T` and `:`. -/
theorem forall_mem_timestr {good : UInt8 → Prop} (numerals : ∀ byte, IsNumeral byte → good byte)
    (separators : good 45 ∧ good 84 ∧ good 58) (time : LocalTime) :
    ∀ byte ∈ timestr time, good byte := by
  intro byte byte_mem
  have single : ∀ {separator : UInt8}, good separator → byte ∈ [separator] → good byte := by
    intro separator separator_good here
    rwa [List.mem_singleton.mp here]
  have dash : byte ∈ ascii "-" → good byte := single separators.1
  have letter : byte ∈ ascii "T" → good byte := single separators.2.1
  have colon : byte ∈ ascii ":" → good byte := single separators.2.2
  have two : ∀ {number}, byte ∈ padded 2 number → good byte := fun here =>
    numerals byte (isNumeral_of_mem_padded byte here)
  simp only [timestr, List.mem_append] at byte_mem
  rcases byte_mem with
    (((((((((year | sep) | month) | sep) | day) | sep) | hour) | sep) | minute) | sep) | second
  · exact numerals byte (isNumeral_of_mem_signed byte year)
  · exact dash sep
  · exact two month
  · exact dash sep
  · exact two day
  · exact letter sep
  · exact two hour
  · exact colon sep
  · exact two minute
  · exact colon sep
  · exact two second

theorem inLine_timestr {time : LocalTime} : ∀ byte ∈ timestr time, inLine byte = true := by
  apply forall_mem_timestr
  · exact fun byte => inLine_of_isNumeral
  · decide

end Times

section Readers

variable {path : Bytes} {time : LocalTime} {size : ℕ} {behind : UInt8}

/-- The bytes of a path are in one line. -/
theorem inLine_of_plain (unbroken : newline ∉ path) (no_nul : 0 ∉ path) :
    ∀ byte ∈ path, inLine byte = true := by
  intro byte byte_mem
  have not_newline : byte ≠ newline := by
    rintro rfl
    exact unbroken byte_mem
  have not_nul : byte ≠ 0 := by
    rintro rfl
    exact no_nul byte_mem
  simp [inLine, not_newline, not_nul]

theorem newline_not_mem_of_inLine {text : Bytes} (plain : ∀ byte ∈ text, inLine byte = true) :
    newline ∉ text := fun newline_mem => absurd (plain newline newline_mem) (by decide)

theorem unbroken_line (unbroken : newline ∉ path) : newline ∉ ascii "original_path=" ++ path := by
  intro newline_mem
  rcases List.mem_append.mp newline_mem with in_key | in_path
  · exact absurd in_key (by decide)
  · exact unbroken in_path

/-- The first line of a record, in one piece or without its newline. -/
theorem lines_recordText (time : LocalTime) (size : ℕ) (unbroken : newline ∉ path)
    (short : path.length ≤ 241) :
    ∃ rest, lines 256 (recordText path time size) = (ascii "original_path=" ++ (path ++ rest)) ::
        (if rest = [] then [[newline]] else []) ++
        lines 256 (ascii "deleted_time=" ++ (timestr time ++ newline :: (ascii "size=" ++
          (decimal size ++ [newline])))) ∧ (rest = [] ∨ rest = [newline]) := by
  have key_length : (ascii "original_path=").length = 14 := by decide
  have line_unbroken := unbroken_line unbroken
  unfold recordText
  rw [← List.append_assoc]
  rcases Nat.lt_or_eq_of_le short with shorter | full
  · rw [lines_line _ line_unbroken (by rw [List.length_append]; omega)]
    exact ⟨[newline], by simp, .inr rfl⟩
  · rw [lines_full _ line_unbroken (by simp [ascii]) (by rw [List.length_append]; omega)]
    rw [← List.nil_append (newline :: _), lines_line _ (by simp) (by decide)]
    exact ⟨[], by simp, .inl rfl⟩

theorem lines_recordText_rest (valid : time.Valid) (range : size < 2 ^ 63) :
    lines 256 (ascii "deleted_time=" ++ (timestr time ++ newline :: (ascii "size=" ++
      (decimal size ++ [newline])))) =
        [ascii "deleted_time=" ++ (timestr time ++ [newline]),
          ascii "size=" ++ (decimal size ++ [newline])] := by
  have time_length := valid.length_timestr
  have time_key : (ascii "deleted_time=").length = 13 := by decide
  have size_key : (ascii "size=").length = 5 := by decide
  have size_length : (decimal size).length ≤ 20 :=
    length_decimal_le 20 (by decide) (range.trans (by decide))
  have time_unbroken : newline ∉ ascii "deleted_time=" ++ timestr time := by
    intro newline_mem
    rcases List.mem_append.mp newline_mem with in_key | in_time
    · exact absurd in_key (by decide)
    · exact newline_not_mem_of_inLine inLine_timestr in_time
  have size_unbroken : newline ∉ ascii "size=" ++ decimal size := by
    intro newline_mem
    rcases List.mem_append.mp newline_mem with in_key | in_size
    · exact absurd in_key (by decide)
    · exact absurd (isNumeral_of_mem_decimal newline in_size).1 (by decide)
  rw [← List.append_assoc, lines_line _ time_unbroken (by rw [List.length_append]; omega),
    ← List.append_assoc (ascii "size="), lines_line _ size_unbroken
      (by rw [List.length_append]; omega), lines_nil]
  simp only [List.append_assoc]

/-- `cmd_list` reads back what fits in a line. -/
theorem scanEntry_recordText (nonempty : path ≠ []) (unbroken : newline ∉ path)
    (no_nul : 0 ∉ path) (short : path.length ≤ 241) (valid : time.Valid) (range : size < 2 ^ 63) :
    scanEntry (recordText path time size) = ⟨path, timestr time, size⟩ := by
  have path_plain := inLine_of_plain unbroken no_nul
  have some_time : timestr time ≠ [] := by simp [timestr, ascii]
  have first : ∀ rest, rest = [] ∨ rest = [newline] →
      scanText (ascii "original_path=") (ascii "original_path=" ++ (path ++ rest)) =
        some path := by
    rintro rest (rfl | rfl)
    · rw [List.append_nil, scanText_value (by rwa [firstLine_eq_self path_plain]),
        firstLine_eq_self path_plain]
    · exact scanText_line nonempty path_plain
  have alone : ∀ entry, scanLine entry [newline] = entry := by
    intro entry
    rw [scanLine, scanText_other (by decide) (by decide), scanText_other (by decide) (by decide)]
    rfl
  have second : ∀ entry, scanLine entry (ascii "deleted_time=" ++ (timestr time ++ [newline])) =
      { entry with deleted := timestr time } := by
    intro entry
    rw [scanLine, scanText_other (by decide) (by simp [ascii]),
      scanText_line some_time inLine_timestr]
  have third : ∀ entry, scanLine entry (ascii "size=" ++ (decimal size ++ [newline])) =
      { entry with size := size } := by
    intro entry
    have ends : ∀ byte ∈ [newline].head?, ¬(48 ≤ byte ∧ byte ≤ 57) := by
      rintro byte byte_mem
      cases byte_mem
      decide
    rw [scanLine, scanText_other (by decide) (by simp [ascii]),
      scanText_other (by decide) (by simp [ascii]), scanLong_decimal ends]
  rcases lines_recordText time size unbroken short with
    ⟨rest, lines_eq, rest_eq⟩
  rw [scanEntry, lines_eq, lines_recordText_rest valid range, List.cons_append, List.foldl_cons,
    List.foldl_append]
  have read : scanLine ⟨[], [], 0⟩ (ascii "original_path=" ++ (path ++ rest)) = ⟨path, [], 0⟩ := by
    rw [scanLine, first rest rest_eq]
  have kept : List.foldl scanLine ⟨path, [], 0⟩ (if rest = [] then [[newline]] else []) =
      ⟨path, [], 0⟩ := by
    split
    · exact alone _
    · rfl
  rw [read, kept, List.foldl_cons, List.foldl_cons, List.foldl_nil, second, third]

/-- Lines without the key leave the path alone. -/
theorem original_foldl_scanLine {rows : List Bytes} (entry : Entry)
    (others : ∀ line ∈ rows, scanText (ascii "original_path=") line = none) :
    (rows.foldl scanLine entry).original = entry.original := by
  induction rows generalizing entry with
  | nil => rfl
  | cons line rest ih =>
      rcases List.forall_mem_cons.mp others with ⟨other, others⟩
      rw [List.foldl_cons, ih _ others, scanLine, other]
      simp only
      split
      · rfl
      · split
        · rfl
        · rfl

/-- No line behind the first one has the key of a path. -/
theorem scanText_recordText_rest {line : Bytes}
    (line_mem : line ∈ lines 256 (ascii "deleted_time=" ++ (timestr time ++ newline ::
      (ascii "size=" ++ (decimal size ++ [newline]))))) :
    scanText (ascii "original_path=") line = none := by
  apply scanText_of_not_prefix
  intro keyed
  have first : (111 : UInt8) ∈ line := keyed.subset (by decide)
  have in_text := subset_of_mem_lines line_mem first
  have not_numeral : ¬IsNumeral 111 := by
    rintro (dash | ⟨-, small⟩)
    · exact absurd dash (by decide)
    · exact absurd small (by decide)
  have not_in_time : (111 : UInt8) ∉ timestr time := by
    have others : ∀ byte ∈ timestr time, byte ≠ 111 := by
      apply forall_mem_timestr
      · rintro byte numeral rfl
        exact not_numeral numeral
      · decide
    exact fun in_time => others 111 in_time rfl
  rcases List.mem_append.mp in_text with in_key | behind
  · exact absurd in_key (by decide)
  rcases List.mem_append.mp behind with in_time | behind
  · exact not_in_time in_time
  rcases List.mem_cons.mp behind with same | behind
  · exact absurd same (by decide)
  rcases List.mem_append.mp behind with in_key | behind
  · exact absurd in_key (by decide)
  rcases List.mem_append.mp behind with in_size | at_end
  · exact not_numeral (.inr (isNumeral_of_mem_decimal _ in_size))
  · exact absurd at_end (by decide)

/-- `cmd_list` reads back the path that fits in a line, whatever is behind it. -/
theorem original_scanEntry (nonempty : path ≠ []) (unbroken : newline ∉ path) (no_nul : 0 ∉ path)
    (short : path.length ≤ 241) : (scanEntry (recordText path time size)).original = path := by
  have path_plain := inLine_of_plain unbroken no_nul
  rcases lines_recordText time size unbroken short with ⟨rest, lines_eq, rest_eq⟩
  have value_eq : firstLine (path ++ rest) = path := by
    rcases rest_eq with rfl | rfl
    · rw [List.append_nil, firstLine_eq_self path_plain]
    · rw [firstLine_append_newline, firstLine_eq_self path_plain]
  have first : scanText (ascii "original_path=") (ascii "original_path=" ++ (path ++ rest)) =
      some path := by
    rw [scanText_value (by rwa [value_eq]), value_eq]
  rw [scanEntry, lines_eq, List.cons_append, List.foldl_cons, original_foldl_scanLine]
  · rw [scanLine, first]
  · intro line line_mem
    rcases List.mem_append.mp line_mem with alone | behind
    · have line_eq : line = [newline] := by
        split at alone
        · exact List.mem_singleton.mp alone
        · cases alone
      rw [line_eq]
      exact scanText_other (by decide) (by decide)
    · exact scanText_recordText_rest behind

/-- The browser reads the first line of a record whole. -/
theorem scanDisp_recordText (unbroken : newline ∉ path) (no_nul : 0 ∉ path)
    (short : path.length ≤ pathMax - 16) :
    scanDisp behind (recordText path time size) =
      let last := path.rtakeWhile (· ≠ slash)
      let disp := (last ++ [newline]).take nameMax ++
        [if last.length + 1 < nameMax then 0 else behind]
      if disp.all inLine then none else some (firstLine disp) := by
  have key_length : (ascii "original_path=").length = 14 := by decide
  have line_unbroken := unbroken_line unbroken
  have room : (ascii "original_path=" ++ path).length + 1 < pathMax := by
    rw [List.length_append, pathMax, key_length]
    simp only [pathMax] at short
    omega
  have found : (lines pathMax (recordText path time size)).find?
      (fun line => ascii "original_path=" <+: line) =
        some (ascii "original_path=" ++ (path ++ [newline])) := by
    unfold recordText
    rw [← List.append_assoc, lines_line _ line_unbroken room, List.append_assoc]
    exact List.find?_cons_of_pos (by simp)
  have text : cString (path ++ [newline]) = path ++ [newline] := by
    apply cString_eq_self
    intro nul_mem
    rcases List.mem_append.mp nul_mem with in_path | in_end
    · exact no_nul in_path
    · exact absurd in_end (by decide)
  have last : (path ++ [newline]).rtakeWhile (· ≠ slash) =
      path.rtakeWhile (· ≠ slash) ++ [newline] :=
    List.rtakeWhile_concat_pos _ _ _ (by decide)
  have dropped : (ascii "original_path=" ++ (path ++ [newline])).drop 14 = path ++ [newline] :=
    List.drop_left' key_length
  unfold scanDisp
  rw [found]
  simp only [dispOf, dropped, text, last, List.length_append, List.length_singleton]

/-- A last name that leaves room for a NUL is shown. -/
theorem scanDisp_of_short (unbroken : newline ∉ path) (no_nul : 0 ∉ path)
    (short : path.length ≤ pathMax - 16)
    (room : (path.rtakeWhile (· ≠ slash)).length < nameMax) :
    scanDisp behind (recordText path time size) = some (path.rtakeWhile (· ≠ slash)) := by
  have plain : ∀ byte ∈ path.rtakeWhile (· ≠ slash), inLine byte = true := by
    intro byte byte_mem
    exact inLine_of_plain unbroken no_nul byte ((List.rtakeWhile_suffix _ _).subset byte_mem)
  rw [scanDisp_recordText unbroken no_nul short]
  generalize path.rtakeWhile (· ≠ slash) = last at plain room ⊢
  simp only
  rw [List.take_of_length_le (by rw [List.length_append]; exact room), List.append_assoc,
    List.singleton_append, firstLine_append_newline, firstLine_eq_self plain, if_neg]
  intro all_plain
  have := List.all_eq_true.mp all_plain newline (by simp)
  exact absurd this (by decide)

/-- A last name of `NAME_MAX` bytes is not ended in the array, unless the byte behind it ends it. -/
theorem scanDisp_of_full (unbroken : newline ∉ path) (no_nul : 0 ∉ path)
    (short : path.length ≤ pathMax - 16)
    (full : (path.rtakeWhile (· ≠ slash)).length = nameMax) (ordinary : inLine behind = true) :
    scanDisp behind (recordText path time size) = none := by
  have plain : ∀ byte ∈ path.rtakeWhile (· ≠ slash), inLine byte = true := by
    intro byte byte_mem
    exact inLine_of_plain unbroken no_nul byte ((List.rtakeWhile_suffix _ _).subset byte_mem)
  rw [scanDisp_recordText unbroken no_nul short]
  generalize path.rtakeWhile (· ≠ slash) = last at plain full ⊢
  have unended : (if last.length + 1 < nameMax then 0 else behind) = behind := if_neg (by omega)
  simp only [unended]
  rw [← full, List.take_left, if_pos]
  apply List.all_eq_true.mpr
  intro byte byte_mem
  rcases List.mem_append.mp byte_mem with in_last | at_end
  · exact plain byte in_last
  · rw [List.mem_singleton.mp at_end, ordinary]

end Readers

section RoundTrip

/-- All readers of a record get back what was written, the browser the last name of the path. -/
structure ReadBack (path : Bytes) (time : LocalTime) (size : ℕ) (behind : UInt8) : Prop where
  restored : scanOriginal (recordText path time size) = some path
  listed : scanEntry (recordText path time size) = ⟨path, timestr time, size⟩
  displayed : scanDisp behind (recordText path time size) = some (basename path)

variable {path : Bytes} {time : LocalTime} {size : ℕ} {behind : UInt8}

/-- `cmd_restore` gets at most 241 bytes of a path. -/
theorem length_le_of_restored (nonempty : path ≠ []) (unbroken : newline ∉ path)
    (no_nul : 0 ∉ path) (restored : scanOriginal (recordText path time size) = some path) :
    path.length ≤ 241 := by
  have whole := firstLine_eq_self (inLine_of_plain unbroken no_nul)
  rw [scanOriginal_eq_take (by rwa [whole]), whole, Option.some.injEq] at restored
  exact (List.take_eq_self_iff _).mp restored

theorem basename_eq_rtakeWhile (nonempty : path ≠ []) (unslashed : endsInSlash path = false) :
    basename path = path.rtakeWhile (· ≠ slash) := by
  rw [basename, rdropWhile_slash_of_not_endsInSlash unslashed, if_neg nonempty, if_neg nonempty]

/-- A path is read back by all readers if and only if it has at most 241 bytes and does not
end in a slash. -/
theorem readBack_iff (nonempty : path ≠ []) (unbroken : newline ∉ path) (no_nul : 0 ∉ path)
    (valid : time.Valid) (range : size < 2 ^ 63) :
    ReadBack path time size behind ↔ path.length ≤ 241 ∧ endsInSlash path = false := by
  have room : pathMax - 16 = 4080 := by decide
  have names : nameMax = 255 := rfl
  have last_le := (List.rtakeWhile_suffix (fun byte => decide (byte ≠ slash)) path).length_le
  constructor
  · intro back
    have short := length_le_of_restored nonempty unbroken no_nul back.restored
    refine ⟨short, ?_⟩
    by_contra slashed
    rw [Bool.not_eq_false] at slashed
    -- nothing stands behind the last slash
    have empty : path.rtakeWhile (· ≠ slash) = [] := by
      rw [List.rtakeWhile_eq_nil_iff]
      intro some_path
      simp only [endsInSlash, List.getLast?_eq_getLast_of_ne_nil some_path, Option.some.injEq,
        decide_eq_true_eq] at slashed
      simp [slashed]
    have shown := back.displayed
    rw [scanDisp_of_short unbroken no_nul (by omega) (by omega), empty, Option.some.injEq] at shown
    unfold basename at shown
    rw [if_neg nonempty] at shown
    split at shown
    · cases shown
    · next named =>
        have some_name := basename_ne_nil named
        rw [basename, if_neg nonempty, if_neg named] at some_name
        exact some_name shown.symm
  · rintro ⟨short, unslashed⟩
    have whole := firstLine_eq_self (inLine_of_plain unbroken no_nul)
    refine ⟨?_, scanEntry_recordText nonempty unbroken no_nul short valid range, ?_⟩
    · rw [scanOriginal_eq_take (by rwa [whole]), whole, List.take_of_length_le short]
    · rw [scanDisp_of_short unbroken no_nul (by omega) (by omega),
        basename_eq_rtakeWhile nonempty unslashed]

/-- A second of the year 1970. -/
def epoch : LocalTime := ⟨1970, 1, 1, 0, 0, 1⟩

theorem valid_epoch : epoch.Valid := ⟨by decide, by decide, by decide, by decide, by decide,
  by decide⟩

/-- The record of `/a` is read back. -/
theorem readBack_a : ReadBack (ascii "/a") epoch 1 255 :=
  (readBack_iff (by decide) (by decide) (by decide) valid_epoch (by decide)).mpr (by decide)

/-- A path of 242 bytes is not. -/
theorem not_readBack_long :
    ¬ ∀ (path : Bytes) (time : LocalTime) (size : ℕ) (behind : UInt8), path ≠ [] →
      path.length ≤ pathMax - 16 → newline ∉ path → 0 ∉ path → (basename path).length ≤ nameMax →
      time.Valid → size < 2 ^ 63 → ReadBack path time size behind := by
  intro claimed
  have unbroken : newline ∉ slash :: List.replicate 241 97 := by decide +kernel
  have no_nul : 0 ∉ slash :: List.replicate 241 97 := by decide +kernel
  have back := claimed (slash :: List.replicate 241 97) epoch 1 0 (List.cons_ne_nil _ _)
    (by decide +kernel) unbroken no_nul (by decide +kernel) valid_epoch (by decide)
  have short := length_le_of_restored (List.cons_ne_nil _ _) unbroken no_nul back.restored
  rw [List.length_cons, List.length_replicate] at short
  omega

end RoundTrip

section Ids

variable {now : ℤ} {random : ℕ} {origName : Name}

/-- The readers' copy of the id in the name of a record stays inside `id[64]`. -/
def IdFits (name : Name) : Prop := ∀ id ∈ idOfRecord name, id.length < 64

/-- The bytes of a generated id before it is cut. -/
def idLength (now : ℤ) (origName : Name) : ℕ :=
  (signed now).length + 6 + ((getFileExtension origName).getD []).length

theorem length_padded_random : (padded 5 (random % 100000)).length = 5 := by
  have : (decimal (random % 100000)).length ≤ 5 :=
    length_decimal_le 5 (by decide) (Nat.mod_lt random (by decide))
  rw [padded, List.length_append, List.length_replicate]
  omega

theorem length_generateUniqueName (now : ℤ) (random : ℕ) (origName : Name) :
    (generateUniqueName now random origName).length = min 255 (idLength now origName) := by
  have underscore : (ascii "_").length = 1 := by decide
  simp only [generateUniqueName, snprintf, List.length_take, List.length_append,
    length_padded_random, underscore, idLength]

/-- The name of the record is one that a file can have, if it is short enough. -/
theorem validName_record (valid : ValidName origName)
    (short : (generateUniqueName now random origName).length ≤ 250) :
    ValidName (generateUniqueName now random origName ++ ascii ".info") := by
  have byte_cases : ∀ byte ∈ generateUniqueName now random origName,
      IsNumeral byte ∨ byte = 95 ∨ byte ∈ origName := by
    intro byte byte_mem
    rcases List.mem_append.mp (List.mem_of_mem_take byte_mem) with number | in_extension
    · rcases List.mem_append.mp number with front | random_mem
      · rcases List.mem_append.mp front with now_mem | underscore
        · exact .inl (isNumeral_of_mem_signed byte now_mem)
        · exact .inr (.inl (List.mem_singleton.mp underscore))
      · exact .inl (isNumeral_of_mem_padded byte random_mem)
    · cases has : getFileExtension origName with
      | none => simp [has] at in_extension
      | some extension =>
          rw [has, Option.getD_some] at in_extension
          exact .inr (.inr (mem_of_mem_getFileExtension has in_extension))
  have long : 5 < (generateUniqueName now random origName ++ ascii ".info").length := by
    rw [List.length_append, length_generateUniqueName, idLength]
    have suffix_length : (ascii ".info").length = 5 := by decide
    omega
  refine ⟨?_, ?_, ?_, ?_, ?_, ?_⟩
  · intro same
    rw [same] at long
    exact absurd long (by decide)
  · intro same
    rw [same] at long
    exact absurd long (by decide)
  · intro same
    rw [same] at long
    exact absurd long (by decide)
  · intro slash_mem
    rcases List.mem_append.mp slash_mem with in_id | in_suffix
    · rcases byte_cases slash in_id with numeral | underscore | in_name
      · exact not_isNumeral_of_lt (by decide) numeral
      · exact absurd underscore (by decide)
      · exact valid.no_slash in_name
    · exact absurd in_suffix (by decide)
  · intro nul_mem
    rcases List.mem_append.mp nul_mem with in_id | in_suffix
    · rcases byte_cases 0 in_id with numeral | underscore | in_name
      · exact not_isNumeral_of_lt (by decide) numeral
      · exact absurd underscore (by decide)
      · exact valid.no_nul in_name
    · exact absurd in_suffix (by decide)
  · rw [List.length_append]
    have suffix_length : (ascii ".info").length = 5 := by decide
    simp only [nameMax]
    omega

/-- A generated id is a name that a file can have, if its record can. -/
theorem validName_id
    (record : ValidName (generateUniqueName now random origName ++ ascii ".info")) :
    ValidName (generateUniqueName now random origName) := by
  have suffix_length : (ascii ".info").length = 5 := by decide
  have id_length := length_generateUniqueName now random origName
  have short := record.short
  rw [List.length_append, suffix_length] at short
  have long : 2 < (generateUniqueName now random origName).length := by
    rw [id_length, idLength]
    omega
  refine ⟨?_, ?_, ?_, fun here => record.no_slash (List.mem_append_left _ here),
    fun here => record.no_nul (List.mem_append_left _ here), by omega⟩
  · intro same
    rw [same] at long
    exact absurd long (by decide)
  · intro same
    rw [same] at long
    exact absurd long (by decide)
  · intro same
    rw [same] at long
    exact absurd long (by decide)

/-- The id of a record that can exist fits if and only if it was not longer than 63 bytes or is
so long that no record can have its name. -/
theorem idFits_iff (valid : ValidName origName) :
    (ValidName (generateUniqueName now random origName ++ ascii ".info") →
        IdFits (generateUniqueName now random origName ++ ascii ".info")) ↔
      idLength now origName ≤ 63 ∨ 250 < idLength now origName := by
  have id_length := length_generateUniqueName now random origName
  have suffix_length : (ascii ".info").length = 5 := by decide
  have some_id : generateUniqueName now random origName ≠ [] := by
    rw [← List.length_pos_iff, id_length, idLength]
    omega
  constructor
  · intro fits
    by_contra between
    have record : ValidName (generateUniqueName now random origName ++ ascii ".info") :=
      validName_record valid (by omega)
    have := fits record _ (idOfRecord_eq_some.mpr ⟨rfl, some_id⟩)
    omega
  · intro size record id recovered
    rw [idOfRecord_eq_some.mpr ⟨rfl, some_id⟩, Option.mem_some_iff] at recovered
    have short := record.short
    rw [List.length_append, suffix_length] at short
    rw [← recovered]
    simp only [nameMax] at short
    omega

/-- The id of a file `a.txt` fits. -/
theorem idFits_txt : ValidName (generateUniqueName 1 0 (ascii "a.txt") ++ ascii ".info") ∧
    IdFits (generateUniqueName 1 0 (ascii "a.txt") ++ ascii ".info") := by
  have record : ValidName (generateUniqueName 1 0 (ascii "a.txt") ++ ascii ".info") := by
    decide +kernel
  exact ⟨record, (idFits_iff (by decide)).mpr (by decide) record⟩

/-- The id of a file with an extension of 60 bytes does not fit. -/
theorem not_idFits_long :
    ¬ ∀ (now : ℤ) (random : ℕ) (origName : Name), ValidName origName →
      ValidName (generateUniqueName now random origName ++ ascii ".info") →
        IdFits (generateUniqueName now random origName ++ ascii ".info") := by
  intro claimed
  have fits := claimed 1 0 (97 :: 46 :: List.replicate 59 97) (by decide) (by decide +kernel)
  have overrun : idOfRecord (generateUniqueName 1 0 (97 :: 46 :: List.replicate 59 97) ++
      ascii ".info") = some (ascii "1_00000." ++ List.replicate 59 97) := by decide +kernel
  have := fits _ overrun
  exact absurd this (by decide)

end Ids

end Osis.CourseWork
