import Mathlib.Data.List.Basic
import Mathlib.Data.List.TakeWhile
import Mathlib.Data.Nat.Notation
import Mathlib.Data.Int.Notation

/-!
# Texts of the C library

A text is the list of its bytes, without the NUL that ends it in memory. The
input functions work on these bytes: `fgets` hands out lines in pieces of the
size of its buffer, `sscanf` matches a literal key and takes a run of bytes or a
number behind it.
-/

namespace Osis.Posix

/-- The bytes of a text or of a file. -/
abbrev Bytes := List UInt8

/-- The bytes of an ASCII literal. -/
def ascii (text : String) : Bytes := text.toList.map fun char => UInt8.ofNat char.toNat

/-- A newline. -/
def newline : UInt8 := 10

/-- `snprintf` into a buffer of `size` bytes, given the text it formats. -/
def snprintf (size : ℕ) (text : Bytes) : Bytes := text.take (size - 1)

section Formats

/-- `%d` of a natural number. -/
def decimal (number : ℕ) : Bytes :=
  (Nat.toDigits 10 number).map fun char => UInt8.ofNat char.toNat

/-- `%0<width>d` of a natural number. -/
def padded (width number : ℕ) : Bytes :=
  List.replicate (width - (decimal number).length) 48 ++ decimal number

/-- A number or text in a field of `%<width>`. -/
def widened (width : ℕ) (text : Bytes) : Bytes :=
  List.replicate (width - text.length) 32 ++ text

/-- `%ld`. -/
def signed (number : ℤ) : Bytes :=
  if number < 0 then 45 :: decimal number.natAbs else decimal number.natAbs

/-- The bytes of printed numbers. -/
def IsNumeral (byte : UInt8) : Prop := byte = 45 ∨ 48 ≤ byte ∧ byte ≤ 57

theorem isNumeral_of_mem_decimal {number : ℕ} :
    ∀ byte ∈ decimal number, 48 ≤ byte ∧ byte ≤ 57 := by
  intro byte byte_mem
  rcases List.mem_map.mp byte_mem with ⟨char, char_mem, rfl⟩
  have digit := Nat.isDigit_of_mem_toDigits (by decide) (by decide) char_mem
  simp only [Char.isDigit, Bool.and_eq_true, decide_eq_true_eq, ge_iff_le] at digit
  have lower : 48 ≤ char.toNat := digit.1
  have upper : char.toNat ≤ 57 := digit.2
  constructor
  · rw [UInt8.le_iff_toNat_le, UInt8.toNat_ofNat']
    simp only [UInt8.reduceToNat]
    omega
  · rw [UInt8.le_iff_toNat_le, UInt8.toNat_ofNat']
    simp only [UInt8.reduceToNat]
    omega

theorem isNumeral_of_mem_padded {width number : ℕ} :
    ∀ byte ∈ padded width number, IsNumeral byte := by
  intro byte byte_mem
  rcases List.mem_append.mp byte_mem with filler | digit
  · rw [List.eq_of_mem_replicate filler]
    exact Or.inr (by decide)
  · exact Or.inr (isNumeral_of_mem_decimal byte digit)

theorem isNumeral_of_mem_signed {number : ℤ} : ∀ byte ∈ signed number, IsNumeral byte := by
  intro byte byte_mem
  unfold signed at byte_mem
  split at byte_mem
  · rcases List.mem_cons.mp byte_mem with rfl | digit
    · exact Or.inl rfl
    · exact Or.inr (isNumeral_of_mem_decimal byte digit)
  · exact Or.inr (isNumeral_of_mem_decimal byte byte_mem)

/-- No byte outside the numerals is printed. -/
theorem not_isNumeral_of_lt {byte : UInt8} (low : byte < 45 ∨ byte = 46 ∨ byte = 47) :
    ¬IsNumeral byte := by
  simp only [IsNumeral, UInt8.le_iff_toNat_le, UInt8.lt_iff_toNat_lt, ← UInt8.toNat_inj,
    UInt8.reduceToNat] at low ⊢
  omega

theorem decimal_ne_nil (number : ℕ) : decimal number ≠ [] := by
  simp [decimal, Nat.toDigits_ne_nil]

end Formats

section Lines

/-- The bytes `fgets` takes: up to and with the first newline, at most `limit`. -/
def takeLine : ℕ → Bytes → Bytes
  | 0, _ => []
  | _, [] => []
  | limit + 1, byte :: rest => if byte = newline then [byte] else byte :: takeLine limit rest

theorem length_takeLine_le (limit : ℕ) (text : Bytes) : (takeLine limit text).length ≤ limit := by
  induction limit generalizing text with
  | zero => simp [takeLine]
  | succ limit ih =>
      cases text with
      | nil => simp [takeLine]
      | cons byte rest =>
          unfold takeLine
          split
          · simp
          · simpa using ih rest

theorem takeLine_ne_nil {limit : ℕ} {text : Bytes} (positive : 0 < limit) (some_left : text ≠ []) :
    takeLine limit text ≠ [] := by
  cases limit with
  | zero => exact absurd positive (Nat.lt_irrefl 0)
  | succ limit =>
      cases text with
      | nil => exact absurd rfl some_left
      | cons byte rest =>
          unfold takeLine
          split <;> simp

/-- A start without a newline is taken as it is. -/
theorem takeLine_append {limit : ℕ} {start : Bytes} (rest : Bytes) (unbroken : newline ∉ start)
    (short : start.length ≤ limit) :
    takeLine limit (start ++ rest) = start ++ takeLine (limit - start.length) rest := by
  induction start generalizing limit with
  | nil => simp
  | cons byte start ih =>
      cases limit with
      | zero => simp at short
      | succ limit =>
          simp only [List.mem_cons, not_or] at unbroken
          simp only [List.length_cons, Nat.add_le_add_iff_right] at short
          simp only [List.cons_append, takeLine, Ne.symm unbroken.1, if_false, List.length_cons,
            Nat.reduceSubDiff, ih unbroken.2 short]

/-- The lines a loop of `fgets` gets, given at most `fuel` of them. -/
def linesWithin (limit : ℕ) : ℕ → Bytes → List Bytes
  | 0, _ => []
  | fuel + 1, text =>
      if takeLine limit text = [] then []
      else takeLine limit text ::
        linesWithin limit fuel (text.drop (takeLine limit text).length)

/-- The lines of `while (fgets(line, size, fp))`; a longer line comes in pieces. -/
def lines (size : ℕ) (text : Bytes) : List Bytes := linesWithin (size - 1) text.length text

theorem takeLine_nil (limit : ℕ) : takeLine limit [] = [] := by
  cases limit <;> rfl

theorem takeLine_prefix_text (limit : ℕ) (text : Bytes) : takeLine limit text <+: text := by
  induction limit generalizing text with
  | zero => simp [takeLine]
  | succ limit ih =>
      cases text with
      | nil => simp [takeLine]
      | cons byte text =>
          unfold takeLine
          split
          · exact ⟨text, rfl⟩
          · exact (List.cons_prefix_cons).mpr ⟨rfl, ih text⟩

theorem subset_of_mem_linesWithin {limit fuel : ℕ} {text line : Bytes}
    (line_mem : line ∈ linesWithin limit fuel text) : line ⊆ text := by
  induction fuel generalizing text with
  | zero => cases line_mem
  | succ fuel ih =>
      unfold linesWithin at line_mem
      split at line_mem
      · cases line_mem
      · rcases List.mem_cons.mp line_mem with rfl | later
        · exact (takeLine_prefix_text limit text).subset
        · exact List.Subset.trans (ih later) (List.drop_subset _ _)

/-- The bytes of a line are bytes of the text. -/
theorem subset_of_mem_lines {size : ℕ} {text line : Bytes} (line_mem : line ∈ lines size text) :
    line ⊆ text :=
  subset_of_mem_linesWithin line_mem

/-- More than enough fuel gives the same lines. -/
theorem linesWithin_congr {limit fuel fuel' : ℕ} {text : Bytes} (enough : text.length ≤ fuel)
    (enough' : text.length ≤ fuel') :
    linesWithin limit fuel text = linesWithin limit fuel' text := by
  induction fuel generalizing fuel' text with
  | zero =>
      have text_eq : text = [] := List.eq_nil_of_length_eq_zero (by omega)
      cases fuel' <;> simp [linesWithin, text_eq, takeLine_nil]
  | succ fuel ih =>
      cases fuel' with
      | zero =>
          have text_eq : text = [] := List.eq_nil_of_length_eq_zero (by omega)
          simp [linesWithin, text_eq, takeLine_nil]
      | succ fuel' =>
          unfold linesWithin
          split
          · rfl
          · rename_i taken
            have progress : 0 < (takeLine limit text).length := List.length_pos_iff.mpr taken
            congr 1
            apply ih
            · rw [List.length_drop]
              omega
            · rw [List.length_drop]
              omega

theorem lines_nil (size : ℕ) : lines size [] = [] := rfl

theorem lines_of_ne_nil {size : ℕ} {text : Bytes} (room : 1 < size) (some_left : text ≠ []) :
    lines size text =
      takeLine (size - 1) text :: lines size (text.drop (takeLine (size - 1) text).length) := by
  have taken : takeLine (size - 1) text ≠ [] := takeLine_ne_nil (by omega) some_left
  have progress : 0 < (takeLine (size - 1) text).length := List.length_pos_iff.mpr taken
  have left : text.length = text.length - 1 + 1 := by
    have := List.length_pos_iff.mpr some_left
    omega
  unfold lines
  rw [left]
  simp only [linesWithin, taken, if_false]
  congr 1
  apply linesWithin_congr
  · rw [List.length_drop]
    omega
  · exact Nat.le_refl _

/-- What `fgets` takes of a typed line: the line with its newline, or the start of a longer one. -/
theorem takeLine_line {limit : ℕ} {line : Bytes} (rest : Bytes) (unbroken : newline ∉ line) :
    takeLine limit (line ++ newline :: rest) =
      if line.length < limit then line ++ [newline] else line.take limit := by
  induction line generalizing limit with
  | nil => cases limit <;> simp [takeLine]
  | cons byte line ih =>
      simp only [List.mem_cons, not_or] at unbroken
      cases limit with
      | zero => simp [takeLine]
      | succ limit =>
          simp only [List.cons_append, takeLine, Ne.symm unbroken.1, if_false, ih unbroken.2,
            List.length_cons, Nat.add_lt_add_iff_right, List.take_succ_cons]
          split <;> rfl

/-- A line that fits with its newline is got in one piece. -/
theorem lines_line {size : ℕ} {line : Bytes} (rest : Bytes) (unbroken : newline ∉ line)
    (short : line.length + 1 < size) :
    lines size (line ++ newline :: rest) = (line ++ [newline]) :: lines size rest := by
  have first : takeLine (size - 1) (line ++ newline :: rest) = line ++ [newline] := by
    rw [takeLine_line rest unbroken, if_pos (by omega)]
  have whole : line ++ newline :: rest = (line ++ [newline]) ++ rest := by simp
  rw [lines_of_ne_nil (by omega) (by simp), first, whole, List.drop_left]

/-- A line that fits without its newline only leaves the newline for the next call. -/
theorem lines_full {size : ℕ} {line : Bytes} (rest : Bytes) (unbroken : newline ∉ line)
    (nonempty : line ≠ []) (exact : line.length + 1 = size) :
    lines size (line ++ newline :: rest) = line :: lines size (newline :: rest) := by
  have positive : 0 < line.length := List.length_pos_iff.mpr nonempty
  have first : takeLine (size - 1) (line ++ newline :: rest) = line := by
    rw [takeLine_line rest unbroken, if_neg (by omega), List.take_of_length_le (by omega)]
  rw [lines_of_ne_nil (by omega) (by simp), first, List.drop_left]

end Lines

section Scanning

/-- The bytes `%[^\n]` takes; a NUL ends the text. -/
def inLine (byte : UInt8) : Bool := byte ≠ newline && byte ≠ 0

/-- A text up to its first newline. -/
def firstLine (text : Bytes) : Bytes := text.takeWhile inLine

/-- `sscanf(line, "<key>%[^\n]", ...)`, `none` where it does not return 1. -/
def scanText (key line : Bytes) : Option Bytes :=
  if key <+: line then
    let value := firstLine (line.drop key.length)
    -- the conversion takes at least one byte
    if value = [] then none else some value
  else none

/-- The value of a run of decimal digits, with what was read before it. -/
def digitsFrom (value : ℕ) : Bytes → ℕ
  | [] => value
  | byte :: rest =>
      if 48 ≤ byte ∧ byte ≤ 57 then digitsFrom (value * 10 + (byte.toNat - 48)) rest else value

/-- White space of the C locale. -/
def isSpace (byte : UInt8) : Bool := byte = 32 || (9 ≤ byte && byte ≤ 13)

/-- `atoi` of a text that fits in a `long`. -/
def atoi (text : Bytes) : ℤ :=
  match text.dropWhile isSpace with
  | 45 :: rest => -(digitsFrom 0 rest : ℤ)
  | 43 :: rest => digitsFrom 0 rest
  | rest => digitsFrom 0 rest

/-- `sscanf(line, "<key>%ld", ...)` of a number that fits in a `long`. -/
def scanLong (key line : Bytes) : Option ℤ :=
  if key <+: line then
    let value := (line.drop key.length).dropWhile isSpace
    let digits := if value.head? = some 45 ∨ value.head? = some 43 then value.tail else value
    match digits with
    | digit :: _ => if 48 ≤ digit ∧ digit ≤ 57 then some (atoi value) else none
    | [] => none
  else none

variable {key value rest line : Bytes}

theorem scanText_of_not_prefix (different : ¬key <+: line) : scanText key line = none :=
  if_neg different

theorem scanText_value (nonempty : firstLine rest ≠ []) :
    scanText key (key ++ rest) = some (firstLine rest) := by
  simp [scanText, nonempty]

theorem firstLine_takeLine (limit : ℕ) (text : Bytes) :
    firstLine (takeLine limit text) = (firstLine text).take limit := by
  induction limit generalizing text with
  | zero => simp [takeLine, firstLine]
  | succ limit ih =>
      cases text with
      | nil => simp [takeLine, firstLine]
      | cons byte rest =>
          unfold takeLine
          split
          · rename_i isNewline
            simp [firstLine, inLine, isNewline]
          · have tail_eq := ih rest
            simp only [firstLine, List.takeWhile_cons] at tail_eq ⊢
            split
            · simp [tail_eq]
            · rfl

theorem firstLine_append_newline : firstLine (value ++ newline :: rest) = firstLine value := by
  induction value with
  | nil => simp [firstLine, inLine]
  | cons byte value ih =>
      simp only [firstLine, List.cons_append, List.takeWhile_cons] at ih ⊢
      split
      · rw [ih]
      · rfl

theorem firstLine_eq_self (plain : ∀ byte ∈ value, inLine byte = true) :
    firstLine value = value :=
  List.takeWhile_eq_self_iff.mpr plain

/-- The first piece of a line `<key><value>` scans to the value up to its first newline, cut to
what fits in the piece. -/
theorem scanText_takeLine {limit : ℕ} (unbroken : newline ∉ key) (nonempty : firstLine value ≠ [])
    (room : key.length < limit) :
    scanText key (takeLine limit (key ++ (value ++ newline :: rest))) =
      some ((firstLine value).take (limit - key.length)) := by
  have piece : firstLine (takeLine (limit - key.length) (value ++ newline :: rest)) =
      (firstLine value).take (limit - key.length) := by
    rw [firstLine_takeLine, firstLine_append_newline]
  have some_byte : (firstLine value).take (limit - key.length) ≠ [] := by
    rw [Ne, List.take_eq_nil_iff, not_or]
    exact ⟨by omega, nonempty⟩
  rw [takeLine_append _ unbroken (by omega), scanText_value (by rwa [piece]), piece]

end Scanning

section Numbers

variable {key rest : Bytes} {chars : List Char} {value number : ℕ}

/-- A decimal digit. -/
def IsDigit (byte : UInt8) : Prop := 48 ≤ byte ∧ byte ≤ 57

instance (byte : UInt8) : Decidable (IsDigit byte) := inferInstanceAs (Decidable (_ ∧ _))

/-- The digits of a number are read up to the first byte that is none. -/
theorem digitsFrom_append (digits : ∀ char ∈ chars, char.isDigit = true) :
    digitsFrom value ((chars.map fun char => UInt8.ofNat char.toNat) ++ rest) =
      digitsFrom (Nat.ofDigitChars 10 chars value) rest := by
  induction chars generalizing value with
  | nil => rw [List.map_nil, List.nil_append, Nat.ofDigitChars_nil]
  | cons char chars ih =>
      have digit := digits char List.mem_cons_self
      simp only [Char.isDigit, Bool.and_eq_true, decide_eq_true_eq, ge_iff_le] at digit
      have lower : 48 ≤ char.toNat := digit.1
      have upper : char.toNat ≤ 57 := digit.2
      have byte_eq : (UInt8.ofNat char.toNat).toNat = char.toNat := by
        rw [UInt8.toNat_ofNat']
        omega
      have inRange : 48 ≤ UInt8.ofNat char.toNat ∧ UInt8.ofNat char.toNat ≤ 57 := by
        simp only [UInt8.le_iff_toNat_le, byte_eq, UInt8.reduceToNat]
        exact ⟨lower, upper⟩
      rw [List.map_cons, List.cons_append, digitsFrom, if_pos inRange, byte_eq,
        ih fun other other_mem => digits other (List.mem_cons_of_mem _ other_mem),
        Nat.ofDigitChars_cons, Nat.mul_comm]
      rfl

theorem digitsFrom_decimal (ends : ∀ byte ∈ rest.head?, ¬(48 ≤ byte ∧ byte ≤ 57)) :
    digitsFrom 0 (decimal number ++ rest) = number := by
  have digits : ∀ char ∈ Nat.toDigits 10 number, char.isDigit = true := fun _ char_mem =>
    Nat.isDigit_of_mem_toDigits (by decide) (by decide) char_mem
  rw [decimal, digitsFrom_append digits, Nat.ofDigitChars_ten_toDigits]
  cases rest with
  | nil => rfl
  | cons byte rest => exact if_neg (ends byte rfl)

/-- A digit is neither a space nor a sign. -/
theorem isSpace_of_digit {byte : UInt8} (digit : 48 ≤ byte ∧ byte ≤ 57) : isSpace byte = false := by
  have lower := digit.1
  simp only [isSpace, Bool.or_eq_false_iff, Bool.and_eq_false_iff, decide_eq_false_iff_not,
    ← UInt8.toNat_inj, UInt8.le_iff_toNat_le, UInt8.reduceToNat] at lower ⊢
  omega

theorem unsigned_of_digit {byte : UInt8} (digit : 48 ≤ byte ∧ byte ≤ 57) :
    byte ≠ 45 ∧ byte ≠ 43 := by
  have lower := digit.1
  simp only [ne_eq, ← UInt8.toNat_inj, UInt8.le_iff_toNat_le, UInt8.reduceToNat] at lower ⊢
  omega

/-- A printed natural number is read back. -/
theorem scanLong_decimal (ends : ∀ byte ∈ rest.head?, ¬(48 ≤ byte ∧ byte ≤ 57)) :
    scanLong key (key ++ (decimal number ++ rest)) = some (number : ℤ) := by
  have read : digitsFrom 0 (decimal number ++ rest) = number := digitsFrom_decimal ends
  rcases List.exists_cons_of_ne_nil (decimal_ne_nil number) with
    ⟨digit, digits, decimal_eq⟩
  have isDigit : 48 ≤ digit ∧ digit ≤ 57 :=
    isNumeral_of_mem_decimal digit (decimal_eq ▸ List.mem_cons_self)
  rw [decimal_eq, List.cons_append] at read ⊢
  have visible := isSpace_of_digit isDigit
  have unsigned := unsigned_of_digit isDigit
  simp only [scanLong, List.prefix_append, if_true, List.drop_left, List.dropWhile_cons, visible,
    Bool.false_eq_true, if_false, List.head?_cons, Option.some.injEq, unsigned.1, unsigned.2,
    or_self, isDigit, and_self, atoi]
  split
  · next same => exact absurd (List.cons.inj same).1 unsigned.1
  · next same => exact absurd (List.cons.inj same).1 unsigned.2
  · rw [read]

/-- A number goes on with the digits behind a run of digits. -/
theorem digitsFrom_digits {digits more : Bytes} (all : ∀ byte ∈ digits, IsDigit byte) :
    digitsFrom value (digits ++ more) = digitsFrom (digitsFrom value digits) more := by
  induction digits generalizing value with
  | nil => rfl
  | cons byte digits ih =>
      have digit : 48 ≤ byte ∧ byte ≤ 57 := all byte List.mem_cons_self
      simp only [List.cons_append, digitsFrom, if_pos digit]
      exact ih fun other other_mem => all other (List.mem_cons_of_mem _ other_mem)

theorem le_digitsFrom (value : ℕ) (text : Bytes) : value ≤ digitsFrom value text := by
  induction text generalizing value with
  | nil => exact Nat.le_refl _
  | cons byte text ih =>
      unfold digitsFrom
      split
      · have := ih (value * 10 + (byte.toNat - 48))
        omega
      · exact Nat.le_refl _

/-- Every further digit makes a number at least ten times as large. -/
theorem mul_le_digitsFrom {digits : Bytes} (all : ∀ byte ∈ digits, IsDigit byte)
    (some_left : digits ≠ []) : value * 10 ≤ digitsFrom value digits := by
  cases digits with
  | nil => exact absurd rfl some_left
  | cons byte digits =>
      have digit : 48 ≤ byte ∧ byte ≤ 57 := all byte List.mem_cons_self
      have := le_digitsFrom (value * 10 + (byte.toNat - 48)) digits
      rw [digitsFrom, if_pos digit]
      omega

theorem digitsFrom_append_of_ends {more : Bytes} (ends : ∀ byte ∈ more.head?, ¬IsDigit byte)
    (text : Bytes) : digitsFrom value (text ++ more) = digitsFrom value text := by
  induction text generalizing value with
  | nil =>
      cases more with
      | nil => rfl
      | cons byte more => exact if_neg (ends byte rfl)
  | cons byte text ih =>
      simp only [List.cons_append, digitsFrom, ih]

/-- `atoi` does not see what is behind a text if no number goes on or begins there. -/
theorem atoi_append {more : Bytes} (ends : ∀ byte ∈ more.head?, ¬IsDigit byte)
    (void : ∀ byte ∈ (more.dropWhile isSpace).head?, ¬IsDigit byte ∧ byte ≠ 45 ∧ byte ≠ 43)
    (text : Bytes) : atoi (text ++ more) = atoi text := by
  by_cases spaces : text.dropWhile isSpace = []
  · have skip : (text ++ more).dropWhile isSpace = more.dropWhile isSpace := by
      simp [List.dropWhile_append, spaces]
    unfold atoi
    rw [skip, spaces]
    cases left : more.dropWhile isSpace with
    | nil => rfl
    | cons byte left =>
        rcases void byte (by simp [left]) with ⟨notDigit, notMinus, notPlus⟩
        split
        · next same => exact absurd (List.cons.inj same).1 notMinus
        · next same => exact absurd (List.cons.inj same).1 notPlus
        · exact congrArg Nat.cast (if_neg notDigit)
  · have skip : (text ++ more).dropWhile isSpace = text.dropWhile isSpace ++ more := by
      simp [List.dropWhile_append, spaces]
    unfold atoi
    rw [skip]
    rcases List.exists_cons_of_ne_nil spaces with ⟨byte, left, text_eq⟩
    have read : ∀ value, digitsFrom value (left ++ more) = digitsFrom value left :=
      fun value => digitsFrom_append_of_ends ends left
    rw [text_eq]
    by_cases minus : byte = 45
    · simp [minus, read]
    · by_cases plus : byte = 43
      · simp [plus, read]
      · simp [minus, plus, digitsFrom, read]

/-- `atoi` of digits only. -/
theorem atoi_digits {digits : Bytes} (all : ∀ byte ∈ digits, IsDigit byte) :
    atoi digits = digitsFrom 0 digits := by
  cases digits with
  | nil => rfl
  | cons byte digits =>
      have digit : IsDigit byte := all byte List.mem_cons_self
      have visible := isSpace_of_digit digit
      have unsigned := unsigned_of_digit digit
      simp [atoi, visible, unsigned.1, unsigned.2]

end Numbers

end Osis.Posix
