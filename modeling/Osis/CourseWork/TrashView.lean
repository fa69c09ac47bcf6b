import Osis.CourseWork.Browser
import Osis.CourseWork.Contents
import Osis.Posix.Sort

/-!
# The order of the trash view

The view lists the names that `readdir` finds in `files` after `qsort` has put directories
first and then compared the last names of the original paths without case. A key takes the
selected index to another such list. Both lists agree for certain if and only if no two
entries compare equal and no name is too long for its array; two deletions of one path
are enough to break this.
-/

namespace Osis.CourseWork

open Posix

section Comparison

/-- `tolower` in a locale. -/
structure Locale where
  lower : UInt8 → UInt8
  /-- Nothing but the NUL becomes a NUL. -/
  lower_eq_zero : ∀ byte, lower byte = 0 ↔ byte = 0

/-- The locale `C`. -/
def asciiLocale : Locale where
  lower byte := if 65 ≤ byte ∧ byte ≤ 90 then byte + 32 else byte
  lower_eq_zero := by
    intro byte
    split
    · simp only [UInt8.le_iff_toNat_le, ← UInt8.toNat_inj, UInt8.toNat_add, UInt8.reduceToNat] at *
      omega
    · exact Iff.rfl

variable (locale : Locale)

/-- The difference of two bytes in lower case. -/
def byteDiff (a b : UInt8) : ℤ := (locale.lower a).toNat - (locale.lower b).toNat

/-- `strcasecmp`. -/
def strcasecmp : Bytes → Bytes → ℤ
  | [], [] => 0
  | [], b :: _ => byteDiff locale 0 b
  | a :: _, [] => byteDiff locale a 0
  | a :: left, b :: right =>
      if byteDiff locale a b ≠ 0 ∨ a = 0 then byteDiff locale a b
      else strcasecmp left right

/-- `cmp_entry`. -/
def cmpEntry (a b : BrowserEntry) : ℤ :=
  if a.isDir ≠ b.isDir then (if b.isDir then 1 else 0) - (if a.isDir then 1 else 0)
  else strcasecmp locale a.disp b.disp

/-- A text without its case. -/
def folded (text : Bytes) : List ℕ := (cString text).map fun byte => (locale.lower byte).toNat

/-- Directories come first. -/
def sortKey (entry : BrowserEntry) : List ℕ :=
  (if entry.isDir then 0 else 1) :: folded locale entry.disp

theorem lower_zero : (locale.lower 0).toNat = 0 := by
  rw [(locale.lower_eq_zero 0).mpr rfl]
  rfl

theorem lower_pos {byte : UInt8} (nonzero : byte ≠ 0) : 0 < (locale.lower byte).toNat := by
  have lower_ne : locale.lower byte ≠ 0 := fun zero =>
    nonzero ((locale.lower_eq_zero byte).mp zero)
  apply Nat.pos_of_ne_zero
  intro zero
  exact lower_ne (UInt8.toNat_inj.mp zero)

theorem folded_cons {byte : UInt8} (nonzero : byte ≠ 0) (text : Bytes) :
    folded locale (byte :: text) = (locale.lower byte).toNat :: folded locale text := by
  simp [folded, cString, nonzero]

theorem folded_nul (text : Bytes) : folded locale (0 :: text) = [] := by
  simp [folded, cString]

theorem strcasecmp_le_iff (left right : Bytes) :
    strcasecmp locale left right ≤ 0 ↔ folded locale left ≤ folded locale right := by
  have zero := lower_zero locale
  induction left generalizing right with
  | nil =>
      have least : folded locale [] ≤ folded locale right := nil_le _
      cases right <;> simp only [strcasecmp, byteDiff, zero, least, iff_true] <;> omega
  | cons a left ih =>
      by_cases ends : a = 0
      · subst ends
        have least : folded locale (0 :: left) ≤ folded locale right := by
          rw [folded_nul]
          exact nil_le _
        cases right <;>
          simp only [strcasecmp, byteDiff, zero, or_true, if_true, least, iff_true] <;> omega
      · have a_pos := lower_pos locale ends
        have not_least : ¬(locale.lower a).toNat :: folded locale left ≤ [] := by simp
        rw [folded_cons locale ends]
        cases right with
        | nil =>
            have none_left : folded locale [] = [] := rfl
            simp only [strcasecmp, byteDiff, zero, none_left, not_least, iff_false]
            omega
        | cons b right =>
            by_cases ends' : b = 0
            · subst ends'
              rw [folded_nul]
              have differs : ((locale.lower a).toNat : ℤ) - 0 ≠ 0 := by omega
              simp only [strcasecmp, byteDiff, zero, Int.natCast_zero, ne_eq, differs,
                not_false_eq_true, true_or, if_true, not_least, iff_false]
              omega
            · rw [folded_cons locale ends', cons_le_cons_iff]
              by_cases same : (locale.lower a).toNat = (locale.lower b).toNat
              · simp [strcasecmp, byteDiff, same, ends, ih]
              · have differs : ((locale.lower a).toNat : ℤ) - (locale.lower b).toNat ≠ 0 := by
                  omega
                simp only [strcasecmp, byteDiff, ne_eq, differs, not_false_eq_true, true_or,
                  if_true, same, false_and, or_false]
                omega

theorem cmpEntry_compares : ComparesBy (cmpEntry locale) (sortKey locale) := by
  intro a b
  unfold cmpEntry sortKey
  rw [cons_le_cons_iff]
  cases a.isDir <;> cases b.isDir <;> simp [strcasecmp_le_iff]

end Comparison

section View

/-- `build_trash_entries`, given the names in the order `readdir` finds them, what `realloc` left
in the last byte of each `disp`, and the sorting algorithm; `none` where a text is not ended. -/
def buildTrashEntries (fs : FileSystem) (cwd : Location) (base : Bytes) (readdir : List Name)
    (behind : Name → UInt8) (qsort : List BrowserEntry → List BrowserEntry) :
    Option (List BrowserEntry) :=
  match fs.stat cwd (trashFiles base) with
  | some .directory =>
      ((readdir.filter fun name => name ≠ dot && name ≠ dotDot).mapM fun name =>
        trashEntry fs cwd base (behind name) name).map qsort
  | _ => some []

/-- An order in which `readdir` may find the entries of `files`. -/
def Enumerates (fs : FileSystem) (cwd : Location) (base : Bytes) (readdir : List Name) : Prop :=
  ∀ files ∈ fs.resolve cwd (trashFiles base),
    readdir.Perm (dot :: dotDot :: fs.names files)

/-- All calls give the same ids in the same order. -/
def OneOrder (locale : Locale) (fs : FileSystem) (cwd : Location) (base : Bytes) : Prop :=
  ∃ ids, ∀ readdir behind qsort, Enumerates fs cwd base readdir → Sorts (cmpEntry locale) qsort →
    (buildTrashEntries fs cwd base readdir behind qsort).map (List.map BrowserEntry.id) = some ids

variable (locale : Locale) (fs : FileSystem) (cwd : Location) (base : Bytes)

/-- The last name of the original path in a record. -/
def shownName (record : Bytes) : Bytes :=
  match (lines pathMax record).find? fun line => ascii "original_path=" <+: line with
  | none => []
  | some line => firstLine ((cString (line.drop 14)).rtakeWhile (· ≠ slash))

/-- The name under which an entry of `files` was deleted, empty without a record. -/
def deletedName (name : Name) : Bytes :=
  ((fs.readFile cwd (snprintf pathMax (trashInfo base ++ slash :: (name ++ ascii ".info")))).map
    shownName).getD []

/-- An entry of `files` leads to a directory. -/
def trashedDirectory (name : Name) : Bool :=
  fs.stat cwd (snprintf pathMax (trashFiles base ++ slash :: name)) = some .directory

/-- Two entries of one kind were deleted under names that differ at most in case. -/
def LookAlike (name other : Name) : Prop :=
  trashedDirectory fs cwd base name = trashedDirectory fs cwd base other ∧
    folded locale (deletedName fs cwd base name) = folded locale (deletedName fs cwd base other)

/-- Every deleted name leaves room in its array, and no two entries look alike. -/
structure ToldApart : Prop where
  short : ∀ files ∈ fs.resolve cwd (trashFiles base), ∀ name ∈ fs.names files,
    (deletedName fs cwd base name).length < nameMax
  apart : ∀ files ∈ fs.resolve cwd (trashFiles base), ∀ name ∈ fs.names files,
    ∀ other ∈ fs.names files, LookAlike locale fs cwd base name other → name = other

variable {locale fs cwd base} {behind : UInt8} {line record : Bytes} {name : Name}

theorem firstLine_take (limit : ℕ) (text : Bytes) :
    firstLine (text.take limit) = (firstLine text).take limit :=
  List.take_takeWhile.symm

/-- A name that leaves room for the byte that ends it is shown whole. -/
theorem dispOf_of_short
    (short : (firstLine ((cString (line.drop 14)).rtakeWhile (· ≠ slash))).length < nameMax) :
    dispOf behind line = some (firstLine ((cString (line.drop 14)).rtakeWhile (· ≠ slash))) := by
  unfold dispOf
  generalize (cString (line.drop 14)).rtakeWhile (· ≠ slash) = source at short ⊢
  have piece : firstLine (source.take nameMax) = firstLine source := by
    rw [firstLine_take, List.take_of_length_le short.le]
  by_cases fits : source.length < nameMax
  · have ended : (source ++ [(0 : UInt8)]).all inLine = false := by simp [inLine]
    have shown : firstLine (source ++ [0]) = firstLine source := by
      unfold firstLine
      rw [List.takeWhile_append]
      split
      · next whole =>
          rw [List.takeWhile_cons_of_neg (by decide), List.append_nil]
          exact ((List.takeWhile_prefix _).eq_of_length whole).symm
      · rfl
    simp only [if_pos fits, List.take_of_length_le fits.le, ended, Bool.false_eq_true, if_false,
      shown]
  · have broken : (firstLine (source.take nameMax)).length ≠ (source.take nameMax).length := by
      rw [piece, List.length_take]
      omega
    have shown : firstLine (source.take nameMax ++ [behind]) = firstLine source := by
      rw [← piece]
      unfold firstLine at broken ⊢
      rw [List.takeWhile_append, if_neg broken]
    have ended : (source.take nameMax ++ [behind]).all inLine = false := by
      apply Bool.eq_false_iff.mpr
      intro plain
      rw [firstLine_eq_self (List.all_eq_true.mp plain)] at shown
      have := congrArg List.length shown
      rw [List.length_append, List.length_take, List.length_singleton] at this
      omega
    simp only [if_neg fits, ended, Bool.false_eq_true, if_false, shown]

/-- A longer one is not ended, unless the byte behind it ends it. -/
theorem dispOf_of_long (ordinary : inLine behind = true)
    (long : nameMax ≤ (firstLine ((cString (line.drop 14)).rtakeWhile (· ≠ slash))).length) :
    dispOf behind line = none := by
  unfold dispOf
  generalize (cString (line.drop 14)).rtakeWhile (· ≠ slash) = source at long ⊢
  have in_source : (firstLine source).length ≤ source.length :=
    (List.takeWhile_prefix _).length_le
  have piece : firstLine (source.take nameMax) = source.take nameMax := by
    apply (List.takeWhile_prefix _).eq_of_length
    rw [← firstLine, firstLine_take, List.length_take, List.length_take]
    omega
  have plain : (source.take nameMax).all inLine = true := by
    rw [← piece]
    exact List.all_takeWhile
  have unended : ¬source.length < nameMax := by omega
  simp [unended, plain, ordinary]

theorem scanDisp_of_shown (short : (shownName record).length < nameMax) :
    scanDisp behind record = some (shownName record) := by
  simp only [scanDisp, shownName] at short ⊢
  generalize (lines pathMax record).find? (fun line => ascii "original_path=" <+: line) = line
    at short ⊢
  cases line with
  | none => rfl
  | some line => exact dispOf_of_short short

theorem scanDisp_of_long (ordinary : inLine behind = true)
    (long : nameMax ≤ (shownName record).length) : scanDisp behind record = none := by
  simp only [scanDisp, shownName] at long ⊢
  generalize (lines pathMax record).find? (fun line => ascii "original_path=" <+: line) = line
    at long ⊢
  cases line with
  | none => exact absurd long (by decide)
  | some line => exact dispOf_of_long ordinary long

variable (fs cwd base) in
/-- What the view has of a name. -/
def entryFor (name : Name) : BrowserEntry :=
  ⟨name, deletedName fs cwd base name, trashedDirectory fs cwd base name⟩

theorem trashEntry_of_short (valid : ValidName name)
    (short : (deletedName fs cwd base name).length < nameMax) :
    trashEntry fs cwd base behind name = some (entryFor fs cwd base name) := by
  simp only [trashEntry, entryFor, deletedName, trashedDirectory,
    List.take_of_length_le valid.short] at short ⊢
  generalize fs.readFile cwd (snprintf pathMax
    (trashInfo base ++ slash :: (name ++ ascii ".info"))) = found at short ⊢
  cases found with
  | none => rfl
  | some record =>
      have shown : scanDisp behind record = some (shownName record) := scanDisp_of_shown short
      simp only [Option.map_some, Option.getD_some, shown]

theorem trashEntry_of_long (ordinary : inLine behind = true)
    (long : nameMax ≤ (deletedName fs cwd base name).length) :
    trashEntry fs cwd base behind name = none := by
  simp only [trashEntry, deletedName] at long ⊢
  generalize fs.readFile cwd (snprintf pathMax
    (trashInfo base ++ slash :: (name ++ ascii ".info"))) = found at long ⊢
  cases found with
  | none => exact absurd long (by decide)
  | some record =>
      have unended : scanDisp behind record = none := scanDisp_of_long ordinary long
      simp only [Option.map_some, Option.getD_some, unended, Option.map_none]

section Calls

variable {files : Location} {readdir names : List Name} {spare : Name → UInt8}
  {qsort : List BrowserEntry → List BrowserEntry}

/-- The loop passes over the two names that every directory has. -/
theorem filter_listed (permuted : names.Perm (fs.names files)) :
    (dot :: dotDot :: names).filter (fun name => name ≠ dot && name ≠ dotDot) = names := by
  rw [List.filter_cons_of_neg (by decide), List.filter_cons_of_neg (by decide)]
  apply List.filter_eq_self.mpr
  intro name name_mem
  have valid := fs.named (FileSystem.mem_names.mp (permuted.mem_iff.mp name_mem))
  simp [valid.ne_dot, valid.ne_dotDot]

theorem names_of_enumerates (listed : Enumerates fs cwd base readdir)
    (found : fs.resolve cwd (trashFiles base) = some files) :
    (readdir.filter fun name => name ≠ dot && name ≠ dotDot).Perm (fs.names files) := by
  rw [← @filter_listed fs files _ (List.Perm.refl _)]
  exact (listed files found).filter _

theorem short_of_perm
    (short : ∀ name ∈ fs.names files, (deletedName fs cwd base name).length < nameMax)
    (permuted : names.Perm (fs.names files)) :
    ∀ name ∈ names, ValidName name ∧ (deletedName fs cwd base name).length < nameMax := by
  intro name name_mem
  have name_there := permuted.mem_iff.mp name_mem
  exact ⟨fs.named (FileSystem.mem_names.mp name_there), short name name_there⟩

theorem mapM_eq_some {α β : Type} {f : α → Option β} {g : α → β} {list : List α}
    (each : ∀ a ∈ list, f a = some (g a)) : list.mapM f = some (list.map g) := by
  induction list with
  | nil => rfl
  | cons a list ih =>
      rw [List.mapM_cons, each a List.mem_cons_self,
        ih fun other other_mem => each other (List.mem_cons_of_mem _ other_mem)]
      rfl

theorem mapM_eq_none {α β : Type} {f : α → Option β} {list : List α} {a : α} (a_mem : a ∈ list)
    (missing : f a = none) : list.mapM f = none := by
  induction list with
  | nil => cases a_mem
  | cons first list ih =>
      rw [List.mapM_cons]
      rcases List.mem_cons.mp a_mem with rfl | later
      · rw [missing]
        rfl
      · rw [ih later]
        cases f first <;> rfl

theorem buildTrashEntries_of_short (directory : fs.stat cwd (trashFiles base) = some .directory)
    (permuted : (readdir.filter fun name => name ≠ dot && name ≠ dotDot) = names)
    (short : ∀ name ∈ names, ValidName name ∧ (deletedName fs cwd base name).length < nameMax) :
    buildTrashEntries fs cwd base readdir spare qsort =
      some (qsort (names.map (entryFor fs cwd base))) := by
  have entries : names.mapM (fun name => trashEntry fs cwd base (spare name) name) =
      some (names.map (entryFor fs cwd base)) := by
    apply mapM_eq_some
    intro name name_mem
    exact trashEntry_of_short (short name name_mem).1 (short name name_mem).2
  simp only [buildTrashEntries, directory, permuted, entries, Option.map_some]

theorem sortKey_eq_iff {name other : Name} :
    sortKey locale (entryFor fs cwd base name) = sortKey locale (entryFor fs cwd base other) ↔
      LookAlike locale fs cwd base name other := by
  unfold sortKey entryFor LookAlike
  cases trashedDirectory fs cwd base name <;> cases trashedDirectory fs cwd base other <;> simp

/-- The entries of a view are told by their ids. -/
theorem eq_of_ids_eq {entries entries' : List BrowserEntry}
    (own : ∀ entry ∈ entries, entry = entryFor fs cwd base entry.id)
    (own' : ∀ entry ∈ entries', entry = entryFor fs cwd base entry.id)
    (same : entries.map BrowserEntry.id = entries'.map BrowserEntry.id) : entries = entries' := by
  have rebuilt {list : List BrowserEntry}
      (all : ∀ entry ∈ list, entry = entryFor fs cwd base entry.id) :
      (list.map BrowserEntry.id).map (entryFor fs cwd base) = list := by
    rw [List.map_map]
    calc
      list.map (entryFor fs cwd base ∘ BrowserEntry.id) = list.map id := by
        apply List.map_congr_left
        intro entry entry_mem
        exact (all entry entry_mem).symm
      _ = list := List.map_id list
  rw [← rebuilt own, same, rebuilt own']

theorem mem_entries {list : List Name} {entry : BrowserEntry}
    (entry_mem : entry ∈ list.map (entryFor fs cwd base)) :
    entry = entryFor fs cwd base entry.id := by
  rcases List.mem_map.mp entry_mem with ⟨name, _, rfl⟩
  rfl

theorem nodup_entries : ((fs.names files).map (entryFor fs cwd base)).Nodup := by
  apply FileSystem.nodup_names.map
  intro name other same
  exact congrArg BrowserEntry.id same

theorem oneOrder_of_toldApart (told : ToldApart locale fs cwd base) :
    OneOrder locale fs cwd base := by
  by_cases directory : fs.stat cwd (trashFiles base) = some .directory
  · rcases Option.bind_eq_some_iff.mp directory with ⟨files, found, _⟩
    have compares := cmpEntry_compares locale
    refine ⟨(((fs.names files).map (entryFor fs cwd base)).mergeSort
      (ComparesBy.test (cmpEntry locale))).map BrowserEntry.id, ?_⟩
    intro readdir spare qsort listed sorts
    have permuted := names_of_enumerates listed found
    rw [buildTrashEntries_of_short directory rfl (short_of_perm (told.short files found) permuted),
      Option.map_some]
    congr 2
    apply compares.sort_eq sorts compares.sorts_mergeSort (permuted.map _)
    intro a a_mem b b_mem same
    rcases List.mem_map.mp a_mem with ⟨name, name_mem, rfl⟩
    rcases List.mem_map.mp b_mem with ⟨other, other_mem, rfl⟩
    have alike := sortKey_eq_iff.mp same
    rw [told.apart files found name (permuted.mem_iff.mp name_mem) other
      (permuted.mem_iff.mp other_mem) alike]
  · refine ⟨[], ?_⟩
    intro readdir spare qsort _ _
    unfold buildTrashEntries
    split
    · next found => exact absurd found directory
    · rfl

theorem toldApart_of_oneOrder (one : OneOrder locale fs cwd base) :
    ToldApart locale fs cwd base := by
  rcases one with ⟨ids, one⟩
  have compares := cmpEntry_compares locale
  have directory : ∀ files ∈ fs.resolve cwd (trashFiles base), ∀ name ∈ fs.names files,
      fs.stat cwd (trashFiles base) = some .directory := by
    intro files found name name_mem
    rw [FileSystem.stat, Option.mem_def.mp found]
    exact fs.closed (FileSystem.mem_names.mp name_mem)
  have enumerates : ∀ files ∈ fs.resolve cwd (trashFiles base), ∀ names,
      names.Perm (fs.names files) → Enumerates fs cwd base (dot :: dotDot :: names) := by
    intro files found names permuted other other_found
    rw [Option.mem_unique other_found found]
    exact (permuted.cons _).cons _
  have short : ∀ files ∈ fs.resolve cwd (trashFiles base), ∀ name ∈ fs.names files,
      (deletedName fs cwd base name).length < nameMax := by
    intro files found name name_mem
    by_contra long
    have unended : ((dot :: dotDot :: fs.names files).filter fun name =>
        name ≠ dot && name ≠ dotDot).mapM
        (fun name => trashEntry fs cwd base 1 name) = none := by
      rw [filter_listed (List.Perm.refl (fs.names files))]
      exact mapM_eq_none name_mem (trashEntry_of_long (by decide) (Nat.le_of_not_lt long))
    have called := one (dot :: dotDot :: fs.names files) (fun _ => 1) _
      (enumerates files found _ (List.Perm.refl _)) compares.sorts_mergeSort
    simp only [buildTrashEntries, directory files found name name_mem, unended,
      Option.map_none] at called
    cases called
  refine ⟨short, ?_⟩
  intro files found name name_mem other other_mem alike
  have called : ∀ names, (names : List Name).Perm (fs.names files) →
      ((names.map (entryFor fs cwd base)).mergeSort
        (ComparesBy.test (cmpEntry locale))).map BrowserEntry.id = ids := by
    intro names permuted
    have result := one (dot :: dotDot :: names) (fun _ => 0) _
      (enumerates files found names permuted) compares.sorts_mergeSort
    rw [buildTrashEntries_of_short (directory files found name name_mem)
      (filter_listed permuted) (short_of_perm (short files found) permuted)] at result
    exact Option.some.inj result
  have same_ids := (called _ (List.Perm.refl _)).trans (called _ (List.reverse_perm _)).symm
  have same := eq_of_ids_eq
    (fun entry entry_mem => mem_entries ((List.mergeSort_perm _ _).mem_iff.mp entry_mem))
    (fun entry entry_mem => mem_entries ((List.mergeSort_perm _ _).mem_iff.mp entry_mem)) same_ids
  rw [List.map_reverse] at same
  have entries_eq := compares.eq_of_mergeSort_reverse nodup_entries same
    (entryFor fs cwd base name) (List.mem_map_of_mem name_mem)
    (entryFor fs cwd base other) (List.mem_map_of_mem other_mem) (sortKey_eq_iff.mpr alike)
  exact congrArg BrowserEntry.id entries_eq

/-- The view is in one order whatever `readdir`, the memory and the algorithm do if and only if
its entries are told apart. -/
theorem oneOrder_iff_toldApart (locale : Locale) (fs : FileSystem) (cwd : Location)
    (base : Bytes) : OneOrder locale fs cwd base ↔ ToldApart locale fs cwd base :=
  ⟨toldApart_of_oneOrder, oneOrder_of_toldApart⟩

end Calls

section Examples

/-- `/a` deleted twice. -/
def twiceDeleted : FileSystem :=
  (moveToTrash replaced [] (ascii ".") { firstAnswers with now := 2 } (ascii "/a")).2

/-- The two entries may change places between the drawing and the key. -/
theorem not_oneOrder_twice : ¬ ∀ (locale : Locale) (fs : FileSystem) (cwd : Location)
    (base : Bytes), OneOrder locale fs cwd base := by
  intro claimed
  have told := toldApart_of_oneOrder (claimed asciiLocale twiceDeleted [] (ascii "."))
  have found : twiceDeleted.resolve [] (trashFiles (ascii ".")) = some filesPlace := by
    decide +kernel
  have first : firstId ∈ twiceDeleted.names filesPlace :=
    FileSystem.mem_names.mpr (by decide +kernel)
  have second : ascii "2_00000" ∈ twiceDeleted.names filesPlace :=
    FileSystem.mem_names.mpr (by decide +kernel)
  have alike : LookAlike asciiLocale twiceDeleted [] (ascii ".") firstId (ascii "2_00000") := by
    unfold LookAlike
    decide +kernel
  have same := told.apart filesPlace found firstId first (ascii "2_00000") second alike
  exact absurd same (by decide)

end Examples

end View

end Osis.CourseWork
