import Osis.CourseWork.Trashctl

/-!
# The paths of the trash

The interceptor and `trashctl` format the same paths. As long as the path of a record
fits into its buffer none of them is cut, and walking them leads through `.trash`
into `files` or `info`, at the end of which stands the name made from the id.
-/

namespace Osis.CourseWork

open Posix Posix.FileSystem

section Texts

variable {base id : Bytes}

/-- The paths of an id are not cut. -/
def Fits (base id : Bytes) : Prop :=
  (base ++ ascii "/.trash/info" ++ slash :: (id ++ ascii ".info")).length < pathMax

instance (base id : Bytes) : Decidable (Fits base id) := inferInstanceAs (Decidable (_ < _))

theorem fits_iff : Fits base id ↔ base.length + id.length + 18 < pathMax := by
  have infoLength : (ascii "/.trash/info").length = 12 := by decide
  have suffixLength : (ascii ".info").length = 5 := by decide
  simp only [Fits, List.length_append, List.length_cons, infoLength, suffixLength]
  omega

theorem snprintf_of_lt {size : ℕ} {text : Bytes} (short : text.length < size) :
    snprintf size text = text :=
  List.take_of_length_le (by omega)

theorem trashDir_of_fits (fits : Fits base id) : trashDir base = base ++ ascii "/.trash" := by
  have dirLength : (ascii "/.trash").length = 7 := by decide
  apply snprintf_of_lt
  rw [fits_iff] at fits
  rw [List.length_append, dirLength]
  omega

theorem trashFiles_of_fits (fits : Fits base id) :
    trashFiles base = base ++ ascii "/.trash/files" := by
  have dirLength : (ascii "/.trash/files").length = 13 := by decide
  apply snprintf_of_lt
  rw [fits_iff] at fits
  rw [List.length_append, dirLength]
  omega

theorem trashInfo_of_fits (fits : Fits base id) :
    trashInfo base = base ++ ascii "/.trash/info" := by
  have dirLength : (ascii "/.trash/info").length = 12 := by decide
  apply snprintf_of_lt
  rw [fits_iff] at fits
  rw [List.length_append, dirLength]
  omega

theorem filePath_of_fits (fits : Fits base id) :
    filePath base id = base ++ ascii "/.trash/files" ++ slash :: id := by
  have dirLength : (ascii "/.trash/files").length = 13 := by decide
  apply snprintf_of_lt
  rw [fits_iff] at fits
  rw [List.length_append, List.length_append, List.length_cons, dirLength]
  omega

theorem infoPath_of_fits (fits : Fits base id) :
    infoPath base id = base ++ ascii "/.trash/info" ++ slash :: (id ++ ascii ".info") :=
  snprintf_of_lt fits

theorem components_files (base : Bytes) :
    components (base ++ ascii "/.trash/files") =
      components (base ++ ascii "/.trash") ++ [ascii "files"] := by
  rw [show ascii "/.trash/files" = ascii "/.trash" ++ slash :: ascii "files" by decide,
    ← List.append_assoc, components_append_name (by decide) (by decide)]

theorem components_info (base : Bytes) :
    components (base ++ ascii "/.trash/info") =
      components (base ++ ascii "/.trash") ++ [ascii "info"] := by
  rw [show ascii "/.trash/info" = ascii "/.trash" ++ slash :: ascii "info" by decide,
    ← List.append_assoc, components_append_name (by decide) (by decide)]

theorem startOf_append {cwd : Location} {front : Bytes} (some_front : front ≠ []) (back : Bytes) :
    startOf cwd (front ++ back) = startOf cwd front := by
  cases front with
  | nil => exact absurd rfl some_front
  | cons first rest => rfl

/-- All paths of the trash start at one place. -/
theorem startOf_append_slash {cwd : Location} (base text text' : Bytes) :
    startOf cwd (base ++ slash :: text) = startOf cwd (base ++ slash :: text') := by
  cases base <;> rfl

theorem endsInSlash_append {front back : Bytes} (some_back : back ≠ [])
    (unslashed : endsInSlash back = false) : endsInSlash (front ++ back) = false := by
  rw [endsInSlash, List.getLast?_append_of_ne_nil _ some_back]
  exact unslashed

theorem filePath_unslashed (some_id : id ≠ []) (no_slash : slash ∉ id) (fits : Fits base id) :
    endsInSlash (filePath base id) = false := by
  rw [filePath_of_fits fits, List.append_cons]
  exact endsInSlash_append_name some_id no_slash

theorem head?_snprintf (absolute : base.head? = some slash) (text : Bytes) :
    (snprintf pathMax (base ++ text)).head? = some slash := by
  have some_base : base ≠ [] := by
    rintro rfl
    cases absolute
  rw [snprintf, List.head?_take, if_neg (by decide), List.head?_append_of_ne_nil _ some_base,
    absolute]

/-- The name of a record is its id with the suffix. -/
theorem idOfRecord_eq_some {name : Name} :
    idOfRecord name = some id ↔ name = id ++ ascii ".info" ∧ id ≠ [] := by
  have suffix_length : (ascii ".info").length = 5 := by decide
  unfold idOfRecord
  constructor
  · intro recovered
    simp only [Option.ite_none_left_eq_some, Option.some.injEq, not_or, not_lt,
      not_not] at recovered
    rcases recovered with ⟨⟨long, id, rfl⟩, rfl⟩
    rw [List.length_append, suffix_length] at long
    rw [List.length_append, suffix_length, Nat.add_sub_cancel, List.take_left]
    exact ⟨rfl, List.length_pos_iff.mp (by omega)⟩
  · rintro ⟨rfl, some_id⟩
    have positive := List.length_pos_iff.mpr some_id
    rw [if_neg]
    · rw [List.length_append, suffix_length, Nat.add_sub_cancel, List.take_left]
    · rintro (short | other)
      · rw [List.length_append] at short
        omega
      · exact other (List.suffix_append _ _)

end Texts

section Ensured

variable {fs : FileSystem} {cwd : Location} {base : Bytes}

/-- What `ensure_directories` may add: the three directories of the trash. -/
theorem ensureDirectories_spec (fs : FileSystem) (cwd : Location) (base : Bytes) :
    fs.Extends (ensureDirectories fs cwd base) ∧
      (ensureDirectories fs cwd base).data = fs.data ∧
      (ensureDirectories fs cwd base).fresh = fs.fresh ∧
      ∀ entry, (ensureDirectories fs cwd base).tree entry ≠ fs.tree entry →
        (ensureDirectories fs cwd base).tree entry = some .directory ∧
          ∃ path, (path = trashDir base ∨ path = trashFiles base ∨ path = trashInfo base) ∧
            ∃ name place, entry = name :: place ∧
              (ensureDirectories fs cwd base).entryOf cwd path = some (name, place) := by
  rcases mkdir_getD fs cwd (trashDir base) with ⟨grows₁, data₁, fresh₁, made₁⟩
  generalize first_eq : (fs.mkdir cwd (trashDir base)).getD fs = first at *
  rcases mkdir_getD first cwd (trashFiles base) with ⟨grows₂, data₂, fresh₂, made₂⟩
  generalize second_eq : (first.mkdir cwd (trashFiles base)).getD first = second at *
  rcases mkdir_getD second cwd (trashInfo base) with ⟨grows₃, data₃, fresh₃, made₃⟩
  have ensured_eq : ensureDirectories fs cwd base =
      (second.mkdir cwd (trashInfo base)).getD second := by
    rw [← second_eq, ← first_eq]
    rfl
  rw [ensured_eq]
  have grows : first.Extends ((second.mkdir cwd (trashInfo base)).getD second) := by
    intro entry exists_entry
    have step := grows₂ entry exists_entry
    rw [grows₃ entry (by rwa [step]), step]
  refine ⟨?_, by rw [data₃, data₂, data₁], by rw [fresh₃, fresh₂, fresh₁], ?_⟩
  · intro entry exists_entry
    have step := grows₁ entry exists_entry
    rw [grows entry (by rwa [step]), step]
  · intro entry changed
    by_cases here₃ : ((second.mkdir cwd (trashInfo base)).getD second).tree entry =
        second.tree entry
    · by_cases here₂ : second.tree entry = first.tree entry
      · have here₁ : first.tree entry ≠ fs.tree entry := by
          intro same
          exact changed (by rw [here₃, here₂, same])
        rcases made₁ entry here₁ with ⟨directory, name, place, rfl, named⟩
        refine ⟨by rw [here₃, here₂, directory], _, Or.inl rfl, name, place, rfl, ?_⟩
        refine entryOf_kept grows.keeps (entryOf_kept grows₁.keeps named)
      · rcases made₂ entry here₂ with ⟨directory, name, place, rfl, named⟩
        refine ⟨by rw [here₃, directory], _, Or.inr (Or.inl rfl), name, place, rfl, ?_⟩
        exact entryOf_kept grows₃.keeps (entryOf_kept grows₂.keeps named)
    · rcases made₃ entry here₃ with ⟨directory, name, place, rfl, named⟩
      refine ⟨directory, _, Or.inr (Or.inr rfl), name, place, rfl, ?_⟩
      exact entryOf_kept grows₃.keeps named

theorem ensureDirectories_extends : fs.Extends (ensureDirectories fs cwd base) :=
  (ensureDirectories_spec fs cwd base).1

@[simp]
theorem data_ensureDirectories : (ensureDirectories fs cwd base).data = fs.data :=
  (ensureDirectories_spec fs cwd base).2.1

@[simp]
theorem fresh_ensureDirectories : (ensureDirectories fs cwd base).fresh = fs.fresh :=
  (ensureDirectories_spec fs cwd base).2.2.1

/-- Under an absolute path the directories are the same from everywhere. -/
theorem ensureDirectories_absolute {cwd' : Location} (absolute : base.head? = some slash) :
    ensureDirectories fs cwd base = ensureDirectories fs cwd' base := by
  have same : ∀ (fs : FileSystem) text, fs.mkdir cwd (snprintf pathMax (base ++ text)) =
      fs.mkdir cwd' (snprintf pathMax (base ++ text)) :=
    fun _ text => mkdir_absolute (head?_snprintf absolute text)
  simp only [ensureDirectories, trashDir, trashFiles, trashInfo, same]

end Ensured

section Found

variable {fs : FileSystem} {cwd files info : Location} {base id : Bytes}

/-- The trash is above the directory of the records. -/
theorem resolve_trashDir_of_info (fits : Fits base id)
    (info_at : fs.resolve cwd (trashInfo base) = some info) :
    ∃ top, fs.resolve cwd (trashDir base) = some top := by
  rcases resolve_eq_some.mp info_at with ⟨-, short, walked⟩
  rw [trashInfo_of_fits fits] at short walked
  rw [steps_of_not_endsInSlash (endsInSlash_append (by decide) (by decide)),
    components_info] at walked
  rcases walk_front (by simp) walked with ⟨top, walked_top, -⟩
  have shorter : (ascii "/.trash").length < (ascii "/.trash/info").length := by decide
  refine ⟨top, ?_⟩
  rw [trashDir_of_fits fits, resolve_eq_some, steps_of_not_endsInSlash
    (endsInSlash_append (by decide) (by decide))]
  refine ⟨by simp [ascii], ?_, ?_⟩
  · simp only [List.length_append] at short ⊢
    omega
  · have longer : base ++ ascii "/.trash/info" = base ++ ascii "/.trash" ++ ascii "/info" := by
      rw [List.append_assoc]
      congr 1
    rw [← walked_top, longer, startOf_append (by simp [ascii]) (ascii "/info")]

/-- Nothing is made where the directories of the trash are found. -/
theorem ensureDirectories_of_found (fits : Fits base id)
    (files_at : fs.resolve cwd (trashFiles base) = some files)
    (info_at : fs.resolve cwd (trashInfo base) = some info) :
    ensureDirectories fs cwd base = fs := by
  rcases resolve_trashDir_of_info fits info_at with ⟨top, top_at⟩
  simp only [ensureDirectories, mkdir_of_resolve top_at, mkdir_of_resolve files_at,
    mkdir_of_resolve info_at, Option.getD_none]

/-- The path of a file names it in the directory of the files. -/
theorem filePath_named (fits : Fits base id) (valid : ValidName id)
    (files_at : fs.resolve cwd (trashFiles base) = some files)
    (directory : fs.tree files = some .directory) :
    fs.entryOf cwd (filePath base id) = some (id, files) := by
  have dirLength : (ascii "/.trash/files").length = 13 := by decide
  rw [trashFiles_of_fits fits] at files_at
  rw [filePath_of_fits fits]
  apply entryOf_child files_at directory valid
  rw [fits_iff] at fits
  rw [List.length_append, List.length_append, List.length_cons, dirLength]
  omega

/-- The path of a record names it in the directory of the records. -/
theorem infoPath_named (fits : Fits base id) (valid : ValidName (id ++ ascii ".info"))
    (info_at : fs.resolve cwd (trashInfo base) = some info)
    (directory : fs.tree info = some .directory) :
    fs.entryOf cwd (infoPath base id) = some (id ++ ascii ".info", info) := by
  rw [trashInfo_of_fits fits] at info_at
  rw [infoPath_of_fits fits]
  exact entryOf_child info_at directory valid fits

end Found

end Osis.CourseWork
