import Mathlib.Data.List.DropRight
import Osis.Posix.Text

/-!
# Paths and places

A path is the text a program hands to the kernel; a place is where an entry
stands in the directory tree, the names from the entry up to the root. A path is
walked step by step; a slash at its end asks for a directory, which is the step
`"."`.

`pathString` is the canonical path of a place, as `getcwd` and `realpath` print it.
`basename` and `dirname` are those of `libgen.h`.
-/

namespace Osis.Posix

/-- The name of a directory entry. -/
abbrev Name := Bytes

/-- A place in the directory tree, innermost name first; the root is `[]`. -/
abbrev Location := List Name

/-- The byte that separates the names of a path. -/
def slash : UInt8 := 47

/-- The name of a directory in itself. -/
def dot : Name := [46]

/-- The name of its parent. -/
def dotDot : Name := [46, 46]

/-- `PATH_MAX`, which counts the NUL. -/
def pathMax : ℕ := 4096

/-- `NAME_MAX`, which does not. -/
def nameMax : ℕ := 255

/-- What the kernel takes as the name of a new entry. -/
structure ValidName (name : Name) : Prop where
  ne_nil : name ≠ []
  ne_dot : name ≠ dot
  ne_dotDot : name ≠ dotDot
  no_slash : slash ∉ name
  no_nul : 0 ∉ name
  short : name.length ≤ nameMax

theorem validName_iff {name : Name} :
    ValidName name ↔ name ≠ [] ∧ name ≠ dot ∧ name ≠ dotDot ∧ slash ∉ name ∧ 0 ∉ name ∧
      name.length ≤ nameMax := by
  constructor
  · intro valid
    exact ⟨valid.ne_nil, valid.ne_dot, valid.ne_dotDot, valid.no_slash, valid.no_nul, valid.short⟩
  · rintro ⟨ne_nil, ne_dot, ne_dotDot, no_slash, no_nul, short⟩
    exact ⟨ne_nil, ne_dot, ne_dotDot, no_slash, no_nul, short⟩

instance (name : Name) : Decidable (ValidName name) := decidable_of_iff' _ validName_iff

section Steps

/-- The names in a path. -/
def components (path : Bytes) : List Name := (path.splitOn slash).filter (· ≠ [])

/-- Whether a path ends in a slash. -/
def endsInSlash (path : Bytes) : Bool := path.getLast? = some slash

/-- The steps of walking a path. -/
def steps (path : Bytes) : List Name :=
  components path ++ if endsInSlash path then [dot] else []

/-- Where walking a path starts, seen from a place. -/
def startOf (place : Location) (path : Bytes) : Location :=
  if path.head? = some slash then [] else place

theorem components_nil : components [] = [] := rfl

theorem components_append_slash (front back : Bytes) :
    components (front ++ slash :: back) = components front ++ components back := by
  simp [components, List.splitOn_append_cons_self]

theorem components_slash (back : Bytes) : components (slash :: back) = components back :=
  components_append_slash [] back

theorem components_name {name : Name} (ne_nil : name ≠ []) (no_slash : slash ∉ name) :
    components name = [name] := by
  simp [components, List.splitOn_eq_singleton no_slash, ne_nil]

theorem components_concat_slash (front : Bytes) :
    components (front ++ [slash]) = components front := by
  rw [components_append_slash, components_nil, List.append_nil]

theorem components_rdropWhile_slash (path : Bytes) :
    components (path.rdropWhile (· = slash)) = components path := by
  induction path using List.reverseRecOn with
  | nil => rfl
  | append_singleton front byte ih =>
      by_cases isSlash : byte = slash
      · rw [List.rdropWhile_concat_pos _ _ _ (by simpa using isSlash), ih, isSlash,
          components_concat_slash]
      · rw [List.rdropWhile_concat_neg _ _ _ (by simpa using isSlash)]

theorem steps_of_not_endsInSlash {path : Bytes} (plain : endsInSlash path = false) :
    steps path = components path := by
  simp [steps, plain]

/-- Appending a name to the path of a directory appends a step. -/
theorem components_append_name {front : Bytes} {name : Name} (ne_nil : name ≠ [])
    (no_slash : slash ∉ name) :
    components (front ++ slash :: name) = components front ++ [name] := by
  rw [components_append_slash, components_name ne_nil no_slash]

theorem endsInSlash_append_name {front : Bytes} {name : Name} (ne_nil : name ≠ [])
    (no_slash : slash ∉ name) : endsInSlash (front ++ name) = false := by
  rw [endsInSlash, List.getLast?_append_of_ne_nil _ ne_nil, decide_eq_false_iff_not]
  intro last
  exact no_slash (List.mem_of_getLast? last)

/-- The step for a last name, which is a dot behind a slash at the end. -/
theorem steps_append_name {front : Bytes} {name : Name} (no_slash : slash ∉ name) :
    steps (front ++ slash :: name) = components front ++ [if name = [] then dot else name] := by
  by_cases empty : name = []
  · rw [if_pos empty, empty, steps, components_concat_slash]
    simp [endsInSlash]
  · have unslashed : endsInSlash (front ++ slash :: name) = false := by
      rw [List.append_cons]
      exact endsInSlash_append_name empty no_slash
    rw [if_neg empty, steps_of_not_endsInSlash unslashed, components_append_name empty no_slash]

/-- A path with a slash, cut at the last one. -/
theorem exists_cut {path : Bytes} (slashed : slash ∈ path) :
    ∃ front, path.rdropWhile (· ≠ slash) = front ++ [slash] ∧
      path = front ++ slash :: path.rtakeWhile (· ≠ slash) := by
  have some_front : path.rdropWhile (· ≠ slash) ≠ [] := by
    intro empty
    have all_others := List.rdropWhile_eq_nil_iff.mp empty _ slashed
    simp at all_others
  have last : (path.rdropWhile (· ≠ slash)).getLast some_front = slash := by
    simpa using List.rdropWhile_last_not _ _ some_front
  have front_eq : path.rdropWhile (· ≠ slash) =
      (path.rdropWhile (· ≠ slash)).dropLast ++ [slash] := by
    conv_lhs => rw [← List.dropLast_append_getLast some_front, last]
  refine ⟨_, front_eq, ?_⟩
  rw [List.append_cons, ← front_eq, List.rdropWhile_append_rtakeWhile]

theorem no_slash_rtakeWhile (path : Bytes) : slash ∉ path.rtakeWhile (· ≠ slash) := by
  intro slash_mem
  have other := List.mem_rtakeWhile_imp slash_mem
  simp at other

end Steps

section PathString

/-- The canonical path of a place. -/
def pathString (place : Location) : Bytes :=
  if place = [] then [slash] else place.reverse.flatMap fun name => slash :: name

theorem pathString_cons (name : Name) (place : Location) :
    pathString (name :: place) =
      (if place = [] then [] else pathString place) ++ slash :: name := by
  by_cases atRoot : place = []
  · simp [pathString, atRoot]
  · simp [pathString, atRoot]

theorem head?_pathString (place : Location) : (pathString place).head? = some slash := by
  unfold pathString
  split
  · rfl
  · rename_i below
    rcases List.exists_cons_of_ne_nil (List.reverse_ne_nil_iff.mpr below) with ⟨name, rest, eq⟩
    simp [eq]

theorem components_pathString {place : Location} (valid : ∀ name ∈ place, ValidName name) :
    components (pathString place) = place.reverse := by
  induction place with
  | nil => decide
  | cons name place ih =>
      have nameValid := valid name List.mem_cons_self
      have above := ih fun other other_mem => valid other (List.mem_cons_of_mem _ other_mem)
      rw [pathString_cons, components_append_name nameValid.ne_nil nameValid.no_slash,
        List.reverse_cons]
      congr 1
      split
      · rename_i atRoot
        simp [atRoot, components_nil]
      · exact above

theorem endsInSlash_pathString {name : Name} {place : Location} (valid : ValidName name) :
    endsInSlash (pathString (name :: place)) = false := by
  rw [pathString_cons, List.append_cons, endsInSlash_append_name valid.ne_nil valid.no_slash]

/-- The bytes of a canonical path are slashes and bytes of names. -/
theorem mem_pathString {place : Location} {byte : UInt8} (byte_mem : byte ∈ pathString place) :
    byte = slash ∨ ∃ name ∈ place, byte ∈ name := by
  unfold pathString at byte_mem
  split at byte_mem
  · exact Or.inl (List.mem_singleton.mp byte_mem)
  · rcases List.mem_flatMap.mp byte_mem with ⟨name, name_mem, here⟩
    rcases List.mem_cons.mp here with isSlash | inName
    · exact Or.inl isSlash
    · exact Or.inr ⟨name, List.mem_reverse.mp name_mem, inName⟩

/-- Places with one canonical path are the same. -/
theorem pathString_inj {place place' : Location} (valid : ∀ name ∈ place, ValidName name)
    (valid' : ∀ name ∈ place', ValidName name) (same : pathString place = pathString place') :
    place = place' := by
  have names := congrArg components same
  rw [components_pathString valid, components_pathString valid'] at names
  exact List.reverse_inj.mp names

/-- A canonical path that goes on behind another one with a slash is of a place below it. -/
theorem suffix_of_pathString {place found : Location} {rest : Bytes}
    (valid : ∀ name ∈ place, ValidName name) (found_valid : ∀ name ∈ found, ValidName name)
    (goes_on : pathString found = pathString place ++ slash :: rest) : place <:+ found := by
  have names := congrArg components goes_on
  rw [components_pathString found_valid, components_append_slash, components_pathString valid]
    at names
  apply List.reverse_prefix.mp
  exact ⟨components rest, names.symm⟩

/-- Only the root has its path end behind the first slash, and no path has two at its start. -/
theorem head?_tail_pathString {place : Location} (valid : ∀ name ∈ place, ValidName name) :
    (pathString place).tail.head? ≠ some slash := by
  by_cases atRoot : place = []
  · rw [atRoot]
    decide
  · rcases List.exists_cons_of_ne_nil (List.reverse_ne_nil_iff.mpr atRoot) with ⟨name, rest, eq⟩
    have first : name ∈ place := List.mem_reverse.mp (eq ▸ List.mem_cons_self)
    rcases List.exists_cons_of_ne_nil (valid name first).ne_nil with ⟨byte, bytes, name_eq⟩
    have no_slash := (valid name first).no_slash
    simp only [name_eq, List.mem_cons, not_or] at no_slash
    simpa [pathString, atRoot, eq, name_eq] using Ne.symm no_slash.1

end PathString

section Libgen

/-- A path without the slashes at its end, except for paths of slashes only. -/
def stripSlashes (path : Bytes) : Bytes :=
  if path.rdropWhile (· = slash) = [] then path else path.rdropWhile (· = slash)

/-- `basename`, which also writes a NUL over the slashes at the end of its argument. -/
def basename (path : Bytes) : Bytes :=
  if path = [] then dot
  else if path.rdropWhile (· = slash) = [] then [slash]
  else (path.rdropWhile (· = slash)).rtakeWhile (· ≠ slash)

/-- `dirname`; where it returns `"//"` this returns `"/"`, which names the same directory. -/
def dirname (path : Bytes) : Bytes :=
  let named := path.rdropWhile (· = slash)
  let above := named.rdropWhile (· ≠ slash)
  if above = [] then if path.head? = some slash then [slash] else dot
  else if above.rdropWhile (· = slash) = [] then [slash]
  else above.rdropWhile (· = slash)

theorem rdropWhile_slash_of_not_endsInSlash {path : Bytes} (unslashed : endsInSlash path = false) :
    path.rdropWhile (· = slash) = path := by
  rw [List.rdropWhile_eq_self_iff]
  intro ne_nil isSlash
  simp only [decide_eq_true_eq] at isSlash
  simp [endsInSlash, List.getLast?_eq_getLast_of_ne_nil ne_nil, isSlash] at unslashed

theorem stripSlashes_of_not_endsInSlash {path : Bytes} (unslashed : endsInSlash path = false) :
    stripSlashes path = path := by
  rw [stripSlashes, rdropWhile_slash_of_not_endsInSlash unslashed, ite_self]

theorem no_slash_basename {path : Bytes} (notRoot : path.rdropWhile (· = slash) ≠ []) :
    slash ∉ basename path := by
  intro slash_mem
  unfold basename at slash_mem
  split at slash_mem
  · exact absurd slash_mem (by decide)
  · have different := List.mem_rtakeWhile_imp slash_mem
    simp at different

end Libgen

end Osis.Posix
