import Mathlib.Data.List.Dedup
import Osis.Posix.Path

/-!
# File systems

A file system is a tree of directory entries together with the contents of its
files. Entries of one file (hard links) share its inode, and the contents belong
to the inode. A tree has entries below directories only; this and the validity of
the names are carried by the structure, so every edit keeps them by construction.

The four edits `insert`, `remove`, `move` and `write` are all that system calls do.
-/

namespace Osis.Posix

/-- What a directory entry is. -/
inductive Node where
  | directory
  | file (inode : ℕ)
  | link (inode : ℕ) (target : Bytes)
  deriving DecidableEq

namespace Node

/-- The inode of an entry that may be hard linked. -/
def inode? : Node → Option ℕ
  | directory => none
  | file inode => some inode
  | link inode _ => some inode

end Node

/-- A tree of entries with the contents of the files. -/
structure FileSystem where
  /-- The entry at a place. -/
  tree : Location → Option Node
  /-- The content of an inode. -/
  data : ℕ → Bytes
  /-- No entry has this inode or a later one. -/
  fresh : ℕ
  /-- A list of places that holds every entry. -/
  domain : List Location
  root : tree [] = some .directory
  closed : ∀ {name place}, tree (name :: place) ≠ none → tree place = some .directory
  named : ∀ {name place}, tree (name :: place) ≠ none → ValidName name
  supported : ∀ {place}, tree place ≠ none → place ∈ domain
  allocated : ∀ {place node inode}, tree place = some node → node.inode? = some inode →
    inode < fresh

namespace FileSystem

variable {fs : FileSystem} {place below : Location} {name : Name} {node : Node}

theorem ne_none_of_eq_some (found : fs.tree place = some node) : fs.tree place ≠ none := by
  rw [found]
  exact Option.some_ne_none node

/-- Everything above an entry is a directory. -/
theorem tree_above (exists_below : fs.tree below ≠ none) (suffix : place <:+ below)
    (different : place ≠ below) : fs.tree place = some .directory := by
  induction below with
  | nil => exact absurd (List.suffix_nil.mp suffix) different
  | cons name above ih =>
      rcases List.suffix_cons_iff.mp suffix with same | above_suffix
      · exact absurd same different
      · have directory := fs.closed exists_below
        by_cases here : place = above
        · rw [here, directory]
        · exact ih (ne_none_of_eq_some directory) above_suffix here

theorem tree_ne_none_of_suffix (exists_below : fs.tree below ≠ none) (suffix : place <:+ below) :
    fs.tree place ≠ none := by
  by_cases here : place = below
  · rwa [here]
  · exact ne_none_of_eq_some (tree_above exists_below suffix here)

/-- Nothing stands below a free place. -/
theorem not_suffix_of_free (free : fs.tree place = none) (exists_below : fs.tree below ≠ none) :
    ¬place <:+ below := fun suffix => tree_ne_none_of_suffix exists_below suffix free

/-- Nothing stands below what is not a directory. -/
theorem eq_of_suffix (leaf : fs.tree place ≠ some .directory) (exists_below : fs.tree below ≠ none)
    (suffix : place <:+ below) : place = below := by
  by_contra different
  exact leaf (tree_above exists_below suffix different)

theorem validName_of_mem (exists_place : fs.tree place ≠ none) :
    ∀ name ∈ place, ValidName name := by
  induction place with
  | nil => simp
  | cons name above ih =>
      intro other other_mem
      rcases List.mem_cons.mp other_mem with rfl | above_mem
      · exact fs.named exists_place
      · have directory := fs.closed exists_place
        exact ih (ne_none_of_eq_some directory) other above_mem

/-- A file system without entries. -/
def bare : FileSystem where
  tree place := if place = [] then some .directory else none
  data _ := []
  fresh := 0
  domain := [[]]
  root := rfl
  closed exists_entry := absurd (if_neg (List.cons_ne_nil _ _)) exists_entry
  named exists_entry := absurd (if_neg (List.cons_ne_nil _ _)) exists_entry
  supported := by
    intro place exists_entry
    by_cases top : place = []
    · simp [top]
    · exact absurd (if_neg top) exists_entry
  allocated := by
    intro place node inode found numbered
    split at found
    · cases found
      simp [Node.inode?] at numbered
    · simp at found

theorem bare_free (name : Name) (place : Location) : bare.tree (name :: place) = none := by
  simp [bare]

section Names

/-- The names of the entries of a directory. -/
def names (fs : FileSystem) (place : Location) : List Name :=
  (fs.domain.filterMap fun entry =>
    match entry with
    | [] => none
    | name :: above => if above = place ∧ fs.tree entry ≠ none then some name else none).dedup

theorem mem_names : name ∈ fs.names place ↔ fs.tree (name :: place) ≠ none := by
  simp only [names, List.mem_dedup, List.mem_filterMap]
  constructor
  · rintro ⟨entry, entry_mem, listed⟩
    cases entry with
    | nil => simp at listed
    | cons other above =>
        simp only [Option.ite_none_right_eq_some, Option.some.injEq] at listed
        rcases listed with ⟨⟨rfl, exists_entry⟩, rfl⟩
        exact exists_entry
  · intro exists_entry
    exact ⟨name :: place, fs.supported exists_entry, by simp [exists_entry]⟩

theorem nodup_names : (fs.names place).Nodup := List.nodup_dedup _

end Names

section Edits

/-- Add an entry. -/
def insert (fs : FileSystem) (name : Name) (place : Location) (node : Node)
    (free : fs.tree (name :: place) = none) (above : fs.tree place = some .directory)
    (valid : ValidName name) (allocated : ∀ inode, node.inode? = some inode → inode < fs.fresh) :
    FileSystem where
  tree entry := if entry = name :: place then some node else fs.tree entry
  data := fs.data
  fresh := fs.fresh
  domain := (name :: place) :: fs.domain
  root := by simpa using fs.root
  closed := by
    intro other inside exists_entry
    have inside_ne : inside ≠ name :: place := by
      rintro rfl
      rw [if_neg (by simp)] at exists_entry
      rw [fs.closed exists_entry] at free
      simp at free
    rw [if_neg inside_ne]
    split at exists_entry
    · rename_i here
      rw [(List.cons.inj here).2, above]
    · exact fs.closed exists_entry
  named := by
    intro other inside exists_entry
    split at exists_entry
    · rename_i here
      rw [(List.cons.inj here).1]
      exact valid
    · exact fs.named exists_entry
  supported := by
    intro entry exists_entry
    split at exists_entry
    · rename_i here
      simp [here]
    · exact List.mem_cons_of_mem _ (fs.supported exists_entry)
  allocated := by
    intro entry other inode found inode_eq
    split at found
    · rw [← Option.some.inj found] at inode_eq
      exact allocated inode inode_eq
    · exact fs.allocated found inode_eq

/-- Take out an entry and what is below it. -/
def remove (fs : FileSystem) (place : Location) (below_root : place ≠ []) : FileSystem where
  tree entry := if place <:+ entry then none else fs.tree entry
  data := fs.data
  fresh := fs.fresh
  domain := fs.domain
  root := by rw [if_neg (by simpa using below_root), fs.root]
  closed := by
    intro other inside exists_entry
    split at exists_entry
    · simp at exists_entry
    · rename_i outside
      rw [if_neg fun suffix => outside (suffix.trans (List.suffix_cons _ _)),
        fs.closed exists_entry]
  named := by
    intro other inside exists_entry
    split at exists_entry
    · simp at exists_entry
    · exact fs.named exists_entry
  supported := by
    intro entry exists_entry
    split at exists_entry
    · simp at exists_entry
    · exact fs.supported exists_entry
  allocated := by
    intro entry other inode found inode_eq
    split at found
    · simp at found
    · exact fs.allocated found inode_eq

theorem not_cons_suffix_self : ¬name :: place <:+ place := by
  intro suffix
  exact Nat.not_succ_le_self _ suffix.length_le

/-- The place of an entry below `new` before `old` was moved there. -/
def origin (old new entry : Location) : Location := entry.take (entry.length - new.length) ++ old

theorem origin_append (old new inside : Location) :
    origin old new (inside ++ new) = inside ++ old := by
  simp [origin]

/-- Move an entry and what is below it to a place, over whatever is there. -/
def move (fs : FileSystem) (old : Location) (name : Name) (place : Location)
    (below_root : old ≠ []) (above : fs.tree place = some .directory) (valid : ValidName name)
    (apart : ¬old <:+ name :: place) : FileSystem where
  tree entry :=
    if name :: place <:+ entry then fs.tree (origin old (name :: place) entry)
    else if old <:+ entry then none
    else fs.tree entry
  data := fs.data
  fresh := fs.fresh
  domain := fs.domain ++ fs.domain.map fun entry => origin (name :: place) old entry
  root := by rw [if_neg (by simp), if_neg (by simpa using below_root), fs.root]
  closed := by
    intro other inside exists_entry
    split at exists_entry
    · rename_i moved
      rcases List.suffix_cons_iff.mp moved with here | ⟨within, rfl⟩
      · rcases List.cons.inj here with ⟨-, rfl⟩
        rw [if_neg not_cons_suffix_self,
          if_neg fun suffix => apart (suffix.trans (List.suffix_cons _ _)), above]
      · rw [if_pos ⟨within, rfl⟩, origin_append]
        rw [← List.cons_append, origin_append] at exists_entry
        exact fs.closed exists_entry
    · rename_i outside
      split at exists_entry
      · simp at exists_entry
      · rename_i stays
        rw [if_neg fun suffix => outside (suffix.trans (List.suffix_cons _ _)),
          if_neg fun suffix => stays (suffix.trans (List.suffix_cons _ _)), fs.closed exists_entry]
  named := by
    intro other inside exists_entry
    split at exists_entry
    · rename_i moved
      rcases List.suffix_cons_iff.mp moved with here | ⟨within, rfl⟩
      · rw [← (List.cons.inj here).1]
        exact valid
      · rw [← List.cons_append, origin_append] at exists_entry
        exact fs.named exists_entry
    · split at exists_entry
      · simp at exists_entry
      · exact fs.named exists_entry
  supported := by
    intro entry exists_entry
    split at exists_entry
    · rename_i moved
      rcases moved with ⟨within, rfl⟩
      rw [origin_append] at exists_entry
      apply List.mem_append_right
      exact List.mem_map.mpr ⟨within ++ old, fs.supported exists_entry, origin_append _ _ _⟩
    · split at exists_entry
      · simp at exists_entry
      · exact List.mem_append_left _ (fs.supported exists_entry)
  allocated := by
    intro entry other inode found inode_eq
    split at found
    · exact fs.allocated found inode_eq
    · split at found
      · simp at found
      · exact fs.allocated found inode_eq

/-- Set the content of an inode. -/
def write (fs : FileSystem) (inode : ℕ) (content : Bytes) : FileSystem :=
  { fs with data := Function.update fs.data inode content }

/-- Set the next inode aside, empty. -/
def allocate (fs : FileSystem) : FileSystem :=
  { fs with
    data := Function.update fs.data fs.fresh []
    fresh := fs.fresh + 1
    allocated := fun found inode_eq => Nat.lt_succ_of_lt (fs.allocated found inode_eq) }

end Edits

section EditLemmas

variable {old entry : Location} {inode : ℕ} {content : Bytes}

@[simp]
theorem tree_write : (fs.write inode content).tree = fs.tree := rfl

@[simp]
theorem data_write : (fs.write inode content).data = Function.update fs.data inode content := rfl

@[simp]
theorem tree_allocate : fs.allocate.tree = fs.tree := rfl

theorem data_allocate_of_lt (old_inode : inode < fs.fresh) :
    fs.allocate.data inode = fs.data inode :=
  Function.update_of_ne old_inode.ne _ _

variable {free : fs.tree (name :: place) = none} {above : fs.tree place = some .directory}
  {valid : ValidName name} {allocated : ∀ inode, node.inode? = some inode → inode < fs.fresh}
  {below_root : old ≠ []} {apart : ¬old <:+ name :: place}

theorem tree_insert :
    (fs.insert name place node free above valid allocated).tree entry =
      if entry = name :: place then some node else fs.tree entry := rfl

@[simp]
theorem tree_insert_self :
    (fs.insert name place node free above valid allocated).tree (name :: place) = some node :=
  if_pos rfl

theorem tree_remove :
    (fs.remove old below_root).tree entry = if old <:+ entry then none else fs.tree entry := rfl

theorem tree_move :
    (fs.move old name place below_root above valid apart).tree entry =
      if name :: place <:+ entry then fs.tree (origin old (name :: place) entry)
      else if old <:+ entry then none
      else fs.tree entry := rfl

@[simp]
theorem data_move : (fs.move old name place below_root above valid apart).data = fs.data := rfl

@[simp]
theorem fresh_move : (fs.move old name place below_root above valid apart).fresh = fs.fresh := rfl

@[simp]
theorem data_remove : (fs.remove old below_root).data = fs.data := rfl

@[simp]
theorem fresh_remove : (fs.remove old below_root).fresh = fs.fresh := rfl

theorem tree_move_append (inside : Location) :
    (fs.move old name place below_root above valid apart).tree (inside ++ name :: place) =
      fs.tree (inside ++ old) := by
  rw [tree_move, if_pos ⟨inside, rfl⟩, origin_append]

@[simp]
theorem tree_move_new :
    (fs.move old name place below_root above valid apart).tree (name :: place) = fs.tree old :=
  tree_move_append []

@[simp]
theorem tree_move_old (leaf : ¬name :: place <:+ old) :
    (fs.move old name place below_root above valid apart).tree old = none := by
  rw [tree_move, if_neg leaf, if_pos (List.suffix_refl _)]

/-- Nothing is below an entry that is no directory. -/
theorem tree_below_leaf (leaf : fs.tree old ≠ some .directory) :
    (if old <:+ entry then none else fs.tree entry) =
      if entry = old then none else fs.tree entry := by
  by_cases gone : old <:+ entry
  · rw [if_pos gone]
    split
    · rfl
    · rename_i inside
      by_contra exists_entry
      exact inside (eq_of_suffix leaf (fun absent => exists_entry absent.symm) gone).symm
  · rw [if_neg gone, if_neg]
    rintro rfl
    exact gone (List.suffix_refl _)

/-- Moving an entry with nothing below it to a free place changes two places. -/
theorem tree_move_leaf (leaf : fs.tree old ≠ some .directory) (exists_old : fs.tree old ≠ none)
    (free : fs.tree (name :: place) = none) :
    (fs.move old name place below_root above valid apart).tree entry =
      if entry = name :: place then fs.tree old
      else if entry = old then none
      else fs.tree entry := by
  rw [tree_move]
  by_cases moved : name :: place <:+ entry
  · rcases moved with ⟨inside, rfl⟩
    rw [if_pos ⟨inside, rfl⟩, origin_append]
    by_cases itself : inside = []
    · simp [itself]
    · have nothing_old : fs.tree (inside ++ old) = none := by
        by_contra exists_inside
        have same := eq_of_suffix leaf exists_inside ⟨inside, rfl⟩
        exact itself (List.self_eq_append_left.mp same)
      have nothing_new : fs.tree (inside ++ name :: place) = none := by
        by_contra exists_inside
        exact not_suffix_of_free free exists_inside ⟨inside, rfl⟩
      have beside : inside ++ name :: place ≠ old := by
        rintro rfl
        exact exists_old nothing_new
      rw [if_neg fun same => itself (List.append_left_eq_self.mp same), if_neg beside, nothing_old,
        nothing_new]
  · have different : entry ≠ name :: place := by
      rintro rfl
      exact moved (List.suffix_refl _)
    rw [if_neg moved, if_neg different]
    exact tree_below_leaf leaf

/-- Taking out an entry with nothing below it changes one place. -/
theorem tree_remove_leaf (leaf : fs.tree old ≠ some .directory) :
    (fs.remove old below_root).tree entry = if entry = old then none else fs.tree entry :=
  tree_below_leaf leaf

end EditLemmas

end FileSystem

end Osis.Posix
