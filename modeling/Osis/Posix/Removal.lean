import Osis.Posix.SystemCalls

/-!
# Removing trees

`nftw` with `FTW_DEPTH` removes a directory entry by entry, each directory after all that
is in it, and ends with the first call that fails. What it leaves is the tree without the
entries it has come to (`removeEach_spec`); in the right order and without a call being
refused it comes to all of them (`removeEach_of_granted`).

A call may be refused for reasons that are not in the tree: permissions, an attribute,
a path that is too long. Who refuses what is an argument.
-/

namespace Osis.Posix

/-- A call that is refused fails. -/
def granted {α : Type} (refused : Bool) (result : Option α) : Option α :=
  if refused then none else result

theorem granted_eq_some {α : Type} {refused : Bool} {result : Option α} {value : α} :
    granted refused result = some value ↔ refused = false ∧ result = some value := by
  cases refused <;> simp [granted]

namespace FileSystem

/-- `remove`, given the place of an entry; a directory has to be empty. -/
def removeAt (fs : FileSystem) : Location → Option FileSystem
  | [] => none
  | name :: place =>
      if fs.tree (name :: place) = none ∨ fs.names (name :: place) ≠ [] then none
      else some (fs.remove (name :: place) (List.cons_ne_nil _ _))

/-- The calls of a removal entry by entry, and whether none of them has failed. -/
def removeEach (refused : Location → Bool) : List Location → FileSystem → Bool × FileSystem
  | [], fs => (true, fs)
  | place :: rest, fs =>
      match granted (refused place) (fs.removeAt place) with
      | none => (false, fs)
      | some removed => removeEach refused rest removed

/-- The entries below a directory, in an order in which `nftw` can come to them. -/
structure Postorder (fs : FileSystem) (top : Location) (order : List Location) : Prop where
  mem : ∀ place, place ∈ order ↔ top <:+ place ∧ place ≠ top ∧ fs.tree place ≠ none
  inside_first : order.Pairwise fun earlier later => ¬earlier <:+ later

/-- A file system without some of the entries of another. -/
structure Without (fs fs' : FileSystem) (gone : Location → Prop) : Prop where
  absent : ∀ entry, gone entry → fs'.tree entry = none
  present : ∀ entry, ¬gone entry → fs'.tree entry = fs.tree entry
  data : fs'.data = fs.data
  fresh : fs'.fresh = fs.fresh

variable {fs fs' fs'' : FileSystem} {place top : Location} {refused : Location → Bool}
  {order : List Location}

namespace Without

variable {gone gone' : Location → Prop}

theorem refl (fs : FileSystem) : fs.Without fs fun _ => False :=
  ⟨fun _ absurd => absurd.elim, fun _ _ => rfl, rfl, rfl⟩

theorem tree_cases (without : fs.Without fs' gone) (entry : Location) :
    gone entry ∧ fs'.tree entry = none ∨ ¬gone entry ∧ fs'.tree entry = fs.tree entry := by
  by_cases gone_entry : gone entry
  · exact .inl ⟨gone_entry, without.absent entry gone_entry⟩
  · exact .inr ⟨gone_entry, without.present entry gone_entry⟩

/-- Nothing is new in it. -/
theorem extended (without : fs.Without fs' gone) : fs'.Extends fs := by
  intro entry exists_entry
  rcases without.tree_cases entry with ⟨-, absent⟩ | ⟨-, same⟩
  · exact absurd absent exists_entry
  · exact same.symm

theorem trans (without : fs.Without fs' gone) (without' : fs'.Without fs'' gone') :
    fs.Without fs'' fun entry => gone entry ∨ gone' entry := by
  refine ⟨?_, ?_, without'.data.trans without.data, without'.fresh.trans without.fresh⟩
  · intro entry gone_entry
    rcases without'.tree_cases entry with ⟨-, absent⟩ | ⟨stays, same⟩
    · exact absent
    · rw [same, without.absent entry (gone_entry.resolve_right stays)]
  · intro entry stays
    rw [without'.present entry fun gone_entry => stays (.inr gone_entry),
      without.present entry fun gone_entry => stays (.inl gone_entry)]

theorem congr (without : fs.Without fs' gone) (same : ∀ entry, gone entry ↔ gone' entry) :
    fs.Without fs' gone' :=
  ⟨fun entry gone_entry => without.absent entry ((same entry).mpr gone_entry),
    fun entry stays => without.present entry fun gone_entry => stays ((same entry).mp gone_entry),
    without.data, without.fresh⟩

/-- Whatever has changed is gone. -/
theorem of_ne (without : fs.Without fs' gone) {entry : Location}
    (changed : fs'.tree entry ≠ fs.tree entry) : gone entry ∧ fs'.tree entry = none := by
  rcases without.tree_cases entry with gone_entry | ⟨-, same⟩
  · exact gone_entry
  · exact absurd same changed

/-- A directory is left empty if all in it is gone. -/
theorem names_eq_nil_iff (without : fs.Without fs' gone) :
    fs'.names place = [] ↔ ∀ name ∈ fs.names place, gone (name :: place) := by
  rw [List.eq_nil_iff_forall_not_mem]
  constructor
  · intro empty name name_mem
    by_contra stays
    apply empty name
    rw [mem_names, without.present _ stays]
    exact mem_names.mp name_mem
  · intro all_gone name name_mem
    have still := mem_names.mp name_mem
    rcases without.tree_cases (name :: place) with ⟨-, absent⟩ | ⟨stays, same⟩
    · exact still absent
    · rw [same] at still
      exact stays (all_gone name (mem_names.mpr still))

end Without

theorem without_remove {old : Location} (below_root : old ≠ []) :
    fs.Without (fs.remove old below_root) fun entry => old <:+ entry :=
  ⟨fun _ inside => if_pos inside, fun _ outside => if_neg outside, rfl, rfl⟩

theorem without_remove_leaf {old : Location} (below_root : old ≠ [])
    (leaf : fs.tree old ≠ some .directory) :
    fs.Without (fs.remove old below_root) fun entry => entry = old :=
  ⟨fun _ here => (tree_remove_leaf leaf).trans (if_pos here),
    fun _ elsewhere => (tree_remove_leaf leaf).trans (if_neg elsewhere), rfl, rfl⟩

/-- Nothing stands below an entry without names in it. -/
theorem eq_of_suffix_of_empty (empty : fs.names place = []) {below : Location}
    (exists_below : fs.tree below ≠ none) (suffix : place <:+ below) : place = below := by
  induction below with
  | nil => exact List.suffix_nil.mp suffix
  | cons name above ih =>
      rcases List.suffix_cons_iff.mp suffix with same | inside
      · exact same
      · have directory := fs.closed exists_below
        have same := ih (ne_none_of_eq_some directory) inside
        rw [← same] at exists_below
        have listed := mem_names.mpr exists_below
        rw [empty] at listed
        cases listed

theorem names_of_leaf (leaf : fs.tree place ≠ some .directory) : fs.names place = [] := by
  rw [List.eq_nil_iff_forall_not_mem]
  intro name listed
  exact leaf (fs.closed (mem_names.mp listed))

theorem removeAt_eq_some (removed : fs.removeAt place = some fs') :
    fs.tree place ≠ none ∧ fs.names place = [] ∧ fs.Without fs' fun entry => entry = place := by
  cases place with
  | nil => cases removed
  | cons name place =>
      simp only [removeAt, Option.ite_none_left_eq_some, Option.some.injEq, not_or,
        not_not] at removed
      rcases removed with ⟨⟨exists_entry, empty⟩, rfl⟩
      refine ⟨exists_entry, empty, ?_, ?_, rfl, rfl⟩
      · rintro entry rfl
        exact if_pos (List.suffix_refl _)
      · intro entry elsewhere
        rw [tree_remove]
        split
        · next inside =>
            by_contra exists_entry
            exact elsewhere (eq_of_suffix_of_empty empty (fun absent => exists_entry absent.symm)
              inside).symm
        · rfl

theorem removeAt_of_empty (exists_entry : fs.tree place ≠ none) (below_root : place ≠ [])
    (empty : fs.names place = []) : fs.removeAt place = some (fs.remove place below_root) := by
  cases place with
  | nil => exact absurd rfl below_root
  | cons name place => exact if_neg (by simp [exists_entry, empty])

/-- A removal takes out the entries it has come to, all of them if no call has failed. -/
theorem removeEach_spec (refused : Location → Bool) (order : List Location) (fs : FileSystem) :
    ∃ done, done <+: order ∧
      fs.Without (fs.removeEach refused order).2 (fun entry => entry ∈ done) ∧
      ((fs.removeEach refused order).1 = true → done = order ∧
        ∀ place ∈ order, refused place = false) := by
  induction order generalizing fs with
  | nil => exact ⟨[], List.prefix_refl _, (Without.refl fs).congr (by simp), by simp⟩
  | cons place rest ih =>
      unfold removeEach
      cases removed : granted (refused place) (fs.removeAt place) with
      | none => exact ⟨[], List.nil_prefix, (Without.refl fs).congr (by simp), by simp⟩
      | some fs' =>
          rcases granted_eq_some.mp removed with ⟨grant, removed⟩
          rcases removeAt_eq_some removed with ⟨-, -, without⟩
          rcases ih fs' with ⟨done, done_among, without', complete⟩
          refine ⟨place :: done, List.cons_prefix_cons.mpr ⟨rfl, done_among⟩,
            (without.trans without').congr (by simp), ?_⟩
          intro whole
          rcases complete whole with ⟨rfl, grants⟩
          refine ⟨rfl, fun other other_mem => ?_⟩
          rcases List.mem_cons.mp other_mem with rfl | in_rest
          · exact grant
          · exact grants other in_rest

/-- No call fails if none is refused and every entry comes after all that is below it. -/
theorem removeEach_of_closed (below_root : ∀ place ∈ order, place ≠ [])
    (exists_all : ∀ place ∈ order, fs.tree place ≠ none)
    (closed : ∀ place ∈ order, ∀ below, fs.tree below ≠ none → place <:+ below → below ∈ order)
    (inside_first : order.Pairwise fun earlier later => ¬earlier <:+ later)
    (grants : ∀ place ∈ order, refused place = false) :
    (fs.removeEach refused order).1 = true := by
  induction order generalizing fs with
  | nil => rfl
  | cons place rest ih =>
      rcases List.pairwise_cons.mp inside_first with ⟨first, inside_first⟩
      have empty : fs.names place = [] := by
        rw [List.eq_nil_iff_forall_not_mem]
        intro name listed
        have suffix := List.suffix_cons name place
        have later := closed place List.mem_cons_self _ (mem_names.mp listed) suffix
        rcases List.mem_cons.mp later with same | in_rest
        · have lengths := congrArg List.length same
          rw [List.length_cons] at lengths
          omega
        · exact first _ in_rest suffix
      have removed := removeAt_of_empty (exists_all place List.mem_cons_self)
        (below_root place List.mem_cons_self) empty
      have without := (removeAt_eq_some removed).2.2
      unfold removeEach
      rw [granted_eq_some.mpr ⟨grants place List.mem_cons_self, removed⟩]
      have other_place : ∀ other ∈ rest, other ≠ place := by
        rintro other other_mem rfl
        exact first other other_mem (List.suffix_refl _)
      apply ih (fun other other_mem => below_root other (List.mem_cons_of_mem _ other_mem)) _ _
        inside_first fun other other_mem => grants other (List.mem_cons_of_mem _ other_mem)
      · intro other other_mem
        rw [without.present other (other_place other other_mem)]
        exact exists_all other (List.mem_cons_of_mem _ other_mem)
      · intro other other_mem below exists_below suffix
        rcases without.tree_cases below with ⟨-, absent⟩ | ⟨elsewhere, same⟩
        · exact absurd absent exists_below
        · rw [same] at exists_below
          have later := closed other (List.mem_cons_of_mem _ other_mem) below exists_below suffix
          exact (List.mem_cons.mp later).resolve_left elsewhere

theorem Postorder.ne_nil (postorder : fs.Postorder top order) : ∀ place ∈ order, place ≠ [] := by
  rintro place place_mem rfl
  rcases (postorder.mem []).mp place_mem with ⟨suffix, different, -⟩
  exact different (List.suffix_nil.mp suffix).symm

/-- A tree that no call is refused on is emptied. -/
theorem Postorder.removeEach_of_granted (postorder : fs.Postorder top order)
    (grants : ∀ place ∈ order, refused place = false) :
    (fs.removeEach refused order).1 = true := by
  apply removeEach_of_closed postorder.ne_nil _ _ postorder.inside_first grants
  · exact fun place place_mem => ((postorder.mem place).mp place_mem).2.2
  · intro place place_mem below exists_below suffix
    rcases (postorder.mem place).mp place_mem with ⟨above, different, -⟩
    refine (postorder.mem below).mpr ⟨above.trans suffix, ?_, exists_below⟩
    rintro rfl
    exact different (suffix.eq_of_length_le above.length_le)

section Depth

/-- The entries of a tree, the deepest first. -/
def byDepth (fs : FileSystem) : List Location :=
  fs.domain.dedup.mergeSort fun first second => second.length ≤ first.length

theorem mem_byDepth (exists_entry : fs.tree place ≠ none) : place ∈ fs.byDepth := by
  rw [byDepth, List.mem_mergeSort, List.mem_dedup]
  exact fs.supported exists_entry

theorem pairwise_byDepth : fs.byDepth.Pairwise fun earlier later => ¬earlier <:+ later := by
  have transitive : ∀ first second third : Location, decide (second.length ≤ first.length) →
      decide (third.length ≤ second.length) → decide (third.length ≤ first.length) := by
    intro first second third
    simp only [decide_eq_true_eq]
    omega
  have total : ∀ first second : Location, decide (second.length ≤ first.length) ||
      decide (first.length ≤ second.length) := by
    intro first second
    simp only [Bool.or_eq_true, decide_eq_true_eq]
    omega
  have sorted := List.pairwise_mergeSort transitive total fs.domain.dedup
  have distinct : fs.byDepth.Pairwise (· ≠ ·) :=
    (List.mergeSort_perm _ _).nodup_iff.mpr (List.nodup_dedup _)
  apply (sorted.and distinct).imp
  rintro earlier later ⟨deeper, different⟩ above
  exact different (above.eq_of_length_le (of_decide_eq_true deeper))

end Depth

end FileSystem

end Osis.Posix
