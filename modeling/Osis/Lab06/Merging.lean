import Osis.Lab06.Merge

/-!
# The three loops of a merge (`do_merge` of `sort_index.c`)

`do_merge` fills a buffer from two cursors and copies the buffer over both runs. Here its
loops stand one after the other as in the source, with what they touch. What carries them
is that the records in the buffer and the merge of what is left of the runs make up the
merge of the whole runs; the two loops behind the first one find one of the runs used up.
-/

namespace Osis.Lab06

open Memory

universe u

/-- What `do_merge` touches: records by their index in a run, slots of `tmp`, and with `memcpy`
a slot of `tmp` together with the record that it is copied to. -/
inductive MergeAccess where
  | left (index : ℕ)
  | right (index : ℕ)
  | tmp (index : ℕ)
  | copied (index : ℕ)
  deriving DecidableEq

/-- The bounds of the runs, of `tmp` and of the joint range. -/
def MergeAccess.Inside (span : ℕ) : MergeAccess → Prop
  | .left index | .right index => index < span
  | .tmp index | .copied index => index < span * 2

/-- The cursors and the buffer of `do_merge`, with what it has touched. -/
structure Merging (Time : Type u) where
  l : ℕ
  r : ℕ
  i : ℕ
  tmp : ℕ → IndexS Time
  accesses : List MergeAccess

/-- The memory behind `do_merge` and what it has touched. -/
structure Merged (Time : Type u) where
  base : ℕ → IndexS Time
  accesses : List MergeAccess

variable {Time : Type u}

namespace Merging

/-- `tmp[i++] = left[l++]`. -/
def takeLeft (left : ℕ → IndexS Time) (merging : Merging Time) : Merging Time :=
  { l := merging.l + 1
    r := merging.r
    i := merging.i + 1
    tmp := Function.update merging.tmp merging.i (left merging.l)
    accesses := merging.accesses ++ [.left merging.l, .tmp merging.i] }

/-- `tmp[i++] = right[r++]`. -/
def takeRight (right : ℕ → IndexS Time) (merging : Merging Time) : Merging Time :=
  { l := merging.l
    r := merging.r + 1
    i := merging.i + 1
    tmp := Function.update merging.tmp merging.i (right merging.r)
    accesses := merging.accesses ++ [.right merging.r, .tmp merging.i] }

/-- `cmp_index_s(&left[l], &right[r])` reads both records. -/
def compare (merging : Merging Time) : Merging Time :=
  { merging with accesses := merging.accesses ++ [.left merging.l, .right merging.r] }

/-- `while (l < span && r < span)`. -/
def mergeBoth [LinearOrder Time] (left right : ℕ → IndexS Time) (span : ℕ)
    (merging : Merging Time) : Merging Time :=
  if merging.l < span ∧ merging.r < span then
    if cmpIndexS (left merging.l) (right merging.r) ≤ 0 then
      mergeBoth left right span (merging.compare.takeLeft left)
    else mergeBoth left right span (merging.compare.takeRight right)
  else merging
termination_by span - merging.l + (span - merging.r)
decreasing_by
  · simp only [takeLeft, compare]
    omega
  · simp only [takeRight, compare]
    omega

/-- `while (l < span)`. -/
def takeLefts (left : ℕ → IndexS Time) (span : ℕ) (merging : Merging Time) : Merging Time :=
  if merging.l < span then takeLefts left span (merging.takeLeft left) else merging
termination_by span - merging.l
decreasing_by
  simp only [takeLeft]
  omega

/-- `while (r < span)`. -/
def takeRights (right : ℕ → IndexS Time) (span : ℕ) (merging : Merging Time) : Merging Time :=
  if merging.r < span then takeRights right span (merging.takeRight right) else merging
termination_by span - merging.r
decreasing_by
  simp only [takeRight]
  omega

end Merging

variable [LinearOrder Time]

/-- The three loops, on a buffer with the contents that `malloc` finds. -/
def mergeRuns (found left right : ℕ → IndexS Time) (span : ℕ) : Merging Time :=
  ((Merging.mergeBoth left right span ⟨0, 0, 0, found, []⟩).takeLefts left span).takeRights
    right span

/-- `do_merge`, loop by loop. -/
def doMergeLoops (found base : ℕ → IndexS Time) (idx span : ℕ) : Merged Time :=
  let left := idx * 2 * span
  let right := left + span
  let total := span * 2
  let merging := mergeRuns found (fun l => base (left + l)) (fun r => base (right + r)) span
  -- `memcpy(left, tmp, total * sizeof *tmp)`
  { base := write base left (slice merging.tmp 0 total)
    accesses := merging.accesses ++ (List.range total).map .copied }

namespace Merging

variable {left right : ℕ → IndexS Time} {span : ℕ} {merging : Merging Time}

/-- What holds between any two turns of the loops. -/
structure Joint (left right : ℕ → IndexS Time) (span : ℕ) (merging : Merging Time) : Prop where
  l_le : merging.l ≤ span
  r_le : merging.r ≤ span
  i_eq : merging.i = merging.l + merging.r
  /-- The buffer and the merge of what is left make up the whole merge. -/
  content : slice merging.tmp 0 merging.i ++
      (slice left merging.l (span - merging.l)).merge (slice right merging.r (span - merging.r))
        inOrder =
    (slice left 0 span).merge (slice right 0 span) inOrder
  inside : ∀ access ∈ merging.accesses, access.Inside span

/-- What a line of the loops adds to the accesses. -/
theorem inside_append {accesses : List MergeAccess} {first second : MergeAccess}
    (before : ∀ access ∈ accesses, access.Inside span) (first_inside : first.Inside span)
    (second_inside : second.Inside span) :
    ∀ access ∈ accesses ++ [first, second], access.Inside span := by
  intro access access_mem
  rcases List.mem_append.mp access_mem with earlier | now
  · exact before access earlier
  · simp only [List.mem_cons, List.not_mem_nil, or_false] at now
    rcases now with rfl | rfl
    · exact first_inside
    · exact second_inside

theorem joint_start (found left right : ℕ → IndexS Time) (span : ℕ) :
    Joint left right span ⟨0, 0, 0, found, []⟩ where
  l_le := Nat.zero_le span
  r_le := Nat.zero_le span
  i_eq := Nat.add_zero 0
  content := List.nil_append _
  inside _ access_mem := absurd access_mem List.not_mem_nil

theorem Joint.compare (joint : merging.Joint left right span) (l_lt : merging.l < span)
    (r_lt : merging.r < span) : merging.compare.Joint left right span where
  l_le := joint.l_le
  r_le := joint.r_le
  i_eq := joint.i_eq
  content := joint.content
  inside := inside_append joint.inside l_lt r_lt

/-- A record of the left run that comes next in the merge may be taken. -/
theorem Joint.takeLeft (joint : merging.Joint left right span) (l_lt : merging.l < span)
    (next : (slice left merging.l (span - merging.l)).merge
        (slice right merging.r (span - merging.r)) inOrder =
      left merging.l :: (slice left (merging.l + 1) (span - (merging.l + 1))).merge
        (slice right merging.r (span - merging.r)) inOrder) :
    (merging.takeLeft left).Joint left right span where
  l_le := l_lt
  r_le := joint.r_le
  i_eq := by
    have i_eq := joint.i_eq
    simp only [Merging.takeLeft]
    omega
  content := by
    simp only [Merging.takeLeft]
    rw [slice_update, List.append_assoc, List.singleton_append, ← next]
    exact joint.content
  inside := by
    have i_eq := joint.i_eq
    have r_le := joint.r_le
    apply inside_append joint.inside
    · exact l_lt
    · simp only [MergeAccess.Inside]
      omega

/-- A record of the right run that comes next in the merge may be taken. -/
theorem Joint.takeRight (joint : merging.Joint left right span) (r_lt : merging.r < span)
    (next : (slice left merging.l (span - merging.l)).merge
        (slice right merging.r (span - merging.r)) inOrder =
      right merging.r :: (slice left merging.l (span - merging.l)).merge
        (slice right (merging.r + 1) (span - (merging.r + 1))) inOrder) :
    (merging.takeRight right).Joint left right span where
  l_le := joint.l_le
  r_le := r_lt
  i_eq := by
    have i_eq := joint.i_eq
    simp only [Merging.takeRight]
    omega
  content := by
    simp only [Merging.takeRight]
    rw [slice_update, List.append_assoc, List.singleton_append, ← next]
    exact joint.content
  inside := by
    have i_eq := joint.i_eq
    have l_le := joint.l_le
    apply inside_append joint.inside
    · exact r_lt
    · simp only [MergeAccess.Inside]
      omega

/-- The first loop ends with one of the runs used up. -/
theorem Joint.mergeBoth (joint : merging.Joint left right span) :
    (merging.mergeBoth left right span).Joint left right span ∧
      ((merging.mergeBoth left right span).l = span ∨
        (merging.mergeBoth left right span).r = span) := by
  induction merging using Merging.mergeBoth.induct left right span with
  | case1 merging more first ih =>
      rw [Merging.mergeBoth, if_pos more, if_pos first]
      apply ih
      apply (joint.compare more.1 more.2).takeLeft more.1
      simp only [Merging.compare]
      rw [slice_sub_succ left more.1, slice_sub_succ right more.2,
        List.cons_merge_cons_pos _ _ _ (by simpa [inOrder] using first)]
  | case2 merging more second ih =>
      rw [Merging.mergeBoth, if_pos more, if_neg second]
      apply ih
      apply (joint.compare more.1 more.2).takeRight more.2
      simp only [Merging.compare]
      rw [slice_sub_succ left more.1, slice_sub_succ right more.2,
        List.cons_merge_cons_neg _ _ _ (by simpa [inOrder] using second)]
  | case3 merging done =>
      rw [Merging.mergeBoth, if_neg done]
      have l_le := joint.l_le
      have r_le := joint.r_le
      exact ⟨joint, by omega⟩

/-- The second loop uses up the left run, and finds records there only behind the right one. -/
theorem Joint.takeLefts (joint : merging.Joint left right span)
    (ended : merging.l = span ∨ merging.r = span) :
    (merging.takeLefts left span).Joint left right span ∧
      (merging.takeLefts left span).l = span := by
  induction merging using Merging.takeLefts.induct left span with
  | case1 merging more ih =>
      have right_ended : merging.r = span := ended.resolve_left (Nat.ne_of_lt more)
      rw [Merging.takeLefts, if_pos more]
      apply ih
      · apply joint.takeLeft more
        rw [slice_sub_eq_nil right (Nat.le_of_eq right_ended.symm), List.merge_right,
          List.merge_right, slice_sub_succ left more]
      · exact Or.inr right_ended
  | case2 merging done =>
      rw [Merging.takeLefts, if_neg done]
      exact ⟨joint, Nat.le_antisymm joint.l_le (Nat.le_of_not_lt done)⟩

/-- The third loop uses up the right run. -/
theorem Joint.takeRights (joint : merging.Joint left right span) (ended : merging.l = span) :
    (merging.takeRights right span).Joint left right span ∧
      (merging.takeRights right span).l = span ∧ (merging.takeRights right span).r = span := by
  induction merging using Merging.takeRights.induct right span with
  | case1 merging more ih =>
      rw [Merging.takeRights, if_pos more]
      apply ih
      · apply joint.takeRight more
        rw [slice_sub_eq_nil left (Nat.le_of_eq ended.symm), List.nil_merge, List.nil_merge,
          slice_sub_succ right more]
      · exact ended
  | case2 merging done =>
      rw [Merging.takeRights, if_neg done]
      exact ⟨joint, ended, Nat.le_antisymm joint.r_le (Nat.le_of_not_lt done)⟩

end Merging

section DoMerge

variable {base : ℕ → IndexS Time} {idx span : ℕ}

/-- The loops leave the merge of the runs in the buffer, and touch nothing else. -/
theorem mergeRuns_spec (found left right : ℕ → IndexS Time) (span : ℕ) :
    slice (mergeRuns found left right span).tmp 0 (span * 2) =
        (slice left 0 span).merge (slice right 0 span) inOrder ∧
      ∀ access ∈ (mergeRuns found left right span).accesses, access.Inside span := by
  rcases (Merging.joint_start found left right span).mergeBoth with ⟨first, one_ended⟩
  rcases first.takeLefts one_ended with ⟨second, left_ended⟩
  rcases second.takeRights left_ended with ⟨third, left_used, right_used⟩
  have content := third.content
  rw [third.i_eq, left_used, right_used, slice_sub_eq_nil left (Nat.le_refl span),
    slice_sub_eq_nil right (Nat.le_refl span), List.nil_merge, List.append_nil,
    ← Nat.mul_two] at content
  exact ⟨content, third.inside⟩

/-- The loops compute what their model as one list does. -/
theorem base_doMergeLoops (found base : ℕ → IndexS Time) (idx span : ℕ) :
    (doMergeLoops found base idx span).base = doMerge base idx span := by
  simp only [doMergeLoops, doMerge]
  rw [(mergeRuns_spec found _ _ span).1,
    mergeLoop_eq _ _ _ _ 0 0 (Nat.zero_le _) (Nat.zero_le _) (by omega), Nat.sub_zero]

theorem accesses_doMergeLoops (found base : ℕ → IndexS Time) (idx span : ℕ) :
    ∀ access ∈ (doMergeLoops found base idx span).accesses, access.Inside span := by
  intro access access_mem
  rcases List.mem_append.mp access_mem with looped | copied
  · exact (mergeRuns_spec found _ _ span).2 access looped
  · rcases List.mem_map.mp copied with ⟨index, index_mem, rfl⟩
    exact List.mem_range.mp index_mem

/-- The joint range holds the merge of the runs. -/
theorem slice_doMerge (base : ℕ → IndexS Time) (idx span : ℕ) :
    slice (doMerge base idx span) (2 * span * idx) (2 * span) =
      (slice base (span * (2 * idx)) span).merge (slice base (span * (2 * idx + 1)) span)
        inOrder := by
  rw [doMerge_eq]
  apply slice_write
  rw [List.length_merge, length_slice, length_slice, Nat.two_mul]

theorem slice_doMerge_perm (base : ℕ → IndexS Time) (idx span : ℕ) :
    (slice (doMerge base idx span) (2 * span * idx) (2 * span)).Perm
      (slice base (2 * span * idx) (2 * span)) := by
  rw [slice_doMerge, slice_double]
  exact List.merge_perm_append inOrder

theorem doMerge_of_outside {address : ℕ}
    (outside : address < 2 * span * idx ∨ 2 * span * idx + 2 * span ≤ address) :
    doMerge base idx span address = base address := by
  rw [doMerge_eq]
  apply write_outside
  rw [List.length_merge, length_slice, length_slice, ← Nat.two_mul]
  exact outside

/-- A pair that is sorted as a whole is merged into what it is. -/
theorem doMerge_of_run (sorted : Run base (2 * span) idx) : doMerge base idx span = base := by
  have joint : ((slice base (span * (2 * idx)) span).merge
      (slice base (span * (2 * idx + 1)) span) inOrder) =
        slice base (2 * span * idx) (2 * span) := by
    rw [slice_double]
    apply List.merge_of_le
    unfold Run RunSorted at sorted
    rw [slice_double, List.pairwise_append] at sorted
    intro a b a_mem b_mem
    exact sorted.2.2 a a_mem b b_mem
  rw [doMerge_eq, joint]
  exact write_slice base _ _

/-- `do_merge` merges: with both runs sorted, it leaves their joint range sorted, with the same
records and all others as they were, touches the runs and its buffer inside their bounds, and
changes nothing when it is called again. -/
theorem doMergeLoops_merges (found found' base : ℕ → IndexS Time) (idx span : ℕ)
    (first : Sorted (slice base (2 * idx * span) span))
    (second : Sorted (slice base (2 * idx * span + span) span)) :
    let merged := doMergeLoops found base idx span
    Sorted (slice merged.base (2 * idx * span) (2 * span)) ∧
      (slice merged.base (2 * idx * span) (2 * span)).Perm
        (slice base (2 * idx * span) (2 * span)) ∧
      (∀ address, address < 2 * idx * span ∨ 2 * (idx + 1) * span ≤ address →
        merged.base address = base address) ∧
      (∀ access ∈ merged.accesses, access.Inside span) ∧
      (doMergeLoops found' merged.base idx span).base = merged.base := by
  have left_eq : 2 * idx * span = span * (2 * idx) := Nat.mul_comm _ _
  have right_eq : 2 * idx * span + span = span * (2 * idx + 1) := by ring
  have joint_eq : 2 * idx * span = 2 * span * idx := by ring
  have end_eq : 2 * (idx + 1) * span = 2 * span * idx + 2 * span := by ring
  rw [right_eq] at second
  rw [left_eq] at first
  have sorted : Run (doMerge base idx span) (2 * span) idx := run_doMerge first second
  refine ⟨?_, ?_, ?_, accesses_doMergeLoops found base idx span, ?_⟩
  · rw [base_doMergeLoops, joint_eq]
    exact sorted
  · rw [base_doMergeLoops, joint_eq]
    exact slice_doMerge_perm base idx span
  · intro address outside
    rw [joint_eq, end_eq] at outside
    rw [base_doMergeLoops]
    exact doMerge_of_outside outside
  · rw [base_doMergeLoops, base_doMergeLoops]
    exact doMerge_of_run sorted

/-- Two runs with an equal record: 1, 3 and 1, 2. -/
def pairRuns (address : ℕ) : IndexS ℕ := ⟨[1, 3, 1, 2].getD address 0, 0⟩

/-- Merging the runs 1, 3 and 1, 2. -/
theorem doMergeLoops_pairRuns :
    let merged := doMergeLoops pairRuns pairRuns 0 2
    Sorted (slice merged.base 0 4) ∧ (slice merged.base 0 4).Perm (slice pairRuns 0 4) ∧
      (∀ address, address < 0 ∨ 4 ≤ address → merged.base address = pairRuns address) ∧
      (∀ access ∈ merged.accesses, access.Inside 2) ∧
      (doMergeLoops pairRuns merged.base 0 2).base = merged.base :=
  doMergeLoops_merges pairRuns pairRuns pairRuns 0 2 (by decide) (by decide)

end DoMerge

end Osis.Lab06
