import Osis.Lab02.Environment

/-!
# The stores into the table of entries

`CreateChildEnv` fills an array of `MAX_ENV_VARS` places on its stack. The loop over the
file compares `count` with this number before each store, but the entry for `CHILD_PATH`
and the `NULL` behind the last entry are stored without a comparison.
-/

namespace Osis.Lab02

open Posix (Bytes ascii newline lines)

section Stores

variable (environ : List Bytes)

/-- The stores of the loop over the lines left, each with its index, and the last `count`. -/
def loopStores (count : ℕ) : List Bytes → List (Option Bytes × ℕ) × ℕ
  | [] => ([], count)
  | line :: rest =>
      if count < maxEnvVars then
        let name := cutAtBreak line
        if name = [] then loopStores count rest
        else
          let later := loopStores (count + 1) rest
          ((some (envEntry environ name), count) :: later.1, later.2)
      else ([], count)

/-- What `CreateChildEnv` stores into `env_entries`, and where; `none` is `NULL`. -/
def stores (text : Bytes) : List (Option Bytes × ℕ) :=
  let (ofNames, count) := loopStores environ 0 (lines 256 text)
  match childPathEntry environ with
  | some entry => ofNames ++ [(some entry, count), (none, count + 1)]
  | none => ofNames ++ [(none, count)]

variable {environ} {count : ℕ} {read : List Bytes}

theorem loopStores_eq (environ : List Bytes) (count : ℕ) (read : List Bytes) :
    loopStores environ count read =
      (((envEntries environ count read).map some).zipIdx count,
        count + (envEntries environ count read).length) := by
  induction read generalizing count with
  | nil => rfl
  | cons line rest ih =>
      by_cases room : count < maxEnvVars
      · by_cases empty : cutAtBreak line = []
        · simpa [loopStores, envEntries, room, empty] using ih count
        · simp [loopStores, envEntries, room, empty, ih, Nat.add_assoc, Nat.add_comm 1]
      · simp [loopStores, envEntries, room]

/-- The places are filled one after the other, and closed by `NULL`. -/
theorem stores_eq (text : Bytes) :
    stores environ text =
      ((envEntries environ 0 (lines 256 text) ++ (childPathEntry environ).toList).map some ++
        [none]).zipIdx := by
  have loop_eq := loopStores_eq environ 0 (lines 256 text)
  cases path : childPathEntry environ with
  | none => simp [stores, loop_eq, path, List.zipIdx_append]
  | some entry => simp [stores, loop_eq, path, List.zipIdx_append]

/-- The loop makes an entry for each name as long as there is room. -/
theorem length_envEntries (room : count ≤ maxEnvVars) :
    (envEntries environ count read).length = min (namesIn read).length (maxEnvVars - count) := by
  induction read generalizing count with
  | nil => simp [envEntries, namesIn]
  | cons line rest ih =>
      by_cases more : count < maxEnvVars
      · by_cases empty : cutAtBreak line = []
        · simpa [envEntries, more, empty, namesIn_cons_of_empty empty] using ih room
        · have later := @ih (count + 1) more
          simp only [envEntries, more, empty, if_true, if_false, List.length_cons, later,
            namesIn_cons empty]
          omega
      · have full : maxEnvVars - count = 0 := by omega
        simp [envEntries, more, full]

theorem length_childPathEntry :
    (childPathEntry environ).toList.length =
      if (getenv environ (ascii "CHILD_PATH")).isSome then 1 else 0 := by
  cases value : getenv environ (ascii "CHILD_PATH") <;> simp [childPathEntry, value]

/-- The stores stay inside if the last one does, which is `NULL` behind all entries. -/
theorem forall_stores_iff (text : Bytes) :
    (∀ store ∈ stores environ text, store.2 < maxEnvVars) ↔
      (envEntries environ 0 (lines 256 text) ++ (childPathEntry environ).toList).length <
        maxEnvVars := by
  rw [stores_eq]
  generalize envEntries environ 0 (lines 256 text) ++ (childPathEntry environ).toList = entries
  constructor
  · intro inside
    apply inside (none, entries.length)
    apply List.mem_zipIdx_iff_getElem?.mpr
    simp
  · intro room store store_mem
    have index_lt := List.snd_lt_of_mem_zipIdx store_mem
    simp only [List.length_append, List.length_map, List.length_singleton] at index_lt
    omega

/-- A table is returned exactly if no store is behind the last place. -/
theorem createChildEnv_isOk_iff (text : Bytes) :
    (createChildEnv environ (some text)).isOk ↔
      ∀ store ∈ stores environ text, store.2 < maxEnvVars := by
  apply Iff.trans _ (forall_stores_iff text).symm
  simp only [createChildEnv]
  split <;> simp_all [Except.isOk, Except.toBool]

end Stores

/-- All stores are inside `env_entries` exactly if the nonempty names of the file, and
`CHILD_PATH` where it is set, leave a place for `NULL`. -/
theorem stores_inside_iff (environ : List Bytes) (text : Bytes) :
    (∀ store ∈ stores environ text, store.2 < maxEnvVars) ↔
      (pieces text).length + (if (getenv environ (ascii "CHILD_PATH")).isSome then 1 else 0) <
        maxEnvVars := by
  apply (forall_stores_iff text).trans
  have names_le : (envEntries environ 0 (lines 256 text)).length =
      min (pieces text).length (maxEnvVars - 0) := length_envEntries (Nat.zero_le _)
  rw [List.length_append, length_childPathEntry, names_le]
  omega

/-- A hundred names fill the array, and `NULL` is stored behind it. -/
theorem not_stores_inside :
    ¬∀ environ text, ∀ store ∈ stores environ text, store.2 < maxEnvVars := by
  intro inside
  have hundred := inside [] (List.replicate 100 [65, newline]).flatten (none, 100)
    (by decide +kernel)
  exact absurd hundred (by decide)

end Osis.Lab02
