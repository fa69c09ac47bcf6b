import Osis.Posix.Stream

/-!
# The environment of a child

The parent makes an environment out of the names in `env.txt`: an entry for each name it
reads, with its own value of the variable or none, and one for `CHILD_PATH`. A child
started with `+` reads the same file and looks its names up in that environment.
-/

namespace Osis.Lab02

open Posix (Bytes ascii newline lines cString snprintf padded decimal)

/-- `=`, which ends the name in an entry of an environment. -/
def equals : UInt8 := 61

/-- The value of the first entry for a name. -/
def getenv (environ : List Bytes) (name : Bytes) : Option Bytes :=
  if name = [] then none
  else (environ.find? fun entry => name ++ [equals] <+: entry).map (List.drop (name.length + 1))

/-- `line[strcspn(line, "\r\n")] = '\0'`. -/
def cutAtBreak (line : Bytes) : Bytes :=
  (cString line).takeWhile fun byte => byte ≠ 13 && byte ≠ newline

/-- The names among some lines. -/
def namesIn (read : List Bytes) : List Bytes := (read.map cutAtBreak).filter (· ≠ [])

/-- The nonempty pieces of `env.txt`, as both programs get them from `fgets`. -/
def pieces (text : Bytes) : List Bytes := namesIn (lines 256 text)

theorem namesIn_cons_of_empty {line : Bytes} {rest : List Bytes} (empty : cutAtBreak line = []) :
    namesIn (line :: rest) = namesIn rest := by
  simp [namesIn, empty]

theorem namesIn_cons {line : Bytes} {rest : List Bytes} (nonempty : cutAtBreak line ≠ []) :
    namesIn (line :: rest) = cutAtBreak line :: namesIn rest := by
  simp [namesIn, nonempty]

section Parent

/-- `MAX_ENV_VARS`. -/
def maxEnvVars : ℕ := 100

/-- The ways in which `CreateChildEnv` does not return. -/
inductive Failure
  | noFile
  /-- A store behind the last place of `env_entries`. -/
  | outsideArray
  deriving DecidableEq, Repr

variable (environ : List Bytes)

/-- The entry for a name, formatted into a block of its length. -/
def envEntry (name : Bytes) : Bytes :=
  let value := (getenv environ name).getD []
  snprintf (name.length + value.length + 2) (name ++ equals :: value)

/-- The loop of `CreateChildEnv` over the lines left, with `count` entries made. -/
def envEntries (count : ℕ) : List Bytes → List Bytes
  | [] => []
  | line :: rest =>
      if count < maxEnvVars then
        let name := cutAtBreak line
        if name = [] then envEntries count rest
        else envEntry environ name :: envEntries (count + 1) rest
      else []

/-- The entry that hands `CHILD_PATH` on. -/
def childPathEntry : Option Bytes :=
  (getenv environ (ascii "CHILD_PATH")).map fun path =>
    snprintf ((ascii "CHILD_PATH=").length + path.length + 1) (ascii "CHILD_PATH=" ++ path)

def createChildEnv (envFile : Option Bytes) : Except Failure (List Bytes) :=
  match envFile with
  | none => .error .noFile
  | some text =>
      let childEnv := envEntries environ 0 (lines 256 text) ++ (childPathEntry environ).toList
      -- `env_entries[count] = NULL`
      if childEnv.length < maxEnvVars then .ok childEnv else .error .outsideArray

/-- The search for `CHILD_PATH=` in a list of entries. -/
def findPathIn (entries : List Bytes) : Option Bytes :=
  (entries.find? fun entry => ascii "CHILD_PATH=" <+: entry).map (List.drop 11)

def findChildPath (mode : Char) (childEnv : List Bytes) : Option Bytes :=
  if mode = '+' then getenv environ (ascii "CHILD_PATH")
  else if mode = '*' then findPathIn childEnv
  else if mode = '&' then findPathIn environ
  else none

/-- The arguments of `execve`. -/
structure Exec where
  path : Bytes
  argv : List Bytes
  envp : List Bytes
  deriving DecidableEq, Repr

/-- The forked process of `StartChild` up to `execve`, `none` where it exits before. -/
def startChild (executable : Bytes → Bool) (childCount : ℕ) (childEnv : List Bytes)
    (mode : Char) : Option Exec :=
  let childName := snprintf 16 (ascii "child_" ++ padded 2 childCount)
  match findChildPath environ mode childEnv with
  | none => none
  | some path =>
      if executable path then
        some ⟨path, if mode = '+' then [childName, ascii "env"] else [childName], childEnv⟩
      else none

end Parent

namespace Child

/-- The bytes of a literal. -/
def utf8 (text : String) : Bytes := text.toUTF8.toList

/-- What a child prints before it looks at its mode. -/
def heading (argv : List Bytes) (pid ppid : ℕ) : Bytes :=
  utf8 "Имя процесса: " ++ argv.head?.getD [] ++ utf8 "\nPID: " ++ decimal pid ++
    utf8 "\nPPID: " ++ decimal ppid ++ utf8 "\n\n"

/-- `name=value` with the value that an environment has for the name, or an empty one. -/
def shown (environ : List Bytes) (name : Bytes) : Bytes :=
  name ++ equals :: (getenv environ name).getD [] ++ [newline]

/-- The loop over the lines of `env.txt`. -/
def printVariables (environ : List Bytes) : List Bytes → Bytes
  | [] => []
  | line :: rest =>
      let name := cutAtBreak line
      if name = [] then printVariables environ rest
      else shown environ name ++ printVariables environ rest

def envMode : Bytes := utf8 "Режим: чтение переменных из файла env.txt через getenv()\n"

def envpMode : Bytes := utf8 "Режим: вывод переменных из переданного окружения (envp):\n"

/-- The output of the child. -/
def main (argv : List Bytes) (pid ppid : ℕ) (envFile : Option Bytes) (envp : List Bytes) :
    Bytes :=
  heading argv pid ppid ++
    if argv[1]? = some (ascii "env") then
      envMode ++
        match envFile with
        | none => []
        | some text => printVariables envp (lines 256 text)
    else envpMode ++ envp.flatMap fun entry => entry ++ [newline]

theorem printVariables_eq (environ : List Bytes) (text : Bytes) :
    printVariables environ (lines 256 text) = (pieces text).flatMap (shown environ) := by
  unfold pieces
  generalize lines 256 text = read
  induction read with
  | nil => rfl
  | cons line rest ih =>
      by_cases empty : cutAtBreak line = []
      · simpa [printVariables, namesIn_cons_of_empty empty, empty] using ih
      · simpa [printVariables, namesIn_cons empty, empty] using ih

end Child

section Entries

variable {environ : List Bytes} {name value : Bytes} {names : List Bytes}

theorem envEntry_eq (environ : List Bytes) (name : Bytes) :
    envEntry environ name = name ++ equals :: (getenv environ name).getD [] := by
  apply List.take_of_length_le
  simp only [List.length_append, List.length_cons]
  omega

/-- As long as they fit, there is an entry for each name, in order. -/
theorem envEntries_eq {count : ℕ} {read : List Bytes}
    (fits : count + (namesIn read).length ≤ maxEnvVars) :
    envEntries environ count read = (namesIn read).map (envEntry environ) := by
  induction read generalizing count with
  | nil => rfl
  | cons line rest ih =>
      by_cases empty : cutAtBreak line = []
      · rw [namesIn_cons_of_empty empty] at fits ⊢
        by_cases room : count < maxEnvVars
        · simpa [envEntries, room, empty] using ih fits
        · have none_left : namesIn rest = [] := List.eq_nil_of_length_eq_zero (by omega)
          simp [envEntries, room, none_left]
      · rw [namesIn_cons empty, List.length_cons] at fits
        have room : count < maxEnvVars := by omega
        have later := @ih (count + 1) (by omega)
        rw [namesIn_cons empty, List.map_cons, ← later]
        simp [envEntries, room, empty]

/-- The name of an entry ends at its first `=`. -/
theorem name_eq_of_entry_eq {other rest : Bytes} (plain : equals ∉ name) (plain' : equals ∉ other)
    (same : name ++ equals :: rest = other ++ equals :: value) : name = other := by
  rcases List.append_eq_append_iff.mp same with ⟨more, other_eq, rest_eq⟩ | ⟨more, name_eq, rest_eq⟩
  · cases more with
    | nil => rw [other_eq, List.append_nil]
    | cons byte more =>
        rcases List.cons.inj rest_eq with ⟨rfl, _⟩
        exact absurd (other_eq ▸ List.mem_append_right name List.mem_cons_self) plain'
  · cases more with
    | nil => rw [name_eq, List.append_nil]
    | cons byte more =>
        rcases List.cons.inj rest_eq with ⟨rfl, _⟩
        exact absurd (name_eq ▸ List.mem_append_right other List.mem_cons_self) plain

/-- An entry begins with a name and `=` only if it is an entry for this name. -/
theorem prefix_entry_iff {other : Bytes} (plain : equals ∉ name) (plain' : equals ∉ other) :
    name ++ [equals] <+: other ++ equals :: value ↔ name = other := by
  constructor
  · rintro ⟨rest, entry_eq⟩
    rw [List.append_assoc] at entry_eq
    exact name_eq_of_entry_eq plain plain' entry_eq
  · rintro rfl
    exact ⟨value, by simp⟩

/-- The entries made for some names hold the value of each of them, whatever comes behind. -/
theorem getenv_entries (more : List Bytes) (plain : ∀ name ∈ names, equals ∉ name)
    (name_mem : name ∈ names) (nonempty : name ≠ []) :
    getenv (names.map (envEntry environ) ++ more) name = some ((getenv environ name).getD []) := by
  have found : ((names.map (envEntry environ) ++ more).find? fun entry =>
      name ++ [equals] <+: entry) = some (envEntry environ name) := by
    induction names with
    | nil => cases name_mem
    | cons other names ih =>
        have other_plain := plain other List.mem_cons_self
        have name_plain := plain name name_mem
        by_cases same : name = other
        · have begins : name ++ [equals] <+: envEntry environ other := by
            rw [envEntry_eq]
            exact (prefix_entry_iff name_plain other_plain).mpr same
          rw [List.map_cons, List.cons_append, List.find?_cons_of_pos (by simpa using begins), same]
        · have differs : ¬name ++ [equals] <+: envEntry environ other := by
            rw [envEntry_eq]
            intro begins
            exact same ((prefix_entry_iff name_plain other_plain).mp begins)
          rw [List.map_cons, List.cons_append, List.find?_cons_of_neg (by simpa using differs)]
          apply ih
          · intro later later_mem
            exact plain later (List.mem_cons_of_mem _ later_mem)
          · exact (List.mem_cons.mp name_mem).resolve_left same
  have value_eq : (envEntry environ name).drop (name.length + 1) =
      (getenv environ name).getD [] := by
    rw [envEntry_eq, List.append_cons]
    exact List.drop_left' (by simp)
  unfold getenv at found ⊢
  rw [if_neg nonempty, found, Option.map_some, value_eq]
  rfl

end Entries

theorem createChildEnv_eq {environ : List Bytes} {text : Bytes}
    (few : (pieces text).length < 99) :
    createChildEnv environ (some text) =
      .ok ((pieces text).map (envEntry environ) ++ (childPathEntry environ).toList) := by
  have entries_eq : envEntries environ 0 (lines 256 text) =
      (pieces text).map (envEntry environ) := by
    apply envEntries_eq
    unfold maxEnvVars
    unfold pieces at few
    omega
  have path_length : (childPathEntry environ).toList.length ≤ 1 := by
    cases childPathEntry environ <;> simp
  have room : ((pieces text).map (envEntry environ) ++
      (childPathEntry environ).toList).length < maxEnvVars := by
    rw [List.length_append, List.length_map]
    unfold maxEnvVars
    omega
  simp only [createChildEnv, entries_eq, room, if_true]

/-- A child started with `+` prints the values that its parent sees. -/
theorem child_prints_parents_values (environ : List Bytes) (text : Bytes)
    (few : (pieces text).length < 99) (plain : ∀ name ∈ pieces text, equals ∉ name) :
    ∃ childEnv, createChildEnv environ (some text) = .ok childEnv ∧
      ∀ executable childCount exec pid ppid,
        startChild environ executable childCount childEnv '+' = some exec →
        Child.main exec.argv pid ppid (some text) exec.envp =
          Child.heading exec.argv pid ppid ++ Child.envMode ++
            (pieces text).flatMap (Child.shown environ) := by
  refine ⟨_, createChildEnv_eq few, ?_⟩
  intro executable childCount exec pid ppid started
  have same_values : (pieces text).flatMap (Child.shown
      ((pieces text).map (envEntry environ) ++ (childPathEntry environ).toList)) =
      (pieces text).flatMap (Child.shown environ) := by
    apply List.flatMap_congr
    intro name name_mem
    have nonempty : name ≠ [] := by simpa using List.of_mem_filter name_mem
    unfold Child.shown
    rw [getenv_entries _ plain name_mem nonempty, Option.getD_some]
  unfold startChild at started
  split at started
  · cases started
  · split at started
    · cases started
      simp only [Child.main, List.getElem?_cons_succ, List.getElem?_cons_zero, if_true,
        Child.printVariables_eq, same_values, List.append_assoc]
    · cases started

/-- `env.txt` with a name that begins another one, a repeated name and one without a value. -/
theorem child_prints_repeated :
    ∃ childEnv, createChildEnv [ascii "HOMER=x", ascii "HOME=/", ascii "CHILD_PATH=./child"]
        (some (ascii "HOME\nHOMER\n\nNONE\nHOME")) = .ok childEnv ∧
      ∀ executable childCount exec pid ppid,
        startChild [ascii "HOMER=x", ascii "HOME=/", ascii "CHILD_PATH=./child"] executable
          childCount childEnv '+' = some exec →
        Child.main exec.argv pid ppid (some (ascii "HOME\nHOMER\n\nNONE\nHOME")) exec.envp =
          Child.heading exec.argv pid ppid ++ Child.envMode ++
            ascii "HOME=/\nHOMER=x\nNONE=\nHOME=/\n" :=
  child_prints_parents_values _ _ (by decide) (by decide)

end Osis.Lab02
