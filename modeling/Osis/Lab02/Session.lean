import Osis.Lab02.Environment

/-!
# A session of the parent

The parent of lab 2 sets two variables, makes the environment for its children once, and then
starts a child for each `+`, `*` or `&` it reads up to `q`. The three commands look for the
program in different places. They find the same one, and every child shows the same values: those
the parent was started with, apart from the two variables.
-/

namespace Osis.Lab02

open Posix (Bytes ascii newline lines snprintf padded isSpace)

section Variables

/-- `setenv` with `overwrite`: the first entry for a name is replaced, or one is added. -/
def setenv (name value : Bytes) : List Bytes → List Bytes
  | [] => [name ++ equals :: value]
  | entry :: rest =>
      if name ++ [equals] <+: entry then (name ++ equals :: value) :: rest
      else entry :: setenv name value rest

/-- The start of `main`; `gethostname` may fail. -/
def prepare (environ : List Bytes) (hostname : Option Bytes) : List Bytes :=
  let collated := setenv (ascii "LC_COLLATE") (ascii "C") environ
  match getenv collated (ascii "HOSTNAME"), hostname with
  | none, some hostname => setenv (ascii "HOSTNAME") hostname collated
  | _, _ => collated

/-- What a variable is to the children of a parent that was started with `environ`. -/
def inherited (environ : List Bytes) (hostname : Option Bytes) (name : Bytes) : Option Bytes :=
  if name = ascii "LC_COLLATE" then some (ascii "C")
  else if name = ascii "HOSTNAME" then (getenv environ name).or hostname
  else getenv environ name

end Variables

section Main

/-- What the system answers when a child is started. -/
structure Answers where
  forks : Bool
  /-- `access` with `X_OK`, and `execve`. -/
  executable : Bytes → Bool

/-- A call of `StartChild`, with the program its child goes on with. -/
structure Launch where
  number : ℕ
  mode : Char
  exec : Option Exec
  deriving DecidableEq, Repr

/-- The commands that start a child. -/
def modeOf (byte : UInt8) : Option Char :=
  if byte = 43 then some '+' else if byte = 42 then some '*' else if byte = 38 then some '&'
  else none

/-- `StartChild` with the value of its counter. -/
def launch (environ childEnv : List Bytes) (answers : Answers) (childCount : ℕ) (mode : Char) :
    Launch :=
  ⟨childCount, mode, if answers.forks then
      startChild environ answers.executable childCount childEnv mode
    else none⟩

/-- The loop of `main` over the input left; `scanf` with `" %c"` passes over space. -/
def mainLoop (environ childEnv : List Bytes) (answers : ℕ → Answers) (childCount : ℕ) :
    Bytes → List Launch
  | [] => []
  | input :: rest =>
      if isSpace input then mainLoop environ childEnv answers childCount rest
      -- 113 is 'q'
      else if input = 113 then []
      else match modeOf input with
        | some mode => launch environ childEnv (answers childCount) childCount mode ::
            mainLoop environ childEnv answers (childCount + 1) rest
        | none => mainLoop environ childEnv answers childCount rest

/-- The children that `main` of the parent starts. -/
def main (environ : List Bytes) (hostname envFile : Option Bytes) (answers : ℕ → Answers)
    (stdin : Bytes) : Except Failure (List Launch) :=
  let environ := prepare environ hostname
  (createChildEnv environ envFile).map fun childEnv => mainLoop environ childEnv answers 0 stdin

end Main

section Lookup

variable {environ names : List Bytes} {name other value : Bytes}

/-- Two names without `=` do not stand for one entry. -/
theorem eq_of_prefixes {entry : Bytes} (plain : equals ∉ name) (plain' : equals ∉ other)
    (stands : name ++ [equals] <+: entry) (stands' : other ++ [equals] <+: entry) :
    name = other := by
  rcases stands with ⟨value, rfl⟩
  rw [List.append_assoc] at stands'
  exact ((prefix_entry_iff plain' plain).mp stands').symm

theorem getenv_cons_self (nonempty : name ≠ []) (rest : List Bytes) :
    getenv ((name ++ equals :: value) :: rest) name = some value := by
  have value_eq : (name ++ equals :: value).drop (name.length + 1) = value := by
    rw [List.append_cons]
    exact List.drop_left' (by simp)
  rw [getenv, if_neg nonempty, List.find?_cons_of_pos (by simp), Option.map_some, value_eq]

theorem getenv_cons_of_ne {entry : Bytes} (differs : ¬name ++ [equals] <+: entry)
    (rest : List Bytes) : getenv (entry :: rest) name = getenv rest name := by
  unfold getenv
  rw [List.find?_cons_of_neg (by simpa using differs)]

theorem getenv_setenv (nonempty : name ≠ []) (environ : List Bytes) :
    getenv (setenv name value environ) name = some value := by
  induction environ with
  | nil => exact getenv_cons_self nonempty []
  | cons entry rest ih =>
      unfold setenv
      split
      · exact getenv_cons_self nonempty rest
      · next differs => rw [getenv_cons_of_ne differs, ih]

theorem getenv_setenv_of_ne (plain : equals ∉ name) (plain' : equals ∉ other)
    (different : other ≠ name) (environ : List Bytes) :
    getenv (setenv name value environ) other = getenv environ other := by
  have unlike : ∀ entry : Bytes, name ++ [equals] <+: entry → ¬other ++ [equals] <+: entry := by
    intro entry stands stands'
    exact different (eq_of_prefixes plain' plain stands' stands)
  have unlike_new : ¬other ++ [equals] <+: name ++ equals :: value :=
    unlike _ ⟨value, by simp⟩
  induction environ with
  | nil => exact getenv_cons_of_ne unlike_new []
  | cons entry rest ih =>
      unfold setenv
      split
      · next stands =>
          rw [getenv_cons_of_ne unlike_new, getenv_cons_of_ne (unlike _ stands)]
      · by_cases stands' : other ++ [equals] <+: entry
        · unfold getenv
          rw [List.find?_cons_of_pos (by simpa using stands'),
            List.find?_cons_of_pos (by simpa using stands')]
        · rw [getenv_cons_of_ne stands', getenv_cons_of_ne stands', ih]

/-- The environment the parent works with, in terms of the one it was started with. -/
theorem getenv_prepare (hostname : Option Bytes) (plain : equals ∉ name) :
    getenv (prepare environ hostname) name = inherited environ hostname name := by
  have collate_plain : equals ∉ ascii "LC_COLLATE" := by decide
  have host_plain : equals ∉ ascii "HOSTNAME" := by decide
  have collated : ∀ other, equals ∉ other →
      getenv (setenv (ascii "LC_COLLATE") (ascii "C") environ) other =
        if other = ascii "LC_COLLATE" then some (ascii "C") else getenv environ other := by
    intro other plain'
    split
    · next same => rw [same, getenv_setenv (by decide)]
    · next different => exact getenv_setenv_of_ne collate_plain plain' different environ
  have host : getenv (setenv (ascii "LC_COLLATE") (ascii "C") environ) (ascii "HOSTNAME") =
      getenv environ (ascii "HOSTNAME") := by
    rw [collated _ host_plain, if_neg (by decide)]
  unfold prepare inherited
  simp only [host]
  by_cases is_host : name = ascii "HOSTNAME"
  · subst is_host
    rw [if_neg (by decide), if_pos rfl]
    cases own : getenv environ (ascii "HOSTNAME") with
    | some value => rw [host, own, Option.some_or]
    | none =>
        cases hostname with
        | some hostname => rw [getenv_setenv (by decide), Option.none_or]
        | none => rw [host, own, Option.none_or]
  · rw [if_neg is_host]
    split
    · rw [getenv_setenv_of_ne host_plain plain is_host, collated name plain]
    · exact collated name plain

/-- Entries for other names are passed over. -/
theorem getenv_entries_of_not_mem (more : List Bytes) (plain : ∀ name ∈ names, equals ∉ name)
    (name_plain : equals ∉ name) (absent : name ∉ names) :
    getenv (names.map (envEntry environ) ++ more) name = getenv more name := by
  induction names with
  | nil => rfl
  | cons other names ih =>
      have differs : ¬name ++ [equals] <+: envEntry environ other := by
        rw [envEntry_eq]
        intro stands
        have same := (prefix_entry_iff name_plain (plain other List.mem_cons_self)).mp stands
        exact absent (same ▸ List.mem_cons_self)
      rw [List.map_cons, List.cons_append, getenv_cons_of_ne differs]
      apply ih
      · intro later later_mem
        exact plain later (List.mem_cons_of_mem _ later_mem)
      · exact fun later_mem => absent (List.mem_cons_of_mem _ later_mem)

end Lookup

section Purpose

/-- The commands typed before the first `q`. -/
def modesIn (stdin : Bytes) : List Char := (stdin.takeWhile (· ≠ 113)).filterMap modeOf

/-- A line of a child. -/
def line (name : Bytes) (value : Option Bytes) : Bytes :=
  name ++ equals :: value.getD [] ++ [newline]

/-- What a child shows of the variables, under the heading of its mode. -/
def report (environ : List Bytes) (hostname : Option Bytes) (text : Bytes) (mode : Char) : Bytes :=
  let values := (pieces text).flatMap fun name => line name (inherited environ hostname name)
  if mode = '+' then Child.envMode ++ values
  else Child.envpMode ++ values ++
    line (ascii "CHILD_PATH") (getenv environ (ascii "CHILD_PATH"))

/-- The command starts the program at the parent's `CHILD_PATH`, and the child reports. -/
structure Launch.Reports (environ : List Bytes) (hostname : Option Bytes) (text : Bytes)
    (answers : Answers) (launch : Launch) : Prop where
  started : launch.exec.isSome ↔ answers.forks = true ∧
    ∃ path, getenv environ (ascii "CHILD_PATH") = some path ∧ answers.executable path = true
  path : ∀ exec ∈ launch.exec, getenv environ (ascii "CHILD_PATH") = some exec.path
  name : ∀ exec ∈ launch.exec,
    exec.argv.head? = some (snprintf 16 (ascii "child_" ++ padded 2 launch.number))
  output : ∀ exec ∈ launch.exec, ∀ pid ppid,
    Child.main exec.argv pid ppid (some text) exec.envp =
      Child.heading exec.argv pid ppid ++ report environ hostname text launch.mode

end Purpose

section Sessions

variable {environ childEnv : List Bytes} {hostname : Option Bytes} {answers : ℕ → Answers}
  {stdin text : Bytes}

theorem mode_cases {input : UInt8} {mode : Char} (read : modeOf input = some mode) :
    mode = '+' ∨ mode = '*' ∨ mode = '&' := by
  unfold modeOf at read
  split at read
  · exact .inl (Option.some.inj read).symm
  split at read
  · exact .inr (.inl (Option.some.inj read).symm)
  split at read
  · exact .inr (.inr (Option.some.inj read).symm)
  · cases read

theorem modeOf_of_isSpace {input : UInt8} (space : isSpace input = true) :
    modeOf input = none ∧ input ≠ 113 := by
  have none_of : ∀ command : UInt8, isSpace command = false → input ≠ command := by
    rintro _ visible rfl
    cases visible.symm.trans space
  refine ⟨?_, none_of 113 (by decide)⟩
  simp [modeOf, none_of 43 (by decide), none_of 42 (by decide), none_of 38 (by decide)]

/-- Every command before the first `q` has its turn, with the next number. -/
theorem mainLoop_eq (environ childEnv : List Bytes) (answers : ℕ → Answers) (childCount : ℕ)
    (stdin : Bytes) :
    mainLoop environ childEnv answers childCount stdin =
      ((modesIn stdin).zipIdx childCount).map fun (mode, number) =>
        launch environ childEnv (answers number) number mode := by
  induction stdin generalizing childCount with
  | nil => rfl
  | cons input rest ih =>
      unfold mainLoop
      by_cases space : isSpace input = true
      · rcases modeOf_of_isSpace space with ⟨no_mode, not_q⟩
        rw [if_pos space, ih]
        simp only [modesIn, List.takeWhile_cons, not_q, ne_eq, not_false_eq_true, decide_true,
          if_true, List.filterMap_cons, no_mode]
      · rw [if_neg space]
        by_cases q : input = 113
        · rw [if_pos q]
          simp [modesIn, q]
        · rw [if_neg q]
          cases read : modeOf input with
          | none =>
              simp only [ih]
              simp only [modesIn, List.takeWhile_cons, q, ne_eq, not_false_eq_true, decide_true,
                if_true, List.filterMap_cons, read]
          | some mode =>
              simp only [ih]
              simp only [modesIn, List.takeWhile_cons, q, ne_eq, not_false_eq_true, decide_true,
                if_true, List.filterMap_cons, read, List.zipIdx_cons, List.map_cons]

theorem getenv_prepare_path (environ : List Bytes) (hostname : Option Bytes) :
    getenv (prepare environ hostname) (ascii "CHILD_PATH") =
      getenv environ (ascii "CHILD_PATH") := by
  rw [getenv_prepare hostname (by decide), inherited, if_neg (by decide), if_neg (by decide)]

theorem childPathEntry_eq (environ : List Bytes) :
    childPathEntry environ = (getenv environ (ascii "CHILD_PATH")).map fun path =>
      ascii "CHILD_PATH" ++ equals :: path := by
  unfold childPathEntry
  congr 1
  funext path
  apply List.take_of_length_le
  have key_length : (ascii "CHILD_PATH=").length = 11 := by decide
  rw [List.length_append]
  omega

/-- The environment of the children has the `CHILD_PATH` of the parent, or an empty one where
the parent has none and the file lists it. -/
theorem getenv_childEnv (plain : ∀ name ∈ pieces text, equals ∉ name) :
    getenv ((pieces text).map (envEntry environ) ++ (childPathEntry environ).toList)
        (ascii "CHILD_PATH") = getenv environ (ascii "CHILD_PATH") ∨
      getenv environ (ascii "CHILD_PATH") = none ∧
        getenv ((pieces text).map (envEntry environ) ++ (childPathEntry environ).toList)
          (ascii "CHILD_PATH") = some [] := by
  by_cases is_listed : ascii "CHILD_PATH" ∈ pieces text
  · rw [getenv_entries _ plain is_listed (by decide)]
    cases getenv environ (ascii "CHILD_PATH") with
    | none => exact .inr ⟨rfl, rfl⟩
    | some path => exact .inl rfl
  · left
    rw [getenv_entries_of_not_mem _ plain (by decide) is_listed, childPathEntry_eq]
    cases getenv environ (ascii "CHILD_PATH") with
    | none => rfl
    | some path => exact getenv_cons_self (by decide) []

/-- Wherever a command looks, it finds the `CHILD_PATH` of the parent, or nothing that can be
executed. -/
theorem findChildPath_cases {mode : Char} (hostname : Option Bytes)
    (is_mode : mode = '+' ∨ mode = '*' ∨ mode = '&')
    (plain : ∀ name ∈ pieces text, equals ∉ name)
    (made : childEnv = (pieces text).map (envEntry (prepare environ hostname)) ++
      (childPathEntry (prepare environ hostname)).toList) :
    findChildPath (prepare environ hostname) mode childEnv =
        getenv environ (ascii "CHILD_PATH") ∨
      getenv environ (ascii "CHILD_PATH") = none ∧
        findChildPath (prepare environ hostname) mode childEnv = some [] := by
  have own := getenv_prepare_path environ hostname
  rcases is_mode with rfl | rfl | rfl
  · exact .inl own
  · have found := @getenv_childEnv (prepare environ hostname) text plain
    rw [own, ← made] at found
    exact found
  · exact .inl own

/-- The lines of `report` for the environment that is made. -/
theorem lines_childEnv (environ : List Bytes) (hostname : Option Bytes)
    (plain : ∀ name ∈ pieces text, equals ∉ name) {path : Bytes}
    (own : getenv environ (ascii "CHILD_PATH") = some path) :
    (((pieces text).map (envEntry (prepare environ hostname)) ++
        (childPathEntry (prepare environ hostname)).toList).flatMap fun entry =>
          entry ++ [newline]) =
      ((pieces text).flatMap fun name => line name (inherited environ hostname name)) ++
        line (ascii "CHILD_PATH") (getenv environ (ascii "CHILD_PATH")) := by
  have own_prepared := (getenv_prepare_path environ hostname).trans own
  have path_line : (childPathEntry (prepare environ hostname)).toList =
      [ascii "CHILD_PATH" ++ equals :: path] := by
    rw [childPathEntry_eq, own_prepared, Option.map_some, Option.toList_some]
  rw [List.flatMap_append, path_line, own]
  congr 1
  · rw [List.flatMap_map]
    apply List.flatMap_congr
    intro name name_mem
    rw [envEntry_eq, getenv_prepare hostname (plain name name_mem)]
    rfl
  · simp [line]

/-- All three commands start the program at the parent's `CHILD_PATH`. -/
theorem exec_launch {system : Answers} {mode : Char} (hostname : Option Bytes) (number : ℕ)
    (never_empty : system.executable [] = false)
    (is_mode : mode = '+' ∨ mode = '*' ∨ mode = '&')
    (plain : ∀ name ∈ pieces text, equals ∉ name)
    (made : childEnv = (pieces text).map (envEntry (prepare environ hostname)) ++
      (childPathEntry (prepare environ hostname)).toList) :
    (launch (prepare environ hostname) childEnv system number mode).exec =
      (getenv environ (ascii "CHILD_PATH")).bind fun path =>
        let childName := snprintf 16 (ascii "child_" ++ padded 2 number)
        if system.forks = true ∧ system.executable path = true then
          some ⟨path, if mode = '+' then [childName, ascii "env"] else [childName], childEnv⟩
        else none := by
  unfold launch startChild
  rcases findChildPath_cases hostname is_mode plain made with found | ⟨unset, found⟩
  · rw [found]
    cases getenv environ (ascii "CHILD_PATH") with
    | none => simp
    | some path => cases forks : system.forks <;> simp
  · rw [found, unset]
    simp [never_empty]

/-- What `getenv` gives a child is what the parent was started with. -/
theorem shown_childEnv (environ : List Bytes) (hostname : Option Bytes)
    (plain : ∀ name ∈ pieces text, equals ∉ name) :
    (pieces text).flatMap (Child.shown
        ((pieces text).map (envEntry (prepare environ hostname)) ++
          (childPathEntry (prepare environ hostname)).toList)) =
      (pieces text).flatMap fun name => line name (inherited environ hostname name) := by
  apply List.flatMap_congr
  intro name name_mem
  have nonempty : name ≠ [] := by simpa using List.of_mem_filter name_mem
  rw [Child.shown, getenv_entries _ plain name_mem nonempty,
    getenv_prepare hostname (plain name name_mem)]
  rfl

/-- A child started by a command shows what the parent was started with. -/
theorem launch_reports {system : Answers} {mode : Char} (hostname : Option Bytes) (number : ℕ)
    (never_empty : system.executable [] = false)
    (is_mode : mode = '+' ∨ mode = '*' ∨ mode = '&')
    (plain : ∀ name ∈ pieces text, equals ∉ name)
    (made : childEnv = (pieces text).map (envEntry (prepare environ hostname)) ++
      (childPathEntry (prepare environ hostname)).toList) :
    (launch (prepare environ hostname) childEnv system number mode).Reports
      environ hostname text system := by
  have exec_eq := exec_launch hostname number never_empty is_mode plain made
  have exec_some : ∀ exec ∈ (launch (prepare environ hostname) childEnv system number mode).exec,
      getenv environ (ascii "CHILD_PATH") = some exec.path ∧ exec.envp = childEnv ∧
        exec.argv = if mode = '+' then
          [snprintf 16 (ascii "child_" ++ padded 2 number), ascii "env"]
        else [snprintf 16 (ascii "child_" ++ padded 2 number)] := by
    intro exec started
    rw [exec_eq, Option.mem_def, Option.bind_eq_some_iff] at started
    rcases started with ⟨path, own, chosen⟩
    rw [Option.ite_none_right_eq_some] at chosen
    rcases chosen with ⟨-, chosen⟩
    cases chosen
    exact ⟨own, rfl, rfl⟩
  refine ⟨?_, ?_, ?_, ?_⟩
  · rw [exec_eq]
    cases getenv environ (ascii "CHILD_PATH") with
    | none => simp
    | some path => simp
  · intro exec started
    exact (exec_some exec started).1
  · intro exec started
    rw [(exec_some exec started).2.2]
    split <;> rfl
  · intro exec started pid ppid
    rcases exec_some exec started with ⟨own, envp_eq, argv_eq⟩
    have name_eq : Child.heading exec.argv pid ppid =
        Child.heading [snprintf 16 (ascii "child_" ++ padded 2 number)] pid ppid := by
      rw [argv_eq]
      split <;> rfl
    rw [Child.main, name_eq, envp_eq, made, argv_eq]
    unfold report launch
    by_cases plus : mode = '+'
    · simp only [plus, if_true, List.getElem?_cons_succ, List.getElem?_cons_zero,
        Child.printVariables_eq, shown_childEnv environ hostname plain, List.append_assoc]
    · simp only [plus, if_false, List.getElem?_cons_succ, List.getElem?_nil, reduceCtorEq,
        lines_childEnv environ hostname plain own, List.append_assoc]

end Sessions

/-- In every session each command before the first `q` starts one child, with the next number;
all run the same program, and show the values that the parent was started with. -/
theorem children_of_session (environ : List Bytes) (hostname : Option Bytes) (text stdin : Bytes)
    (answers : ℕ → Answers) (few : (pieces text).length < 99)
    (plain : ∀ name ∈ pieces text, equals ∉ name)
    (never_empty : ∀ number, (answers number).executable [] = false) :
    ∃ launches, main environ hostname (some text) answers stdin = .ok launches ∧
      launches.map Launch.mode = modesIn stdin ∧
      launches.map Launch.number = List.range launches.length ∧
      ∀ launch ∈ launches, launch.Reports environ hostname text (answers launch.number) := by
  have ran : ∃ childEnv, childEnv = (pieces text).map (envEntry (prepare environ hostname)) ++
        (childPathEntry (prepare environ hostname)).toList ∧
      main environ hostname (some text) answers stdin =
        .ok (mainLoop (prepare environ hostname) childEnv answers 0 stdin) := by
    refine ⟨_, rfl, ?_⟩
    rw [main, createChildEnv_eq few]
    rfl
  rcases ran with ⟨childEnv, made, ran⟩
  rw [mainLoop_eq] at ran
  refine ⟨_, ran, ?_, ?_, ?_⟩
  · rw [List.map_map]
    exact List.zipIdx_map_fst 0 _
  · rw [List.map_map, List.length_map, List.length_zipIdx, List.range_eq_range']
    exact List.zipIdx_map_snd 0 _
  · intro launched launched_mem
    rcases List.mem_map.mp launched_mem with ⟨⟨mode, number⟩, indexed, rfl⟩
    have mode_mem : mode ∈ modesIn stdin := List.fst_mem_of_mem_zipIdx indexed
    rcases List.mem_filterMap.mp mode_mem with ⟨input, -, read⟩
    exact launch_reports hostname number (never_empty number) (mode_cases read) plain made

/-- A file that lists `CHILD_PATH`, an unset name and the two that the parent sets. -/
theorem children_of_session_three :
    ∃ launches, main [ascii "CHILD_PATH=./child", ascii "LC_COLLATE=ru"] (some (ascii "host"))
        (some (ascii "CHILD_PATH\nLC_COLLATE\nNONE\nHOSTNAME"))
        (fun number => ⟨number ≠ 1, fun path => path = ascii "./child"⟩)
        (ascii "+ x\n*& q+") = .ok launches ∧
      launches.map Launch.mode = modesIn (ascii "+ x\n*& q+") ∧
      launches.map Launch.number = List.range launches.length ∧
      ∀ launch ∈ launches, launch.Reports
        [ascii "CHILD_PATH=./child", ascii "LC_COLLATE=ru"] (some (ascii "host"))
        (ascii "CHILD_PATH\nLC_COLLATE\nNONE\nHOSTNAME")
        ⟨launch.number ≠ 1, fun path => path = ascii "./child"⟩ :=
  children_of_session _ _ _ _ _ (by decide) (by decide) fun _ => rfl

end Osis.Lab02
