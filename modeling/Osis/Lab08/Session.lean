import Osis.Concurrency.Transition
import Osis.Lab08.Server

/-!
# `CD` and `LIST` in a session of the server of lab 8

`CD` compares the text of a canonical path with the text of `root_dir` and keeps
what is behind it; `LIST` puts `root_dir` in front again. Both paths are looked up
from the root directory itself, into which the server has moved.
-/

namespace Osis.Lab08

open Concurrency Posix

namespace Server

/-- `tmp` of the branch for `CD`. -/
def cdPath (server : Server) (currDir arg : Bytes) : Bytes :=
  snprintf pathMax (if arg.head? = some slash then server.rootDir ++ slash :: arg
    else server.rootDir ++ slash :: (currDir ++ slash :: arg))

/-- The place to which an accepted `CD` leads: `realpath` finds it, and `strncmp` finds `root_dir`
at the start of its path. -/
def accepted (server : Server) (currDir arg : Bytes) : Option Location :=
  match server.files.resolve server.cwd (server.cdPath currDir arg) with
  | none => none
  | some place =>
      if (pathString place).length < pathMax ∧ server.rootDir <+: pathString place then some place
      else none

/-- What `CD` copies to `curr_dir` from the path of a place. -/
def relative (server : Server) (place : Location) : Bytes :=
  let rest := (pathString place).drop server.rootDir.length
  if rest.head? = some slash then rest.tail else rest

/-- The directory that `LIST` opens. -/
def opened (server : Server) (currDir : Bytes) : Option Location :=
  match server.files.resolve server.cwd (snprintf pathMax (server.rootDir ++ slash :: currDir)) with
  | none => none
  | some place => if server.files.tree place = some .directory then some place else none

section Specifications

variable {server : Server} {currDir arg : Bytes} {place : Location}

/-- `CD` sets `curr_dir` exactly if it is accepted. -/
theorem cd_eq :
    server.cd currDir arg =
      match server.accepted currDir arg with
      | none => currDir
      | some place => server.relative place := by
  simp only [cd, FileSystem.realpath, accepted, cdPath, relative]
  cases server.files.resolve server.cwd (snprintf pathMax
    (if arg.head? = some slash then server.rootDir ++ slash :: arg
      else server.rootDir ++ slash :: (currDir ++ slash :: arg))) with
  | none => rfl
  | some place =>
      by_cases short : (pathString place).length < pathMax
      · by_cases starts : server.rootDir <+: pathString place
        · simp [short, starts]
        · simp [short, starts]
      · simp [short]

theorem accepted_eq_some :
    server.accepted currDir arg = some place ↔
      server.files.resolve server.cwd (server.cdPath currDir arg) = some place ∧
        (pathString place).length < pathMax ∧ server.rootDir <+: pathString place := by
  unfold accepted
  constructor
  · intro accepted
    split at accepted
    · simp at accepted
    · next found resolved =>
        simp only [Option.ite_none_right_eq_some, Option.some.injEq] at accepted
        rcases accepted with ⟨usable, rfl⟩
        exact ⟨resolved, usable⟩
  · rintro ⟨resolved, usable⟩
    simp [resolved, usable]

theorem opened_eq_some :
    server.opened currDir = some place ↔
      server.files.resolve server.cwd (snprintf pathMax (server.rootDir ++ slash :: currDir)) =
        some place ∧ server.files.tree place = some .directory := by
  unfold opened
  constructor
  · intro opened
    split at opened
    · simp at opened
    · next found resolved =>
        simp only [Option.ite_none_right_eq_some, Option.some.injEq] at opened
        rcases opened with ⟨directory, rfl⟩
        exact ⟨resolved, directory⟩
  · rintro ⟨resolved, directory⟩
    simp [resolved, directory]

/-- `LIST` lists the directory it opens. -/
theorem listing_eq :
    server.listing currDir = (server.opened currDir).map fun place =>
      ((server.readdir place).filter (· ≠ dot)).flatMap fun name =>
        (server.entryLine (snprintf pathMax (server.rootDir ++ slash :: currDir))
          name).getD [] := by
  simp only [listing, opened]
  cases server.files.resolve server.cwd (snprintf pathMax (server.rootDir ++ slash :: currDir)) with
  | none => rfl
  | some place =>
      by_cases directory : server.files.tree place = some .directory
      · simp [directory]
      · simp [directory]

/-- What is known of a server that has started. -/
theorem start_eq_some {files : FileSystem} {cwd : Location} {rootDir : Bytes}
    {readdir : Location → List Name}
    {listed : ∀ place, (readdir place).Perm (dot :: dotDot :: files.names place)} {stray : UInt8}
    (started : start files cwd rootDir readdir listed stray = some server) :
    server.files = files ∧ server.rootDir = rootDir ∧
      files.resolve cwd rootDir = some server.cwd ∧ files.tree server.cwd = some .directory := by
  unfold start at started
  split at started
  · simp at started
  · next place resolved =>
      simp only [Option.ite_none_right_eq_some, Option.some.injEq] at started
      rcases started with ⟨directory, rfl⟩
      exact ⟨rfl, rfl, resolved, directory⟩

/-- With no `curr_dir`, `LIST` opens what `root_dir` names. -/
theorem opened_nil (some_root : server.rootDir ≠ []) (short : server.rootDir.length < pathMax) :
    server.opened [] = some place ↔
      server.files.resolve server.cwd server.rootDir = some place ∧
        server.files.tree place = some .directory := by
  rw [opened_eq_some]
  by_cases room : server.rootDir.length + 1 < pathMax
  · have whole : snprintf pathMax (server.rootDir ++ [slash]) = server.rootDir ++ [slash] := by
      apply List.take_of_length_le
      rw [List.length_append, List.length_singleton]
      omega
    rw [whole, FileSystem.resolve_concat_slash some_root room, and_assoc, and_self]
  · have cut : snprintf pathMax (server.rootDir ++ [slash]) = server.rootDir := by
      have length_eq : pathMax - 1 = server.rootDir.length := by omega
      rw [snprintf, length_eq, List.take_left]
    rw [cut]

end Specifications

section SameRoot

variable {server : Server} {files : FileSystem} {cwd : Location} {rootDir : Bytes}
  {readdir : Location → List Name}
  {listed : ∀ place, (readdir place).Perm (dot :: dotDot :: files.names place)} {stray : UInt8}

/-- `main` looks for `info.txt` in the directory that it enters afterwards. -/
theorem entryOf_info (started : start files cwd rootDir readdir listed stray = some server)
    (short : (rootDir ++ ascii "/info.txt").length < pathMax) :
    files.entryOf cwd (rootDir ++ ascii "/info.txt") = some (ascii "info.txt", server.cwd) := by
  rcases start_eq_some started with ⟨-, -, resolved, directory⟩
  rcases FileSystem.resolve_eq_some.mp resolved with ⟨some_path, -, -⟩
  have named : components (rootDir ++ ascii "/info.txt") =
      components rootDir ++ [ascii "info.txt"] :=
    components_append_name (by decide) (by decide)
  refine FileSystem.entryOf_eq_some.mpr ⟨by simp [some_path], short, by decide, by decide,
    directory, _, named, ?_⟩
  rw [startOf, List.head?_append_of_ne_nil _ some_path]
  exact FileSystem.walk_components resolved

/-- At the beginning of a session `LIST` opens the directory in which `main` looked for `info.txt`,
and `CD` enters each of its subdirectories. -/
def SameRoot (server : Server) : Prop :=
  server.opened [] = some server.cwd ∧
    ∀ name, server.files.tree (name :: server.cwd) = some .directory →
      server.accepted [] name = some (name :: server.cwd)

/-- The path that `CD` looks up for a subdirectory. -/
def childPath (server : Server) (name : Name) : Bytes := server.rootDir ++ slash :: slash :: name

/-- `root_dir` is absolute, or leads from the directory it names to this directory again; and the
canonical path of each of its subdirectories fits, begins with the text of `root_dir`, and is
looked up by a path that fits (or still leads there when it is cut). -/
def RootFits (server : Server) : Prop :=
  (server.rootDir.head? = some slash ∨
      server.files.resolve server.cwd server.rootDir = some server.cwd) ∧
    ∀ name, server.files.tree (name :: server.cwd) = some .directory →
      server.rootDir <+: pathString (name :: server.cwd) ∧
        (pathString (name :: server.cwd)).length < pathMax ∧
          ((server.childPath name).length < pathMax ∨
            server.files.resolve server.cwd (snprintf pathMax (server.childPath name)) =
              some (name :: server.cwd))

/-- The root directory is the same before and after the start exactly if `root_dir` fits. -/
theorem sameRoot_iff (started : start files cwd rootDir readdir listed stray = some server) :
    SameRoot server ↔ RootFits server := by
  rcases start_eq_some started with ⟨files_eq, root_eq, resolved, directory⟩
  rw [← files_eq] at resolved directory
  rw [← root_eq] at resolved
  rcases FileSystem.resolve_eq_some.mp resolved with ⟨some_root, short, -⟩
  have again : (server.rootDir.head? = some slash ∨
        server.files.resolve server.cwd server.rootDir = some server.cwd) ↔
      server.files.resolve server.cwd server.rootDir = some server.cwd := by
    constructor
    · intro either
      rcases either with absolute | same
      · rw [FileSystem.resolve_absolute absolute, resolved]
      · exact same
    · exact Or.inr
  have child : ∀ name, server.files.tree (name :: server.cwd) = some .directory →
      (server.accepted [] name = some (name :: server.cwd) ↔
        server.files.resolve server.cwd (snprintf pathMax (server.childPath name)) =
            some (name :: server.cwd) ∧
          (pathString (name :: server.cwd)).length < pathMax ∧
            server.rootDir <+: pathString (name :: server.cwd)) := by
    intro name subdirectory
    have valid := server.files.named (FileSystem.ne_none_of_eq_some subdirectory)
    have relative : name.head? ≠ some slash :=
      fun first => valid.no_slash (List.mem_of_head? first)
    rw [accepted_eq_some, cdPath, if_neg relative]
    rfl
  rw [SameRoot, RootFits, again, opened_nil some_root short, and_assoc, and_iff_right directory]
  apply and_congr_right
  intro same
  apply forall_congr'
  intro name
  apply imp_congr_right
  intro subdirectory
  rw [child name subdirectory]
  constructor
  · rintro ⟨found, fits, starts⟩
    exact ⟨starts, fits, Or.inr found⟩
  · rintro ⟨starts, fits, uncut | found⟩
    · have whole : snprintf pathMax (server.childPath name) = server.childPath name :=
        List.take_of_length_le (Nat.le_sub_one_of_lt uncut)
      have path_eq : server.childPath name = (server.rootDir ++ [slash]) ++ slash :: name := by
        simp [childPath]
      rw [whole]
      refine ⟨?_, fits, starts⟩
      rw [path_eq] at uncut ⊢
      exact FileSystem.resolve_child same directory (Or.inl subdirectory) (List.prefix_append _ _)
        (components_concat_slash _) uncut
    · exact ⟨found, fits, starts⟩

end SameRoot

section Inside

variable {server : Server} {place : Location}

/-- What the client asks for. -/
inductive Command where
  | cd (arg : Bytes)
  | list

/-- The text of a command. -/
def Command.text : Command → Bytes
  | .cd arg => ascii "CD " ++ arg
  | .list => ascii "LIST"

/-- What `handle_client` keeps, and to where the last accepted `CD` has led. -/
structure Session where
  currDir : Bytes
  last : Location

/-- A session after a command. -/
def next (server : Server) (session : Session) (command : Command) : Session where
  currDir := (server.exec session.currDir command.text).currDir
  last :=
    match command with
    | .cd arg => (server.accepted session.currDir arg).getD session.last
    | .list => session.last

/-- The sessions of a server. -/
def sessions (server : Server) : System Session Command where
  initial session := session = ⟨[], server.cwd⟩
  next session command := some (server.next session command)

/-- `LIST` opens the directory to which the last accepted `CD` has led, and it is the root
directory or below. -/
def ListsInside (server : Server) (session : Session) : Prop :=
  server.opened session.currDir = some session.last ∧ server.cwd <:+ session.last

/-- A place whose canonical path, where it goes on behind `root_dir`, goes on with a slash, and
which is a directory. Below `/` there must be room for the second slash of the path of `LIST`. -/
structure Proper (server : Server) (place : Location) : Prop where
  directory : server.files.tree place = some .directory
  separated : server.rootDir = [slash] ∨ pathString place = server.rootDir ∨
    server.rootDir ++ [slash] <+: pathString place
  room : server.rootDir = [slash] → (pathString place).length + 1 < pathMax

/-- No `CD` is accepted that leads to a place that is not proper. -/
def Permitted (server : Server) (session : Session) : Command → Prop
  | .cd arg => ∀ place, server.accepted session.currDir arg = some place → server.Proper place
  | .list => True

theorem exec_cd (currDir arg : Bytes) :
    (server.exec currDir (Command.cd arg).text).currDir = server.cd currDir arg := by
  have text_eq : (Command.cd arg).text = 67 :: 68 :: 32 :: arg := rfl
  have other : ¬ascii "ECHO " <+: (Command.cd arg).text := by
    rw [text_eq]
    simp [ascii]
  have starts : ascii "CD " <+: (Command.cd arg).text := List.prefix_append _ _
  have rest : (Command.cd arg).text.drop 3 = arg := rfl
  have quit : (Command.cd arg).text ≠ ascii "QUIT" := by
    rw [text_eq]
    simp [ascii]
  have info : (Command.cd arg).text ≠ ascii "INFO" := by
    rw [text_eq]
    simp [ascii]
  simp only [exec, other, quit, info, starts, rest, if_true, if_false]

theorem exec_list (currDir : Bytes) :
    (server.exec currDir Command.list.text).currDir = currDir := by
  have echo : ¬ascii "ECHO " <+: ascii "LIST" := by decide
  have quit : ascii "LIST" ≠ ascii "QUIT" := by decide
  have info : ascii "LIST" ≠ ascii "INFO" := by decide
  have cd : ¬ascii "CD " <+: ascii "LIST" := by decide
  simp only [Command.text, exec, echo, quit, info, cd, if_false, if_true]
  split <;> rfl

/-- What `CD` keeps of a proper place leads `LIST` to this place. -/
theorem opened_relative (canonical : server.rootDir = pathString server.cwd)
    (root : server.files.tree server.cwd = some .directory)
    (short : (pathString place).length < pathMax) (proper : server.Proper place) :
    server.opened (server.relative place) = some place := by
  have root_valid := FileSystem.validName_of_mem (FileSystem.ne_none_of_eq_some root)
  have valid := FileSystem.validName_of_mem (FileSystem.ne_none_of_eq_some proper.directory)
  have found : server.files.resolve server.cwd (pathString place) = some place :=
    FileSystem.resolve_pathString (Or.inl proper.directory) short
  rw [opened_eq_some]
  refine ⟨?_, proper.directory⟩
  rcases proper.separated with top | same | ⟨rest, below⟩
  · have rest_eq : server.relative place = (pathString place).tail := by
      have behind : (pathString place).drop server.rootDir.length = (pathString place).tail := by
        rw [top]
        exact List.drop_one
      rw [relative, behind, if_neg (head?_tail_pathString valid)]
    have whole : [slash] ++ slash :: (pathString place).tail = slash :: pathString place := by
      rw [← List.cons_head?_tail (head?_pathString place)]
      rfl
    have uncut : snprintf pathMax (slash :: pathString place) = slash :: pathString place := by
      apply List.take_of_length_le
      have := proper.room top
      rw [List.length_cons]
      omega
    rw [rest_eq, top, whole, uncut,
      FileSystem.resolve_cons_slash (head?_pathString place) (proper.room top), found]
  · have rest_eq : server.relative place = [] := by
      simp [relative, same]
    have some_root : server.rootDir ≠ [] := by
      intro empty
      have absolute := head?_pathString server.cwd
      rw [← canonical, empty] at absolute
      cases absolute
    have opened : server.opened [] = some place :=
      (opened_nil some_root (same ▸ short)).mpr ⟨same ▸ found, proper.directory⟩
    rw [rest_eq]
    exact (opened_eq_some.mp opened).1
  · rw [List.append_assoc, List.singleton_append] at below
    have rest_eq : server.relative place = rest := by
      simp [relative, ← below]
    have uncut : snprintf pathMax (pathString place) = pathString place :=
      List.take_of_length_le (Nat.le_sub_one_of_lt short)
    rw [rest_eq, below, uncut, found]

/-- A proper place is the root directory or below it. -/
theorem suffix_of_proper (canonical : server.rootDir = pathString server.cwd)
    (root : server.files.tree server.cwd = some .directory) (proper : server.Proper place) :
    server.cwd <:+ place := by
  have root_valid := FileSystem.validName_of_mem (FileSystem.ne_none_of_eq_some root)
  have valid := FileSystem.validName_of_mem (FileSystem.ne_none_of_eq_some proper.directory)
  rcases proper.separated with top | same | ⟨rest, below⟩
  · have at_root : server.cwd = [] := by
      apply pathString_inj root_valid (by simp)
      exact canonical.symm.trans top
    rw [at_root]
    exact List.nil_suffix
  · rw [canonical] at same
    have at_root : place = server.cwd := pathString_inj valid root_valid same
    exact at_root ▸ List.suffix_refl _
  · rw [canonical, List.append_assoc, List.singleton_append] at below
    exact suffix_of_pathString root_valid valid below.symm

/-- In every session without improper `CD`s, `LIST` opens the directory to which the last accepted
`CD` has led, inside the root directory. -/
theorem listsInside_of_reachable {files : FileSystem} {cwd : Location} {rootDir : Bytes}
    {readdir : Location → List Name}
    {listed : ∀ place, (readdir place).Perm (dot :: dotDot :: files.names place)} {stray : UInt8}
    (started : start files cwd rootDir readdir listed stray = some server)
    (canonical : server.rootDir = pathString server.cwd) {session : Session}
    (reached : server.sessions.ReachableUnder server.Permitted session) :
    server.ListsInside session := by
  rcases start_eq_some started with ⟨files_eq, root_eq, resolved, root⟩
  rw [← files_eq] at resolved root
  rw [← root_eq] at resolved
  have root_short := (FileSystem.resolve_eq_some.mp resolved).2.1
  rw [canonical] at root_short
  have kept : session.currDir = server.relative session.last ∧ server.Proper session.last ∧
      (pathString session.last).length < pathMax := by
    apply reached.invariant
    · rintro session rfl
      refine ⟨by simp [relative, canonical], ⟨root, Or.inr (Or.inl canonical.symm), ?_⟩, root_short⟩
      intro top
      rw [← canonical, top]
      decide
    · intro session command successor kept permitted taken
      obtain rfl := Option.some.inj taken
      cases command with
      | list => exact ⟨(exec_list _).trans kept.1, kept.2⟩
      | cd arg =>
          simp only [next, exec_cd, cd_eq]
          cases accepted : server.accepted session.currDir arg with
          | none => exact kept
          | some place =>
              exact ⟨rfl, permitted place accepted, (accepted_eq_some.mp accepted).2.1⟩
  refine ⟨?_, suffix_of_proper canonical root kept.2.1⟩
  rw [kept.1]
  exact opened_relative canonical root kept.2.2 kept.2.1

end Inside

end Server

/-- Two directories `/srv` and `/srv2`. -/
def twins : FileSystem :=
  let withRoot := (FileSystem.bare.mkdir [] (ascii "/srv")).getD FileSystem.bare
  (withRoot.mkdir [] (ascii "/srv2")).getD withRoot

/-- A server for a directory tree that is read in the order of `names`. -/
def serve (files : FileSystem) (cwd : Location) (rootDir : Bytes) : Option Server :=
  Server.start files cwd rootDir (fun place => dot :: dotDot :: files.names place)
    (fun _ => .refl _) 0

/-- With `root_dir` absolute, and without subdirectories. -/
theorem sameRoot_absolute :
    ∃ server, serve twins [] (ascii "/srv") = some server ∧ server.SameRoot := by
  have starts : (serve twins [] (ascii "/srv")).isSome = true := by decide +kernel
  rcases Option.isSome_iff_exists.mp starts with ⟨server, started⟩
  rcases Server.start_eq_some started with ⟨files_eq, root_eq, resolved, -⟩
  have srv : twins.resolve [] (ascii "/srv") = some [ascii "srv"] := by decide +kernel
  have cwd_eq : server.cwd = [ascii "srv"] := Option.some.inj (resolved.symm.trans srv)
  have empty : twins.names [ascii "srv"] = [] := by decide +kernel
  have fits : server.RootFits := by
    refine ⟨.inl (by rw [root_eq]; decide), fun name subdirectory => ?_⟩
    rw [files_eq, cwd_eq] at subdirectory
    have listed := FileSystem.mem_names.mpr (FileSystem.ne_none_of_eq_some subdirectory)
    rw [empty] at listed
    cases listed
  exact ⟨server, started, (Server.sameRoot_iff started).mpr fits⟩

/-- With `root_dir` relative to `/`, `LIST` looks for `/srv/srv`. -/
theorem not_sameRoot_relative :
    ∃ server, serve twins [] (ascii "srv") = some server ∧ ¬server.SameRoot := by
  have started : (serve twins [] (ascii "srv")).map (fun server => server.opened []) =
      some none := by
    decide +kernel
  rcases Option.map_eq_some_iff.mp started with ⟨server, started, opened⟩
  refine ⟨server, started, fun same => ?_⟩
  have lists := same.1
  rw [opened] at lists
  contradiction

/-- A session that enters a subdirectory of the root directory `/`. -/
theorem listsInside_twins :
    ∃ server, serve twins [] (ascii "/") = some server ∧
      server.ListsInside (server.next ⟨[], server.cwd⟩ (.cd (ascii "srv"))) := by
  have started : (serve twins [] (ascii "/")).map (fun server =>
      (server.cwd, server.rootDir, server.accepted [] (ascii "srv"),
        server.files.tree [ascii "srv"])) =
      some ([], ascii "/", some [ascii "srv"], some .directory) := by
    decide +kernel
  rcases Option.map_eq_some_iff.mp started with ⟨server, started, found⟩
  simp only [Prod.mk.injEq] at found
  rcases found with ⟨cwd_eq, root_eq, accepted, directory⟩
  have canonical : server.rootDir = pathString server.cwd := by
    rw [root_eq, cwd_eq]
    rfl
  have permitted : server.Permitted ⟨[], server.cwd⟩ (.cd (ascii "srv")) := by
    intro place place_eq
    rw [accepted] at place_eq
    obtain rfl := Option.some.inj place_eq
    exact ⟨directory, Or.inl root_eq, fun _ => by decide⟩
  exact ⟨server, started, Server.listsInside_of_reachable started canonical
    (.step (.start rfl) permitted rfl)⟩

/-- `/srv2` begins with the text `/srv`; behind it `curr_dir` is `2`, and `LIST` finds no
`/srv/2`. -/
theorem not_listsInside_sibling :
    ∃ server, serve twins [] (ascii "/srv") = some server ∧
      server.rootDir = pathString server.cwd ∧
        ∃ session, server.sessions.Reachable session ∧ ¬server.ListsInside session := by
  have started : (serve twins [] (ascii "/srv")).map (fun server =>
      (server.cwd, server.rootDir,
        (server.next ⟨[], server.cwd⟩ (.cd (ascii "../srv2"))).last)) =
      some ([ascii "srv"], ascii "/srv", [ascii "srv2"]) := by
    decide +kernel
  rcases Option.map_eq_some_iff.mp started with ⟨server, started, found⟩
  simp only [Prod.mk.injEq] at found
  rcases found with ⟨cwd_eq, root_eq, last_eq⟩
  refine ⟨server, started, ?_, server.next ⟨[], server.cwd⟩ (.cd (ascii "../srv2")),
    .step (.start rfl) trivial rfl, fun lists => ?_⟩
  · rw [root_eq, cwd_eq]
    decide
  · have below := lists.2
    rw [last_eq, cwd_eq] at below
    exact absurd below (by decide)

end Osis.Lab08
