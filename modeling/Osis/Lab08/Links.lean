import Osis.Lab08.Server

/-!
# How `LIST` classifies links

`LIST` does not have a link followed: it reads the target and looks up the path that the
target makes behind the path of the listed directory. For a relative target this is where the
link leads, as long as no path is cut and none of the two lookups meets more links than it may
follow. An absolute target is looked up in the listed directory.
-/

namespace Osis.Lab08

open Posix

/-- Whether `stat` finds a regular file. -/
def isRegular : Option Node → Bool
  | some (.file _) => true
  | _ => false

/-- The line of a link. -/
def linkLine (name : Name) (regular : Bool) (target : Bytes) : Bytes :=
  cString (snprintf maxLine
    (name ++ (if regular then ascii " --> " else ascii " -->> ") ++ target ++ crlf))

/-- `linkfull` of a link. -/
def linkFull (dirpath linked : Bytes) : Bytes :=
  snprintf pathMax (dirpath ++ slash :: cString (linked.take (pathMax - 1)))

/-- The paths that a link and its target make behind the path of the listed directory are not
cut. -/
structure Uncut (dirpath : Bytes) (name : Name) (target : Bytes) : Prop where
  some_target : target ≠ []
  text : 0 ∉ target
  name_short : (dirpath ++ slash :: name).length < pathMax
  target_short : (dirpath ++ slash :: target).length < pathMax

namespace Server

/-- The line of a link in `place` tells whether following it leads to a regular file. -/
def ClassifiesLink (server : Server) (place : Location) (dirpath : Bytes) (name : Name) : Prop :=
  ∃ target, server.entryLine dirpath name =
    some (linkLine name (isRegular (server.files.stat place name)) target)

/-- The path that the target of a link makes leads to a regular file where the link does. -/
structure FollowsLink (server : Server) (place : Location) (dirpath : Bytes) (name : Name)
    (target : Bytes) : Prop where
  /-- Where the target is a regular file in the listed directory, none of the two lookups meets
  too many links, or both do. -/
  relative : Uncut dirpath name target → target.head? ≠ some slash →
    isRegular (server.files.stat place target) = true →
    (server.files.stat server.cwd (dirpath ++ slash :: target) = none ↔
      server.files.stat place name = none)
  /-- An absolute target leads to a regular file below the listed directory, too, or to none at
  both places. -/
  absolute : Uncut dirpath name target → target.head? = some slash →
    isRegular (server.files.stat server.cwd (dirpath ++ slash :: target)) =
      isRegular (server.files.stat place name)
  /-- What is left of the paths is of a link, and of a regular file where the link leads to one. -/
  cut : ¬Uncut dirpath name target → ∃ inode linked,
    server.files.lstat server.cwd (snprintf pathMax (dirpath ++ slash :: name)) =
      some (.link inode linked) ∧
    isRegular (server.files.stat server.cwd (linkFull dirpath linked)) =
      isRegular (server.files.stat place name)

end Server

section Lines

variable {front back target target' : Bytes} {name : Name} {regular regular' : Bool}

/-- The start of a line is kept. -/
theorem exists_line_eq (text : 0 ∉ front) (short : front.length < maxLine) :
    ∃ after, cString (snprintf maxLine (front ++ back)) = front ++ after := by
  have fits : front.length ≤ maxLine - 1 := Nat.le_sub_one_of_lt short
  have all_text : ∀ byte ∈ front, decide (byte ≠ 0) = true := by
    intro byte byte_mem
    simp only [decide_eq_true_eq]
    rintro rfl
    exact text byte_mem
  refine ⟨cString (back.take (maxLine - 1 - front.length)), ?_⟩
  rw [snprintf, List.take_append, List.take_of_length_le fits, cString,
    List.takeWhile_append_of_pos all_text]
  rfl

/-- What stands behind the name in the line of an entry. -/
theorem exists_line_name (valid : ValidName name) {mark : Bytes} (text : 0 ∉ mark)
    (short : mark.length ≤ 6) :
    ∃ after, cString (snprintf maxLine (name ++ mark ++ back)) = name ++ (mark ++ after) := by
  have name_short := valid.short
  have whole_text : 0 ∉ name ++ mark := by
    simp [valid.no_nul, text]
  have whole_short : (name ++ mark).length < maxLine := by
    simp only [List.length_append, maxLine, nameMax] at name_short ⊢
    omega
  rcases @exists_line_eq _ back whole_text whole_short with ⟨after, line_eq⟩
  exact ⟨after, by rw [line_eq, List.append_assoc]⟩

theorem exists_linkLine_eq (valid : ValidName name) (regular : Bool) (target : Bytes) :
    ∃ after, linkLine name regular target =
      name ++ ((if regular then ascii " --> " else ascii " -->> ") ++ after) := by
  unfold linkLine
  rw [List.append_assoc _ target]
  cases regular with
  | false => exact exists_line_name valid (by decide) (by decide)
  | true => exact exists_line_name valid (by decide) (by decide)

/-- The arrow can be told from the line. -/
theorem linkLine_regular (valid : ValidName name)
    (same : linkLine name regular target = linkLine name regular' target') :
    regular = regular' := by
  rcases exists_linkLine_eq valid regular target with ⟨after, line_eq⟩
  rcases exists_linkLine_eq valid regular' target' with ⟨after', line_eq'⟩
  rw [line_eq, line_eq'] at same
  have arrows := List.append_cancel_left same
  cases regular <;> cases regular' <;> simp [ascii] at arrows ⊢

/-- The line of a directory is none of a link. -/
theorem directoryLine_ne (valid : ValidName name) :
    cString (snprintf maxLine (name ++ ascii "/" ++ crlf)) ≠ linkLine name regular target := by
  intro same
  rcases exists_linkLine_eq valid regular target with ⟨after, line_eq⟩
  rcases @exists_line_name crlf name valid (ascii "/") (by decide) (by decide) with
    ⟨after', line_eq'⟩
  rw [line_eq, line_eq'] at same
  have marks := List.append_cancel_left same
  cases regular <;> simp [ascii] at marks

/-- The line of a file is none of a link. -/
theorem fileLine_ne (valid : ValidName name) :
    cString (snprintf maxLine (name ++ crlf)) ≠ linkLine name regular target := by
  intro same
  rcases exists_linkLine_eq valid regular target with ⟨after, line_eq⟩
  rcases @exists_line_name [] name valid crlf (by decide) (by decide) with ⟨after', line_eq'⟩
  rw [List.append_nil] at line_eq'
  rw [line_eq, line_eq'] at same
  have marks := List.append_cancel_left same
  cases regular <;> simp [ascii, crlf] at marks

end Lines

section Lookups

variable {fs : FileSystem} {cwd place : Location} {path dirpath target : Bytes} {name : Name}
  {inode : ℕ}

/-- Of two lookups that go as far as they can towards the same end, both or none find a regular
file exactly where none or both fail on the way to one. -/
theorem isRegular_eq_iff {one other whole : Option Node}
    (one_whole : ∀ node, one = some node → whole = some node)
    (other_whole : ∀ node, other = some node → whole = some node) :
    isRegular one = isRegular other ↔
      (isRegular whole = true → (one = none ↔ other = none)) := by
  cases one with
  | none =>
      cases other with
      | none => simp
      | some node => simp [other_whole node rfl, isRegular]
  | some node =>
      cases other with
      | none => simp [one_whole node rfl, isRegular]
      | some node' =>
          have same := (one_whole node rfl).symm.trans (other_whole node' rfl)
          simp [Option.some.inj same]

/-- A target behind the path of a directory leads to nothing else than in the directory. -/
theorem stat_of_append (resolved : fs.resolve cwd path = some place) (some_target : target ≠ [])
    (relative : target.head? ≠ some slash) (short : (path ++ slash :: target).length < pathMax)
    (node : Node) (found : fs.stat cwd (path ++ slash :: target) = some node) :
    fs.stat place target = some node := by
  rcases FileSystem.resolve_append resolved some_target short with ⟨left, fewer, resolve_eq⟩
  rcases Option.bind_eq_some_iff.mp found with ⟨end_place, walked, here⟩
  rw [resolve_eq] at walked
  have target_short : target.length < pathMax := by
    simp only [List.length_append, List.length_cons] at short
    omega
  have start_eq : startOf place target = place := by rw [startOf, if_neg relative]
  apply Option.bind_eq_some_iff.mpr
  refine ⟨end_place, FileSystem.resolve_eq_some.mpr ⟨some_target, target_short, ?_⟩, here⟩
  rw [start_eq]
  exact FileSystem.walk_mono fewer walked

/-- A link leads to nothing else than its target. -/
theorem stat_of_link (directory : fs.tree place = some .directory)
    (link : fs.tree (name :: place) = some (.link inode target)) (some_target : target ≠ [])
    (short : target.length < pathMax) (node : Node) (found : fs.stat place name = some node) :
    fs.stat place target = some node := by
  rcases Option.bind_eq_some_iff.mp found with ⟨end_place, walked, here⟩
  rw [FileSystem.resolve_link directory link] at walked
  apply Option.bind_eq_some_iff.mpr
  refine ⟨end_place, FileSystem.resolve_eq_some.mpr ⟨some_target, short, ?_⟩, here⟩
  exact FileSystem.walk_mono (Nat.sub_le _ _) walked

/-- `lstat` of a name in a directory. -/
theorem lstat_child (resolved : fs.resolve cwd path = some place)
    (directory : fs.tree place = some .directory) (valid : ValidName name)
    (short : (path ++ slash :: name).length < pathMax) :
    fs.lstat cwd (path ++ slash :: name) = fs.tree (name :: place) := by
  rcases FileSystem.resolve_eq_some.mp resolved with ⟨some_path, -, -⟩
  have starts : (path ++ slash :: name).head? = path.head? :=
    List.head?_append_of_ne_nil _ some_path
  have named := FileSystem.entryOf_below resolved directory valid starts
    (components_append_name valid.ne_nil valid.no_slash) short
  have unslashed : endsInSlash (path ++ slash :: name) = false := by
    rw [List.append_cons]
    exact endsInSlash_append_name valid.ne_nil valid.no_slash
  simp [FileSystem.lstat, named, unslashed]

theorem snprintf_eq_self (short : path.length < pathMax) : snprintf pathMax path = path :=
  List.take_of_length_le (Nat.le_sub_one_of_lt short)

theorem linkFull_eq (text : 0 ∉ target) (short : (dirpath ++ slash :: target).length < pathMax) :
    linkFull dirpath target = dirpath ++ slash :: target := by
  have target_short : target.length < pathMax := by
    simp only [List.length_append, List.length_cons] at short
    omega
  rw [linkFull, List.take_of_length_le (Nat.le_sub_one_of_lt target_short), cString_eq_self text,
    snprintf_eq_self short]

end Lookups

namespace Server

variable {server : Server} {place : Location} {dirpath linked : Bytes} {name : Name} {inode : ℕ}

theorem entryLine_link
    (link : server.files.lstat server.cwd (snprintf pathMax (dirpath ++ slash :: name)) =
      some (.link inode linked)) :
    server.entryLine dirpath name = some (linkLine name
      (isRegular (server.files.stat server.cwd (linkFull dirpath linked)))
      (cString (linked.take (pathMax - 1)))) := by
  unfold entryLine
  rw [link]
  simp only [linkLine, linkFull]
  split
  · rename_i found
    simp [found, isRegular]
  · rename_i other
    have not_regular : isRegular (server.files.stat server.cwd
        (snprintf pathMax (dirpath ++ slash :: cString (linked.take (pathMax - 1))))) = false := by
      unfold isRegular
      split
      · rename_i inode found
        exact absurd found (other inode)
      · rfl
    simp [not_regular]

/-- A link is classified right where its line is one of a link and the joined path leads to a
regular file as the link does. -/
theorem classifiesLink_iff_joined (valid : ValidName name) :
    server.ClassifiesLink place dirpath name ↔ ∃ inode linked,
      server.files.lstat server.cwd (snprintf pathMax (dirpath ++ slash :: name)) =
        some (.link inode linked) ∧
      isRegular (server.files.stat server.cwd (linkFull dirpath linked)) =
        isRegular (server.files.stat place name) := by
  constructor
  · rintro ⟨target, line_eq⟩
    cases found : server.files.lstat server.cwd (snprintf pathMax (dirpath ++ slash :: name)) with
    | none =>
        rw [entryLine, found] at line_eq
        cases line_eq
    | some node =>
        cases node with
        | directory =>
            rw [entryLine, found, Option.some.injEq] at line_eq
            exact absurd line_eq (directoryLine_ne valid)
        | file inode =>
            rw [entryLine, found, Option.some.injEq] at line_eq
            exact absurd line_eq (fileLine_ne valid)
        | link inode linked =>
            rw [entryLine_link found, Option.some.injEq] at line_eq
            exact ⟨inode, linked, rfl, linkLine_regular valid line_eq⟩
  · rintro ⟨inode, linked, found, same⟩
    exact ⟨_, by rw [entryLine_link found, same]⟩

/-- `LIST` classifies a link by what it leads to exactly where the path it makes of the target
leads to a regular file as the link does. -/
theorem classifiesLink_iff (listed : server.files.resolve server.cwd dirpath = some place)
    (directory : server.files.tree place = some .directory)
    (link : server.files.tree (name :: place) = some (.link inode linked)) :
    server.ClassifiesLink place dirpath name ↔
      server.FollowsLink place dirpath name linked := by
  have valid := server.files.named (FileSystem.ne_none_of_eq_some link)
  rw [classifiesLink_iff_joined valid]
  by_cases uncut : Uncut dirpath name linked
  · have found : server.files.lstat server.cwd (snprintf pathMax (dirpath ++ slash :: name)) =
        some (.link inode linked) := by
      rw [snprintf_eq_self uncut.name_short, lstat_child listed directory valid uncut.name_short,
        link]
    have joined : (∃ inode linked,
        server.files.lstat server.cwd (snprintf pathMax (dirpath ++ slash :: name)) =
          some (.link inode linked) ∧
        isRegular (server.files.stat server.cwd (linkFull dirpath linked)) =
          isRegular (server.files.stat place name)) ↔
        isRegular (server.files.stat server.cwd (dirpath ++ slash :: linked)) =
          isRegular (server.files.stat place name) := by
      rw [← linkFull_eq uncut.text uncut.target_short]
      constructor
      · rintro ⟨inode', linked', found', same⟩
        rw [found, Option.some.injEq, Node.link.injEq] at found'
        rwa [found'.2]
      · intro same
        exact ⟨inode, linked, found, same⟩
    have linked_short : linked.length < pathMax := by
      have short := uncut.target_short
      simp only [List.length_append, List.length_cons] at short
      omega
    rw [joined]
    by_cases absolute : linked.head? = some slash
    · constructor
      · intro same
        exact ⟨fun _ relative => absurd absolute relative, fun _ _ => same,
          fun isCut => absurd uncut isCut⟩
      · intro follows
        exact follows.absolute uncut absolute
    · have alike := isRegular_eq_iff
        (stat_of_append listed uncut.some_target absolute uncut.target_short)
        (stat_of_link directory link uncut.some_target linked_short)
      rw [alike]
      constructor
      · intro stays
        exact ⟨fun _ _ => stays, fun _ isAbsolute => absurd isAbsolute absolute,
          fun isCut => absurd uncut isCut⟩
      · intro follows
        exact follows.relative uncut absolute
  · constructor
    · intro same
      exact ⟨fun whole => absurd whole uncut, fun whole => absurd whole uncut, fun _ => same⟩
    · intro follows
      exact follows.cut uncut

end Server

section Examples

theorem validName_a : ValidName (ascii "a") := by decide

theorem validName_srv : ValidName (ascii "srv") := by decide

theorem validName_l : ValidName (ascii "l") := by decide

theorem no_inode_directory {fresh : ℕ} :
    ∀ inode, Node.directory.inode? = some inode → inode < fresh := by
  intro inode numbered
  cases numbered

/-- A file `/a`. -/
def fileOnly : FileSystem :=
  FileSystem.bare.create (ascii "a") [] (FileSystem.bare_free _ _) FileSystem.bare.root validName_a

theorem fileOnly_free : fileOnly.tree [ascii "srv"] = none := rfl

/-- With a directory `/srv`. -/
def beside : FileSystem :=
  fileOnly.insert (ascii "srv") [] .directory fileOnly_free fileOnly.root validName_srv
    no_inode_directory

theorem beside_free : beside.allocate.tree [ascii "l", ascii "srv"] = none := rfl

theorem beside_directory : beside.allocate.tree [ascii "srv"] = some .directory := rfl

theorem allocated_link {target : Bytes} :
    ∀ inode, (Node.link 1 target).inode? = some inode → inode < beside.allocate.fresh := by
  intro inode numbered
  cases numbered
  decide +kernel

/-- With a link `/srv/l` to the file. -/
def absoluteLink : FileSystem :=
  beside.allocate.insert (ascii "l") [ascii "srv"] (.link 1 (ascii "/a")) beside_free
    beside_directory validName_l allocated_link

/-- The server for `/srv`. -/
def linkServer : Server :=
  ⟨absoluteLink, [ascii "srv"], ascii "/srv", none,
    fun place => dot :: dotDot :: absoluteLink.names place, fun _ => .refl _, 0⟩

theorem listed_srv : linkServer.files.resolve linkServer.cwd (ascii "/srv/") =
    some [ascii "srv"] := by decide +kernel

theorem link_srv : linkServer.files.tree [ascii "l", ascii "srv"] =
    some (.link 1 (ascii "/a")) := rfl

/-- With a link `/srv/l` to the file by a relative path. -/
def relativeLink : FileSystem :=
  beside.allocate.insert (ascii "l") [ascii "srv"] (.link 1 (ascii "../a")) beside_free
    beside_directory validName_l allocated_link

/-- The server for `/srv` there. -/
def relativeServer : Server :=
  ⟨relativeLink, [ascii "srv"], ascii "/srv", none,
    fun place => dot :: dotDot :: relativeLink.names place, fun _ => .refl _, 0⟩

/-- The relative link gets the arrow of a regular file. -/
theorem classifiesLink_relative :
    relativeServer.ClassifiesLink [ascii "srv"] (ascii "/srv/") (ascii "l") := by
  have listed : relativeServer.files.resolve relativeServer.cwd (ascii "/srv/") =
      some [ascii "srv"] := by decide +kernel
  have link : relativeServer.files.tree [ascii "l", ascii "srv"] =
      some (.link 1 (ascii "../a")) := rfl
  have joined : relativeServer.files.stat relativeServer.cwd
      (ascii "/srv/" ++ slash :: ascii "../a") ≠ none := by decide +kernel
  have leads : relativeServer.files.stat [ascii "srv"] (ascii "l") ≠ none := by decide +kernel
  have uncut : Uncut (ascii "/srv/") (ascii "l") (ascii "../a") :=
    ⟨by decide, by decide, by decide, by decide⟩
  have follows :
      relativeServer.FollowsLink [ascii "srv"] (ascii "/srv/") (ascii "l") (ascii "../a") :=
    { relative := fun _ _ _ => iff_of_false joined leads
      absolute := fun _ absolute => absurd absolute (by decide)
      cut := fun isCut => absurd uncut isCut }
  exact (Server.classifiesLink_iff listed rfl link).mpr follows

/-- An absolute link to a regular file gets the arrow of a broken one. -/
theorem not_classifiesLink_absolute :
    ¬ ∀ (server : Server) (place : Location) (dirpath linked : Bytes) (name : Name) (inode : ℕ),
      server.files.resolve server.cwd dirpath = some place →
      server.files.tree place = some .directory →
      server.files.tree (name :: place) = some (.link inode linked) →
        server.ClassifiesLink place dirpath name := by
  intro claimed
  have classified := claimed linkServer _ _ _ _ _ listed_srv rfl link_srv
  have found : linkServer.files.lstat linkServer.cwd
      (snprintf pathMax (ascii "/srv/" ++ slash :: ascii "l")) =
        some (.link 1 (ascii "/a")) := by decide +kernel
  rcases (Server.classifiesLink_iff_joined validName_l).mp classified with
    ⟨inode, linked, found', same⟩
  rw [found, Option.some.injEq, Node.link.injEq] at found'
  rw [← found'.2] at same
  have joined : isRegular (linkServer.files.stat linkServer.cwd
      (linkFull (ascii "/srv/") (ascii "/a"))) = false := by decide +kernel
  have leads : isRegular (linkServer.files.stat [ascii "srv"] (ascii "l")) = true := by
    decide +kernel
  rw [joined, leads] at same
  cases same

end Examples

end Osis.Lab08
