import LintGate.Proofs.FileTree.WellFormed
import Mathlib.Data.List.Induction

/-!
# Descent along a path

`Location.descend` is where the components of a path lead as long as no link is among them. A path
whose directories are all real is resolved to its last name in the directory reached by descent.
-/

namespace LintGate

namespace Location

/-- Where a component leads from a directory. -/
def toward (dir : Location) : Path.Component → Location
  | .root => []
  | .here => dir
  | .up => dir.dropLast
  | .name name => dir ++ [name]

def descend (dir : Location) (cs : List Path.Component) : Location :=
  cs.foldl toward dir

theorem descend_cons (dir : Location) (c : Path.Component) (cs : List Path.Component) :
    descend dir (c :: cs) = descend (dir.toward c) cs := rfl

theorem descend_concat (dir : Location) (cs : List Path.Component) (c : Path.Component) :
    descend dir (cs ++ [c]) = (descend dir cs).toward c := by
  simp [descend]

theorem length_descend_le (dir : Location) (cs : List Path.Component) :
    (descend dir cs).length ≤ dir.length + cs.length := by
  induction cs generalizing dir with
  | nil => simp [descend]
  | cons c cs ih =>
      have first : (dir.toward c).length ≤ dir.length + 1 := by
        cases c <;> simp [toward]
        omega
      have rest := ih (dir.toward c)
      rw [descend_cons, List.length_cons]
      omega

theorem descend_append (dir : Location) (front back : List Path.Component) :
    descend dir (front ++ back) = descend (descend dir front) back := by
  simp [descend]

theorem descend_names (dir names : Location) :
    descend dir (names.map .name) = dir ++ names := by
  induction names generalizing dir with
  | nil => simp [descend]
  | cons name names ih =>
      rw [List.map_cons, descend_cons, ih, toward]
      simp

/-- A step leads to the directory itself, to one above it, or to an entry. -/
theorem toward_cases (dir : Location) (c : Path.Component) :
    dir.toward c <+: dir ∨ ∃ name, dir.toward c = dir ++ [name] := by
  cases c with
  | root => exact .inl List.nil_prefix
  | here => exact .inl (List.prefix_refl _)
  | up => exact .inl (List.dropLast_prefix _)
  | name name => exact .inr ⟨name, rfl⟩

/-- A descent passes everything between its start and its end. -/
theorem exists_descend_eq {dir between : Location} {cs : List Path.Component}
    (above : dir <+: between) (below : between <+: descend dir cs) :
    ∃ front, front <+: cs ∧ descend dir front = between := by
  induction cs using List.reverseRecOn with
  | nil =>
      have same : dir = between := above.eq_of_length_le below.length_le
      exact ⟨[], List.prefix_refl _, same⟩
  | append_singleton cs c ih =>
      rw [descend_concat] at below
      have earlier (inside : between <+: descend dir cs) :
          ∃ front, front <+: cs ++ [c] ∧ descend dir front = between := by
        obtain ⟨front, begins, same⟩ := ih inside
        exact ⟨front, begins.trans (List.prefix_append _ _), same⟩
      rcases toward_cases (descend dir cs) c with back | ⟨name, entry⟩
      · exact earlier (below.trans back)
      · rw [entry] at below
        rcases List.prefix_concat_iff.mp below with whole | inside
        · refine ⟨cs ++ [c], List.prefix_refl _, ?_⟩
          rw [descend_concat, entry, whole]
        · exact earlier inside

/-- What lies below the start of a descent has names from the path. -/
theorem name_mem_of_descend_eq {dir below : Location} {cs : List Path.Component}
    (same : descend dir cs = dir ++ below) : ∀ name ∈ below, .name name ∈ cs := by
  induction cs using List.reverseRecOn generalizing below with
  | nil =>
      have none_below : below = [] := by simpa [descend] using same
      simp [none_below]
  | append_singleton cs c ih =>
      rw [descend_concat] at same
      have weaken {below : Location} (earlier : ∀ name ∈ below, .name name ∈ cs) :
          ∀ name ∈ below, .name name ∈ cs ++ [c] :=
        fun name member => List.mem_append_left _ (earlier name member)
      cases c with
      | root =>
          have none_below := (List.append_eq_nil_iff.mp same.symm).2
          simp [none_below]
      | here => exact weaken (ih same)
      | up =>
          rcases List.eq_nil_or_concat (descend dir cs) with top | ⟨front, last, shape⟩
          · simp only [toward, top, List.dropLast_nil] at same
            have none_below := (List.append_eq_nil_iff.mp same.symm).2
            simp [none_below]
          · rw [List.concat_eq_append] at shape
            simp only [toward, shape, List.dropLast_concat] at same
            rw [same, List.append_assoc] at shape
            exact weaken fun name member => ih shape name (List.mem_append_left _ member)
      | name last =>
          rcases List.eq_nil_or_concat below with rfl | ⟨front, other, rfl⟩
          · simp
          · rw [List.concat_eq_append, toward, ← List.append_assoc] at same
            obtain ⟨earlier, ends⟩ := List.append_inj' same rfl
            cases ends
            rw [List.concat_eq_append, List.forall_mem_append]
            refine ⟨weaken (ih earlier), ?_⟩
            simp

/-- Without a root or steps up in it, a path leads below its start. -/
theorem prefix_descend {dir : Location} {cs : List Path.Component}
    (plain : ∀ c ∈ cs, c ≠ .root ∧ c ≠ .up) : dir <+: dir.descend cs := by
  induction cs generalizing dir with
  | nil => exact List.prefix_refl _
  | cons c cs ih =>
      rw [List.forall_mem_cons] at plain
      rw [descend_cons]
      cases c with
      | root => exact absurd rfl plain.1.1
      | up => exact absurd rfl plain.1.2
      | here => exact ih plain.2
      | name name => exact (List.prefix_append _ _).trans (ih plain.2)

end Location

theorem Node.isDir_eq_false_of_isFile {node : Node} (isFile : node.isFile = true) :
    node.isDir = false := by
  cases node with
  | dir => cases isFile
  | file | link | program | device => rfl

namespace FileTree

/-- All directories through which a path goes are real ones that can be listed, from a directory
on. -/
def RealAbove (t : FileTree) (dir : Location) (p : Path) : Prop :=
  ∀ front, front <+: p.components.dropLast →
    ∃ entries, t.root.get? (dir.descend front) = some (.dir entries true)

/-- A path leads below the root, through real directories only that can be listed. -/
def RealBelow (t : FileTree) (root p : Path) : Prop :=
  ∃ dir entries, t.resolve root = .ok (.present dir (.dir entries true)) ∧ t.RealAbove dir p ∧
    dir <+: dir.descend p.components

/-- Steps among which there is no link lead where their components lead. -/
theorem Enters.eq_descend {root : Node} {links left : Nat} {dir last : Location} {ss : List String}
    (enters : Enters root links dir ss left last)
    (noLink : ∀ front target, front <+: ss.filterMap Path.Component.ofSegment? →
      root.get? (dir.descend front) ≠ some (.link target)) :
    left = links ∧ last = dir.descend (ss.filterMap Path.Component.ofSegment?) := by
  induction enters with
  | arrived => exact ⟨rfl, rfl⟩
  | stays _ ih => exact ih noLink
  | @up _ _ dir _ rest _ ih =>
      have split : (".." :: rest).filterMap Path.Component.ofSegment? =
          .up :: rest.filterMap Path.Component.ofSegment? := rfl
      rw [split] at noLink ⊢
      refine ih fun front target begins => noLink (.up :: front) target ?_
      exact (List.prefix_cons_inj _).mpr begins
  | @down _ _ dir _ step rest _ _ here up _ _ _ ih =>
      have split : (step :: rest).filterMap Path.Component.ofSegment? =
          .name step :: rest.filterMap Path.Component.ofSegment? :=
        List.filterMap_cons_some (Path.Component.ofSegment?_eq_name_iff.mpr ⟨rfl, here, up⟩)
      rw [split] at noLink ⊢
      refine ih fun front target begins => noLink (.name step :: front) target ?_
      exact (List.prefix_cons_inj _).mpr begins
  | @linked _ _ dir _ step rest target here up _ entry _ _ _ =>
      have split : (step :: rest).filterMap Path.Component.ofSegment? =
          .name step :: rest.filterMap Path.Component.ofSegment? :=
        List.filterMap_cons_some (Path.Component.ofSegment?_eq_name_iff.mpr ⟨rfl, here, up⟩)
      rw [split] at noLink
      have first : [.name step] <+: .name step :: rest.filterMap Path.Component.ofSegment? :=
        (List.prefix_cons_inj _).mpr List.nil_prefix
      exact absurd entry (noLink [.name step] target first)

/-- The names of a real directory lead to it. -/
theorem enters_of_location {root : Node} {entries : List (String × Node)} {listable : Bool}
    (links : Nat) {dir l : Location} (isName : ∀ name ∈ l, IsEntryName name)
    (found : root.get? (dir ++ l) = some (.dir entries listable)) :
    Enters root links dir l links (dir ++ l) := by
  induction l generalizing dir with
  | nil =>
      rw [List.append_nil]
      exact .arrived links dir
  | cons name l ih =>
      have whole : dir ++ name :: l = dir ++ [name] ++ l := by simp
      rw [whole] at found ⊢
      rw [List.forall_mem_cons] at isName
      have isDir : root.HasDir (dir ++ [name] ++ l) := ⟨_, _, found⟩
      obtain ⟨above, _, real⟩ := isDir.of_prefix (List.prefix_append _ _)
      exact .down isName.1.notHere isName.1.notUp isName.1.short real (ih isName.2 found)

/-- A path leads to a directory with so many links left to follow: whatever is named from within it
is looked up from there. -/
def OpensAt (t : FileTree) (root : Path) (left : Nat) (dir : Location) : Prop :=
  ∀ {followLast : Bool} {p : Path} {name : String}, p.isAbsolute = false → p.fileName? = some name →
    t.resolveWith followLast (root.join p) = follow t.root followLast left dir (steps p)

theorem exists_opensAt {t : FileTree} {root : Path} {dir : Location}
    {entries : List (String × Node)}
    {listable : Bool} (rootDir : t.resolve root = .ok (.present dir (.dir entries listable))) :
    ∃ left, t.OpensAt root left dir := by
  have some_root : root ≠ "" := by
    rintro rfl
    cases rootDir
  rw [resolve, resolveWith_eq some_root, Path.steps_eq] at rootDir
  obtain ⟨left, enters⟩ : ∃ left, Enters t.root maxLinks (if root.isAbsolute then [] else t.here)
      root.segments left dir := by
    by_cases slash : root.toList.getLast? = some '/'
    · rw [if_pos slash] at rootDir
      obtain ⟨left, above, enters, rest⟩ :=
        exists_enters_of_follow_append (List.cons_ne_nil _ _) rootDir
      rw [follow_here] at rest
      obtain ⟨rfl, -⟩ := eq_of_follow_nil rest
      exact ⟨left, enters⟩
    · rw [if_neg slash, List.append_nil] at rootDir
      exact (exists_enters_of_follow_dir rootDir).2
  refine ⟨left, ?_⟩
  intro followLast p name relative named
  have nonempty : p ≠ "" := by
    rintro rfl
    cases named
  have nonempty_steps : steps p ≠ [] := by
    obtain ⟨front, back, segments, -⟩ := Path.exists_segments_eq_of_fileName? named
    simp [Path.steps_eq, segments]
  have some_path : root.join p ≠ "" := by
    intro empty
    have last : (root.join p).toList.getLast? = p.toList.getLast? := Path.getLast?_join nonempty
    rw [empty] at last
    have none_left : p.toList = [] := List.getLast?_eq_none_iff.mp last.symm
    exact nonempty (by simpa using none_left)
  rw [resolveWith_eq some_path, Path.isAbsolute_join relative some_root,
    Path.steps_join relative some_root nonempty]
  exact enters.follow_append nonempty_steps

theorem isFile_iff {t : FileTree} {p : Path} : t.isFile p = true ↔
    ∃ l node, t.resolve p = .ok (.present l node) ∧ node.isFile = true := by
  rw [isFile, stat?, stat]
  cases t.resolve p with
  | error => simp [Except.toOption]
  | ok place => cases place <;> simp [Except.toOption]

/-- Steps that end with a dot denote a directory. -/
theorem isDir_of_follow_concat_dot {root node : Node} {followLast : Bool} {links : Nat}
    {start l : Location} {ss : List String}
    (starts : root.HasDir start)
    (found : follow root followLast links start (ss ++ ["."]) = .ok (.present l node)) :
    ∃ entries listable, node = .dir entries listable := by
  obtain ⟨left, above, enters, rest⟩ := exists_enters_of_follow_append (List.cons_ne_nil _ _) found
  obtain ⟨entries, listable, real⟩ := enters.hasDir starts
  rw [follow_here, follow_nil, real] at rest
  cases rest
  exact ⟨entries, listable, rfl⟩

/-- The last step to what is no directory is its name, since dots behind it would ask for one. -/
theorem exists_steps_eq_of_follow {root node : Node} {followLast : Bool} {links : Nat}
    {start l : Location} {p : Path} {name : String}
    (starts : root.HasDir start) (named : p.fileName? = some name)
    (found : follow root followLast links start (steps p) = .ok (.present l node))
    (notDir : node.isDir = false) :
    ∃ front, steps p = front ++ [name] ∧
      p.components.dropLast =
        Path.opening p.toList ++ front.filterMap Path.Component.ofSegment? := by
  obtain ⟨front, back, segments, dots, above⟩ := Path.exists_segments_eq_of_fileName? named
  refine ⟨front, ?_, above⟩
  rcases List.eq_nil_or_concat
      (back ++ if p.toList.getLast? = some '/' then ["."] else []) with none_left | found'
  case inl => rw [Path.steps_eq, segments, List.append_assoc, List.cons_append, none_left]
  obtain ⟨more, last, shape⟩ := found'
  rw [List.concat_eq_append] at shape
  have dot : last = "." := by
    have member : last ∈ back ++ if p.toList.getLast? = some '/' then ["."] else [] := by
      simp [shape]
    rcases List.mem_append.mp member with inside | slash
    · exact dots last inside
    · split at slash
      · simpa using slash
      · simp at slash
  have whole : steps p = (front ++ name :: more) ++ ["."] := by
    rw [Path.steps_eq, segments, List.append_assoc, List.cons_append, shape, dot]
    simp
  rw [whole] at found
  obtain ⟨entries, _, rfl⟩ := isDir_of_follow_concat_dot starts found
  cases notDir

/-- A relative path begins with no step anywhere else. -/
theorem descend_opening {p : Path} (relative : p.isAbsolute = false) (dir : Location)
    (cs : List Path.Component) :
    dir.descend (Path.opening p.toList ++ cs) = dir.descend cs := by
  rcases Path.opening_of_relative relative with opening | opening
  · rw [opening, List.nil_append]
  · rw [opening]
    rfl

/-- What is no directory is found by its name where the steps before it lead, if no link is among
them. -/
theorem OpensAt.follow_last {t : FileTree} {root p : Path} {name : String} {left : Nat}
    {dir l : Location} {node : Node} (opens : t.OpensAt root left dir) (starts : t.root.HasDir dir)
    (relative : p.isAbsolute = false) (named : p.fileName? = some name)
    (noLink : ∀ front target, front <+: p.components.dropLast →
      t.root.get? (dir.descend front) ≠ some (.link target))
    (found : t.resolve (root.join p) = .ok (.present l node)) (notDir : node.isDir = false) :
    follow t.root true left (dir.descend p.components.dropLast) [name] = .ok (.present l node) := by
  rw [resolve, opens relative named] at found
  obtain ⟨front, last_step, above⟩ := exists_steps_eq_of_follow starts named found notDir
  rw [above] at noLink ⊢
  rw [last_step] at found
  obtain ⟨_, last, enters, rest⟩ := exists_enters_of_follow_append (List.cons_ne_nil _ _) found
  have noLink' : ∀ begin target, begin <+: front.filterMap Path.Component.ofSegment? →
      t.root.get? (dir.descend begin) ≠ some (.link target) := by
    intro begin target begins
    rw [← descend_opening relative]
    exact noLink _ target ((List.prefix_append_right_inj _).mpr begins)
  obtain ⟨rfl, rfl⟩ := enters.eq_descend noLink'
  rwa [descend_opening relative]

/-- A regular file whose directories are all real is found by its name in the last of them. -/
theorem OpensAt.exists_follow_name_of_isFile {t : FileTree} {root p : Path} {name : String}
    {left : Nat} {dir : Location} (opens : t.OpensAt root left dir)
    (relative : p.isAbsolute = false)
    (named : p.fileName? = some name) (real : t.RealAbove dir p)
    (regular : t.isFile (root.join p) = true) :
    ∃ l node, node.isFile = true ∧
      follow t.root true left (dir.descend p.components.dropLast) [name] =
        .ok (.present l node) := by
  obtain ⟨l, node, found, isFile⟩ := isFile_iff.mp regular
  obtain ⟨top, topDir⟩ := real [] List.nil_prefix
  refine ⟨l, node, isFile, ?_⟩
  apply opens.follow_last ⟨top, true, topDir⟩ relative named _ found
    (Node.isDir_eq_false_of_isFile isFile)
  intro front target begins
  obtain ⟨entries, real⟩ := real front begins
  simp [real]

/-- A name leads to the entry of this name, unless a link is followed from there. -/
theorem location_eq_of_follow_name {root node : Node} {followLast : Bool} {links : Nat}
    {dir l : Location} {name : String} (isName : Path.IsName name)
    (stays : followLast = true → ∀ target, root.get? (dir ++ [name]) ≠ some (.link target))
    (found : follow root followLast links dir [name] = .ok (.present l node)) :
    l = dir ++ [name] := by
  rcases Nat.lt_or_ge maxNameBytes (Text.rawBytes name).length with long | short
  · rw [follow_long isName.notHere isName.notUp long] at found
    cases found
  rw [follow_name isName.notHere isName.notUp short] at found
  cases entry : root.get? (dir ++ [name]) with
  | none =>
      rw [entry] at found
      cases found
  | some child =>
      rw [entry] at found
      cases child with
      | dir =>
          dsimp only at found
          rw [follow_nil] at found
          cases found
          rfl
      | link target =>
          cases followLast with
          | true => exact absurd entry (stays rfl target)
          | false =>
              cases found
              rfl
      | file | program | device =>
          cases found
          rfl

end FileTree

end LintGate
