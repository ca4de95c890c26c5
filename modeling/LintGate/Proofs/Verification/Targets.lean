import LintGate.Proofs.FileTree.Linkless
import LintGate.Verification

/-!
# Targets of invocations

The invocations of a stage are for all of its files: in parts, one by one, or by the directories
that hold them. No tool takes a target for an option. A target denotes what it stands for if the
path is text; else it is spelt like another path, which stands for nothing or for something else.
-/

namespace LintGate

namespace FileTree

variable {t : FileTree}

/-- A dot in front of a path changes nothing. -/
theorem resolveWith_dot_slash {p : Path} (relative : p.isAbsolute = false) (nonempty : p ≠ "")
    (followLast : Bool) : t.resolveWith followLast ("./" ++ p) = t.resolveWith followLast p := by
  have joined : Path.join "." p = "./" ++ p := by
    rw [Path.join, relative, if_neg (by decide), if_neg (by decide)]
    rfl
  have steps_eq : steps ("./" ++ p) = "." :: steps p := by
    rw [← joined, Path.steps_join relative (by decide) nonempty]
    rfl
  have some_text : "./" ++ p ≠ "" := by simp
  have relative' : Path.isAbsolute ("./" ++ p) = false := by simp [Path.isAbsolute]
  rw [resolveWith_eq some_text, resolveWith_eq nonempty, relative, relative', steps_eq, follow_here]

/-- What a file's path denotes lies in the directory that any spelling of its parent denotes. -/
theorem exists_resolve_parent {f d : Path} {name : String} {l : Location} {node : Node}
    (here : t.root.HasDir t.here) (relative : f.isAbsolute = false)
    (named : f.fileName? = some name)
    (found : t.resolveWith false f = .ok (.present l node)) (notDir : node.isDir = false)
    (relative' : d.isAbsolute = false) (nonempty : d ≠ "")
    (parent : Path.pieceComponents f.toList = Path.pieceComponents d.toList ++ [.name name]) :
    ∃ more listable, t.resolve d = .ok (.present l.dropLast (.dir more listable)) := by
  have some_file : f ≠ "" := by
    rintro rfl
    cases named
  rw [resolveWith_eq some_file, relative, if_neg Bool.false_ne_true] at found
  obtain ⟨front, last_step, -⟩ := exists_steps_eq_of_follow here named found notDir
  have isName : Path.IsName name := Path.isName_of_fileName? named
  rw [last_step] at found
  obtain ⟨left, above, enters, rest⟩ := exists_enters_of_follow_append (List.cons_ne_nil _ _) found
  obtain ⟨more, listable, real⟩ := enters.hasDir here
  -- The spellings of the parent differ in dots alone, and these lead nowhere.
  have directory : (steps d).filterMap Path.Component.ofSegment? =
      front.filterMap Path.Component.ofSegment? := by
    rw [← Path.filterMap_steps, ← Path.filterMap_steps, last_step, List.filterMap_append,
      List.filterMap_cons_some isName.ofSegment?_eq] at parent
    exact (List.append_cancel_right parent).symm
  have entered : t.resolve d = .ok (.present above (.dir more listable)) := by
    rw [resolve, resolveWith_eq nonempty, relative', if_neg Bool.false_ne_true,
      (enters.of_components_eq directory).follow_eq, real]
    rfl
  have place : l = above ++ [name] := location_eq_of_follow_name isName (by simp) rest
  rw [place, List.dropLast_concat]
  exact ⟨more, listable, entered⟩

end FileTree

namespace Stage

/-! ## Parts of the files -/

theorem flatten_chunks {size fuel : Nat} {files : List Path} (some_size : 0 < size)
    (enough : files.length ≤ fuel) : (chunks size fuel files).flatten = files := by
  induction fuel generalizing files with
  | zero =>
      rw [List.length_eq_zero_iff.mp (Nat.le_zero.mp enough)]
      rfl
  | succ fuel ih =>
      rw [chunks]
      split
      case isTrue none_left => simpa using none_left.symm
      case isFalse some_left =>
        have shorter : (files.drop size).length ≤ fuel := by
          rw [List.length_drop]
          omega
        rw [List.flatten_cons, ih shorter, List.take_append_drop]

/-- No part is empty, and none is longer than asked for. -/
theorem length_of_mem_chunks {size fuel : Nat} {files part : List Path} (some_size : 0 < size)
    (member : part ∈ chunks size fuel files) : 0 < part.length ∧ part.length ≤ size := by
  induction fuel generalizing files with
  | zero => cases member
  | succ fuel ih =>
      rw [chunks] at member
      split at member
      case isTrue => cases member
      case isFalse some_left =>
        rcases List.mem_cons.mp member with rfl | later
        · have some_file : 0 < files.length := List.length_pos_iff.mpr (by simpa using some_left)
          rw [List.length_take]
          omega
        · exact ih later

/-! ## Directories of the files -/

theorem mem_insertText {s other : String} {texts : List String} :
    other ∈ insertText s texts ↔ other = s ∨ other ∈ texts := by
  induction texts with
  | nil => simp [insertText]
  | cons text texts ih =>
      rw [insertText]
      split
      case isTrue => simp
      case isFalse =>
        split
        case isTrue same => simp [same]
        case isFalse =>
          rw [List.mem_cons, ih, List.mem_cons]
          exact or_left_comm

theorem pairwise_insertText (s : String) {texts : List String} (sorted : texts.Pairwise (· < ·)) :
    (insertText s texts).Pairwise (· < ·) := by
  induction texts with
  | nil => exact List.pairwise_singleton _ _
  | cons text texts ih =>
      obtain ⟨least, later⟩ := List.pairwise_cons.mp sorted
      rw [insertText]
      split
      case isTrue first =>
        rw [List.pairwise_cons, List.forall_mem_cons]
        exact ⟨⟨first, fun other member => String.lt_trans first (least other member)⟩, sorted⟩
      case isFalse notFirst =>
        split
        case isTrue => exact sorted
        case isFalse differs =>
          rw [List.pairwise_cons]
          refine ⟨fun other member => ?_, ih later⟩
          rcases mem_insertText.mp member with rfl | inside
          · apply String.not_le.mp
            exact fun atMost => differs (String.le_antisymm atMost (String.not_lt.mp notFirst))
          · exact least other inside

/-- The directories are those of the files, in strict order. -/
theorem directories_spec (files : List Path) :
    (directories files).Pairwise (· < ·) ∧
      ∀ d, d ∈ directories files ↔ ∃ f ∈ files, d = directoryOf f := by
  -- The fold keeps any list in order, so the induction is for every list that was found before.
  have added (found : List String) (sorted : found.Pairwise (· < ·)) :
      (files.foldl (fun found f => insertText (directoryOf f) found) found).Pairwise (· < ·) ∧
        ∀ d, d ∈ files.foldl (fun found f => insertText (directoryOf f) found) found ↔
          d ∈ found ∨ ∃ f ∈ files, d = directoryOf f := by
    induction files generalizing found with
    | nil => exact ⟨sorted, by simp⟩
    | cons file files ih =>
        obtain ⟨inOrder, members⟩ := ih _ (pairwise_insertText (directoryOf file) sorted)
        refine ⟨inOrder, fun d => ?_⟩
        rw [List.foldl_cons, members, mem_insertText]
        simp [or_assoc, or_left_comm]
  obtain ⟨inOrder, members⟩ := added [] .nil
  refine ⟨inOrder, fun d => ?_⟩
  rw [directories, members]
  simp

/-! ## What targets denote -/

/-- An argument denotes what the path denotes as messages show it. -/
theorem resolveWith_asArgument (t : FileTree) (followLast : Bool) (f : Path) :
    t.resolveWith followLast f.asArgument = t.resolveWith followLast (Text.lossy f) := by
  unfold Path.asArgument
  dsimp only
  split
  case isTrue dash =>
    apply FileTree.resolveWith_dot_slash
    · simp [Path.isAbsolute, dash]
    · intro empty
      rw [empty] at dash
      cases dash
  case isFalse => rfl

theorem head?_directoryOf (f : Path) : (directoryOf f).toList.head? = some '.' := by
  unfold directoryOf
  split
  · split
    · rfl
    · simp
  · rfl

/-- As a target, a file is spelt as its path, behind a dot if it begins with a dash, and denotes
what the path denotes. -/
structure StandsForFile (f : Path) (target : String) : Prop where
  spelling : target = if f.toList.head? = some '-' then "./" ++ f else f
  resolves : ∀ (t : FileTree) followLast,
    t.resolveWith followLast target = t.resolveWith followLast f

/-- An argument stands for a file just if the path of the file is text. -/
theorem standsForFile_iff {f : Path} : StandsForFile f f.asArgument ↔ Text.lossy f = f := by
  constructor
  · rintro ⟨spelling, -⟩
    unfold Path.asArgument at spelling
    dsimp only at spelling
    -- A dash at the beginning stays there, and no other one comes to stand there.
    by_cases dash : f.toList.head? = some '-'
    · rw [if_pos dash, if_pos (Text.head?_lossy dash (by decide))] at spelling
      exact (String.append_right_inj _).mp spelling
    · rw [if_neg dash] at spelling
      split at spelling
      case isFalse => exact spelling
      case isTrue shown =>
        have dot : f.toList.head? = some '.' := by
          rw [← spelling]
          simp
        cases shown.symm.trans (Text.head?_lossy dot (by decide))
  · intro shown
    refine ⟨?_, fun t followLast => by rw [resolveWith_asArgument, shown]⟩
    unfold Path.asArgument
    rw [shown]

/-- As a target, the directory of a file is spelt as the parent of the file's path behind a dot. It
denotes what the parent denotes, which is the directory in which the file lies. -/
structure StandsForDirectory (f : Path) (target : String) : Prop where
  spelling : ∃ dir, f.parent? = some dir ∧ target = (if dir = "" then "." else "./" ++ dir) ∧
    ∀ (t : FileTree) followLast, dir ≠ "" →
      t.resolveWith followLast target = t.resolveWith followLast dir
  holds : ∀ (t : FileTree) l node, t.root.HasDir t.here →
    t.resolveWith false f = .ok (.present l node) → node.isDir = false →
    ∃ more listable, t.resolve target = .ok (.present l.dropLast (.dir more listable))

/-- The path of the directory of a file is text. -/
def HasTextParent (f : Path) : Prop :=
  ∀ dir, f.parent? = some dir → Text.lossy dir = dir

theorem standsForDirectory_directoryOf {f : Path} {name : String} (relative : f.isAbsolute = false)
    (named : f.fileName? = some name) (text : HasTextParent f) :
    StandsForDirectory f (directoryOf f) := by
  obtain ⟨dir, parent, begins, components⟩ := Path.exists_parent?_of_fileName? named
  have spelt : directoryOf f = if dir = "" then "." else "./" ++ dir := by
    simp [directoryOf, parent, text dir parent]
  have relative' : dir.isAbsolute = false := by
    rw [Bool.eq_false_iff]
    intro absolute
    obtain ⟨rest, slash⟩ := Path.isAbsolute_iff.mp absolute
    obtain ⟨more, whole⟩ := begins
    have absolute' : f.isAbsolute = true :=
      Path.isAbsolute_iff.mpr ⟨rest ++ more, by rw [← whole, slash, List.cons_append]⟩
    rw [relative] at absolute'
    cases absolute'
  have below : Path.pieceComponents f.toList =
      Path.pieceComponents (directoryOf f).toList ++ [.name name] := by
    rw [components, spelt]
    split
    case isTrue top =>
      rw [top]
      rfl
    case isFalse =>
      have chars : ("./" ++ dir).toList = ['.'] ++ '/' :: dir.toList := by simp
      rw [chars, Path.pieceComponents_append_slash]
      rfl
  refine ⟨⟨dir, parent, spelt, fun t followLast nonempty => ?_⟩,
    fun t l node here found notDir => ?_⟩
  · rw [spelt, if_neg nonempty, FileTree.resolveWith_dot_slash relative' nonempty]
  · have first := head?_directoryOf f
    apply FileTree.exists_resolve_parent here relative named found notDir _ _ below
    · simp [Path.isAbsolute, first]
    · intro empty
      rw [empty] at first
      cases first

/-- The directory of a file is a target that stands for it just if the path of the directory is
text. -/
theorem standsForDirectory_iff {f : Path} {name : String} (relative : f.isAbsolute = false)
    (named : f.fileName? = some name) :
    StandsForDirectory f (directoryOf f) ↔ HasTextParent f := by
  refine ⟨?_, standsForDirectory_directoryOf relative named⟩
  rintro ⟨⟨dir, parent, spelling, -⟩, -⟩ other parent'
  cases parent.symm.trans parent'
  by_cases top : dir = ""
  · rw [top]
    rfl
  · have shown : directoryOf f = "./" ++ Text.lossy dir := by simp [directoryOf, parent, top]
    rw [shown, if_neg top] at spelling
    exact (String.append_right_inj _).mp spelling

/-- How lists of targets come from files: in parts of at most 200, one by one, by directory, or not
at all. -/
def Covers (files : List Path) (lists : List (List String)) : Targets → Prop
  | .project => lists = [[]]
  | .files => lists.flatten = files.map Path.asArgument ∧
      ∀ targets ∈ lists, 1 ≤ targets.length ∧ targets.length ≤ 200
  | .eachFile => lists = files.map fun f => [f.asArgument]
  | .directories => ∃ dirs, lists = [dirs] ∧ dirs.Pairwise (· < ·) ∧
      ∀ d, d ∈ dirs ↔ ∃ f ∈ files, d = directoryOf f

theorem covers_targetLists (targets : Targets) (files : List Path) :
    Covers files (targetLists targets files) targets := by
  cases targets with
  | project | eachFile => rfl
  | files =>
      constructor
      · rw [targetLists, ← List.map_flatten, flatten_chunks (by decide) (Nat.le_refl _)]
      · intro targets member
        obtain ⟨part, inside, rfl⟩ := List.mem_map.mp member
        rw [List.length_map]
        exact length_of_mem_chunks (by decide) inside
  | directories => exact ⟨directories files, rfl, directories_spec files⟩

theorem head?_of_mem_targetLists {targets : Targets} {files : List Path} {list : List String}
    {target : String} (member : list ∈ targetLists targets files) (inside : target ∈ list) :
    target.toList.head? ≠ some '-' := by
  cases targets with
  | project =>
      rw [targetLists, List.mem_singleton] at member
      rw [member] at inside
      cases inside
  | files =>
      obtain ⟨part, -, rfl⟩ := List.mem_map.mp member
      obtain ⟨f, -, rfl⟩ := List.mem_map.mp inside
      exact f.asArgument_head
  | eachFile =>
      obtain ⟨f, -, rfl⟩ := List.mem_map.mp member
      rw [List.mem_singleton.mp inside]
      exact f.asArgument_head
  | directories =>
      rw [targetLists, List.mem_singleton] at member
      rw [member] at inside
      obtain ⟨f, -, rfl⟩ := ((directories_spec files).2 target).mp inside
      rw [head?_directoryOf]
      decide

/-- Every invocation of a stage has its targets behind the arguments of the tool, the mode and the
extra ones. Together the invocations cover the files. No target begins with a dash. A file's
argument denotes what its path denotes as messages show it, so it stands for the file just if the
path is text, that is, if no byte of it is escaped, and likewise the target for its directory. -/
theorem invocations_cover_files {s : Stage} (mode extra : List String)
    (rootRelative : ∀ f ∈ s.files, f.isAbsolute = false ∧ ∃ name, f.fileName? = some name) :
    ∃ lists, Covers s.files lists s.tool.tool.targets ∧
      s.invocations mode extra = lists.map (fun targets =>
        s.tool.baseInvocation.withArgs (mode ++ extra ++ targets)) ∧
      (∀ targets ∈ lists, ∀ target ∈ targets, target.toList.head? ≠ some '-') ∧
      ∀ f ∈ s.files,
        (∀ (t : FileTree) followLast,
          t.resolveWith followLast f.asArgument = t.resolveWith followLast (Text.lossy f)) ∧
        (StandsForFile f f.asArgument ↔ Text.lossy f = f) ∧
        (0 ∉ Text.rawBytes f → (Text.lossy f = f ↔ Text.escape ∉ f.toList)) ∧
        (StandsForDirectory f (directoryOf f) ↔ HasTextParent f) := by
  refine ⟨targetLists s.tool.tool.targets s.files, covers_targetLists _ _, rfl,
    fun targets member target inside => head?_of_mem_targetLists member inside, ?_⟩
  intro f member
  obtain ⟨relative, name, named⟩ := rootRelative f member
  exact ⟨fun t followLast => resolveWith_asArgument t followLast f, standsForFile_iff,
    Text.lossy_eq_iff, standsForDirectory_iff relative named⟩

section Example

/-- A linter for packages. Two of the files have names that could be taken for options. -/
def packageStage : Stage where
  tool := ⟨.golangciLint, "/bin/golangci-lint", none⟩
  role := .linter
  files := ["b/x.go", "-main.go", "a/y.go", "b/-z.go"]
  options := { root := "/w", profile := "go" }

theorem invocations_cover_packages :
    (∀ f ∈ packageStage.files, f.isAbsolute = false ∧ ∃ name, f.fileName? = some name) ∧
      packageStage.invocations ["run"] ["--no-config"] =
        [⟨"/bin/golangci-lint", ["run", "--no-config", ".", "./a", "./b"]⟩] ∧
      (∃ lists, Covers packageStage.files lists .directories ∧
        packageStage.invocations ["run"] ["--no-config"] = lists.map fun targets =>
          packageStage.tool.baseInvocation.withArgs (["run"] ++ ["--no-config"] ++ targets)) ∧
      StandsForDirectory "b/-z.go" "./b" ∧
      ∀ (t : FileTree) followLast,
        t.resolveWith followLast "./-main.go" = t.resolveWith followLast "-main.go" := by
  have rootRelative : ∀ f ∈ packageStage.files,
      f.isAbsolute = false ∧ ∃ name, f.fileName? = some name := by
    simp only [packageStage, List.forall_mem_cons, List.not_mem_nil, false_implies, implies_true,
      and_true]
    exact ⟨⟨by decide, "x.go", by decide⟩, ⟨by decide, "-main.go", by decide⟩,
      ⟨by decide, "y.go", by decide⟩, ⟨by decide, "-z.go", by decide⟩⟩
  obtain ⟨lists, covers, invoked, -, denotes⟩ :=
    invocations_cover_files ["run"] ["--no-config"] rootRelative
  have directory : directoryOf "b/-z.go" = "./b" := by decide
  have argument : Path.asArgument "-main.go" = "./-main.go" := by decide
  refine ⟨rootRelative, by decide, ⟨lists, covers, invoked⟩, ?_, ?_⟩
  · have parent : Path.parent? "b/-z.go" = some "b" := by decide
    rw [← directory]
    refine (denotes "b/-z.go" (by decide)).2.2.2.mpr fun dir same => ?_
    cases parent.symm.trans same
    decide
  · rw [← argument]
    exact ((denotes "-main.go" (by decide)).2.1.mpr (by decide)).resolves

/-- A directory with two files whose names are no text, and with two such directories. -/
def rawEntries : List (String × Node) :=
  [("\x00þ", .dir [("x.go", .file [] 0o644)]), ("\x00þ.py", .file [] 0o644),
    ("\x00ÿ", .dir [("x.go", .file [] 0o644)]), ("\x00ÿ.py", .file [] 0o644)]

def rawTree : FileTree where
  root := .dir [("w", .dir rawEntries)]
  here := ["w"]

def rawStage : Stage where
  tool := ⟨.ruff, "/bin/ruff", none⟩
  role := .linter
  files := ["\x00þ.py", "\x00ÿ.py"]
  options := { root := "/w", profile := "python" }

/-- Different files share one argument, and different directories one target. Nothing is there that
these denote. -/
theorem files_share_an_argument :
    (∀ f ∈ rawStage.files, f.isAbsolute = false ∧ rawTree.isFile f = true) ∧
      rawStage.invocations ["check"] [] = [⟨"/bin/ruff", ["check", "\uFFFD.py", "\uFFFD.py"]⟩] ∧
      rawTree.exists? "\uFFFD.py" = false ∧
      (∀ f ∈ ["\x00þ/x.go", "\x00ÿ/x.go"], rawTree.isFile f = true) ∧
      directories ["\x00þ/x.go", "\x00ÿ/x.go"] = ["./\uFFFD"] ∧
      rawTree.exists? "./\uFFFD" = false := by
  decide +kernel

end Example

end Stage

end LintGate
