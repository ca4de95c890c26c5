import LintGate.Proofs.FileTree.Walk
import LintGate.Proofs.Ignore.SkippedDirs
import LintGate.Proofs.Language.Extensions
import LintGate.Proofs.OptOut
import LintGate.Proofs.Path.Order
import LintGate.Run

/-!
# Eligible files

`Profile.Eligible` says which files a language has to check. Selection keeps exactly the eligible
candidates, in order, and gives none to two languages. A language with an eligible candidate within
the depth of detection, below directories that can be listed, is among the languages of the run, so
no such candidate is missed.
-/

namespace LintGate

namespace Profile

/-- A language has to check a file. -/
structure Eligible (p : Profile) (t : FileTree) (root : Path) (rules : SelectionRules)
    (file : Path) : Prop where
  claimed : ∃ name, file.shownName? = some name ∧ p.claims name = true
  notSkipped : ∀ dir ∈ file.names.dropLast, dir ∉ skippedDirs
  notExcluded : (IgnoreRules.ofLines p.excludes).excludes file = false
  notIgnored : rules.ignored.excludes file = false
  /-- The file is a regular one, or a link to one. -/
  regular : t.isFile (root.join file) = true
  /-- A file that cannot be read has no marker, whatever is in it. -/
  unmarked : ∀ contents, t.read? (root.join file) = some contents →
    ¬ HasMarker contents rules.disableMarker rules.markerLines

theorem claimsPath_iff {p : Profile} {file : Path} :
    p.claimsPath file = true ↔ ∃ name, file.shownName? = some name ∧ p.claims name = true := by
  rw [claimsPath, Option.any_eq_true]

theorem any_excludingRules_eq_false_iff {p : Profile} {ignored : IgnoreRules} {file : Path} :
    (p.excludingRules ignored).any (·.excludes file) = false ↔
      (∀ dir ∈ file.names.dropLast, dir ∉ skippedDirs) ∧
        (IgnoreRules.ofLines p.excludes).excludes file = false ∧
        ignored.excludes file = false := by
  have skips : skippedDirRules.excludes file = false ↔
      ∀ dir ∈ file.names.dropLast, dir ∉ skippedDirs := by
    rw [Bool.eq_false_iff, ne_eq, skippedDirRules_excludes_iff]
    simp
  simp [excludingRules, skips]

end Profile

theorem FileTree.optsOut_eq_false_iff {t : FileTree} {file : Path} {marker : String}
    {maxLines : Nat} : t.optsOut file marker maxLines = false ↔
      ∀ contents, t.read? file = some contents → ¬ HasMarker contents marker maxLines := by
  rw [FileTree.optsOut]
  cases t.read? file with
  | none => simp
  | some contents => simp [← optsOut_iff]

namespace Profile

/-- Selection keeps the eligible candidates and no others. -/
theorem mem_select_iff {p : Profile} {t : FileTree} {root : Path} {rules : SelectionRules}
    {candidates : List Path} {file : Path} :
    file ∈ p.select t root rules candidates ↔
      file ∈ candidates ∧ p.Eligible t root rules file := by
  rw [select, List.mem_filter]
  simp only [Bool.and_eq_true, Bool.not_eq_true', claimsPath_iff, any_excludingRules_eq_false_iff,
    FileTree.optsOut_eq_false_iff]
  constructor
  · rintro ⟨member, ⟨⟨claimed, notSkipped, notExcluded, notIgnored⟩, regular⟩, unmarked⟩
    exact ⟨member, claimed, notSkipped, notExcluded, notIgnored, regular, unmarked⟩
  · rintro ⟨member, claimed, notSkipped, notExcluded, notIgnored, regular, unmarked⟩
    exact ⟨member, ⟨⟨claimed, notSkipped, notExcluded, notIgnored⟩, regular⟩, unmarked⟩

theorem pairwise_select {p : Profile} {t : FileTree} {root : Path} {rules : SelectionRules}
    {candidates : List Path} (sorted : candidates.Pairwise (Path.before · ·)) :
    (p.select t root rules candidates).Pairwise (Path.before · ·) :=
  sorted.sublist List.filter_sublist

end Profile

/-- Spellings of one path are claimed by one language at most. -/
theorem Language.eq_of_claimed {a b : Language} {p q : Path} (same : p.same q = true)
    (claimedA : ∃ name, p.shownName? = some name ∧ a.profile.claims name = true)
    (claimedB : ∃ name, q.shownName? = some name ∧ b.profile.claims name = true) : a = b := by
  obtain ⟨name, named, claimsA⟩ := claimedA
  obtain ⟨name', named', claimsB⟩ := claimedB
  have alike : p.shownName? = q.shownName? := by
    rw [Path.shownName?, Path.shownName?, Path.fileName?, Path.fileName?, Path.same_iff.mp same]
  rw [alike] at named
  cases named.symm.trans named'
  exact Language.eq_of_claims claimsA claimsB

/-- What holds of no paths and stays when a path is put in its place holds of a snapshot. The root
of a snapshot leads to something. -/
theorem FileTree.snapshot_induction {t : FileTree} {root : Path} {s : Snapshot}
    (holds : List Path → Prop) (empty : holds [])
    (insert : ∀ names paths, holds paths →
      holds (Path.insertSorted (Location.relativePath names) paths))
    (found : t.snapshot? root = some s) :
    holds s.paths ∧ ∃ dir node, t.resolve root = .ok (.present dir node) := by
  have added (isFile : Location → Bool) (top : Location) (changes : List Git.Change)
      (s : Snapshot) (held : holds s.paths) :
      holds (changes.foldl (Snapshot.add isFile top) s).paths := by
    induction changes generalizing s with
    | nil => exact held
    | cons change changes ih =>
        apply ih
        rw [Snapshot.add]
        split
        · exact insert _ _ held
        · exact held
  simp only [snapshot?, Option.bind_eq_bind, Option.bind_eq_some_iff] at found
  obtain ⟨repository, -, found⟩ := found
  split at found
  case h_1 l node resolved =>
    obtain ⟨changes, -, found⟩ := Option.bind_eq_some_iff.mp found
    cases found
    exact ⟨added _ _ changes {} empty, l, node, resolved⟩
  case h_2 => cases found

theorem FileTree.pairwise_snapshot {t : FileTree} {root : Path} {s : Snapshot}
    (found : t.snapshot? root = some s) : s.paths.Pairwise (Path.before · ·) :=
  (snapshot_induction (List.Pairwise (Path.before · ·)) .nil
    (fun _ _ sorted => Path.pairwise_insertSorted _ sorted) found).1

/-- A snapshot names files from the directory to which the root leads. -/
theorem FileTree.exists_names_of_mem_snapshot {t : FileTree} {root : Path} {s : Snapshot}
    {file : Path} (found : t.snapshot? root = some s) (member : file ∈ s.paths) :
    ∃ dir node names, t.resolve root = .ok (.present dir node) ∧
      file = Location.relativePath names := by
  have inserted (names : Location) (paths : List Path)
      (named : ∀ p ∈ paths, ∃ names, p = Location.relativePath names) :
      ∀ p ∈ Path.insertSorted (Location.relativePath names) paths,
        ∃ names, p = Location.relativePath names := by
    intro p inside
    rcases Path.mem_insertSorted inside with here | old
    · exact ⟨names, here⟩
    · exact named p old
  obtain ⟨named, dir, node, there⟩ := snapshot_induction _ (by simp) inserted found
  obtain ⟨names, same⟩ := named file member
  exact ⟨dir, node, names, there, same⟩

/-- Candidates are named from the directory to which the root leads. -/
theorem FileTree.exists_names_of_mem_candidates {t : FileTree} {root : Path}
    {candidates : Candidates} {file : Path} (found : t.candidates root = .ok candidates)
    (member : file ∈ candidates.paths) :
    ∃ dir node names, t.resolve root = .ok (.present dir node) ∧
      file = Location.relativePath names := by
  rw [FileTree.candidates] at found
  split at found
  case h_1 s snapshot =>
    cases found
    exact exists_names_of_mem_snapshot snapshot member
  case h_2 =>
    cases walked : t.walk root none with
    | error fault =>
        rw [walked] at found
        cases found
    | ok paths =>
        rw [walked] at found
        cases found
        exact exists_names_of_mem_walk walked (Path.mem_of_mem_sortedSet member)

theorem FileTree.candidates_eq_of_walk {t : FileTree} {root : Path} {files : List Path}
    (no_repository : t.snapshot? root = none) (walked : t.walk root none = .ok files)
    (sorted : files.Pairwise (Path.before · ·)) :
    t.candidates root = .ok ⟨.fullScan, files⟩ := by
  rw [FileTree.candidates, no_repository, walked]
  simp only [Except.map, Path.sortedSet_eq_self sorted]

/-- The candidates of a run are strictly increasing. -/
theorem FileTree.pairwise_candidates {t : FileTree} {root : Path} {candidates : Candidates}
    (found : t.candidates root = .ok candidates) :
    candidates.paths.Pairwise (Path.before · ·) := by
  rw [FileTree.candidates] at found
  split at found
  case h_1 s snapshot =>
    cases found
    exact pairwise_snapshot snapshot
  case h_2 =>
    cases walked : t.walk root none with
    | error fault =>
        rw [walked] at found
        cases found
    | ok paths =>
        rw [walked] at found
        cases found
        exact Path.pairwise_sortedSet _

/-- A job that decides about each member without changing anything keeps what it approves of. -/
theorem Job.perform_keep {α σ : Type} {host : Host σ} {f : α → Job Bool} {test : α → Bool} {s : σ}
    (decides : ∀ x, (f x).perform host s = (test x, s)) (xs : List α) :
    (keep f xs).perform host s = (xs.filter test, s) := by
  induction xs with
  | nil => rfl
  | cons x xs ih =>
      rw [keep, perform_andThen, perform_andThen, decides, ih, perform_done, List.filter_cons]

namespace RunContext

/-- An eligible file within the depth of detection makes its language one of those of the run. -/
theorem exists_languages_of_eligible {c : RunContext} {t : FileTree} {l : Language} {p : Path}
    (wellFormed : t.root.WellFormed) (enabled : (c.settings.language l).enabled = true)
    (eligible : l.profile.Eligible t c.settings.root c.selectionRules p)
    (relative : p.isAbsolute = false) (realBelow : t.RealBelow c.settings.root p)
    (small : c.settings.detectDepth < maxDepth)
    (within : p.components.length ≤ c.settings.detectDepth + 1) :
    ∃ languages, c.languages t = .ok languages ∧ l ∈ languages := by
  obtain ⟨_, shown, claims⟩ := eligible.claimed
  obtain ⟨name, named, rfl⟩ := Path.shownName?_eq_some_iff.mp shown
  obtain ⟨files, walked, q, member, same⟩ := FileTree.exists_mem_walk_of_isFile wellFormed relative
    named realBelow small within eligible.notSkipped eligible.regular
  have applies := TreeIndex.mem_languages_of_claims member
    (Path.shownName?_eq_some_iff.mpr ⟨name, same, rfl⟩) claims
  have detected : c.languages t = .ok ((TreeIndex.ofPaths files).languages.filter fun other =>
      (c.settings.language other).enabled) := by
    rw [languages, FileTree.detect, walked]
    rfl
  exact ⟨_, detected, List.mem_filter.mpr ⟨applies, enabled⟩⟩

theorem candidates_of_prepare {t : FileTree} {settings : Settings} {resolver : Resolver}
    {c : RunContext} (prepared : prepare t settings resolver = .ok c) :
    t.candidates settings.root = .ok c.candidates := by
  rw [prepare] at prepared
  cases found : t.candidates settings.root with
  | error fault =>
      rw [found] at prepared
      cases prepared
  | ok candidates =>
      rw [found] at prepared
      cases prepared
      rfl

/-- The candidates of a context that was prepared from a tree are strictly increasing. -/
theorem pairwise_of_prepare {t : FileTree} {settings : Settings} {resolver : Resolver}
    {c : RunContext} (prepared : prepare t settings resolver = .ok c) :
    c.candidates.paths.Pairwise (Path.before · ·) :=
  FileTree.pairwise_candidates (candidates_of_prepare prepared)

/-- To look at one candidate after another selects the files of the language and changes nothing. -/
theorem perform_selecting {σ : Type} (c : RunContext) (host : Job.Host σ) (l : Language) (s : σ) :
    (c.selecting l).perform host s = (c.select (host.tree s) l, s) := by
  apply Job.perform_keep
  intro file
  rw [keeps, show c.selectionRules.ignored = c.ignored from rfl]
  split
  case isTrue wanted =>
    rw [Job.perform_look, wanted, Bool.true_and]
    split
    case isTrue regular =>
      rw [regular, Bool.true_and]
      rfl
    case isFalse irregular =>
      rw [Bool.not_eq_true] at irregular
      rw [irregular, Bool.false_and]
      rfl
  case isFalse unwanted =>
    rw [Bool.not_eq_true] at unwanted
    rw [unwanted, Bool.false_and, Bool.false_and]
    rfl

/-- Each language is given exactly the eligible candidates, in strictly increasing order, and the
job of a run that selects them comes to the same. No file is given to two languages. As long as the
depth of detection is below the greatest, the run looks at every enabled language with an eligible
candidate that is not deeper than detection goes and leads below the root through real directories
all of which can be listed. -/
theorem select_exactly_eligible {c : RunContext} {t : FileTree} (wellFormed : t.root.WellFormed)
    (sorted : c.candidates.paths.Pairwise (Path.before · ·)) :
    (∀ l, (c.select t l).Pairwise (Path.before · ·) ∧
      (∀ (σ : Type) (host : Job.Host σ) s, host.tree s = t →
        (c.selecting l).perform host s = (c.select t l, s)) ∧
      ∀ p, p ∈ c.select t l ↔ p ∈ c.candidates.paths ∧
        l.profile.Eligible t c.settings.root c.selectionRules p) ∧
    (∀ a b p q, p ∈ c.select t a → q ∈ c.select t b → p.same q = true → a = b) ∧
    ∀ l p, (c.settings.language l).enabled = true → p ∈ c.candidates.paths →
      l.profile.Eligible t c.settings.root c.selectionRules p → p.isAbsolute = false →
      t.RealBelow c.settings.root p → c.settings.detectDepth < maxDepth →
      p.components.length ≤ c.settings.detectDepth + 1 →
      ∃ languages, c.languages t = .ok languages ∧ l ∈ languages ∧ p ∈ c.select t l := by
  refine ⟨?_, ?_, ?_⟩
  · intro l
    refine ⟨Profile.pairwise_select sorted, ?_, fun p => Profile.mem_select_iff⟩
    intro σ host s same
    rw [perform_selecting, same]
  · intro a b p q inA inB same
    have claimedA := (Profile.mem_select_iff.mp inA).2.claimed
    have claimedB := (Profile.mem_select_iff.mp inB).2.claimed
    exact Language.eq_of_claimed same claimedA claimedB
  · intro l p enabled member eligible relative realBelow small within
    obtain ⟨languages, detected, inside⟩ :=
      exists_languages_of_eligible wellFormed enabled eligible relative realBelow small within
    exact ⟨languages, detected, inside, Profile.mem_select_iff.mpr ⟨member, eligible⟩⟩

section Example

/-- A tree with one file two directories below the root. -/
def nestedTree : FileTree where
  root := .dir [("w", .dir [("src", .dir [("a.py", .file [] 0o644)])])]

def nestedContext : RunContext where
  settings := { root := "/w", detectDepth := 1 }
  ignored := []
  candidates := ⟨.fullScan, ["src/a.py"]⟩
  resolver := ⟨"", "/w"⟩

theorem nestedTree_wellFormed : nestedTree.root.WellFormed := by
  have single {name : String} {node : Node} (isName : IsEntryName name)
      (below : node.WellFormed) : (Node.dir [(name, node)]).WellFormed := by
    refine .dir (List.pairwise_singleton _ _) ?_ ?_
    · simpa using isName
    · simpa using below
  exact single (by decide) (single (by decide) (single (by decide) (.file [] 0o644)))

theorem nestedTree_realBelow : nestedTree.RealBelow "/w" "src/a.py" := by
  have shape : Path.components "src/a.py" = [.name "src", .name "a.py"] := by decide
  refine ⟨["w"], _, rfl, ?_, ?_⟩
  · intro front begins
    have above : (Path.components "src/a.py").dropLast = [.name "src"] := by
      rw [shape]
      rfl
    rw [above, List.prefix_cons_iff] at begins
    rcases begins with rfl | ⟨rest, rfl, none_left⟩
    · exact ⟨_, rfl⟩
    · rw [List.prefix_nil.mp none_left]
      exact ⟨_, rfl⟩
  · rw [shape]
    exact Location.prefix_descend (by simp)

theorem nestedContext_eligible :
    Language.python.profile.Eligible nestedTree "/w" nestedContext.selectionRules "src/a.py" where
  claimed := ⟨"a.py", by decide, by decide⟩
  notSkipped := by decide
  notExcluded := by decide
  notIgnored := by simp [nestedContext, selectionRules]
  regular := by decide
  unmarked := by
    apply FileTree.optsOut_eq_false_iff.mp
    decide

theorem exists_languages_of_nested :
    nestedTree.root.WellFormed ∧ nestedContext.candidates.paths.Pairwise (Path.before · ·) ∧
      ∃ languages, nestedContext.languages nestedTree = .ok languages ∧
        Language.python ∈ languages ∧ "src/a.py" ∈ nestedContext.select nestedTree .python := by
  have sorted : nestedContext.candidates.paths.Pairwise (Path.before · ·) :=
    List.pairwise_singleton _ _
  refine ⟨nestedTree_wellFormed, sorted, ?_⟩
  obtain ⟨-, -, shown⟩ := select_exactly_eligible nestedTree_wellFormed sorted
  exact shown .python "src/a.py" (by decide) (by decide) nestedContext_eligible (by decide)
    nestedTree_realBelow (by decide) (by decide)

/-- A marker in the first line. -/
def markedContents : Text.Bytes :=
  Text.encode "# smart-lint-disable\n"

/-- A file with the marker that may not be read, one that may, and one in a directory that cannot be
listed. -/
def lockedEntries : List (String × Node) :=
  [("a.py", .file markedContents 0), ("m.py", .file markedContents 0o644),
    ("src", .dir [("b.go", .file [] 0o644)] false)]

def lockedTree : FileTree where
  root := .dir [("w", .dir lockedEntries)]

def lockedContext (marker : String) : RunContext where
  settings := { root := "/w", disableMarker := marker }
  ignored := []
  candidates := ⟨.fullScan, ["a.py", "m.py", "src/b.go"]⟩
  resolver := ⟨"", "/w"⟩

theorem languages_lockedTree :
    (lockedContext "smart-lint-disable").languages lockedTree = .ok [.python] := by
  have there : lockedTree.resolve "/w" = .ok (.present ["w"] (.dir lockedEntries)) := rfl
  have below : (Node.dir lockedEntries).filesBelow (lockedTree.hasFile "/w") (some 3) [] =
      [["a.py"], ["m.py"]] := by
    simp [lockedEntries, Node.filesBelow, Node.filesAmong]
  have walked : lockedTree.walk "/w" (some 3) = .ok ["a.py", "m.py"] :=
    FileTree.walk_eq_of_sorted there (by decide) below (by decide)
  have depth : (lockedContext "smart-lint-disable").settings.detectDepth = 3 := rfl
  have place : (lockedContext "smart-lint-disable").settings.root = "/w" := rfl
  rw [languages, FileTree.detect, depth, place, walked]
  decide +kernel

/-- A file with the marker in its first line is selected when it may not be read, and every file is
when the marker is empty. A language is not detected by a file whose directory cannot be listed. -/
theorem select_passes_over_unreadable :
    HasMarker markedContents "smart-lint-disable" 5 ∧
      lockedTree.stat? "/w/a.py" = some (.file markedContents 0) ∧
      "a.py" ∈ (lockedContext "smart-lint-disable").select lockedTree .python ∧
      "m.py" ∉ (lockedContext "smart-lint-disable").select lockedTree .python ∧
      ("".toList <:+: (textLines markedContents).headD []) ∧
      "m.py" ∈ (lockedContext "").select lockedTree .python ∧
      "src/b.go" ∈ (lockedContext "smart-lint-disable").select lockedTree .go ∧
      (lockedContext "smart-lint-disable").languages lockedTree = .ok [.python] := by
  refine ⟨?_, by rfl, by decide +kernel, by decide +kernel, List.nil_infix, by decide +kernel,
    by decide +kernel, languages_lockedTree⟩
  exact optsOut_iff.mp (by decide +kernel)

end Example

end RunContext

end LintGate
