import LintGate.Proofs.Selection

/-!
# Full scans

A walk passes over the directories that no language looks into while it goes; selection applies
rules against them to whole paths afterwards. Both come to the same files: a full scan lists exactly
those that the rules let pass, so the rules take nothing away from it.
-/

namespace LintGate

namespace FileTree

variable {t : FileTree} {root : Path} {dir dirs : Location} {name : String}
  {entries : List (String × Node)}

/-- A path of names leads through the directories that have these names. -/
theorem realBelow_relativePath_iff (rootDir : t.resolve root = .ok (.present dir (.dir entries)))
    (isName : ∀ other ∈ dirs ++ [name], Path.IsName other) :
    t.RealBelow root (Location.relativePath (dirs ++ [name])) ↔
      ∀ front, front <+: dirs → ∃ more, t.root.get? (dir ++ front) = some (.dir more true) := by
  have spelt := Path.components_relativePath isName
  have above : (dirs ++ [name]).map Path.Component.name = dirs.map .name ++ [.name name] := by simp
  rw [above] at spelt
  constructor
  · rintro ⟨dir', entries', rootDir', real, -⟩
    cases rootDir.symm.trans rootDir'
    rw [RealAbove, spelt, List.dropLast_concat] at real
    intro front begins
    rw [← Location.descend_names]
    exact real _ (begins.map _)
  · intro listed
    refine ⟨dir, entries, rootDir, ?_, ?_⟩
    · intro front begins
      rw [spelt, List.dropLast_concat] at begins
      obtain ⟨higher, shorter, rfl⟩ := List.prefix_map_iff.mp begins
      rw [Location.descend_names]
      exact listed higher shorter
    · rw [spelt, ← above, Location.descend_names]
      exact List.prefix_append _ _

/-- A walk comes to the files below real directories unless it passes over one of these. -/
theorem reaches_iff (wellFormed : t.root.WellFormed)
    (rootDir : t.resolve root = .ok (.present dir (.dir entries))) :
    (Node.dir entries).Reaches (t.hasFile root) none [] (dirs ++ [name]) ↔
      (∀ other ∈ dirs ++ [name], Path.IsName other) ∧
      t.RealBelow root (Location.relativePath (dirs ++ [name])) ∧
      t.isFile (root.join (Location.relativePath (dirs ++ [name]))) = true ∧
      ∀ dir ∈ dirs, dir ∉ skippedDirs := by
  obtain ⟨left, opens⟩ := exists_opensAt rootDir
  have rootForm := wellFormed_of_resolve wellFormed rootDir
  have entry_iff (leaf : Node) : t.root.get? (dir ++ dirs ++ [name]) = some leaf ↔
      (Node.dir entries).get? (dirs ++ [name]) = some leaf := by
    rw [List.append_assoc]
    exact get?_append_of_resolve (by simp) rootDir
  constructor
  · intro reaches
    have isName := reaches.isName rootForm
    obtain ⟨leaf, inside, counts⟩ := reaches.isFile
    have entry := (entry_iff leaf).mpr inside
    have real : t.root.HasDir (dir ++ dirs) :=
      Node.hasDir_of_get?_append (List.cons_ne_nil _ _) entry
    have top : t.root.HasDir dir := real.of_prefix (List.prefix_append _ _)
    refine ⟨isName, (realBelow_relativePath_iff rootDir isName).mpr ?_, ?_, ?_⟩
    · intro front begins
      rw [listed_iff_of_resolve rootDir top]
      exact reaches.listed front (by rwa [List.dropLast_concat])
    · exact (opens.hasFile_iff_countsAsFile wellFormed real (isName name (by simp))).mpr
        ⟨leaf, entry, counts⟩
    · simpa using reaches.entered
  · rintro ⟨isName, realBelow, regular, entered⟩
    have listed := (realBelow_relativePath_iff rootDir isName).mp realBelow
    obtain ⟨more, nearest⟩ := listed dirs (List.prefix_refl _)
    have real : t.root.HasDir (dir ++ dirs) := ⟨more, true, nearest⟩
    have top : t.root.HasDir dir := real.of_prefix (List.prefix_append _ _)
    obtain ⟨leaf, entry, counts⟩ :=
      (opens.hasFile_iff_countsAsFile wellFormed real (isName name (by simp))).mp regular
    refine ⟨by simp, ⟨leaf, (entry_iff leaf).mp entry, counts⟩, ?_, by simpa using entered, by simp⟩
    rw [List.dropLast_concat]
    exact fun front begins => (listed_iff_of_resolve rootDir top front).mp (listed front begins)

/-- The rules against skipped directories say nothing about the name of the file itself. -/
theorem skippedDirRules_relativePath (isName : ∀ other ∈ dirs ++ [name], Path.IsName other) :
    skippedDirRules.excludes (Location.relativePath (dirs ++ [name])) = false ↔
      ∀ dir ∈ dirs, dir ∉ skippedDirs := by
  rw [Bool.eq_false_iff, ne_eq, skippedDirRules_excludes_iff,
    Path.names_relativePath isName, List.dropLast_concat]
  simp

/-- An unbounded walk lists the files below real directories that the rules let pass. -/
theorem mem_walk_iff {files : List Path} {p : Path} (wellFormed : t.root.WellFormed)
    (rootDir : t.resolve root = .ok (.present dir (.dir entries)))
    (walked : t.walk root none = .ok files) : p ∈ files ↔
      ∃ dirs name, p = Location.relativePath (dirs ++ [name]) ∧
        (∀ other ∈ dirs ++ [name], Path.IsName other) ∧ t.RealBelow root p ∧
        t.isFile (root.join p) = true ∧ skippedDirRules.excludes p = false := by
  have rootForm := wellFormed_of_resolve wellFormed rootDir
  rw [walk_eq wellFormed rootDir (by simp)] at walked
  cases walked
  rw [List.mem_map]
  constructor
  · rintro ⟨l, member, rfl⟩
    obtain ⟨_, rfl, reaches⟩ := (Node.mem_filesBelow_iff rootForm).mp member
    rcases List.eq_nil_or_concat l with rfl | ⟨dirs, name, rfl⟩
    · exact absurd rfl reaches.some_name
    rw [List.concat_eq_append] at reaches ⊢
    obtain ⟨isName, realBelow, regular, entered⟩ := (reaches_iff wellFormed rootDir).mp reaches
    exact ⟨dirs, name, rfl, isName, realBelow, regular,
      (skippedDirRules_relativePath isName).mpr entered⟩
  · rintro ⟨dirs, name, rfl, isName, realBelow, regular, passes⟩
    have entered := (skippedDirRules_relativePath isName).mp passes
    have reaches := (reaches_iff wellFormed rootDir).mpr ⟨isName, realBelow, regular, entered⟩
    exact ⟨_, (Node.mem_filesBelow_iff rootForm).mpr ⟨_, rfl, reaches⟩, rfl⟩

/-- A full scan lists in strict order exactly the files, and links to files, that lie below real
directories and that the rules for skipped directories let pass. So these rules take nothing away
from it, and neither the walk nor the rules mind a file that is named like a skipped directory. -/
theorem walk_lists_unexcluded (wellFormed : t.root.WellFormed)
    (rootDir : t.resolve root = .ok (.present dir (.dir entries))) :
    ∃ files, t.walk root none = .ok files ∧ files.Pairwise (Path.before · ·) ∧
      (∀ p, p ∈ files ↔ ∃ dirs name, p = Location.relativePath (dirs ++ [name]) ∧
        (∀ other ∈ dirs ++ [name], Path.IsName other) ∧ t.RealBelow root p ∧
        t.isFile (root.join p) = true ∧ skippedDirRules.excludes p = false) ∧
      files.filter (fun p => !skippedDirRules.excludes p) = files ∧
      (t.snapshot? root = none → t.candidates root = .ok ⟨.fullScan, files⟩) ∧
      ∀ dirs name, (∀ other ∈ dirs ++ [name], Path.IsName other) →
        (∀ dir ∈ dirs, dir ∉ skippedDirs) → name ∈ skippedDirs →
        t.RealBelow root (Location.relativePath (dirs ++ [name])) →
        t.isFile (root.join (Location.relativePath (dirs ++ [name]))) = true →
        Location.relativePath (dirs ++ [name]) ∈ files ∧
          skippedDirRules.excludes (Location.relativePath (dirs ++ [name])) = false := by
  have unbounded : ∀ d ∈ (none : Option Nat), d < maxDepth := by simp
  have walked := walk_eq wellFormed rootDir unbounded
  have members (p : Path) := mem_walk_iff (p := p) wellFormed rootDir walked
  have inOrder := pairwise_walk wellFormed walked
  refine ⟨_, walked, inOrder, members, ?_, ?_, ?_⟩
  · rw [List.filter_eq_self]
    intro p member
    obtain ⟨-, -, -, -, -, -, passes⟩ := (members p).mp member
    rw [passes, Bool.not_false]
  · exact fun no_repository => candidates_eq_of_walk no_repository walked inOrder
  · intro dirs name isName entered _ realBelow regular
    have passes := (skippedDirRules_relativePath isName).mpr entered
    exact ⟨(members _).mpr ⟨dirs, name, rfl, isName, realBelow, regular, passes⟩, passes⟩

section Example

def sourceEntries : List (String × Node) :=
  [("a.py", .file [] 0o644), ("target", .dir [("b.py", .file [] 0o644)])]

def scanEntries : List (String × Node) :=
  [("build", .file [] 0o644), ("dist", .link "src/a.py"), ("l", .link "src"),
    ("src", .dir sourceEntries)]

/-- A file and a link to a file are named like skipped directories, and one such directory is
there. -/
def scanTree : FileTree where
  root := .dir [("w", .dir scanEntries)]

theorem scanTree_wellFormed : scanTree.root.WellFormed := by
  have built : (Node.dir [("b.py", .file [] 0o644)]).WellFormed :=
    .dir (by decide) (by decide) (by simpa using .file _ _)
  have source : (Node.dir sourceEntries).WellFormed :=
    .dir (by decide) (by decide) (by simpa [sourceEntries] using ⟨.file _ _, built⟩)
  have scanned : (Node.dir scanEntries).WellFormed :=
    .dir (by decide) (by decide)
      (by simpa [scanEntries] using ⟨.file _ _, .link _, .link _, source⟩)
  exact .dir (by decide) (by decide) (by simpa using scanned)

theorem walk_lists_unexcluded_of_scanTree :
    scanTree.root.WellFormed ∧ scanTree.resolve "/w" = .ok (.present ["w"] (.dir scanEntries)) ∧
      ∃ files, scanTree.walk "/w" none = .ok files ∧
        scanTree.candidates "/w" = .ok ⟨.fullScan, files⟩ ∧
        "dist" ∈ files ∧ skippedDirRules.excludes "dist" = false ∧ "src/target/b.py" ∉ files := by
  have rootDir : scanTree.resolve "/w" = .ok (.present ["w"] (.dir scanEntries)) := rfl
  obtain ⟨files, walked, -, members, -, scanned, named⟩ :=
    walk_lists_unexcluded scanTree_wellFormed rootDir
  refine ⟨scanTree_wellFormed, rootDir, files, walked, scanned (by decide +kernel), ?_⟩
  have isName : ∀ other ∈ [] ++ ["dist"], Path.IsName other := by decide
  have realBelow : scanTree.RealBelow "/w" (Location.relativePath ([] ++ ["dist"])) :=
    (realBelow_relativePath_iff rootDir isName).mpr fun front begins =>
      ⟨scanEntries, by rw [List.prefix_nil.mp begins]; rfl⟩
  obtain ⟨listed, passes⟩ :=
    named [] "dist" isName (by simp) (by decide) realBelow (by decide +kernel)
  have spelt : Location.relativePath ([] ++ ["dist"]) = "dist" := by decide
  rw [spelt] at listed passes
  refine ⟨listed, passes, fun built => ?_⟩
  obtain ⟨-, -, -, -, -, -, passes'⟩ := (members _).mp built
  have excluded : skippedDirRules.excludes "src/target/b.py" = true :=
    skippedDirRules_excludes_iff.mpr ⟨"target", by decide, by decide⟩
  rw [passes'] at excluded
  cases excluded

end Example

end FileTree

end LintGate
