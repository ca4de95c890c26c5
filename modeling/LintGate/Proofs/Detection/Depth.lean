import LintGate.Proofs.Detection

/-!
# How deep a walk goes

A walk down to a depth lists the files of an unbounded walk whose paths are short enough, so a
greater depth shows more files and more languages. The greatest depth that can be asked for is an
exception: one step more does not fit into the word in which steps are counted, and the walk breaks
off.
-/

namespace LintGate

/-- The files that lie at most so many directories deep. -/
def withinDepth (depth : Nat) (files : List Path) : List Path :=
  files.filter fun p => p.components.length ≤ depth + 1

theorem withinDepth_sublist {d e : Nat} (deeper : d ≤ e) (files : List Path) :
    (withinDepth d files).Sublist (withinDepth e files) := by
  apply List.monotone_filter_right
  intro p short
  rw [decide_eq_true_eq] at short ⊢
  exact Nat.le_trans short (Nat.succ_le_succ deeper)

namespace Node

/-- The paths of what is found within a depth are the short ones among those of all files. -/
theorem relativePath_filesBelow {linksToFile : Location → Bool} {node : Node}
    (wellFormed : node.WellFormed) (depth : Nat) :
    (node.filesBelow linksToFile (some depth) []).map Location.relativePath =
      withinDepth depth ((node.filesBelow linksToFile none []).map Location.relativePath) := by
  rw [filesBelow_some wellFormed, withinDepth, List.filter_map]
  congr 1
  apply List.filter_congr
  intro l member
  have isName := isName_of_mem_filesBelow wellFormed member (by simp)
  rw [Function.comp_apply, Path.components_relativePath isName, List.length_map]

end Node

namespace FileTree

variable {t : FileTree} {root : Path} {files : List Path}

/-- A tree that can be walked: below the greatest depth the walk is cut, and at the greatest one it
breaks off. -/
structure Walkable (t : FileTree) (root : Path) (files : List Path) : Prop where
  unbounded : t.walk root none = .ok files
  cut : ∀ depth < maxDepth, t.walk root (some depth) = .ok (withinDepth depth files)
  atGreatest : t.walk root (some maxDepth) = .error .overflow

theorem walkable_or_fault (wellFormed : t.root.WellFormed) (root : Path) :
    (∃ files, t.Walkable root files) ∨ ∃ fault, ∀ depth, t.walk root depth = .error fault := by
  rcases exists_dir_or_fault t root with ⟨dir, entries, rootDir⟩ | faulty
  · refine .inl ⟨_, walk_eq wellFormed rootDir (by simp), fun depth small => ?_,
      walk_maxDepth rootDir⟩
    have atMost : ∀ d ∈ some depth, d < maxDepth := by simpa using small
    rw [walk_eq wellFormed rootDir atMost,
      Node.relativePath_filesBelow (wellFormed_of_resolve wellFormed rootDir)]
  · exact .inr faulty

theorem walkable_of_walk {depth : Option Nat} {found : List Path} (wellFormed : t.root.WellFormed)
    (walked : t.walk root depth = .ok found) : ∃ files, t.Walkable root files := by
  rcases walkable_or_fault wellFormed root with walkable | ⟨fault, fails⟩
  · exact walkable
  · rw [fails] at walked
    cases walked

theorem walkable_of_detect {depth : Nat} {found : List Language} (wellFormed : t.root.WellFormed)
    (detected : t.detect root depth = .ok found) : ∃ files, t.Walkable root files := by
  rcases walkable_or_fault wellFormed root with walkable | ⟨fault, fails⟩
  · exact walkable
  · rw [detect, fails] at detected
    cases detected

namespace Walkable

variable (walkable : t.Walkable root files)

include walkable

theorem detect_eq {depth : Nat} (small : depth < maxDepth) :
    t.detect root depth = .ok (TreeIndex.ofPaths (withinDepth depth files)).languages := by
  rw [detect, walkable.cut depth small]
  rfl

theorem detect_maxDepth : t.detect root maxDepth = .error .overflow := by
  rw [detect, walkable.atGreatest]
  rfl

/-- A walk is cut at its depth unless that is the greatest one. -/
theorem walk_eq_cut_iff {depth : Nat} (fits : depth ≤ maxDepth) :
    t.walk root (some depth) = .ok (withinDepth depth files) ↔ depth < maxDepth := by
  rcases Nat.lt_or_eq_of_le fits with small | rfl
  · simp [small, walkable.cut depth small]
  · simp [walkable.atGreatest]

theorem walk_sublist_iff {d e : Nat} {found : List Path} (deeper : d ≤ e) (fits : e ≤ maxDepth)
    (walked : t.walk root (some d) = .ok found) :
    (∃ more, t.walk root (some e) = .ok more ∧ found.Sublist more) ↔ e < maxDepth := by
  rcases Nat.lt_or_eq_of_le fits with small | rfl
  · rw [walkable.cut d (Nat.lt_of_le_of_lt deeper small)] at walked
    cases walked
    simp [small, walkable.cut e small, withinDepth_sublist deeper files]
  · simp [walkable.atGreatest]

theorem detect_sublist_iff {d e : Nat} {found : List Language} (deeper : d ≤ e)
    (fits : e ≤ maxDepth) (detected : t.detect root d = .ok found) :
    (∃ more, t.detect root e = .ok more ∧ found.Sublist more) ↔ e < maxDepth := by
  rcases Nat.lt_or_eq_of_le fits with small | rfl
  · rw [walkable.detect_eq (Nat.lt_of_le_of_lt deeper small)] at detected
    cases detected
    have more := TreeIndex.languages_sublist (withinDepth_sublist deeper files).subset
    simp [small, walkable.detect_eq small, more]
  · simp [walkable.detect_maxDepth]

end Walkable

/-- A walk down to a depth is the unbounded walk cut at that depth, and neither files nor languages
are lost at a greater depth, exactly as long as the depth is below the greatest one or nothing can
be walked at all. At the greatest depth the walk of a tree breaks off, and so does detection. -/
theorem walk_is_cut_iff (wellFormed : t.root.WellFormed) (root : Path) :
    (∀ depth ≤ maxDepth,
      t.walk root (some depth) = (t.walk root none).map (withinDepth depth) ↔
        depth < maxDepth ∨ ∃ fault, t.walk root none = .error fault) ∧
    (∀ d e found, d ≤ e → e ≤ maxDepth → t.walk root (some d) = .ok found →
      ((∃ more, t.walk root (some e) = .ok more ∧ found.Sublist more) ↔ e < maxDepth)) ∧
    (∀ d e found, d ≤ e → e ≤ maxDepth → t.detect root d = .ok found →
      ((∃ more, t.detect root e = .ok more ∧ found.Sublist more) ↔ e < maxDepth)) ∧
    ∀ files, t.walk root none = .ok files →
      t.walk root (some maxDepth) = .error .overflow ∧
        t.detect root maxDepth = .error .overflow := by
  refine ⟨fun depth fits => ?_, fun d e found deeper fits walked => ?_,
    fun d e found deeper fits detected => ?_, fun files walked => ?_⟩
  · rcases walkable_or_fault wellFormed root with ⟨files, walkable⟩ | ⟨fault, fails⟩
    · simpa [walkable.unbounded, Except.map] using walkable.walk_eq_cut_iff fits
    -- Where nothing can be walked, the depth makes no difference.
    · simp [fails, Except.map]
  · obtain ⟨files, walkable⟩ := walkable_of_walk wellFormed walked
    exact walkable.walk_sublist_iff deeper fits walked
  · obtain ⟨files, walkable⟩ := walkable_of_detect wellFormed detected
    exact walkable.detect_sublist_iff deeper fits detected
  · obtain ⟨files, walkable⟩ := walkable_of_walk wellFormed walked
    exact ⟨walkable.atGreatest, walkable.detect_maxDepth⟩

section Example

theorem notesTree_wellFormed : notesTree.root.WellFormed := by
  have files : (Node.dir notesEntries).WellFormed := by
    refine .dir (by decide) (by decide) ?_
    simp only [notesEntries, List.forall_mem_cons, List.not_mem_nil, false_implies, implies_true,
      and_true]
    exact ⟨.file _ _, .file _ _, .file _ _⟩
  refine .dir (List.pairwise_singleton _ _) ?_ ?_
  · simpa using (by decide : IsEntryName "w")
  · simpa using files

theorem walkable_notesTree : notesTree.Walkable "/w" [".py", "Notes.MD", "go.mod"] := by
  have unbounded : notesTree.walk "/w" none = .ok [".py", "Notes.MD", "go.mod"] :=
    walk_notesTree (by simp)
  obtain ⟨files, walkable⟩ := walkable_of_walk notesTree_wellFormed unbounded
  cases walkable.unbounded.symm.trans unbounded
  exact walkable

theorem detect_notesTree : notesTree.detect "/w" 0 = .ok [.go, .markdown] := by
  rw [detect, walk_notesTree (by decide)]
  decide +kernel

/-- At the greatest depth not even the files of the root itself are listed. -/
theorem walk_breaks_off_at_greatest_depth :
    notesTree.walk "/w" (some maxDepth) ≠
      (notesTree.walk "/w" none).map (withinDepth maxDepth) ∧
    notesTree.walk "/w" (some 0) = .ok [".py", "Notes.MD", "go.mod"] ∧
    notesTree.walk "/w" (some maxDepth) = .error .overflow ∧
    notesTree.detect "/w" 0 = .ok [.go, .markdown] ∧
    notesTree.detect "/w" maxDepth = .error .overflow := by
  have walkable := walkable_notesTree
  refine ⟨?_, walk_notesTree (by decide), walkable.atGreatest, detect_notesTree,
    walkable.detect_maxDepth⟩
  rw [walkable.unbounded, walkable.atGreatest]
  decide

theorem walk_is_cut_of_notesTree :
    notesTree.root.WellFormed ∧
      notesTree.walk "/w" (some 0) = (notesTree.walk "/w" none).map (withinDepth 0) ∧
      (∃ more, notesTree.walk "/w" (some 7) = .ok more ∧
        [".py", "Notes.MD", "go.mod"].Sublist more) ∧
      (∃ more, notesTree.detect "/w" (maxDepth - 1) = .ok more ∧
        [Language.go, .markdown].Sublist more) ∧
      (¬ ∃ more, notesTree.detect "/w" maxDepth = .ok more ∧
        [Language.go, .markdown].Sublist more) ∧
      notesTree.walk "/w" (some maxDepth) = .error .overflow := by
  obtain ⟨cut, deeper, languages, breaksOff⟩ := walk_is_cut_iff notesTree_wellFormed "/w"
  have shallow : notesTree.walk "/w" (some 0) = .ok [".py", "Notes.MD", "go.mod"] :=
    walk_notesTree (by decide)
  refine ⟨notesTree_wellFormed, (cut 0 (by decide)).mpr (.inl (by decide)),
    (deeper 0 7 _ (by decide) (by decide) shallow).mpr (by decide),
    (languages 0 _ _ (by decide) (by decide) detect_notesTree).mpr (by decide), ?_,
    (breaksOff _ walkable_notesTree.unbounded).1⟩
  rw [languages 0 _ _ (by decide) (by decide) detect_notesTree]
  decide

end Example

end FileTree

end LintGate
