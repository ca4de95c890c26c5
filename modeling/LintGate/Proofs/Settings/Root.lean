import LintGate.Proofs.FileTree.Change
import LintGate.Proofs.FileTree.Linkless
import LintGate.Settings.Discovery
import Mathlib.Data.List.Infix
import Mathlib.Data.List.TakeWhile

/-!
# The root of a working tree

The search for the root climbs along the text of the start. As long as the text holds no step up,
the directories that it visits are those above the start, and the root is the nearest of them that
is marked. A step up in the text takes the search through a directory that does not hold the start.
-/

namespace LintGate

theorem isAbsolute_absoluteStart {startDir : Option Path} {cwd : Path}
    (absolute : cwd.isAbsolute = true) : (absoluteStart startDir cwd).isAbsolute = true := by
  cases startDir with
  | none => exact absolute
  | some dir =>
      rw [absoluteStart]
      split
      case isTrue itself => exact itself
      case isFalse relative =>
        rw [Bool.not_eq_true] at relative
        rw [Path.isAbsolute_join relative (Path.ne_empty_of_isAbsolute absolute), absolute]

namespace FileTree

/-- The directory holds a settings file or a repository. -/
def Marked (t : FileTree) (dir : Location) : Prop :=
  ∃ name ∈ settingsFiles ++ [".git"], t.exists? (absolutePath (dir ++ [name])) = true

/-- The nearest marked directory of those that hold a directory, itself among them, or the directory
itself when none of them is marked. -/
def IsNearestRoot (t : FileTree) (dir found : Location) : Prop :=
  (found <+: dir ∧ t.Marked found ∧ ∀ above, above <+: dir → t.Marked above → above <+: found) ∨
    found = dir ∧ ∀ above, above <+: dir → ¬ t.Marked above

variable {t : FileTree} {p : Path}

theorem exists?_congr {q : Path} (same : t.resolve p = t.resolve q) :
    t.exists? p = t.exists? q := by
  rw [exists?, exists?, stat?, stat?, stat, stat, same]

theorem isName_of_marker : ∀ name ∈ settingsFiles ++ [".git"], Path.IsName name := by
  decide

theorem isRoot_iff : t.isRoot p = true ↔
    ∃ name ∈ settingsFiles ++ [".git"], t.exists? (p.join name) = true := by
  simp [isRoot, or_comm]

/-- Whether a path is taken for a root depends on the directory to which it leads. -/
theorem Linkless.isRoot_iff_marked (absolute : p.isAbsolute = true)
    (wellFormed : t.root.WellFormed) (linkless : t.Linkless p.components) :
    t.isRoot p = true ↔ t.Marked p.location := by
  have same {name : String} (member : name ∈ settingsFiles ++ [".git"]) :
      t.exists? (p.join name) = t.exists? (absolutePath (p.location ++ [name])) :=
    exists?_congr (linkless.resolve_join absolute wellFormed (isName_of_marker name member))
  rw [isRoot_iff]
  constructor
  · intro marked
    obtain ⟨name, member, there⟩ := marked
    rw [same member] at there
    exact ⟨name, member, there⟩
  · intro marked
    obtain ⟨name, member, there⟩ := marked
    rw [← same member] at there
    exact ⟨name, member, there⟩

/-! ## What the search finds -/

theorem findRoot_eq (absolute : p.isAbsolute = true) :
    t.findRoot p = (p.ancestors.find? t.isRoot).getD p := by
  have nonempty : ∀ q ∈ p.ancestors, (!q.isEmpty) = true := by
    intro q member
    have further := Path.isAbsolute_of_mem_ancestors absolute member
    simpa using Path.ne_empty_of_isAbsolute further
  obtain ⟨above, shape⟩ := Path.exists_ancestors_eq_cons p
  rw [shape, List.forall_mem_cons] at nonempty
  rw [findRoot, shape, List.drop_one, List.tail_cons,
    List.takeWhile_eq_self_iff.mpr nonempty.2]

/-- The search for a root finds the longest beginning of the start that leads to a marked
directory. -/
theorem findsLongest_ancestors (absolute : p.isAbsolute = true) (wellFormed : t.root.WellFormed)
    (linkless : t.Linkless p.components) :
    Path.FindsLongest (fun cs => t.Marked (Location.descend [] cs)) p.components
      (p.ancestors.find? t.isRoot) := by
  apply Path.find?_ancestors absolute
  intro q further begins
  exact (linkless.of_prefix begins).isRoot_iff_marked further wellFormed

theorem findRoot_begins (absolute : p.isAbsolute = true) (wellFormed : t.root.WellFormed)
    (linkless : t.Linkless p.components) :
    (t.findRoot p).isAbsolute = true ∧ (t.findRoot p).components <+: p.components := by
  have finds := findsLongest_ancestors absolute wellFormed linkless
  rw [findRoot_eq absolute]
  cases search : p.ancestors.find? t.isRoot with
  | none => exact ⟨absolute, List.prefix_refl _⟩
  | some found =>
      rw [search] at finds
      exact ⟨finds.1, finds.2.begins⟩

/-- The search visits every directory that holds the start. -/
theorem exists_front_of_prefix (absolute : p.isAbsolute = true) {above : Location}
    (holds : above <+: p.location) :
    ∃ front, front ≠ [] ∧ front <+: p.components ∧ Location.descend [] front = above := by
  obtain ⟨front, begins, same⟩ := Location.exists_descend_eq List.nil_prefix holds
  by_cases empty : front = []
  · subst empty
    refine ⟨[.root], List.cons_ne_nil _ _, ?_, same⟩
    rw [Path.components_of_segments absolute]
    simp
  · exact ⟨front, empty, begins, same⟩

/-! ## When it is the nearest -/

/-- Each marked directory that the search visits and that does not hold the start is followed by a
marked one that holds it. -/
def RejoinsAncestry (t : FileTree) (p : Path) : Prop :=
  ∀ front, front <+: p.components → t.Marked (Location.descend [] front) →
    ¬ Location.descend [] front <+: p.location →
    ∃ longer, front <+: longer ∧ longer <+: p.components ∧
      t.Marked (Location.descend [] longer) ∧ Location.descend [] longer <+: p.location

section Longest

variable {found : Path} (further : found.isAbsolute = true)
  (longest : Path.IsLongest (fun cs => t.Marked (Location.descend [] cs)) p.components
    found.components)

include further longest

/-- What lies between the directory that was found and the start is visited first. -/
theorem prefix_location_of_marked (holds : found.location <+: p.location) {above : Location}
    (holdsAbove : above <+: p.location) (marked : t.Marked above) : above <+: found.location := by
  rcases List.prefix_or_prefix_of_prefix holdsAbove holds with higher | lower
  · exact higher
  -- Between the two the descent from what was found would come past a longer good beginning.
  · obtain ⟨rest, split⟩ := longest.begins
    have between : above <+: Location.descend found.location rest := by
      rw [Path.location, ← Location.descend_append, split]
      exact holdsAbove
    obtain ⟨front, begins, same⟩ := Location.exists_descend_eq lower between
    have visited : found.components ++ front <+: p.components := by
      rw [← split]
      exact (List.prefix_append_right_inj _).mpr begins
    have leads : Location.descend [] (found.components ++ front) = above := by
      rw [Location.descend_append]
      exact same
    have nonempty : found.components ++ front ≠ [] := by
      simp [Path.components_of_segments further]
    have back := (longest.covers _ nonempty visited (leads ▸ marked)).length_le
    rw [List.length_append] at back
    have arrived : front = [] := List.length_eq_zero_iff.mp (by omega)
    rw [← leads, arrived, List.append_nil]
    exact List.prefix_refl _

theorem location_prefix_of_rejoins (rejoins : t.RejoinsAncestry p) :
    found.location <+: p.location := by
  by_contra astray
  obtain ⟨longer, extends_found, begins, marked, holds⟩ :=
    rejoins found.components longest.begins longest.isGood astray
  have nonempty : longer ≠ [] := by
    rintro rfl
    rw [Path.components_of_segments further] at extends_found
    exact absurd extends_found (by simp)
  have back := longest.covers longer nonempty begins marked
  rw [back.eq_of_length_le extends_found.length_le] at holds
  exact astray holds

end Longest

theorem isNearestRoot_findRoot_iff (absolute : p.isAbsolute = true)
    (wellFormed : t.root.WellFormed) (linkless : t.Linkless p.components) :
    t.IsNearestRoot p.location (t.findRoot p).location ↔ t.RejoinsAncestry p := by
  have finds := findsLongest_ancestors absolute wellFormed linkless
  -- The empty beginning leads to the root directory, which holds everything.
  have some_front {front : List Path.Component}
      (astray : ¬ Location.descend [] front <+: p.location) : front ≠ [] := by
    rintro rfl
    exact astray List.nil_prefix
  rw [findRoot_eq absolute]
  cases search : p.ancestors.find? t.isRoot with
  | none =>
      rw [search] at finds
      constructor
      · intro _ front begins marked astray
        exact absurd marked (finds front (some_front astray) begins)
      · intro _
        refine .inr ⟨rfl, ?_⟩
        intro above holds marked
        obtain ⟨front, nonempty, begins, rfl⟩ := exists_front_of_prefix absolute holds
        exact finds front nonempty begins marked
  | some found =>
      rw [search] at finds
      obtain ⟨further, longest⟩ := finds
      have marked : t.Marked found.location := longest.isGood
      rw [Option.getD_some]
      constructor
      · intro nearest front begins markedFront astray
        rcases nearest with ⟨holds, -, -⟩ | ⟨same, unmarked⟩
        · have covered := longest.covers front (some_front astray) begins markedFront
          exact ⟨found.components, covered, longest.begins, marked, holds⟩
        · rw [same] at marked
          exact absurd marked (unmarked _ (List.prefix_refl _))
      · intro rejoins
        have holds := location_prefix_of_rejoins further longest rejoins
        refine .inl ⟨holds, marked, ?_⟩
        intro above
        exact prefix_location_of_marked further longest holds

theorem rejoinsAncestry_of_no_up (absolute : p.isAbsolute = true) (no_up : .up ∉ p.components) :
    t.RejoinsAncestry p := by
  intro front begins _ astray
  obtain ⟨rest, split⟩ := begins
  refine absurd ?_ astray
  cases front with
  | nil => exact List.nil_prefix
  | cons first front =>
      rw [Path.location, ← split, Location.descend_append]
      apply Location.prefix_descend
      intro c member
      have inside : c ∈ Path.pieceComponents p.toList := by
        have tails := congrArg List.tail (split.trans (Path.components_of_isAbsolute absolute))
        rw [List.cons_append, List.tail_cons, List.tail_cons] at tails
        rw [← tails]
        exact List.mem_append_right _ member
      constructor
      · rintro rfl
        exact Path.root_not_mem_pieceComponents inside
      · rintro rfl
        exact no_up (split ▸ List.mem_append_right _ member)

/-- The root of a start whose path leads through no link is the nearest marked directory that holds
the start, or the start when there is none, exactly when the search comes back from each marked
directory into which a step up has led it. Without a step up in the path this is always so. When the
start is a directory, its path and that of the root denote what their components lead to. -/
theorem findRoot_nearest_iff (wellFormed : t.root.WellFormed) {startDir : Option Path} {cwd : Path}
    (absolute : cwd.isAbsolute = true)
    (linkless : t.Linkless (absoluteStart startDir cwd).components) :
    ∃ start found : Location, start = (absoluteStart startDir cwd).location ∧
      found = (t.findRoot (absoluteStart startDir cwd)).location ∧
      (t.IsNearestRoot start found ↔ t.RejoinsAncestry (absoluteStart startDir cwd)) ∧
      (.up ∉ (absoluteStart startDir cwd).components → t.IsNearestRoot start found) ∧
      (t.isDir (absoluteStart startDir cwd) = true →
        t.canonical? (absoluteStart startDir cwd) = some (absolutePath start) ∧
        t.canonical? (t.findRoot (absoluteStart startDir cwd)) = some (absolutePath found)) := by
  have further : (absoluteStart startDir cwd).isAbsolute = true := isAbsolute_absoluteStart absolute
  have nearest := isNearestRoot_findRoot_iff further wellFormed linkless
  refine ⟨_, _, rfl, rfl, nearest, ?_, ?_⟩
  · intro no_up
    exact nearest.mpr (rejoinsAncestry_of_no_up further no_up)
  · intro isDir
    obtain ⟨absolute_root, begins⟩ := findRoot_begins further wellFormed linkless
    have real := hasDir_of_isDir further linkless.noLink isDir (List.prefix_refl _)
    have real_root := hasDir_of_isDir further linkless.noLink isDir begins
    constructor
    · exact linkless.canonical?_eq further wellFormed real
    · exact (linkless.of_prefix begins).canonical?_eq absolute_root wellFormed real_root

section Example

/-- Two directories side by side, one of which holds a repository. -/
def siblingFolder : Node :=
  .dir [("a", .dir [(".git", .empty)]), ("b", .empty)]

def siblingTree : FileTree where
  root := .dir [("w", siblingFolder)]

theorem siblingTree_wellFormed : siblingTree.root.WellFormed := by
  have empty : Node.empty.WellFormed := .dir .nil (by simp) (by simp)
  have repository : (Node.dir [(".git", .empty)]).WellFormed :=
    .dir (List.pairwise_singleton _ _) (by decide) (by simpa using empty)
  have folder : siblingFolder.WellFormed := by
    refine .dir ?_ ?_ ?_
    · simp only [List.map_cons, List.map_nil, List.pairwise_cons, List.mem_singleton, forall_eq]
      exact ⟨by decide, by simp⟩
    · decide
    · rw [List.forall_mem_cons, List.forall_mem_singleton]
      exact ⟨repository, empty⟩
  exact .dir (List.pairwise_singleton _ _) (by decide) (by simpa using folder)

theorem siblingTree_linkless {p : Path} (absolute : p.isAbsolute = true)
    (isDir : siblingTree.isDir p = true) : siblingTree.Linkless p.components := by
  apply Linkless.of_isDir absolute _ isDir
  intro front target _
  have plain_empty : Node.empty.Plain fun _ => false := Node.plain_dir (by simp) (by simp)
  have plain_repository : (Node.dir [(".git", .empty)]).Plain fun _ => false :=
    Node.plain_dir (by simpa using plain_empty) (by simp)
  have plain_folder : siblingFolder.Plain fun _ => false := by
    apply Node.plain_dir
    · rw [List.forall_mem_cons, List.forall_mem_singleton]
      exact ⟨plain_repository, plain_empty⟩
    · simp
  have plain : siblingTree.root.Plain fun _ => false :=
    Node.plain_dir (by simpa using plain_folder) (by simp)
  exact plain.linkless _ target

/-- From one of the two directories, the other one as the start leads to the wrong root: nothing
above the start is marked, and the search ends in the directory that it came through. -/
theorem findRoot_leaves_ancestry :
    siblingTree.root.WellFormed ∧ Path.isAbsolute "/w/a" = true ∧
      siblingTree.Linkless (absoluteStart (some "../b") "/w/a").components ∧
      siblingTree.canonical? (absoluteStart (some "../b") "/w/a") = some "/w/b" ∧
      siblingTree.findRoot (absoluteStart (some "../b") "/w/a") = "/w/a" ∧
      ¬ siblingTree.IsNearestRoot (absoluteStart (some "../b") "/w/a").location
        (siblingTree.findRoot (absoluteStart (some "../b") "/w/a")).location := by
  have root : siblingTree.findRoot (absoluteStart (some "../b") "/w/a") = "/w/a" := by
    decide +kernel
  refine ⟨siblingTree_wellFormed, by decide, siblingTree_linkless (by decide) (by decide +kernel),
    by decide +kernel, root, ?_⟩
  rw [root]
  intro nearest
  rcases nearest with ⟨holds, -⟩ | ⟨same, -⟩
  · exact absurd holds (by decide)
  · exact absurd same (by decide)

theorem findRoot_nearest_of_marked_start :
    siblingTree.root.WellFormed ∧ Path.isAbsolute "/w/b" = true ∧
      siblingTree.Linkless (absoluteStart (some "../a") "/w/b").components ∧
      siblingTree.RejoinsAncestry (absoluteStart (some "../a") "/w/b") ∧
      ∃ start found : Location, start = ["w", "a"] ∧
        found = (siblingTree.findRoot (absoluteStart (some "../a") "/w/b")).location ∧
        siblingTree.IsNearestRoot start found ∧
        siblingTree.canonical? (absoluteStart (some "../a") "/w/b") = some (absolutePath start) ∧
        siblingTree.canonical? (siblingTree.findRoot (absoluteStart (some "../a") "/w/b")) =
          some (absolutePath found) := by
  have absolute : Path.isAbsolute "/w/b" = true := by decide
  have linkless : siblingTree.Linkless (absoluteStart (some "../a") "/w/b").components :=
    siblingTree_linkless (by decide) (by decide +kernel)
  have unmarked : ¬ siblingTree.Marked ["w", "b"] := by
    have checked : ∀ name ∈ settingsFiles ++ [".git"],
        siblingTree.exists? (absolutePath (["w", "b"] ++ [name])) = false := by decide +kernel
    intro marked
    obtain ⟨name, member, there⟩ := marked
    exact Bool.false_ne_true ((checked name member).symm.trans there)
  have rejoins : siblingTree.RejoinsAncestry (absoluteStart (some "../a") "/w/b") := by
    have places : ∀ front ∈ (absoluteStart (some "../a") "/w/b").components.inits,
        Location.descend [] front <+: (absoluteStart (some "../a") "/w/b").location ∨
          Location.descend [] front = ["w", "b"] := by decide
    intro front begins marked astray
    rcases places front ((List.mem_inits _ _).mpr begins) with holds | beside
    · exact absurd holds astray
    · exact absurd (beside ▸ marked) unmarked
  obtain ⟨start, found, starts, finds, nearest, -, denote⟩ :=
    findRoot_nearest_iff siblingTree_wellFormed absolute linkless
  refine ⟨siblingTree_wellFormed, absolute, linkless, rejoins, start, found, ?_, finds,
    nearest.mpr rejoins, denote (by decide +kernel)⟩
  rw [starts]
  decide

end Example

end FileTree

end LintGate
