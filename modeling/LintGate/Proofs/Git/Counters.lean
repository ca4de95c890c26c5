import LintGate.Proofs.Git.Snapshot
import Mathlib.Data.List.Perm.Subperm

/-!
# Counters of a snapshot

A snapshot counts those of its changes that are staged, unstaged and untracked, so no counter
exceeds the number of changes that it keeps. A change that is nothing but a conflict is kept and not
counted. Every path is accounted for exactly when no path is kept for conflicts alone.
-/

namespace LintGate

open Git

namespace Git

/-- What is said of a path is counted or is a deletion, conflicts apart. -/
theorem ChangeFlag.eq_conflicted_iff (f : ChangeFlag) : f = conflicted ↔
    (f.isStaged = false ∧ f.isUnstaged = false ∧ f.isUntracked = false) ∧ f.isDeletion = false := by
  cases f <;> decide

namespace Change

/-- Whether some counter of a snapshot counts a change. -/
def isCounted (c : Change) : Bool :=
  c.isStaged || c.isUnstaged || c.isUntracked

/-- Whether nothing is said of a path but that it could not be merged. -/
def isConflictOnly (c : Change) : Bool :=
  c.flags.all (· = .conflicted)

theorem isCounted_eq_false_iff {c : Change} : c.isCounted = false ↔
    ∀ f ∈ c.flags, f.isStaged = false ∧ f.isUnstaged = false ∧ f.isUntracked = false := by
  simp only [isCounted, isStaged, isUnstaged, isUntracked, Bool.or_eq_false_iff,
    List.any_eq_false, Bool.not_eq_true]
  constructor
  · rintro ⟨⟨staged, unstaged⟩, untracked⟩ f member
    exact ⟨staged f member, unstaged f member, untracked f member⟩
  · intro none
    exact ⟨⟨fun f member => (none f member).1, fun f member => (none f member).2.1⟩,
      fun f member => (none f member).2.2⟩

/-- Of the changes that are more than deletions, those that are conflicts alone are not counted. -/
theorem isConflictOnly_eq_not_isCounted {c : Change} (remains : c.isDeletionOnly = false) :
    c.isConflictOnly = !c.isCounted := by
  rw [Bool.eq_iff_iff, Bool.not_eq_true', isCounted_eq_false_iff]
  simp only [isConflictOnly, List.all_eq_true, decide_eq_true_eq]
  constructor
  · intro conflicts f member
    exact ((ChangeFlag.eq_conflicted_iff f).mp (conflicts f member)).1
  · intro uncounted f member
    have no_deletion : c.flags.any ChangeFlag.isDeletion = false := by
      have counted : c.isCounted = false := isCounted_eq_false_iff.mpr uncounted
      rw [isDeletionOnly, ← isCounted, counted] at remains
      simpa using remains
    rw [List.any_eq_false] at no_deletion
    exact (ChangeFlag.eq_conflicted_iff f).mpr
      ⟨uncounted f member, Bool.eq_false_iff.mpr (no_deletion f member)⟩

/-- A change that several counters count is counted by each of them. -/
theorem countP_isCounted_le (changes : List Change) : changes.countP isCounted ≤
    changes.countP isStaged + changes.countP isUnstaged + changes.countP isUntracked := by
  induction changes with
  | nil => exact Nat.le_refl 0
  | cons c changes ih =>
      have one (a b d : Bool) : (if a || b || d then 1 else 0) ≤
          (if a then 1 else 0) + (if b then 1 else 0) + if d then 1 else 0 := by
        cases a <;> cases b <;> cases d <;> decide
      have here := one c.isStaged c.isUnstaged c.isUntracked
      rw [← isCounted] at here
      simp only [List.countP_cons]
      omega

end Change

end Git

namespace Snapshot

variable {isFile : Location → Bool} {top : Location} {changes : List Change}

/-- The changes that a snapshot is made of. -/
def keptAmong (isFile : Location → Bool) (top : Location) (changes : List Change) : List Change :=
  changes.filter (keeps isFile top)

theorem mem_keptAmong_iff {c : Change} : c ∈ keptAmong isFile top changes ↔
    c ∈ changes ∧
      ∃ l, c.place = top ++ l ∧ isFile (top ++ l) = true ∧ c.isDeletionOnly = false := by
  rw [keptAmong, List.mem_filter, keeps_iff]

theorem state_add (s : Snapshot) (c : Change) : (s.add isFile top c).state =
    if keeps isFile top c then
      ⟨s.state.staged + c.isStaged.toNat, s.state.unstaged + c.isUnstaged.toNat,
        s.state.untracked + c.isUntracked.toNat⟩
    else s.state := by
  rw [add, ← keeps]
  split
  · rfl
  · rfl

theorem state_foldl_add (s : Snapshot) : (changes.foldl (add isFile top) s).state =
    ⟨s.state.staged + (keptAmong isFile top changes).countP Change.isStaged,
      s.state.unstaged + (keptAmong isFile top changes).countP Change.isUnstaged,
      s.state.untracked + (keptAmong isFile top changes).countP Change.isUntracked⟩ := by
  induction changes generalizing s with
  | nil => rfl
  | cons c changes ih =>
      rw [List.foldl_cons, ih, state_add]
      cases kept : keeps isFile top c with
      | false =>
          rw [if_neg Bool.false_ne_true, keptAmong, keptAmong,
            List.filter_cons_of_neg (by simp [kept])]
      | true =>
          have one (b : Bool) : b.toNat = if b then 1 else 0 := by cases b <;> rfl
          rw [if_pos rfl, keptAmong, keptAmong, List.filter_cons_of_pos kept]
          simp only [List.countP_cons, one, Nat.add_comm, Nat.add_left_comm]

/-- The counters count changes that are kept. -/
theorem state_ofChanges (isFile : Location → Bool) (top : Location) (changes : List Change) :
    (ofChanges isFile top changes).state =
      ⟨(keptAmong isFile top changes).countP Change.isStaged,
        (keptAmong isFile top changes).countP Change.isUnstaged,
        (keptAmong isFile top changes).countP Change.isUntracked⟩ := by
  rw [ofChanges, state_foldl_add]
  simp only [Nat.zero_add]

theorem length_paths_le {cs : List Change}
    (covered : ∀ p ∈ (ofChanges isFile top changes).paths, ∃ c ∈ cs, pathBelow top c = p) :
    (ofChanges isFile top changes).paths.length ≤ cs.length := by
  have distinct : (ofChanges isFile top changes).paths.Nodup := by
    apply (pairwise_paths isFile top changes).imp
    rintro p _ earlier rfl
    rw [Path.before_irrefl] at earlier
    cases earlier
  have among : (ofChanges isFile top changes).paths ⊆ cs.map (pathBelow top) :=
    fun p member => List.mem_map.mpr (covered p member)
  rw [← List.length_map (pathBelow top)]
  exact (distinct.subperm among).length_le

/-- Every path of a snapshot is that of a change that it has counted. -/
def AccountsForPaths (isFile : Location → Bool) (top : Location) (changes : List Change) : Prop :=
  ∀ p ∈ (ofChanges isFile top changes).paths,
    ∃ c ∈ keptAmong isFile top changes, pathBelow top c = p ∧ c.isCounted = true

theorem AccountsForPaths.length_paths_le (accounts : AccountsForPaths isFile top changes) :
    (ofChanges isFile top changes).paths.length ≤
      (ofChanges isFile top changes).state.staged + (ofChanges isFile top changes).state.unstaged
        + (ofChanges isFile top changes).state.untracked := by
  rw [state_ofChanges]
  refine Nat.le_trans ?_ (Change.countP_isCounted_le _)
  rw [List.countP_eq_length_filter]
  apply Snapshot.length_paths_le
  intro p member
  obtain ⟨c, kept, below, counted⟩ := accounts p member
  exact ⟨c, List.mem_filter.mpr ⟨kept, counted⟩, below⟩

section Named

variable (named : ∀ c ∈ changes, ∀ name ∈ c.place, Path.IsName name)

include named

theorem mem_paths_iff_exists_kept {p : Path} : p ∈ (ofChanges isFile top changes).paths ↔
    ∃ c ∈ keptAmong isFile top changes, pathBelow top c = p := by
  rw [mem_paths_iff named]
  constructor
  · rintro ⟨l, rfl, there, c, inside, place, remains⟩
    refine ⟨c, mem_keptAmong_iff.mpr ⟨inside, l, place, there, remains⟩, ?_⟩
    rw [pathBelow, place, List.drop_left]
  · rintro ⟨c, kept, rfl⟩
    obtain ⟨inside, l, place, there, remains⟩ := mem_keptAmong_iff.mp kept
    refine ⟨l, ?_, there, c, inside, place, remains⟩
    rw [pathBelow, place, List.drop_left]

/-- Changes that are kept for one path are changes of one place. -/
theorem place_eq_of_pathBelow_eq {c d : Change} (kept : c ∈ keptAmong isFile top changes)
    (other : d ∈ keptAmong isFile top changes) (same : pathBelow top c = pathBelow top d) :
    c.place = d.place := by
  obtain ⟨inside, l, place, -⟩ := mem_keptAmong_iff.mp kept
  obtain ⟨inside', l', place', -⟩ := mem_keptAmong_iff.mp other
  have isName : ∀ name ∈ l, Path.IsName name := fun name member =>
    named c inside name (place ▸ List.mem_append_right top member)
  have isName' : ∀ name ∈ l', Path.IsName name := fun name member =>
    named d inside' name (place' ▸ List.mem_append_right top member)
  have names := congrArg Path.names same
  rw [pathBelow, pathBelow, place, place', List.drop_left, List.drop_left,
    Path.names_relativePath isName, Path.names_relativePath isName'] at names
  rw [place, place', names]

theorem accountsForPaths_iff : AccountsForPaths isFile top changes ↔
    ∀ c ∈ keptAmong isFile top changes, ∃ other ∈ keptAmong isFile top changes,
      other.place = c.place ∧ other.isConflictOnly = false := by
  have counted_iff {c : Change} (kept : c ∈ keptAmong isFile top changes) :
      c.isConflictOnly = false ↔ c.isCounted = true := by
    obtain ⟨-, -, -, -, remains⟩ := mem_keptAmong_iff.mp kept
    rw [Change.isConflictOnly_eq_not_isCounted remains, Bool.not_eq_false']
  constructor
  · intro accounts c kept
    obtain ⟨other, kept', same, counted⟩ :=
      accounts (pathBelow top c) ((mem_paths_iff_exists_kept named).mpr ⟨c, kept, rfl⟩)
    exact ⟨other, kept', place_eq_of_pathBelow_eq named kept' kept same,
      (counted_iff kept').mpr counted⟩
  · intro merged p member
    obtain ⟨c, kept, rfl⟩ := (mem_paths_iff_exists_kept named).mp member
    obtain ⟨other, kept', place, more⟩ := merged c kept
    refine ⟨other, kept', ?_, (counted_iff kept').mp more⟩
    rw [pathBelow, pathBelow, place]

theorem length_paths_le_add_conflicts : (ofChanges isFile top changes).paths.length ≤
    (ofChanges isFile top changes).state.staged + (ofChanges isFile top changes).state.unstaged
      + (ofChanges isFile top changes).state.untracked
      + (keptAmong isFile top changes).countP Change.isConflictOnly := by
  have conflicts : (keptAmong isFile top changes).countP Change.isConflictOnly =
      (keptAmong isFile top changes).countP fun c => !c.isCounted := by
    apply List.countP_congr
    intro c kept
    obtain ⟨-, -, -, -, remains⟩ := mem_keptAmong_iff.mp kept
    rw [Change.isConflictOnly_eq_not_isCounted remains]
  calc
    _ ≤ (keptAmong isFile top changes).length :=
      length_paths_le fun p member => (mem_paths_iff_exists_kept named).mp member
    _ = (keptAmong isFile top changes).countP Change.isCounted
        + (keptAmong isFile top changes).countP fun c => !c.isCounted := by
      simpa using List.length_eq_countP_add_countP Change.isCounted
    _ ≤ _ := by
      rw [state_ofChanges, conflicts]
      exact Nat.add_le_add_right (Change.countP_isCounted_le _) _

end Named

end Snapshot

namespace FileTree

/-- The changes that the snapshot at a place of a working directory keeps. -/
def keptAmong (t : FileTree) (workdir : Location) (changes : List Change) (top : Location) :
    List Change :=
  Snapshot.keptAmong (fun place => t.denotesFile (workdir ++ place)) top changes

/-- The counters of a snapshot count the changes that it keeps, and account for all its paths
exactly when no path is kept for conflicts alone. -/
theorem snapshot_accounts_for_paths_iff (t : FileTree) (workdir : Location)
    {changes : List Change} (named : ∀ c ∈ changes, ∀ name ∈ c.place, Path.IsName name) :
    (∀ root l node r, t.resolve root = .ok (.present l node) →
      Repository.discover? t root = some r → r.workdir = workdir → r.changes? t = some changes →
        ∃ top, l = workdir ++ top ∧
          t.snapshot? root = some (t.snapshotAmong workdir changes top)) ∧
    ∀ top,
      let s := t.snapshotAmong workdir changes top
      let kept := t.keptAmong workdir changes top
      let accounts := ∀ p ∈ s.paths, ∃ c ∈ kept, Snapshot.pathBelow top c = p ∧
        (c.isStaged || c.isUnstaged || c.isUntracked) = true
      (s.state = ⟨kept.countP Change.isStaged, kept.countP Change.isUnstaged,
          kept.countP Change.isUntracked⟩ ∧
        s.state.staged ≤ kept.length ∧ s.state.unstaged ≤ kept.length ∧
        s.state.untracked ≤ kept.length) ∧
      (accounts ↔ ∀ c ∈ kept, ∃ other ∈ kept, other.place = c.place ∧
        ∃ f ∈ other.flags, f ≠ .conflicted) ∧
      (accounts → s.paths.length ≤ s.state.staged + s.state.unstaged + s.state.untracked) ∧
      s.paths.length ≤ s.state.staged + s.state.unstaged + s.state.untracked
        + kept.countP fun c => c.flags.all (· = .conflicted) := by
  refine ⟨?_, ?_⟩
  · rintro root l node r there found rfl changed
    exact snapshot?_eq_snapshotAmong there found changed
  · intro top s kept accounts
    have counts : s.state = ⟨kept.countP Change.isStaged, kept.countP Change.isUnstaged,
        kept.countP Change.isUntracked⟩ := Snapshot.state_ofChanges _ _ _
    have merged_iff (c : Change) :
        c.isConflictOnly = false ↔ ∃ f ∈ c.flags, f ≠ .conflicted := by
      simp [Change.isConflictOnly]
    refine ⟨⟨counts, ?_⟩, ?_, Snapshot.AccountsForPaths.length_paths_le,
      Snapshot.length_paths_le_add_conflicts named⟩
    · rw [counts]
      exact ⟨List.countP_le_length, List.countP_le_length, List.countP_le_length⟩
    · simp only [← merged_iff]
      exact Snapshot.accountsForPaths_iff named

/-- At one of two services a file has a conflict, and the index alone has lost another. -/
def mergedServiceChanges : List Change :=
  ⟨["svc", "kept.rs"], [.conflicted]⟩ :: serviceChanges

theorem snapshot_accounts_for_paths_of_services :
    (∀ c ∈ mergedServiceChanges, ∀ name ∈ c.place, Path.IsName name) ∧
      (let s := twoServices.snapshotAmong ["work"] mergedServiceChanges ["svc"]
      s.state = ⟨1, 0, 1⟩ ∧ s.paths.length ≤ 1 + 0 + 1 + 1 ∧
        ¬ ∀ p ∈ s.paths, ∃ c ∈ twoServices.keptAmong ["work"] mergedServiceChanges ["svc"],
          Snapshot.pathBelow ["svc"] c = p ∧
            (c.isStaged || c.isUnstaged || c.isUntracked) = true) ∧
      (let s := twoServices.snapshotAmong ["work"] mergedServiceChanges ["svc2"]
      s.state = ⟨0, 1, 0⟩ ∧ s.paths.length ≤ 0 + 1 + 0) := by
  have named : ∀ c ∈ mergedServiceChanges, ∀ name ∈ c.place, Path.IsName name := by decide
  obtain ⟨-, told⟩ := snapshot_accounts_for_paths_iff twoServices ["work"] named
  obtain ⟨⟨counts, -⟩, accounts_iff, -, atMost⟩ := told ["svc"]
  obtain ⟨⟨counts', -⟩, accounts_iff', atMost', -⟩ := told ["svc2"]
  have state : (twoServices.snapshotAmong ["work"] mergedServiceChanges ["svc"]).state =
      ⟨1, 0, 1⟩ := counts.trans (by decide +kernel)
  have state' : (twoServices.snapshotAmong ["work"] mergedServiceChanges ["svc2"]).state =
      ⟨0, 1, 0⟩ := counts'.trans (by decide +kernel)
  have conflicts : (twoServices.keptAmong ["work"] mergedServiceChanges ["svc"]).countP
      (fun c => c.flags.all (· = .conflicted)) = 1 := by decide +kernel
  refine ⟨named, ⟨state, ?_, ?_⟩, state', ?_⟩
  · rwa [state, conflicts] at atMost
  · rw [accounts_iff]
    decide +kernel
  · rw [state'] at atMost'
    exact atMost' (accounts_iff'.mpr (by decide +kernel))

/-! ## A merge that could not be finished -/

/-- The two sides of a file. -/
def unmergedIndex : Index :=
  let side (contents : String) (stage : Nat) : Record :=
    ⟨["a.py"], ⟨.plain, digestOf (Text.encode contents)⟩, stage⟩
  ⟨[side "x = 1\n" 2, side "x = 2\n" 3]⟩

def unmergedFolder : List (String × Node) :=
  [(".git", .dir [("HEAD", .file (Text.encode Repository.headText) 0o644), ("objects", .dir []),
      ("refs", .dir []), ("index", .file unmergedIndex.bytes 0o644)]),
    ("a.py", .file (Text.encode "x = 1 or 2?\n") 0o644)]

def unmergedTree : FileTree :=
  ⟨.dir [("work", .dir unmergedFolder)], []⟩

def unmergedRepository : Repository :=
  ⟨["work", ".git"], ["work"]⟩

theorem changes?_unmergedTree :
    unmergedRepository.changes? unmergedTree = some [⟨["a.py"], [.conflicted]⟩] := by
  have head : unmergedRepository.head? unmergedTree = some {} := by decide +kernel
  have index : unmergedRepository.index? unmergedTree = some unmergedIndex := by decide +kernel
  have folder :
      unmergedTree.root.get? unmergedRepository.workdir = some (.dir unmergedFolder) := rfl
  have tracked : unmergedIndex.places = [["a.py"], ["a.py"]] := rfl
  have untracked : unmergedRepository.untracked unmergedTree unmergedIndex = [] := by
    rw [Repository.untracked, folder, tracked]
    simp [unmergedFolder, untrackedBelow, untrackedAmong]
  simp only [Repository.changes?, head, index, untracked, Option.bind_eq_bind, Option.bind_some]
  decide +kernel

/-- The conflict has been kept and is not counted. -/
theorem snapshot_leaves_conflict_uncounted :
    ∃ s, unmergedTree.snapshot? "/work" = some s ∧ s.paths = ["a.py"] ∧ s.state = ⟨0, 0, 0⟩ ∧
      ¬ s.paths.length ≤ s.state.staged + s.state.unstaged + s.state.untracked := by
  have there : unmergedTree.resolve "/work" = .ok (.present ["work"] (.dir unmergedFolder)) := rfl
  have found : Repository.discover? unmergedTree "/work" = some unmergedRepository := by
    decide +kernel
  obtain ⟨top, shape, taken⟩ := snapshot?_eq_snapshotAmong there found changes?_unmergedTree
  have same : ["work"] ++ top = ["work"] ++ [] := shape.symm
  obtain rfl : top = [] := List.append_cancel_left same
  refine ⟨_, taken, ?_⟩
  decide +kernel

end FileTree

end LintGate
