import LintGate.Git.Status
import LintGate.Proofs.Path.Locations

/-!
# What a snapshot holds

A snapshot keeps the changes below its root that are more than deletions and whose places still
denote files. Its paths lead from the root to these places, so the snapshot of a directory is what
the snapshot of the whole working directory has below it.
-/

namespace LintGate

open Git

namespace Path

/-- The rest of a path that passes a location, taken from there. -/
def below? (top : Location) (p : Path) : Option Path :=
  if top.isPrefixOf p.names then some (Location.relativePath (p.names.drop top.length)) else none

theorem below?_relativePath_eq_some_iff {top l : Location} (isName : ∀ name ∈ l, IsName name)
    {p : Path} : below? top (Location.relativePath l) = some p ↔
      ∃ rest, l = top ++ rest ∧ p = Location.relativePath rest := by
  rw [below?, names_relativePath isName]
  split
  case isTrue begins =>
    obtain ⟨rest, rfl⟩ := List.isPrefixOf_iff_prefix.mp begins
    rw [List.drop_left, Option.some.injEq]
    constructor
    · intro same
      exact ⟨rest, rfl, same.symm⟩
    · rintro ⟨other, shape, rfl⟩
      rw [List.append_cancel_left shape]
  case isFalse elsewhere =>
    refine iff_of_false (Option.some_ne_none p).symm ?_
    rintro ⟨rest, rfl, -⟩
    exact elsewhere (List.isPrefixOf_iff_prefix.mpr (List.prefix_append top rest))

end Path

namespace Snapshot

variable {isFile : Location → Bool} {top : Location} {changes : List Change}

/-- Whether something is left to look at of a change, at or below a location. -/
def keeps (isFile : Location → Bool) (top : Location) (c : Change) : Bool :=
  !c.isDeletionOnly && top.isPrefixOf c.place && isFile c.place

def pathBelow (top : Location) (c : Change) : Path :=
  Location.relativePath (c.place.drop top.length)

theorem keeps_iff {c : Change} : keeps isFile top c = true ↔
    ∃ l, c.place = top ++ l ∧ isFile (top ++ l) = true ∧ c.isDeletionOnly = false := by
  rw [keeps, Bool.and_eq_true, Bool.and_eq_true, Bool.not_eq_true', List.isPrefixOf_iff_prefix]
  constructor
  · rintro ⟨⟨notDeleted, l, below⟩, there⟩
    rw [← below] at there
    exact ⟨l, below.symm, there, notDeleted⟩
  · rintro ⟨l, below, there, notDeleted⟩
    rw [below]
    exact ⟨⟨notDeleted, List.prefix_append top l⟩, there⟩

theorem paths_add (s : Snapshot) (c : Change) : (s.add isFile top c).paths =
    if keeps isFile top c then Path.insertSorted (pathBelow top c) s.paths else s.paths := by
  rw [add, ← keeps]
  split
  · rfl
  · rfl

theorem paths_foldl_add (s : Snapshot) : (changes.foldl (add isFile top) s).paths =
    ((changes.filter (keeps isFile top)).map (pathBelow top)).foldl
      (fun found p => Path.insertSorted p found) s.paths := by
  induction changes generalizing s with
  | nil => rfl
  | cons c changes ih =>
      rw [List.foldl_cons, ih, paths_add]
      cases kept : keeps isFile top c with
      | false => rw [List.filter_cons_of_neg (by simp [kept]), if_neg Bool.false_ne_true]
      | true => rw [List.filter_cons_of_pos kept, List.map_cons, List.foldl_cons, if_pos rfl]

theorem pairwise_paths (isFile : Location → Bool) (top : Location) (changes : List Change) :
    (ofChanges isFile top changes).paths.Pairwise (Path.before · ·) := by
  rw [ofChanges, paths_foldl_add]
  exact Path.pairwise_foldl_insertSorted .nil _

section Named

-- A repository keeps nothing under a name that is empty, holds a slash or stands for a step.
variable (named : ∀ c ∈ changes, ∀ name ∈ c.place, Path.IsName name)

include named

/-- A path is in a snapshot when it leads to a file, and something other than a deletion has
happened there. -/
theorem mem_paths_iff {p : Path} : p ∈ (ofChanges isFile top changes).paths ↔
    ∃ l, p = Location.relativePath l ∧ isFile (top ++ l) = true ∧
      ∃ c ∈ changes, c.place = top ++ l ∧ c.isDeletionOnly = false := by
  have once (p q : Path) (first : ∃ l, p = Location.relativePath l ∧ ∀ name ∈ l, Path.IsName name)
      (second : ∃ l, q = Location.relativePath l ∧ ∀ name ∈ l, Path.IsName name)
      (same : p.same q = true) : p = q := by
    obtain ⟨a, rfl, isName⟩ := first
    obtain ⟨b, rfl, isName'⟩ := second
    have names := congrArg (List.filterMap Path.Component.name?) (Path.same_iff.mp same)
    rw [← Path.names, ← Path.names, Path.names_relativePath isName,
      Path.names_relativePath isName'] at names
    rw [names]
  have inside (p : Path) (member : p ∈ (changes.filter (keeps isFile top)).map (pathBelow top)) :
      ∃ l, p = Location.relativePath l ∧ ∀ name ∈ l, Path.IsName name := by
    obtain ⟨c, kept, rfl⟩ := List.mem_map.mp member
    have isName := named c (List.mem_of_mem_filter kept)
    exact ⟨_, rfl, fun name inside => isName name (List.mem_of_mem_drop inside)⟩
  rw [ofChanges, paths_foldl_add, Path.mem_foldl_insertSorted_iff once inside (by simp)]
  simp only [List.mem_map, List.mem_filter, List.not_mem_nil, or_false, keeps_iff]
  constructor
  · rintro ⟨c, ⟨member, l, below, there, notDeleted⟩, rfl⟩
    rw [pathBelow, below, List.drop_left]
    exact ⟨l, rfl, there, c, member, below, notDeleted⟩
  · rintro ⟨l, rfl, there, c, member, below, notDeleted⟩
    refine ⟨c, ⟨member, l, below, there, notDeleted⟩, ?_⟩
    rw [pathBelow, below, List.drop_left]

/-- The paths below a directory are those of the whole that pass it, taken from there. -/
theorem paths_eq_filterMap_below? : (ofChanges isFile top changes).paths =
    (ofChanges isFile [] changes).paths.filterMap (Path.below? top) := by
  have spelt (p : Path) (member : p ∈ (ofChanges isFile [] changes).paths) :
      ∃ l, p = Location.relativePath l ∧ ∀ name ∈ l, Path.IsName name := by
    obtain ⟨l, rfl, -, c, inside, place, -⟩ := (mem_paths_iff named).mp member
    rw [List.nil_append] at place
    exact ⟨l, rfl, place ▸ named c inside⟩
  have inOrder : ((ofChanges isFile [] changes).paths.filterMap (Path.below? top)).Pairwise
      (Path.before · ·) := by
    rw [List.pairwise_filterMap]
    apply (pairwise_paths isFile [] changes).imp_of_mem
    intro p q inside inside' earlier below rest below' rest'
    obtain ⟨l, rfl, isName⟩ := spelt p inside
    obtain ⟨l', rfl, isName'⟩ := spelt q inside'
    obtain ⟨a, rfl, rfl⟩ := (Path.below?_relativePath_eq_some_iff isName).mp rest
    obtain ⟨b, rfl, rfl⟩ := (Path.below?_relativePath_eq_some_iff isName').mp rest'
    rw [Path.relativePath_before isName isName', Location.before_append_left] at earlier
    rw [List.forall_mem_append] at isName isName'
    rwa [Path.relativePath_before isName.2 isName'.2]
  apply List.Pairwise.eq_of_mem_iff (pairwise_paths isFile top changes) inOrder
  intro p
  rw [List.mem_filterMap, mem_paths_iff named]
  constructor
  · rintro ⟨l, rfl, there, c, inside, place, notDeleted⟩
    have whole : Location.relativePath (top ++ l) ∈ (ofChanges isFile [] changes).paths :=
      (mem_paths_iff named).mpr ⟨top ++ l, rfl, there, c, inside, place, notDeleted⟩
    have isName : ∀ name ∈ top ++ l, Path.IsName name := place ▸ named c inside
    exact ⟨_, whole, (Path.below?_relativePath_eq_some_iff isName).mpr ⟨l, rfl, rfl⟩⟩
  · rintro ⟨q, whole, rest⟩
    obtain ⟨l, rfl, there, c, inside, place, notDeleted⟩ := (mem_paths_iff named).mp whole
    rw [List.nil_append] at there place
    obtain ⟨below, rfl, rfl⟩ :=
      (Path.below?_relativePath_eq_some_iff (place ▸ named c inside)).mp rest
    exact ⟨below, rfl, there, c, inside, place, notDeleted⟩

end Named

end Snapshot

namespace Git.Repository

variable {t : FileTree} {r : Repository}

theorem workdir_prefix_of_inDir? {dir : Location} (found : inDir? t dir = some (some r)) :
    r.workdir <+: dir := by
  rw [inDir?] at found
  split at found
  case h_1 home _ =>
    split at found
    · cases found
    · cases found
      exact List.prefix_refl dir
  case h_2 =>
    split at found
    · split at found
      · cases found
      · cases found
        exact List.dropLast_prefix dir
    · cases found

theorem exists_prefix_of_nearest? {dirs : List Location} (found : nearest? t dirs = some r) :
    ∃ dir ∈ dirs, r.workdir <+: dir := by
  induction dirs with
  | nil => cases found
  | cons dir above ih =>
      rw [nearest?] at found
      split at found
      case h_1 answer here =>
        subst found
        exact ⟨dir, List.mem_cons_self, workdir_prefix_of_inDir? here⟩
      case h_2 =>
        obtain ⟨other, member, begins⟩ := ih found
        exact ⟨other, List.mem_cons_of_mem dir member, begins⟩

/-- The repository of a path keeps the files of a directory that holds it. -/
theorem workdir_prefix_of_discover? {start : Path} {l : Location} {node : Node}
    (there : t.resolve start = .ok (.present l node)) (found : discover? t start = some r) :
    r.workdir <+: l := by
  simp only [discover?, there] at found
  obtain ⟨dir, member, begins⟩ := exists_prefix_of_nearest? found
  obtain ⟨n, -, rfl⟩ := List.mem_map.mp member
  exact begins.trans (List.take_prefix n l)

end Git.Repository

namespace FileTree

/-- The snapshot at a place of a working directory with these changes. -/
def snapshotAmong (t : FileTree) (workdir : Location) (changes : List Change) (top : Location) :
    Snapshot :=
  .ofChanges (fun place => t.denotesFile (workdir ++ place)) top changes

theorem snapshot?_eq_snapshotAmong {t : FileTree} {root : Path} {l : Location} {node : Node}
    {r : Repository} {changes : List Change} (there : t.resolve root = .ok (.present l node))
    (found : Repository.discover? t root = some r) (changed : r.changes? t = some changes) :
    ∃ top, l = r.workdir ++ top ∧
      t.snapshot? root = some (t.snapshotAmong r.workdir changes top) := by
  obtain ⟨top, rfl⟩ := Repository.workdir_prefix_of_discover? there found
  refine ⟨top, rfl, ?_⟩
  simp [snapshot?, found, there, changed, snapshotAmong]

/-- A snapshot lists in strict order the files below its root at which something other than a
deletion has happened. -/
theorem snapshot_lists_remaining_changes (t : FileTree) (workdir : Location)
    {changes : List Change} (named : ∀ c ∈ changes, ∀ name ∈ c.place, Path.IsName name) :
    (∀ root l node r, t.resolve root = .ok (.present l node) →
      Repository.discover? t root = some r → r.workdir = workdir → r.changes? t = some changes →
        ∃ top, l = workdir ++ top ∧
          t.snapshot? root = some (t.snapshotAmong workdir changes top)) ∧
    ∀ top,
      (t.snapshotAmong workdir changes top).paths.Pairwise (Path.before · ·) ∧
      (∀ p, p ∈ (t.snapshotAmong workdir changes top).paths ↔
        ∃ l, p = Location.relativePath l ∧ t.denotesFile (workdir ++ (top ++ l)) = true ∧
          ∃ c ∈ changes, c.place = top ++ l ∧ c.isDeletionOnly = false) ∧
      (t.snapshotAmong workdir changes top).paths =
        (t.snapshotAmong workdir changes []).paths.filterMap (Path.below? top) ∧
      ∀ c ∈ changes, t.denotesFile (workdir ++ c.place) = false ∨ ¬ top <+: c.place ∨
          (∀ other ∈ changes, other.place = c.place → other.isDeletionOnly = true) →
        ∀ p ∈ (t.snapshotAmong workdir changes top).paths, top ++ p.names ≠ c.place := by
  refine ⟨?_, ?_⟩
  · rintro root l node r there found rfl changed
    exact snapshot?_eq_snapshotAmong there found changed
  · intro top
    refine ⟨Snapshot.pairwise_paths _ _ _, fun p => Snapshot.mem_paths_iff named,
      Snapshot.paths_eq_filterMap_below? named, ?_⟩
    intro c _ dropped p member same
    obtain ⟨l, rfl, there, other, inside, place, notDeleted⟩ :=
      (Snapshot.mem_paths_iff named).mp member
    have isName : ∀ name ∈ top ++ l, Path.IsName name := place ▸ named other inside
    rw [List.forall_mem_append] at isName
    rw [Path.names_relativePath isName.2] at same
    rcases dropped with gone | outside | deleted
    · rw [← same, there] at gone
      cases gone
    · exact outside (same ▸ List.prefix_append top l)
    · rw [deleted other inside (place.trans same)] at notDeleted
      cases notDeleted

/-- Two directories whose names begin alike, and a file that the index alone has lost. -/
def twoServices : FileTree :=
  ⟨.dir [("work", .dir [
    ("svc", .dir [("a.rs", .file [] 0o644), ("b.rs", .file [] 0o644), ("kept.rs", .file [] 0o644)]),
    ("svc2", .dir [("a.rs", .file [] 0o644)])])], []⟩

def serviceChanges : List Change :=
  [⟨["svc", "b.rs"], [.indexDeleted, .workdirNew]⟩, ⟨["svc", "a.rs"], [.indexNew]⟩,
    ⟨["svc", "gone.rs"], [.indexNew, .workdirDeleted]⟩, ⟨["svc", "kept.rs"], [.indexDeleted]⟩,
    ⟨["svc2", "a.rs"], [.workdirModified]⟩]

theorem snapshot_lists_remaining_changes_of_services :
    (∀ c ∈ serviceChanges, ∀ name ∈ c.place, Path.IsName name) ∧
      (twoServices.snapshotAmong ["work"] serviceChanges ["svc"]).paths = ["a.rs", "b.rs"] ∧
      "kept.rs" ∉ (twoServices.snapshotAmong ["work"] serviceChanges ["svc"]).paths ∧
      "a.rs" ∈ (twoServices.snapshotAmong ["work"] serviceChanges ["svc2"]).paths := by
  have named : ∀ c ∈ serviceChanges, ∀ name ∈ c.place, Path.IsName name := by decide
  obtain ⟨-, told⟩ := snapshot_lists_remaining_changes twoServices ["work"] named
  obtain ⟨-, -, restricted, dropped⟩ := told ["svc"]
  obtain ⟨-, members, -⟩ := told ["svc2"]
  refine ⟨named, ?_, ?_, ?_⟩
  · rw [restricted]
    decide +kernel
  · intro member
    exact dropped ⟨["svc", "kept.rs"], [.indexDeleted]⟩ (by decide)
      (.inr (.inr (by decide))) _ member
      (by decide)
  · exact (members "a.rs").mpr ⟨["a.rs"], by decide, by decide +kernel,
      ⟨["svc2", "a.rs"], [.workdirModified]⟩, by decide, rfl, rfl⟩

end FileTree

end LintGate
