import LintGate.Proofs.FileTree.Straying
import LintGate.Proofs.Lock
import LintGate.Proofs.Selection
import LintGate.Proofs.Settings.Checks

/-!
# Locks of runs that share a file

The lock of a run belongs to its root, however the root is spelled. So runs with one root wait for
each other, and runs that select a common file have one root unless the root of one lies strictly
within the root of the other, or a link leads one of them to the file. In these cases they have
locks of their own and do not wait.
-/

namespace LintGate

namespace Program

/-- A run waits for its lock until its time is over, and the machine stays as it is. No work is done
that needs the lock, whatever it is. -/
structure IsRefused (m : Machine) (settings : Settings) (held : List Location) : Prop where
  takeLock_eq : takeLock m settings held = (.error (timeoutFault settings), m)
  underLock_eq : ∀ {α : Type} (work : Job (Except Fault α)),
    underLock m settings held work = (.error (timeoutFault settings), m)
  check_eq : check m settings held = (.error (timeoutFault settings), m)

theorem isRefused_of_held {m : Machine} {settings : Settings} {held : List Location} {l : Location}
    (wanted : settings.lock = true) (locks : m.tree.LocksAt (lockDirectory m) settings.root l)
    (locked : l ∈ held) : IsRefused m settings held where
  takeLock_eq := takeLock_of_held wanted locks locked
  underLock_eq work := underLock_of_held work wanted locks locked
  check_eq := check_of_refused (takeLock_of_held wanted locks locked)

end Program

/-! ## Runs in one tree -/

namespace RunContext

/-- A run that takes the lock starts in a tree. -/
structure StartsIn (c : RunContext) (t : FileTree) (ov : Overrides) (cwd : Path) : Prop where
  finds : Settings.find t ov cwd = .ok c.settings
  locks : c.settings.lock = true
  prepares : prepare t c.settings c.resolver = .ok c

/-- Two runs have one lock: their lock file is the same in every directory, the file that the first
one locks is there for the second one, and the second one is refused wherever that file is
locked. -/
structure SharesLock (m : Machine) (c c' : RunContext) : Prop where
  samePath : ∀ dir, m.tree.lockPath dir c.settings.root = m.tree.lockPath dir c'.settings.root
  sameFile : ∀ held timeoutMs tree lock, Lock.acquire m.tree held (Program.lockDirectory m)
      c.settings.root timeoutMs = (.ok lock, tree) →
    tree.LocksAt (Program.lockDirectory m) c'.settings.root lock
  refused : ∀ (now : Machine) held lock, Program.lockDirectory now = Program.lockDirectory m →
    now.tree.LocksAt (Program.lockDirectory m) c'.settings.root lock → lock ∈ held →
    Program.IsRefused now c'.settings held

variable {m : Machine} {t u u' : FileTree} {ov ov' : Overrides} {cwd cwd' : Path}
  {c c' : RunContext} {l l' : Language} {file file' : Path} {place : Location}

theorem sharesLock_of_canonical {path : Path} (here : m.tree.root.HasDir m.tree.here)
    (locks : c'.settings.lock = true) (found : m.tree.canonical? c.settings.root = some path)
    (found' : m.tree.canonical? c'.settings.root = some path) : SharesLock m c c' where
  samePath dir := by
    rw [FileTree.lockPath_of_canonical? found, FileTree.lockPath_of_canonical? found']
  sameFile _ _ _ _ acquired := Lock.locksAt_of_acquire here found found' acquired
  refused _ _ _ same_dir there locked := Program.isRefused_of_held locks (same_dir ▸ there) locked

/-- A file is named from the directory to which the root of its run leads. -/
theorem exists_name_of_mem_select (starts : c.StartsIn t ov cwd) (member : file ∈ c.select u l) :
    ∃ dir node name, t.resolve c.settings.root = .ok (.present dir node) ∧
      file.fileName? = some name := by
  obtain ⟨candidate, eligible⟩ := Profile.mem_select_iff.mp member
  obtain ⟨dir, node, _, there, -⟩ := FileTree.exists_names_of_mem_candidates
    (candidates_of_prepare starts.prepares) candidate
  obtain ⟨shown, named, -⟩ := eligible.claimed
  obtain ⟨name, named, -⟩ := Option.map_eq_some_iff.mp named
  exact ⟨dir, node, name, there, named⟩

/-- What a run selects in a tree is a file there. -/
theorem exists_leadsTo_of_mem_select (member : file ∈ c.select t l) :
    ∃ place, t.LeadsTo c.settings.root file place := by
  obtain ⟨-, eligible⟩ := Profile.mem_select_iff.mp member
  obtain ⟨place, node, found, isFile⟩ := FileTree.isFile_iff.mp eligible.regular
  exact ⟨place, node, found, isFile⟩

/-- Runs that select a common file share their lock, unless their roots are different directories.
Then one of these lies strictly within the other, or one run is led to the file by a link or a step
up below its root. -/
theorem sharesLock_of_common_file (here : m.tree.root.HasDir m.tree.here)
    (starts : c.StartsIn m.tree ov cwd) (starts' : c'.StartsIn m.tree ov' cwd') :
    (∀ l, ∀ file ∈ c.select m.tree l, ∃ place, m.tree.LeadsTo c.settings.root file place) ∧
    ∀ u u' l l' file file' place, file ∈ c.select u l → file' ∈ c'.select u' l' →
      m.tree.LeadsTo c.settings.root file place → m.tree.LeadsTo c'.settings.root file' place →
      SharesLock m c c' ∨
      m.tree.canonical? c.settings.root ≠ m.tree.canonical? c'.settings.root ∧
        (m.tree.LiesWithin c.settings.root c'.settings.root ∨
          m.tree.LiesWithin c'.settings.root c.settings.root ∨
          m.tree.Strays c.settings.root file ∨ m.tree.Strays c'.settings.root file') := by
  refine ⟨fun l file member => exists_leadsTo_of_mem_select member, ?_⟩
  intro u u' l l' file file' place member member' leads leads'
  obtain ⟨dir, node, name, rooted, named⟩ := exists_name_of_mem_select starts member
  obtain ⟨dir', node', name', rooted', named'⟩ := exists_name_of_mem_select starts' member'
  have found : m.tree.canonical? c.settings.root = some (FileTree.absolutePath dir) := by
    rw [FileTree.canonical?, rooted]
  have found' : m.tree.canonical? c'.settings.root = some (FileTree.absolutePath dir') := by
    rw [FileTree.canonical?, rooted']
  by_cases same : FileTree.absolutePath dir = FileTree.absolutePath dir'
  · exact .inl (sharesLock_of_canonical here starts'.locks found (same ▸ found'))
  · refine .inr ⟨by simpa [found, found'] using same, ?_⟩
    have differs : dir ≠ dir' := fun alike => same (congrArg _ alike)
    exact FileTree.liesWithin_or_strays here rooted rooted' differs named named' leads leads'

section Example

def innerEntries : List (String × Node) :=
  [(".smart-lint.toml", .file [] 0o644), ("a.py", .file [] 0o644)]

def outerEntries : List (String × Node) :=
  [(".smart-lint.toml", .file [] 0o644), ("sub", .dir innerEntries)]

def linkedEntries : List (String × Node) :=
  [(".smart-lint.toml", .file [] 0o644), ("b.py", .link "/w/sub/a.py")]

/-- A marked directory within a marked directory, to which a link leads, and one with a link to a
file in it. -/
def nestedRoots : FileTree where
  root := .dir [("l", .link "/w"), ("tmp", .empty), ("v", .dir linkedEntries),
    ("w", .dir outerEntries)]

def scanContext (root : Path) (found : List Location) : RunContext where
  settings := { root, file := some (root ++ "/.smart-lint.toml") }
  ignored := []
  candidates := ⟨.fullScan, found.map Location.relativePath⟩
  resolver := ⟨"", root⟩

theorem startsIn_nestedRoots {root : Path} {dir : Location} {entries : List (String × Node)}
    {found : List Location}
    (finds : (Settings.find nestedRoots {} root).toOption = some (scanContext root found).settings)
    (rootDir : nestedRoots.resolve root = .ok (.present dir (.dir entries)))
    (below : (Node.dir entries).filesBelow (nestedRoots.hasFile root) none [] = found)
    (no_repository : nestedRoots.snapshot? root = none)
    (no_rules : nestedRoots.readText? (root.join ".smart-lint-ignore") = none)
    (sorted : found.Pairwise (Location.before · ·))
    (inOrder : (found.map Location.relativePath).Pairwise (Path.before · ·)) :
    (scanContext root found).StartsIn nestedRoots {} root where
  finds := Settings.find_eq_of_toOption finds
  locks := rfl
  prepares := by
    have walked := FileTree.walk_eq_of_sorted rootDir (by simp) below sorted
    have candidates : nestedRoots.candidates (scanContext root found).settings.root =
        .ok (scanContext root found).candidates :=
      FileTree.candidates_eq_of_walk no_repository walked inOrder
    have rules : nestedRoots.ignoreRules ((scanContext root found).settings.root.join
        (scanContext root found).settings.ignoreFile) = [] := by
      have missing : nestedRoots.readText? ((scanContext root found).settings.root.join
          (scanContext root found).settings.ignoreFile) = none := no_rules
      rw [FileTree.ignoreRules, missing]
      rfl
    rw [prepare, candidates, rules]
    rfl

def outerFiles : List Location :=
  [[".smart-lint.toml"], ["sub", ".smart-lint.toml"], ["sub", "a.py"]]

def innerFiles : List Location :=
  [[".smart-lint.toml"], ["a.py"]]

theorem filesBelow_outerEntries (linksToFile : Location → Bool) :
    (Node.dir outerEntries).filesBelow linksToFile none [] = outerFiles := by
  simp [outerEntries, innerEntries, outerFiles, Node.filesBelow, Node.filesAmong, skippedDirs]

theorem startsIn_outer {root : Path}
    (finds : (Settings.find nestedRoots {} root).toOption =
      some (scanContext root outerFiles).settings)
    (rootDir : nestedRoots.resolve root = .ok (.present ["w"] (.dir outerEntries)))
    (no_repository : nestedRoots.snapshot? root = none)
    (no_rules : nestedRoots.readText? (root.join ".smart-lint-ignore") = none) :
    (scanContext root outerFiles).StartsIn nestedRoots {} root :=
  startsIn_nestedRoots finds rootDir (filesBelow_outerEntries _) no_repository no_rules (by decide)
    (by decide)

theorem startsIn_direct : (scanContext "/w" outerFiles).StartsIn nestedRoots {} "/w" :=
  startsIn_outer (by decide +kernel) rfl (by decide +kernel) (by decide +kernel)

theorem startsIn_inner : (scanContext "/w/sub" innerFiles).StartsIn nestedRoots {} "/w/sub" := by
  have there : nestedRoots.resolve "/w/sub" = .ok (.present ["w", "sub"] (.dir innerEntries)) := rfl
  refine startsIn_nestedRoots (by decide +kernel) there ?_ (by decide +kernel) (by decide +kernel)
    (by decide) (by decide)
  simp [innerEntries, innerFiles, Node.filesBelow, Node.filesAmong]

def linkedFiles : List Location :=
  [[".smart-lint.toml"], ["b.py"]]

theorem startsIn_linked : (scanContext "/v" linkedFiles).StartsIn nestedRoots {} "/v" := by
  have there : nestedRoots.resolve "/v" = .ok (.present ["v"] (.dir linkedEntries)) := rfl
  have leads : nestedRoots.hasFile "/v" ["b.py"] = true := by decide +kernel
  refine startsIn_nestedRoots (by decide +kernel) there ?_ (by decide +kernel) (by decide +kernel)
    (by decide) (by decide)
  simp [linkedEntries, linkedFiles, Node.filesBelow, Node.filesAmong, leads]

def sharedFile : Location :=
  ["w", "sub", "a.py"]

theorem leadsTo_sharedFile {root file : Path}
    (located : (nestedRoots.resolve (root.join file)).toOption.map (·.location) = some sharedFile)
    (isFile : nestedRoots.isFile (root.join file) = true) :
    nestedRoots.LeadsTo root file sharedFile := by
  obtain ⟨l, node, found, isFile⟩ := FileTree.isFile_iff.mp isFile
  rw [found] at located
  cases located
  exact ⟨node, found, isFile⟩

theorem leadsTo_direct : nestedRoots.LeadsTo "/w" "sub/a.py" sharedFile :=
  leadsTo_sharedFile (by decide +kernel) (by decide +kernel)

theorem mem_select_direct :
    "sub/a.py" ∈ (scanContext "/w" outerFiles).select nestedRoots .python := by
  decide +kernel

/-- Runs from a marked directory, from one above it and from one next to it select a common file,
and yet their locks are different files. -/
theorem nested_roots_have_own_locks :
    ((scanContext "/w" outerFiles).StartsIn nestedRoots {} "/w" ∧
      "sub/a.py" ∈ (scanContext "/w" outerFiles).select nestedRoots .python ∧
      nestedRoots.LeadsTo "/w" "sub/a.py" sharedFile) ∧
    ((scanContext "/w/sub" innerFiles).StartsIn nestedRoots {} "/w/sub" ∧
      "a.py" ∈ (scanContext "/w/sub" innerFiles).select nestedRoots .python ∧
      nestedRoots.LeadsTo "/w/sub" "a.py" sharedFile) ∧
    ((scanContext "/v" linkedFiles).StartsIn nestedRoots {} "/v" ∧
      "b.py" ∈ (scanContext "/v" linkedFiles).select nestedRoots .python ∧
      nestedRoots.LeadsTo "/v" "b.py" sharedFile) ∧
    (["/w", "/w/sub", "/v"].map (nestedRoots.lockPath "/tmp")).Nodup := by
  refine ⟨⟨startsIn_direct, mem_select_direct, leadsTo_direct⟩, ⟨startsIn_inner, ?_, ?_⟩,
    ⟨startsIn_linked, ?_, ?_⟩, by decide +kernel⟩
  · decide +kernel
  · exact leadsTo_sharedFile (by decide +kernel) (by decide +kernel)
  · decide +kernel
  · exact leadsTo_sharedFile (by decide +kernel) (by decide +kernel)

def nestedMachine : Machine where
  tree := nestedRoots

theorem exists_acquire_direct : ∃ tree lock,
    Lock.acquire nestedRoots [] (Program.lockDirectory nestedMachine) "/w" 0 =
      (.ok lock, tree) := by
  have dir : Program.lockDirectory nestedMachine = "/tmp" := by decide
  have taken : (Lock.acquire nestedRoots [] "/tmp" "/w" 0).1.isOk = true := by decide +kernel
  rw [dir]
  cases acquired : Lock.acquire nestedRoots [] "/tmp" "/w" 0 with
  | mk answer tree =>
      rw [acquired] at taken
      cases answer with
      | error => cases taken
      | ok lock => exact ⟨tree, lock, rfl⟩

/-- A run that comes by a link waits for one that does not. -/
theorem sharesLock_of_link :
    nestedRoots.root.HasDir nestedRoots.here ∧
      (scanContext "/w" outerFiles).StartsIn nestedRoots {} "/w" ∧
      (scanContext "/l" outerFiles).StartsIn nestedRoots {} "/l" ∧
      ∃ tree lock, Lock.acquire nestedRoots [] (Program.lockDirectory nestedMachine) "/w" 0 =
          (.ok lock, tree) ∧
        Program.IsRefused { nestedMachine with tree } (scanContext "/l" outerFiles).settings
          [lock] := by
  have linked : nestedRoots.resolve "/l" = .ok (.present ["w"] (.dir outerEntries)) := rfl
  have here : nestedMachine.tree.root.HasDir nestedMachine.tree.here := ⟨_, _, rfl⟩
  have starts : (scanContext "/w" outerFiles).StartsIn nestedMachine.tree {} "/w" := startsIn_direct
  have starts' : (scanContext "/l" outerFiles).StartsIn nestedMachine.tree {} "/l" :=
    startsIn_outer (by decide +kernel) linked (by decide +kernel) (by decide +kernel)
  obtain ⟨tree, lock, acquired⟩ := exists_acquire_direct
  refine ⟨here, starts, starts', tree, lock, acquired, ?_⟩
  have leads : nestedRoots.LeadsTo "/l" "sub/a.py" sharedFile :=
    leadsTo_sharedFile (by decide +kernel) (by decide +kernel)
  rcases (sharesLock_of_common_file here starts starts').2 nestedRoots nestedRoots .python .python
    "sub/a.py" "sub/a.py" sharedFile mem_select_direct (by decide +kernel) leadsTo_direct leads with
    shares | ⟨differs, -⟩
  · have there := shares.sameFile [] 0 tree lock acquired
    exact shares.refused { nestedMachine with tree } [lock] lock rfl there
      (List.mem_singleton_self lock)
  · exact absurd (by decide +kernel) differs

end Example

end RunContext

end LintGate
