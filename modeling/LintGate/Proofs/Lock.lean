import LintGate.Program
import LintGate.Proofs.FileTree.Adding

/-!
# Taking the lock

A lock is taken at the place that its file denotes, and stays at that place when the file is made.
So a run whose root has the same canonical path is refused while the lock is held: its check times
out and nothing else happens.
-/

namespace LintGate

namespace FileTree

/-- The lock file for a root is there, and it can be opened. -/
def LocksAt (t : FileTree) (dir root : Path) (l : Location) : Prop :=
  ∃ node, t.resolve (t.lockPath dir root) = .ok (.present l node) ∧ node.isDir = false

/-- A root that exists stands for its canonical path in the name of its lock file. -/
theorem lockPath_of_canonical? {t : FileTree} {root path : Path}
    (found : t.canonical? root = some path) (dir : Path) :
    t.lockPath dir root = dir.join (lockName path) := by
  rw [lockPath, found, Option.getD_some]

end FileTree

namespace Lock

variable {t u : FileTree} {held : List Location} {dir root root' : Path} {l : Location}
  {timeoutMs : Nat}

/-! ## Opening the file -/

theorem openFile_of_locksAt (locks : t.LocksAt dir root l) : openFile t dir root = .ok (t, l) := by
  obtain ⟨node, there, notDir⟩ := locks
  unfold openFile
  dsimp only
  rw [there]
  cases node with
  | dir => cases notDir
  | file | link | program | device => rfl

/-- A lock file is opened where it is, or made where nothing is. -/
theorem cases_of_openFile (opens : openFile t dir root = .ok (u, l)) :
    (u = t ∧ t.LocksAt dir root l) ∨
      ∃ above name, t.resolve (t.lockPath dir root) = .ok (.absent above name) ∧
        l = above ++ [name] ∧ u = t.withFile (above ++ [name]) [] Node.plainMode := by
  unfold openFile at opens
  dsimp only at opens
  cases found : t.resolve (t.lockPath dir root) with
  | error cause =>
      rw [found] at opens
      cases opens
  | ok place =>
      rw [found] at opens
      cases place with
      | absent above name =>
          cases opens
          exact .inr ⟨above, name, rfl, rfl, rfl⟩
      | present place node =>
          cases node with
          | dir => cases opens
          | file | link | program | device =>
              cases opens
              exact .inl ⟨rfl, _, found, rfl⟩

theorem here_of_openFile (opens : openFile t dir root = .ok (u, l)) : u.here = t.here := by
  rcases cases_of_openFile opens with ⟨rfl, -⟩ | ⟨above, name, -, -, rfl⟩ <;> rfl

/-- Once a lock file is opened, it is where it is for every root with the same canonical path. -/
theorem locksAt_of_openFile {path : Path} (here : t.root.HasDir t.here)
    (found : t.canonical? root = some path) (found' : t.canonical? root' = some path)
    (opens : openFile t dir root = .ok (u, l)) : u.LocksAt dir root' l := by
  rcases cases_of_openFile opens with ⟨rfl, node, there, notDir⟩ | ⟨above, name, empty, rfl, rfl⟩
  · refine ⟨node, ?_, notDir⟩
    rw [FileTree.lockPath_of_canonical? found', ← FileTree.lockPath_of_canonical? found, there]
  · -- The lock file has just been made, and no path leads elsewhere for that.
    have keeps := (FileTree.addsFile_of_absent [] Node.plainMode here empty).keeps
    obtain ⟨now, bits, there⟩ := FileTree.exists_file_of_added [] Node.plainMode here empty
    refine ⟨.file now bits, ?_, rfl⟩
    rw [FileTree.lockPath_of_canonical? (FileTree.canonical?_of_kept keeps rfl found'),
      ← FileTree.lockPath_of_canonical? found, there]

/-! ## Getting the lock, or not -/

theorem opens_of_acquire (acquired : acquire t held dir root timeoutMs = (.ok l, u)) :
    openFile t dir root = .ok (u, l) ∧ l ∉ held := by
  unfold acquire at acquired
  cases opens : openFile t dir root with
  | error fault =>
      rw [opens] at acquired
      cases acquired
  | ok opened =>
      obtain ⟨v, file⟩ := opened
      rw [opens] at acquired
      dsimp only at acquired
      by_cases locked : file ∈ held
      · rw [List.contains_iff_mem.mpr locked, attempt_waitingTime] at acquired
        cases acquired
      · split at acquired <;> cases acquired
        exact ⟨rfl, locked⟩

/-- The lock is not got where its file cannot be opened, and where it is held. -/
theorem cases_of_acquire_error {fault : Fault}
    (refused : acquire t held dir root timeoutMs = (.error fault, u)) :
    (openFile t dir root = .error fault ∧ u = t) ∨
      ∃ l, openFile t dir root = .ok (u, l) ∧ l ∈ held ∧
        fault = .lockTimeout root (waitingTime timeoutMs / 1000) := by
  unfold acquire at refused
  cases opens : openFile t dir root with
  | error cause =>
      rw [opens] at refused
      cases refused
      exact .inl ⟨rfl, rfl⟩
  | ok opened =>
      obtain ⟨v, file⟩ := opened
      rw [opens] at refused
      dsimp only at refused
      by_cases locked : file ∈ held
      · rw [List.contains_iff_mem.mpr locked, attempt_waitingTime] at refused
        cases refused
        exact .inr ⟨file, rfl, locked, rfl⟩
      · have unheld : held.contains file = false := by simpa using locked
        rw [unheld] at refused
        cases refused

/-- Once a lock is taken, its file is where it is for every root with the same canonical path. -/
theorem locksAt_of_acquire {path : Path} (here : t.root.HasDir t.here)
    (found : t.canonical? root = some path) (found' : t.canonical? root' = some path)
    (acquired : acquire t held dir root timeoutMs = (.ok l, u)) : u.LocksAt dir root' l :=
  locksAt_of_openFile here found found' (opens_of_acquire acquired).1

/-- Who is refused for as long as the time limit leaves everything as it is. -/
theorem acquire_of_held (locks : t.LocksAt dir root l) (locked : l ∈ held) (timeoutMs : Nat) :
    acquire t held dir root timeoutMs =
      (.error (.lockTimeout root (waitingTime timeoutMs / 1000)), t) := by
  unfold acquire
  rw [openFile_of_locksAt locks]
  dsimp only
  rw [List.contains_iff_mem.mpr locked, attempt_waitingTime]

end Lock

namespace Program

variable {m : Machine} {settings : Settings} {held : List Location} {l : Location}

/-- How the wait for a lock ends that is held for as long as the time limit. -/
def timeoutFault (settings : Settings) : Fault :=
  .lockTimeout settings.root (Lock.waitingTime (settings.lockTimeoutSeconds * 1000) / 1000)

theorem takeLock_of_held (wanted : settings.lock = true)
    (locks : m.tree.LocksAt (lockDirectory m) settings.root l) (locked : l ∈ held) :
    takeLock m settings held = (.error (timeoutFault settings), m) := by
  rw [takeLock, if_pos wanted, Lock.acquire_of_held locks locked]
  rfl

/-- Without the lock, no work is done, whatever it is. -/
theorem underLock_of_held {α : Type} (work : Job (Except Fault α)) (wanted : settings.lock = true)
    (locks : m.tree.LocksAt (lockDirectory m) settings.root l) (locked : l ∈ held) :
    underLock m settings held work = (.error (timeoutFault settings), m) := by
  rw [underLock, takeLock_of_held wanted locks locked]

/-- A check with the lock does its work and reports. -/
theorem check_of_takeLock {last : Machine} (taken : takeLock m settings held = (.ok (), last)) :
    check m settings held =
      (((checking settings (searchPath m)).perform Machine.host last).1.map fun (verdict, tokens) =>
        verdictResult ((checking settings (searchPath m)).perform Machine.host last).2
          settings.output verdict tokens,
        ((checking settings (searchPath m)).perform Machine.host last).2) := by
  rw [check, underLock, taken]

/-- A check without the lock that it wants does no work. -/
theorem check_of_refused {fault : Fault} {last : Machine}
    (refused : takeLock m settings held = (.error fault, last)) :
    check m settings held = (.error fault, last) := by
  rw [check, underLock, refused]
  rfl

end Program

end LintGate
