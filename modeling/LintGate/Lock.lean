import LintGate.Digest.Sha256
import LintGate.Fault
import LintGate.FileTree

/-!
# The lock of a working tree

Runs on one working tree take turns by an exclusive lock on a file whose name depends on the tree
alone, whatever spelling of its root they were given. A run tries the lock at once and then every
tenth of a second, and gives up after an attempt at or past its time limit.
-/

namespace LintGate

/-- How many bytes of the digest go into the name of a lock file. -/
def lockNameBytes : Nat := 8

/-- The name of the lock file for a root, which depends on the root as messages show it. -/
def lockName (root : String) : String :=
  let digest := Sha256.digest (Text.encode (Text.lossy root))
  "smart-lint-" ++ Sha256.hex (digest.take lockNameBytes) ++ ".lock"

namespace FileTree

/-- The lock file for a root within a directory. A root that does not exist stands for itself. -/
def lockPath (t : FileTree) (dir root : Path) : Path :=
  dir.join (lockName ((t.canonical? root).getD root))

end FileTree

namespace Lock

/-- Time between two attempts, in milliseconds. -/
def pollMs : Nat := 100

/-- What an attempt comes to. -/
inductive Attempt where
  | acquired
  | timedOut (waitedMs : Nat)
  | tryAgain
deriving DecidableEq, Repr

/-- An attempt at a lock after a time. -/
def attempt (heldByOther : Bool) (timeoutMs waitedMs : Nat) : Attempt :=
  if !heldByOther then .acquired
  else if timeoutMs ≤ waitedMs then .timedOut waitedMs
  else .tryAgain

/-- How long a run waits for a lock that nobody releases. -/
def waitingTime (timeoutMs : Nat) : Nat :=
  (timeoutMs + pollMs - 1) / pollMs * pollMs

theorem attempt_waitingTime (timeoutMs : Nat) :
    attempt true timeoutMs (waitingTime timeoutMs) = .timedOut (waitingTime timeoutMs) := by
  have enough : timeoutMs ≤ waitingTime timeoutMs := by
    unfold waitingTime pollMs
    omega
  simp [attempt, enough]

/-- Opens the lock file for a root, making it if it is not there, and answers with its place. A file
that is there is left as it is. -/
def openFile (t : FileTree) (dir root : Path) : Except Fault (FileTree × Location) :=
  let file := t.lockPath dir root
  match t.resolve file with
  | .error e => .error (.lock file e)
  | .ok (.present _ (.dir ..)) => .error (.lock file .isDirectory)
  | .ok (.present l _) => .ok (t, l)
  | .ok (.absent above name) =>
    .ok (t.setAt (above ++ [name]) (some (.file [] Node.plainMode)), above ++ [name])

/-- Takes the lock for a root, unless it is among those that others hold and do not give back in
time. A file that was made for it stays in either case. -/
def acquire (t : FileTree) (held : List Location) (dir root : Path) (timeoutMs : Nat) :
    Except Fault Location × FileTree :=
  match openFile t dir root with
  | .error fault => (.error fault, t)
  | .ok (t, file) =>
    match attempt (held.contains file) timeoutMs (waitingTime timeoutMs) with
    | .acquired => (.ok file, t)
    | _ => (.error (.lockTimeout root (waitingTime timeoutMs / 1000)), t)

end Lock

end LintGate
