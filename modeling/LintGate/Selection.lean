import LintGate.FileTree
import LintGate.FileTree.Walk
import LintGate.Ignore
import LintGate.Language
import LintGate.OptOut

/-!
# Selection of files

Each language checks those of the candidates that it claims by name, that no rule excludes, that
are still there, and that do not opt out. Selection keeps the order of the candidates, so a sorted
list of candidates gives a sorted list of files.
-/

namespace LintGate

/-- The state of a working tree against its repository. -/
structure ChangeState where
  staged : Nat := 0
  unstaged : Nat := 0
  untracked : Nat := 0
deriving DecidableEq, Repr

/-- Where candidates come from. -/
inductive CandidateSource where
  | changes (state : ChangeState)
  /-- Without a repository every file is a candidate. -/
  | fullScan
deriving DecidableEq, Repr

/-- The files that a run may look at, as paths below the root in order. -/
structure Candidates where
  source : CandidateSource
  paths : List Path
deriving DecidableEq, Repr

/-- What the settings have a say in. -/
structure SelectionRules where
  ignored : IgnoreRules := []
  disableMarker : String
  markerLines : Nat

namespace FileTree

/-- The rules of an ignore file. A file that is missing or not text holds none. -/
def ignoreRules (t : FileTree) (file : Path) : IgnoreRules :=
  ((t.readText? file).map IgnoreRules.ofText).getD []

/-- Whether a file opts out. A file that cannot be read does not. -/
def optsOut (t : FileTree) (file : Path) (marker : String) (maxLines : Nat) : Bool :=
  ((t.read? file).map fun contents => LintGate.optsOut contents marker maxLines).getD false

end FileTree

/-- The rules that exclude directories which no language looks into. -/
def skippedDirRules : IgnoreRules :=
  .ofLines (skippedDirs.map (· ++ "/"))

namespace Profile

/-- Whether the language claims a path by the name of its file. -/
def claimsPath (p : Profile) (file : Path) : Bool :=
  file.shownName?.any p.claims

/-- The rules that keep files from the language: those for all languages, its own, and those of
the working tree. -/
def excludingRules (p : Profile) (ignored : IgnoreRules) : List IgnoreRules :=
  [skippedDirRules, .ofLines p.excludes, ignored]

/-- The candidates that the language checks. -/
def select (p : Profile) (t : FileTree) (root : Path) (rules : SelectionRules)
    (candidates : List Path) : List Path :=
  let excluding := p.excludingRules rules.ignored
  candidates.filter fun file =>
    p.claimsPath file && !excluding.any (·.excludes file) && t.isFile (root.join file)
      && !t.optsOut (root.join file) rules.disableMarker rules.markerLines

end Profile

end LintGate
