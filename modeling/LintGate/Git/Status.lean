import LintGate.FileTree.Walk
import LintGate.Git.Repository
import LintGate.Ignore
import LintGate.Selection

/-!
# Changes in a working tree

`Repository.changes?` compares the head, the index and the working directory of a repository.
`FileTree.snapshot?` keeps those changed files that are still there and that lie below a root.
-/

namespace LintGate.Git

/-- The ignore rules of directories, the nearest directory first. -/
abbrev DirRules := List (Location × IgnoreRules)

/-- Whether the nearest rules that speak about an entry exclude it. -/
def DirRules.excludes (rules : DirRules) (isDirectory : Bool) (place : Location) : Bool :=
  (rules.findSome? fun (dir, own) =>
    own.verdict isDirectory (IgnoreRules.pathBytes (place.drop dir.length))).getD false

/-- The rules in a directory with these entries. -/
def rulesIn (entries : List (String × Node)) : IgnoreRules :=
  match Node.child? ".gitignore" entries with
  | some (.file contents _) => .ofText (Text.decodeLossy contents)
  | _ => []

mutual

/-- The files below a directory that are not tracked. Ignored files do not count, and nothing in
another repository does unless something there is tracked. -/
def untrackedBelow (tracked : List Location) (rules : DirRules) (ignored : Bool)
    (here : Location) : Node → List Location
  | .dir entries _ =>
    untrackedAmong tracked ((here, rulesIn entries) :: rules) ignored here entries
  | _ => []

def untrackedAmong (tracked : List Location) (rules : DirRules) (ignored : Bool)
    (here : Location) : List (String × Node) → List Location
  | [] => []
  | (name, node) :: rest =>
    let place := here ++ [name]
    let excluded := ignored || rules.excludes node.isDir place
    let found :=
      if name = ".git" then []
      else match node with
        | .dir entries _ =>
          let among := untrackedAmong tracked ((place, rulesIn entries) :: rules) excluded place
            entries
          if tracked.any (place.isPrefixOf ·) then among
          else if excluded || (Node.child? ".git" entries).isSome then []
          else among
        | _ => if excluded || tracked.contains place then [] else [place]
    found ++ untrackedAmong tracked rules ignored here rest

end

/-- One way in which a path differs between the head, the index and the working directory. -/
inductive ChangeFlag where
  | indexNew
  | indexModified
  | indexDeleted
  | indexRenamed
  | indexTypeChanged
  | workdirNew
  | workdirModified
  | workdirDeleted
  | workdirRenamed
  | workdirTypeChanged
  /-- The path could not be merged. -/
  | conflicted
deriving DecidableEq, Repr

namespace ChangeFlag

def isStaged : ChangeFlag → Bool
  | indexNew | indexModified | indexRenamed | indexTypeChanged => true
  | _ => false

def isUnstaged : ChangeFlag → Bool
  | workdirModified | workdirRenamed | workdirTypeChanged => true
  | _ => false

def isUntracked : ChangeFlag → Bool
  | workdirNew => true
  | _ => false

def isDeletion : ChangeFlag → Bool
  | indexDeleted | workdirDeleted => true
  | _ => false

end ChangeFlag

/-- A path of the working directory that differs, and how. -/
structure Change where
  place : Location
  flags : List ChangeFlag
deriving DecidableEq, Repr

namespace Change

def isStaged (c : Change) : Bool :=
  c.flags.any ChangeFlag.isStaged

def isUnstaged (c : Change) : Bool :=
  c.flags.any ChangeFlag.isUnstaged

def isUntracked (c : Change) : Bool :=
  c.flags.any ChangeFlag.isUntracked

/-- Whether the path has been deleted and nothing else has happened to it. -/
def isDeletionOnly (c : Change) : Bool :=
  c.flags.any ChangeFlag.isDeletion && !(c.isStaged || c.isUnstaged || c.isUntracked)

end Change

namespace Repository

/-- What an untracked file is ignored by, besides the rules in the working directory. -/
def excludeRules (r : Repository) (t : FileTree) : IgnoreRules :=
  ((textAt? t (r.home ++ ["info", "exclude"])).map IgnoreRules.ofText).getD []

/-- The files that are neither tracked nor ignored. -/
def untracked (r : Repository) (t : FileTree) (index : Index) : List Location :=
  ((t.root.get? r.workdir).map
    (untrackedBelow index.places [([], r.excludeRules t)] false [])).getD []

/-- How the index differs from the head. -/
def stagedFlags (before now : Option Entry) : List ChangeFlag :=
  match before, now with
  | none, some _ => [.indexNew]
  | some _, none => [.indexDeleted]
  | some a, some b =>
    if a = b then []
    else if (a.kind = .link) = (b.kind = .link) then [.indexModified] else [.indexTypeChanged]
  | none, none => []

/-- How the working directory differs from the index. -/
def unstagedFlags (before now : Option Entry) : List ChangeFlag :=
  match before, now with
  | some _, none => [.workdirDeleted]
  | some a, some b =>
    if a = b then []
    else if (a.kind = .link) = (b.kind = .link) then [.workdirModified] else [.workdirTypeChanged]
  | none, _ => []

/-- How a path differs. One that could not be merged is not compared. -/
def flagsOf (r : Repository) (t : FileTree) (head index : Index) (untracked : List Location)
    (place : Location) : List ChangeFlag :=
  if index.isConflicted place then [.conflicted]
  else
    let staged := index.entryOf? place
    let now := (t.root.get? (r.workdir ++ place)).bind Entry.ofNode?
    stagedFlags (head.entryOf? place) staged ++ unstagedFlags staged now
      ++ if untracked.contains place then [.workdirNew] else []

/-- The changed paths. There are none if the repository is damaged. -/
def changes? (r : Repository) (t : FileTree) : Option (List Change) := do
  let head ← r.head? t
  let index ← r.index? t
  let untracked := r.untracked t index
  let places := (index.places ++ head.places ++ untracked).eraseDups
  let change := fun place => (⟨place, r.flagsOf t head index untracked place⟩ : Change)
  some ((places.map change).filter fun c => !c.flags.isEmpty)

end Repository

end LintGate.Git

namespace LintGate

open Git

/-- The changed files below a root with what they count as. -/
structure Snapshot where
  state : ChangeState := {}
  paths : List Path := []
deriving DecidableEq, Repr

namespace Snapshot

/-- Adds a change to a snapshot of what lies below `top`, unless nothing is left to look at. -/
def add (isFile : Location → Bool) (top : Location) (s : Snapshot) (c : Change) : Snapshot :=
  if !c.isDeletionOnly && top.isPrefixOf c.place && isFile c.place then
    { state := {
        staged := s.state.staged + c.isStaged.toNat
        unstaged := s.state.unstaged + c.isUnstaged.toNat
        untracked := s.state.untracked + c.isUntracked.toNat }
      paths := Path.insertSorted (Location.relativePath (c.place.drop top.length)) s.paths }
  else s

/-- The snapshot of the changes below `top`. -/
def ofChanges (isFile : Location → Bool) (top : Location) (changes : List Change) : Snapshot :=
  changes.foldl (add isFile top) {}

end Snapshot

namespace FileTree

/-- The changes below a root that lies in the working directory of a repository. -/
def snapshot? (t : FileTree) (root : Path) : Option Snapshot := do
  let r ← Repository.discover? t root
  let .ok (.present l _) := t.resolve root | none
  let changes ← r.changes? t
  some (Snapshot.ofChanges (fun place => t.denotesFile (r.workdir ++ place))
    (l.drop r.workdir.length) changes)

/-- The files that a run may look at: the changed ones, or all of them outside a repository. -/
def candidates (t : FileTree) (root : Path) : Except Fault Candidates :=
  match t.snapshot? root with
  | some s => .ok ⟨.changes s.state, s.paths⟩
  | none => (t.walk root none).map fun paths => ⟨.fullScan, Path.sortedSet paths⟩

end FileTree

end LintGate
