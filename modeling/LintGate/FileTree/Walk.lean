import LintGate.Fault
import LintGate.FileTree

/-!
# Listing the files of a tree

`FileTree.walk` lists the regular files below a directory, and the links to regular files, as
paths relative to it and in order. It goes into real directories only, and into none that holds
dependencies or build products by its name.
-/

namespace LintGate

/-- The names of directories that are never looked into. -/
def skippedDirs : List String :=
  [".git", "node_modules", "vendor", "target", ".venv", "venv", "__pycache__", "dist", "build",
    ".terraform", ".direnv", ".next"]

/-- The greatest depth that can be asked for, which fills a machine word. -/
def maxDepth : Nat := Nat.pow 2 64 - 1

namespace Node

mutual

/-- The locations of the files below a node. `levels` says how many levels of directories are
looked into, and `linksToFile` which links count as files. -/
def filesBelow (linksToFile : Location → Bool) (levels : Option Nat) (here : Location) :
    Node → List Location
  | .dir entries true => filesAmong linksToFile levels here entries
  | _ => []

/-- The locations of the files among some entries of a directory, and below them. -/
def filesAmong (linksToFile : Location → Bool) (levels : Option Nat) (here : Location) :
    List (String × Node) → List Location
  | [] => []
  | (name, node) :: rest =>
    let l := here ++ [name]
    let found := match node with
      | .dir entries listable =>
        if skippedDirs.contains name || !listable then []
        else match levels with
          | none => filesAmong linksToFile none l entries
          | some 0 => []
          | some (n + 1) => filesAmong linksToFile (some n) l entries
      | .link _ => if linksToFile l then [l] else []
      | .file _ _ => [l]
      | .program _ => [l]
      | .device _ => []
    found ++ filesAmong linksToFile levels here rest

end

end Node

namespace Location

/-- Locations by the bytes of their names, name by name. -/
def before : Location → Location → Bool
  | [], [] => false
  | [], _ :: _ => true
  | _ :: _, [] => false
  | a :: as, b :: bs => Text.rawBefore a b || (a = b && before as bs)

def sorted (ls : List Location) : List Location :=
  ls.mergeSort fun a b => !before b a

/-- A location as a path from where it begins. -/
def relativePath (l : Location) : Path :=
  "/".intercalate l

end Location

namespace FileTree

/-- Whether a location denotes a regular file, links followed. -/
def denotesFile (t : FileTree) (l : Location) : Bool :=
  match follow t.root true maxLinks [] l with
  | .ok (.present _ node) => node.isFile
  | _ => false

/-- Whether there is a regular file at a location below a root, links followed. -/
def hasFile (t : FileTree) (root : Path) (below : Location) : Bool :=
  t.isFile (root.join below.relativePath)

/-- The entries of a directory. -/
def list (t : FileTree) (p : Path) : Except SystemError (List (String × Node)) :=
  match t.stat p with
  | .error e => .error e
  | .ok (.dir entries true) => .ok entries
  | .ok (.dir _ false) => .error .accessDenied
  | .ok _ => .error .notDirectory

/-- The files below a directory, at most `depth` directories deep. A directory below that cannot be
listed is passed over. A file is one step further away than it is deep, and the steps are counted in
a machine word, so the walk breaks off when one more than the depth does not fit there. -/
def walk (t : FileTree) (root : Path) (depth : Option Nat) : Except Fault (List Path) :=
  match t.list root with
  | .error e => .error (.rootUnreadable root e)
  | .ok entries =>
    if depth.any (maxDepth ≤ ·) then .error .overflow
    else
      let found := (Node.dir entries).filesBelow (t.hasFile root) depth []
      .ok ((Location.sorted found).map Location.relativePath)

end FileTree

end LintGate
