import LintGate.FileTree.Walk
import LintGate.Language

/-!
# Detection of languages

A `TreeIndex` holds the file names and extensions that occur in a working tree. A language applies
when one of its detection rules holds of the index. Only the names of files matter, not where they
lie or how often they occur.
-/

namespace LintGate

structure TreeIndex where
  names : List String
  /-- In small letters. -/
  extensions : List String
deriving Repr

namespace TreeIndex

def ofNames (names : List String) : TreeIndex where
  names := names
  extensions := (names.filterMap Profile.extensionOf?).map Text.asciiLower

def ofPaths (paths : List Path) : TreeIndex :=
  ofNames (paths.filterMap Path.shownName?)

def satisfies (index : TreeIndex) : DetectionRule → Bool
  | .marker name => index.names.contains name
  | .extension suffix => index.extensions.contains (Text.asciiLower suffix)

/-- Whether any rule of a language holds. -/
def shows (index : TreeIndex) (p : Profile) : Bool :=
  p.detectionRules.any index.satisfies

/-- The languages that apply, in detection order. -/
def languages (index : TreeIndex) : List Language :=
  Language.all.filter fun l => index.shows l.profile

theorem mem_languages {index : TreeIndex} {l : Language} :
    l ∈ index.languages ↔ index.shows l.profile = true := by
  simp [languages, Language.mem_all]

end TreeIndex

/-- The languages that apply to the files of a tree down to a depth, in detection order. Only a root
that cannot be listed is a fault. -/
def FileTree.detect (t : FileTree) (root : Path) (depth : Nat) : Except Fault (List Language) :=
  (t.walk root (some depth)).map fun files => (TreeIndex.ofPaths files).languages

end LintGate
