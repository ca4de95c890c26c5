import LintGate.Text.Pieces
import LintGate.Text.Raw

/-!
# Paths

A path is a text whose names are separated by slashes. It keeps its spelling: two spellings are
the same path when their components agree, so `a//b`, `a/./b` and `a/b/` are one path. Paths are
ordered by their components, and names by their bytes.
-/

namespace LintGate

abbrev Path := String

namespace Path

/-- One step of a path. -/
inductive Component where
  /-- The slash that opens an absolute path. -/
  | root
  /-- A dot that opens a relative path. -/
  | here
  | up
  | name (text : String)
deriving DecidableEq, Repr

namespace Component

def text : Component → String
  | root => "/"
  | here => "."
  | up => ".."
  | name n => n

/-- Names come last, in the order of their bytes. -/
def rank : Component → Nat
  | root => 0
  | here => 1
  | up => 2
  | name _ => 3

def before (a b : Component) : Bool :=
  match a, b with
  | name m, name n => Text.rawBefore m n
  | _, _ => a.rank < b.rank

/-- The component that a piece between two slashes stands for. Empty pieces and dots stand for
none. -/
def ofPiece? (piece : List Char) : Option Component :=
  match piece with
  | [] => none
  | ['.'] => none
  | ['.', '.'] => some up
  | cs => some (name (String.ofList cs))

def name? : Component → Option String
  | name n => some n
  | _ => none

end Component

def isAbsolute (p : Path) : Bool :=
  p.toList.head? == some '/'

/-- What stands before the first name: the root, or a dot that opens a relative path. -/
def opening (cs : List Char) : List Component :=
  match cs with
  | '/' :: _ => [.root]
  | ['.'] => [.here]
  | '.' :: '/' :: _ => [.here]
  | _ => []

def components (p : Path) : List Component :=
  opening p.toList ++ (Text.pieces '/' p.toList).filterMap Component.ofPiece?

/-- Lexicographic order on components. -/
def componentsBefore : List Component → List Component → Bool
  | [], [] => false
  | [], _ :: _ => true
  | _ :: _, [] => false
  | a :: as, b :: bs => a.before b || (a == b && componentsBefore as bs)

def before (p q : Path) : Bool :=
  componentsBefore p.components q.components

/-- Two spellings of one path. -/
def same (p q : Path) : Bool :=
  p.components == q.components

/-- The names in a path, without the root, dots and steps up. -/
def names (p : Path) : List String :=
  p.components.filterMap Component.name?

/-- Takes `q` from within `p`. An absolute `q` stands for itself. -/
def join (p q : Path) : Path :=
  if q.isAbsolute || p.isEmpty then q
  else if p.toList.getLast? = some '/' then p ++ q
  else p ++ "/" ++ q

/-- The last component, when it is a name. -/
def fileName? (p : Path) : Option String :=
  p.components.getLast?.bind Component.name?

/-- The name of a file as messages show it. Which language a file belongs to is told by this
name. -/
def shownName? (p : Path) : Option String :=
  p.fileName?.map Text.lossy

/-- Removes slashes and lone dots from the end of a reversed path, but neither the root nor an
opening dot. -/
def trimEndReversed : List Char → List Char
  | [] => []
  | ['/'] => ['/']
  | '/' :: rest => trimEndReversed rest
  | '.' :: '/' :: rest => trimEndReversed ('/' :: rest)
  | cs => cs

/-- The path of the directory that holds the last component. The empty path and the root have
none. -/
def parent? (p : Path) : Option Path :=
  match p.components.getLast? with
  | none => none
  | some .root => none
  | some _ =>
    let withoutLast := (trimEndReversed p.toList.reverse).dropWhile (· ≠ '/')
    some (String.ofList (trimEndReversed withoutLast).reverse)

/-- The directories that hold a path, the nearest first, with the path itself in front. -/
def ancestors (p : Path) : List Path :=
  go p p.length
where
  /-- At most `fuel` steps up. -/
  go (p : Path) : Nat → List Path
    | 0 => [p]
    | fuel + 1 => p :: match p.parent? with
      | none => []
      | some above => go above fuel

/-- Inserts into a strictly increasing list; of two spellings the one already there stays. -/
def insertSorted (p : Path) : List Path → List Path
  | [] => [p]
  | q :: rest =>
    if p.before q then p :: q :: rest
    else if p.same q then q :: rest
    else q :: insertSorted p rest

/-- The strictly increasing list of some paths; of several spellings the first stays. -/
def sortedSet (ps : List Path) : List Path :=
  dropRepeated (ps.mergeSort fun p q => !(q.before p))
where
  /-- Keeps the first of neighbours that are the same path. -/
  dropRepeated : List Path → List Path
    | [] => []
    | p :: rest =>
      match dropRepeated rest with
      | [] => [p]
      | q :: more => if p.same q then p :: more else p :: q :: more

/-- A path as an argument that no program takes for an option. What is no text in the path is
replaced. -/
def asArgument (p : Path) : String :=
  let shown := Text.lossy p
  if shown.toList.head? = some '-' then "./" ++ shown else shown

theorem shownName?_eq_some_iff {p : Path} {shown : String} :
    p.shownName? = some shown ↔ ∃ name, p.fileName? = some name ∧ Text.lossy name = shown :=
  Option.map_eq_some_iff

theorem asArgument_head (p : Path) : p.asArgument.toList.head? ≠ some '-' := by
  unfold asArgument
  dsimp only
  split
  · simp
  · assumption

example : components "./a//b/../c/." = [.here, .name "a", .name "b", .up, .name "c"] := by decide

example : parent? "/a//b/./" = some "/a" := by decide

example : parent? "//a" = some "/" := by decide

example : parent? "." = some "" := by decide

example : parent? "./a" = some "." := by decide

end Path

end LintGate
