import LintGate.FileTree

/-!
# Search paths

A search path is a list of directories with colons between them. `FileTree.findProgram` finds the
first program of a name; a name with a slash is a path of its own, taken from the working tree.
-/

namespace LintGate

namespace FileTree

/-- Whether a path denotes a file that may be run. -/
def isProgram (t : FileTree) (p : Path) : Bool :=
  (t.stat? p).any Node.isExecutable

/-- The places where a program is looked for. -/
def programPlaces (searchPath : String) (root : Path) (binary : String) : List Path :=
  let parts := Path.components binary
  if parts.length ≤ 1 then
    if searchPath.isEmpty || parts.isEmpty then []
    else (Text.pieces ':' searchPath.toList).map fun dir => Path.join (String.ofList dir) binary
  else if Path.isAbsolute binary then [binary]
  else
    [(parts.dropWhile (· = .here)).foldl (fun place part => Path.join place part.text) root]

/-- The first program of a name. -/
def findProgram? (t : FileTree) (searchPath : String) (root : Path) (binary : String) :
    Option Path :=
  (programPlaces searchPath root binary).find? t.isProgram

end FileTree

end LintGate
