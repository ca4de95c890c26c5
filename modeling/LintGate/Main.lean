import LintGate.Process.StandardFiles
import LintGate.Program

/-!
# Command line program

Reads the working tree, the tools on the search path and the lock files into a machine, runs the
program there, and writes back the files that have changed.
-/

namespace LintGate.Main

/-- The node of a directory entry, if it can be read; directories are read as deep as `levels`. -/
partial def readNode (levels : Nat) (path : Path) : IO (Option Node) := do
  try
    let place := (← IO.currentDir) / path
    let about ← place.symlinkMetadata
    match about.type with
    | .symlink =>
      let target ← IO.FS.realPath place
      return some (.link target.toString)
    | .dir =>
      if levels = 0 then return some .empty
      let mut entries := []
      for entry in ← place.readDir do
        if let some node ← readNode (levels - 1) (Path.join path entry.fileName) then
          entries := Node.putEntry entry.fileName (some node) entries
      return some (.dir entries)
    | .file =>
      let contents := (← IO.FS.readBinFile place).toList
      let isScript := [35, 33].isPrefixOf contents
      return some (.file contents (if isScript then Node.programMode else Node.plainMode))
    | .other => return none
  catch _ => return none

mutual

/-- What is at a place, with what another node has besides. -/
def withMissing (old : Node) : Node → Node
  | .dir entries _ =>
    match old with
    | .dir present listable => .dir (withMissingEntries present entries) listable
    | other => other
  | _ => old

def withMissingEntries (present : List (String × Node)) :
    List (String × Node) → List (String × Node)
  | [] => present
  | (name, node) :: rest =>
    let merged := match Node.child? name present with
      | some old => withMissing old node
      | none => node
    withMissingEntries (Node.putEntry name (some merged) present) rest

end

/-- Adds what is at a path to a tree. -/
def load (t : FileTree) (levels : Nat) (path : Path) : IO FileTree := do
  match ← readNode levels path with
  | none => return t
  | some node =>
    let t := t.makeDirs ((Path.parent? path).getD "/")
    match t.resolveWith false path with
    | .ok (.present l old) => return t.setAt l (some (withMissing old node))
    | .ok (.absent dir name) => return t.setAt (dir ++ [name]) (some node)
    | .error _ => return t

/-- The names of a path from the root. -/
def locationOf (path : Path) : Location :=
  Path.names path

mutual

/-- The files below a node with their contents. -/
def filesOf (here : Location) : Node → List (Location × Text.Bytes)
  | .dir entries _ => filesAmong here entries
  | .file contents _ => [(here, contents)]
  | _ => []

def filesAmong (here : Location) : List (String × Node) → List (Location × Text.Bytes)
  | [] => []
  | (name, node) :: rest => filesOf (here ++ [name]) node ++ filesAmong here rest

end

/-- Writes the files that are new or have changed and removes those that are gone. -/
def save (before after : FileTree) (root : Location) : IO Unit := do
  let files := fun (t : FileTree) => filesOf root ((t.root.get? root).getD .empty)
  let old := files before
  let new := files after
  for (l, contents) in new do
    unless old.lookup l = some contents do
      IO.FS.createDirAll (FileTree.absolutePath l.dropLast)
      IO.FS.writeBinFile (FileTree.absolutePath l) (ByteArray.mk contents.toArray)
  for (l, _) in old do
    unless (new.lookup l).isSome do
      IO.FS.removeFile (FileTree.absolutePath l)

/-- The variables that the program and its tools are told. -/
def readEnvironment : IO (List (String × String)) := do
  let mut found := []
  for name in ["PATH", "HOME", "TMPDIR", "NO_COLOR", "LANG"] do
    if let some value ← IO.getEnv name then found := found ++ [(name, value)]
  return found

/-- The lock file of a root if another program holds it. -/
def heldLock (t : FileTree) (directory : Path) (root : Path) : IO (List Location) := do
  try
    let file := t.lockPath directory root
    let handle ← IO.FS.Handle.mk file .append
    if ← handle.tryLock then return [] else return [locationOf file]
  catch _ => return []

/-- How deep a working tree is read. -/
def maxLevels : Nat := 64

end LintGate.Main

open LintGate in
open LintGate.Main in
def main (args : List String) : IO UInt32 := do
  let directory := (← IO.currentDir).toString
  let environment ← readEnvironment
  let line := (CommandLine.parse args).toOption.getD {}
  let input ← if line.hook then (← IO.getStdin).readToEnd else pure ""
  let hint := (HookPayload.parse? input).bind fun p => p.cwd
  let start := absoluteStart (line.dir <|> hint) directory
  let mut tree : FileTree := { root := StandardFiles.root }
  for above in start.ancestors.reverse do
    tree ← load tree 1 above
  let root := tree.findRoot start
  tree ← load tree maxLevels root
  for place in ((environment.lookup "PATH").getD "").splitOn ":" do
    tree ← load tree 1 place
  let lockDirectory := (environment.lookup "TMPDIR").getD "/tmp"
  tree ← load tree 0 lockDirectory
  let machine : Machine := { tree := { tree with here := locationOf directory }, environment }
  let heldLocks ← heldLock tree lockDirectory root
  let (result, after) := Program.run machine { args, input, directory, heldLocks }
  save tree after.tree (locationOf root)
  IO.print result.output
  IO.eprint result.errors
  return UInt32.ofNat result.code
