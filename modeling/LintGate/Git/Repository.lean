import LintGate.Git.Index
import LintGate.Text.Blank

/-!
# Repositories

A repository is a directory with a head, objects and references. It keeps two indexes of the
working tree: its own, which is what has been staged, and the head, which is what was committed
last. `Repository.discover?` finds the repository that a directory lies in.
-/

namespace LintGate.Git

/-- A repository: where its own files are, and the directory whose files it keeps. -/
structure Repository where
  home : Location
  workdir : Location
deriving DecidableEq, Repr

end LintGate.Git

namespace LintGate.Git.Repository

open Text (Bytes)

def headText : String := "ref: refs/heads/main\n"

/-- The text of a file at a place, if there is one. -/
def textAt? (t : FileTree) (l : Location) : Option String :=
  match t.root.get? l with
  | some (.file contents _) => Text.decode? contents
  | _ => none

def isFileAt (t : FileTree) (l : Location) : Bool :=
  (t.root.get? l).any Node.isFile

def isDirAt (t : FileTree) (l : Location) : Bool :=
  (t.root.get? l).any Node.isDir

/-- Whether a directory has the parts of a repository. -/
def isHome (t : FileTree) (l : Location) : Bool :=
  isFileAt t (l ++ ["HEAD"]) && isDirAt t (l ++ ["objects"]) && isDirAt t (l ++ ["refs"])

/-- A bare repository keeps no files. -/
def isBare (t : FileTree) (home : Location) : Bool :=
  ((textAt? t (home ++ ["config"])).map Text.lines).any fun lines =>
    lines.any fun line => Text.trim line = "bare = true"

/-- The home that a file in the place of a repository points to. -/
def pointedHome? (t : FileTree) (dir : Location) (text : String) : Option Location :=
  let target := (Text.trimEnd text).toList
  if "gitdir: ".toList.isPrefixOf target then
    match { t with here := dir }.resolve (String.ofList (target.drop 8)) with
    | .ok (.present l _) => some l
    | _ => none
  else none

/-- The repository in a directory or the directory itself, if it is one. The flag of the answer
says whether the search is over. -/
def inDir? (t : FileTree) (dir : Location) : Option (Option Repository) :=
  let inside := dir ++ [".git"]
  let pointed := (textAt? t inside).bind (pointedHome? t dir)
  let homes := [inside] ++ pointed.toList
  match homes.find? (isHome t) with
  | some home => some (if isBare t home then none else some ⟨home, dir⟩)
  | none =>
    if isHome t dir then
      some (if isBare t dir || dir.getLast? ≠ some ".git" then none else some ⟨dir, dir.dropLast⟩)
    else none

/-- The repository of the nearest directory among some. -/
def nearest? (t : FileTree) : List Location → Option Repository
  | [] => none
  | dir :: above =>
    match inDir? t dir with
    | some found => found
    | none => nearest? t above

/-- The repository whose working directory holds a path that exists. -/
def discover? (t : FileTree) (start : Path) : Option Repository :=
  match t.resolve start with
  | .ok (.present l _) =>
    nearest? t ((List.range (l.length + 1)).reverse.map fun n => l.take n)
  | _ => none

/-- The index in a file. A damaged one is none. -/
def indexAt? (t : FileTree) (l : Location) : Option Index :=
  match t.root.get? l with
  | some (.file contents _) => Index.parse? contents
  | _ => none

/-- What has been staged. -/
def index? (r : Repository) (t : FileTree) : Option Index :=
  match t.root.get? (r.home ++ ["index"]) with
  | none => some {}
  | some _ => indexAt? t (r.home ++ ["index"])

/-- Where the head says that the last commit is. -/
def branch? (r : Repository) (t : FileTree) : Option Location :=
  (textAt? t (r.home ++ ["HEAD"])).bind fun text =>
    let target := (Text.trimEnd text).toList
    if "ref: ".toList.isPrefixOf target then
      some ((Text.pieces '/' (target.drop 5)).map String.ofList)
    else none

/-- What was committed last: nothing before the first commit. -/
def head? (r : Repository) (t : FileTree) : Option Index := do
  let branch ← r.branch? t
  match textAt? t (r.home ++ branch) with
  | none => some {}
  | some name => indexAt? t (r.home ++ ["objects", Text.trimEnd name])

/-! ## Changes -/

def putFile (t : FileTree) (l : Location) (contents : Bytes) : FileTree :=
  let dirs := (List.range l.length).map fun n => l.take n
  (dirs.foldl FileTree.makeDirAt t).setAt l (some (.file contents Node.plainMode))

def putText (t : FileTree) (l : Location) (text : String) : FileTree :=
  putFile t l (Text.encode text)

/-- Makes a repository in a directory. -/
def create (t : FileTree) (dir : Location) (bare : Bool) : FileTree :=
  let home := if bare then dir else dir ++ [".git"]
  let config := s!"[core]\n\tbare = {bare}\n\trepositoryformatversion = 0\n\tfilemode = true\n"
  let dirs := [["objects", "info"], ["objects", "pack"], ["refs", "heads"], ["refs", "tags"]]
  let t := putText t (home ++ ["HEAD"]) headText
  let t := putText t (home ++ ["config"]) config
  let t := putText t (home ++ ["description"]) "Unnamed repository\n"
  let t := putText t (home ++ ["hooks", "README.sample"]) ""
  let t := putText t (home ++ ["info", "exclude"]) ""
  dirs.foldl (fun t parts =>
    (t.makeDirAt (home ++ parts.take 1)).makeDirAt (home ++ parts)) t

def setIndex (r : Repository) (t : FileTree) (i : Index) : FileTree :=
  putFile t (r.home ++ ["index"]) i.bytes

/-- Stages a file as it is now, or its removal if it is gone. -/
def stage (r : Repository) (t : FileTree) (place : Location) : FileTree :=
  let index := (r.index? t).getD {}
  match (t.root.get? (r.workdir ++ place)).bind Entry.ofNode? with
  | some e => r.setIndex t (index.put place e)
  | none => r.setIndex t (index.erase place)

/-- Takes a file out of the index. -/
def unstage (r : Repository) (t : FileTree) (place : Location) : FileTree :=
  r.setIndex t (((r.index? t).getD {}).erase place)

/-- Commits the index. -/
def commit (r : Repository) (t : FileTree) : FileTree :=
  let contents := ((r.index? t).getD {}).bytes
  let name := Sha256.hex (digestOf contents)
  let t := putFile t (r.home ++ ["objects", name]) contents
  putText t (r.home ++ ((r.branch? t).getD ["refs", "heads", "main"])) (name ++ "\n")

end LintGate.Git.Repository
