import LintGate.Path
import LintGate.SystemError
import LintGate.Text.Raw

/-!
# File trees

A `Node` is a file, a link or a directory with its entries. A `FileTree` is the root directory
together with the directory from which relative paths are taken. `FileTree.resolve` follows a path
through directories and links to the place that it denotes; everything else is stated in terms of
places.
-/

namespace LintGate

open Text (Bytes)

/-- Files that the system provides itself. -/
inductive Device where
  /-- Empty, and takes anything. -/
  | null
  /-- Endless zero bytes. -/
  | zero
deriving DecidableEq, Repr

inductive Node where
  /-- A regular file with its permission bits. -/
  | file (contents : Bytes) (mode : Nat)
  | link (target : Path)
  /-- A directory; its entries are ordered by the bytes of their names. One that is not listable can
  be entered, but its entries cannot be asked for. -/
  | dir (entries : List (String × Node)) (listable : optParam Bool true)
  /-- A program that comes with the system. -/
  | program (name : String)
  | device (d : Device)
deriving Repr

/-- The names from the root down to an entry, without links among them. -/
abbrev Location := List String

namespace Node

/-- The permission bits of a file that is not a program. -/
def plainMode : Nat := 0o644

/-- The permission bits of a program. -/
def programMode : Nat := 0o755

/-- The permission bit that lets its owner read a file. -/
def readBit : Nat := 0o400

def empty : Node := .dir []

def child? (name : String) : List (String × Node) → Option Node
  | [] => none
  | (n, node) :: rest => if n = name then some node else child? name rest

/-- Puts an entry in its place among entries in order, or takes it away. -/
def putEntry (name : String) (node : Option Node) : List (String × Node) → List (String × Node)
  | [] => (node.map fun n => [(name, n)]).getD []
  | (n, old) :: rest =>
    if n = name then (node.map fun new => (name, new) :: rest).getD rest
    else if Text.rawBefore name n then
      (node.map fun new => (name, new) :: (n, old) :: rest).getD ((n, old) :: rest)
    else (n, old) :: putEntry name node rest

/-- The node at a location below this one. Links are not followed. -/
def get? : Node → Location → Option Node
  | node, [] => some node
  | .dir entries _, name :: rest => (child? name entries).bind fun node => node.get? rest
  | _, _ :: _ => none

/-- Changes what is at a location; nothing happens below what is no directory. -/
def update (change : Option Node → Option Node) : Location → Option Node → Option Node
  | [], node => change node
  | name :: rest, some (.dir entries listable) =>
    some (.dir (putEntry name (update change rest (child? name entries)) entries) listable)
  | _ :: _, other => other

def isDir : Node → Bool
  | .dir .. => true
  | _ => false

/-- Regular files, which the programs of the system are too. -/
def isFile : Node → Bool
  | .file .. => true
  | .program _ => true
  | _ => false

/-- Regular files that may be run. -/
def isExecutable : Node → Bool
  | .file _ mode => mode &&& 0o111 ≠ 0
  | .program _ => true
  | _ => false

/-- How many bytes a file has. -/
def size : Node → Nat
  | .file contents _ => contents.length
  | _ => 0

end Node

structure FileTree where
  root : Node := .empty
  /-- Where relative paths begin. -/
  here : Location := []
deriving Repr

namespace FileTree

/-- What a path denotes. -/
inductive Place where
  | present (location : Location) (node : Node)
  /-- There is no entry of this name, but there is the directory that would hold it. -/
  | absent (dir : Location) (name : String)
deriving Repr

namespace Place

def location : Place → Location
  | present l _ => l
  | absent dir name => dir ++ [name]

def node? : Place → Option Node
  | present _ node => some node
  | absent _ _ => none

end Place

/-- The longest name that an entry can have, in bytes. -/
def maxNameBytes : Nat := 255

/-- How many links may be followed on the way to a place. -/
def maxLinks : Nat := 40

/-- The names of a path; a slash at the end counts as a step to the directory itself. -/
def steps (p : Path) : List String :=
  let pieces := (Text.pieces '/' p.toList).filter (!·.isEmpty)
  let named := pieces.map String.ofList
  if p.toList.getLast? = some '/' then named ++ ["."] else named

/-- Takes steps from a directory. `onLink` goes on from a directory with the steps that a link
stands for. -/
def walkSteps (root : Node) (followLast : Bool)
    (onLink : Location → List String → Except SystemError Place) (dir : Location) :
    List String → Except SystemError Place
  | [] => .ok (.present dir ((root.get? dir).getD .empty))
  | step :: rest =>
    if step = "." then walkSteps root followLast onLink dir rest
    else if step = ".." then walkSteps root followLast onLink dir.dropLast rest
    else if maxNameBytes < (Text.rawBytes step).length then .error .nameTooLong
    else match root.get? (dir ++ [step]) with
      | none => if rest.isEmpty then .ok (.absent dir step) else .error .notFound
      | some (.dir ..) => walkSteps root followLast onLink (dir ++ [step]) rest
      | some (.link target) =>
        if rest.isEmpty && !followLast then .ok (.present (dir ++ [step]) (.link target))
        else if target.isEmpty then .error .notFound
        else onLink (if Path.isAbsolute target then [] else dir) (steps target ++ rest)
      | some other =>
        if rest.isEmpty then .ok (.present (dir ++ [step]) other) else .error .notDirectory

/-- Takes steps from a directory and follows at most `links` links. -/
def follow (root : Node) (followLast : Bool) :
    Nat → Location → List String → Except SystemError Place
  | 0 => walkSteps root followLast fun _ _ => .error .tooManyLinks
  | links + 1 => walkSteps root followLast (follow root followLast links)

/-- Finds the place that a path denotes. A link at its end is followed if `followLast`. -/
def resolveWith (t : FileTree) (followLast : Bool) (p : Path) : Except SystemError Place :=
  if p.isEmpty then .error .notFound
  else follow t.root followLast maxLinks (if p.isAbsolute then [] else t.here) (steps p)

def resolve (t : FileTree) (p : Path) : Except SystemError Place :=
  t.resolveWith true p

/-- What is at a path, links followed. -/
def stat (t : FileTree) (p : Path) : Except SystemError Node :=
  match t.resolve p with
  | .error e => .error e
  | .ok (.present _ node) => .ok node
  | .ok (.absent _ _) => .error .notFound

def stat? (t : FileTree) (p : Path) : Option Node :=
  (t.stat p).toOption

def exists? (t : FileTree) (p : Path) : Bool :=
  (t.stat? p).isSome

def isFile (t : FileTree) (p : Path) : Bool :=
  (t.stat? p).any Node.isFile

def isDir (t : FileTree) (p : Path) : Bool :=
  (t.stat? p).any Node.isDir

/-- The contents of a file, links followed. The reader owns the file. -/
def read (t : FileTree) (p : Path) : Except SystemError Bytes :=
  match t.stat p with
  | .error e => .error e
  | .ok (.file contents mode) =>
    if mode &&& Node.readBit = 0 then .error .accessDenied else .ok contents
  | .ok (.dir ..) => .error .isDirectory
  | .ok _ => .ok []

def read? (t : FileTree) (p : Path) : Option Bytes :=
  (t.read p).toOption

/-- The text of a file, if the file is well-formed text. -/
def readText? (t : FileTree) (p : Path) : Option String :=
  (t.read? p).bind Text.decode?

/-- The path of a location. -/
def absolutePath (l : Location) : Path :=
  "/" ++ "/".intercalate l

/-- The path without links, dots and steps up that denotes the same place. -/
def canonical? (t : FileTree) (p : Path) : Option Path :=
  match t.resolve p with
  | .ok (.present l _) => some (absolutePath l)
  | _ => none

/-! ## Changes -/

def setAt (t : FileTree) (l : Location) (node : Option Node) : FileTree :=
  { t with root := (Node.update (fun _ => node) l (some t.root)).getD .empty }

/-- Makes a directory unless something is there. -/
def makeDirAt (t : FileTree) (l : Location) : FileTree :=
  { t with root := (Node.update (fun old => old <|> some .empty) l (some t.root)).getD .empty }

/-- Writes a file. A new file has the given permission bits; an old one keeps its own. -/
def write (t : FileTree) (p : Path) (contents : Bytes) (mode : Nat) : Except SystemError FileTree :=
  match t.resolve p with
  | .error e => .error e
  | .ok (.absent dir name) => .ok (t.setAt (dir ++ [name]) (some (.file contents mode)))
  | .ok (.present l (.file _ old)) => .ok (t.setAt l (some (.file contents old)))
  | .ok (.present _ (.dir ..)) => .error .isDirectory
  | .ok (.present l (.program _)) => .ok (t.setAt l (some (.file contents Node.programMode)))
  | .ok (.present _ _) => .ok t

/-- Takes away what is at a path, with all that is below; a link is taken away itself. -/
def remove (t : FileTree) (p : Path) : Except SystemError FileTree :=
  match t.resolveWith false p with
  | .error e => .error e
  | .ok (.absent _ _) => .error .notFound
  | .ok (.present l _) => .ok (t.setAt l none)

/-- Makes a directory and those above it. -/
def makeDirs (t : FileTree) (p : Path) : FileTree :=
  let base := if p.isAbsolute then [] else t.here
  (steps p).foldl (fun (acc : FileTree × Location) step =>
    if step = "." then acc
    else if step = ".." then (acc.1, acc.2.dropLast)
    else match ({ acc.1 with here := acc.2 }).resolve step with
      | .ok (.present l _) => (acc.1, l)
      | _ => (acc.1.makeDirAt (acc.2 ++ [step]), acc.2 ++ [step])) (t, base) |>.1

end FileTree

end LintGate
