import LintGate.Process.Utility.Task

/-!
# Utilities that change files

Each works through its operands one after another; a failure is reported and the others go on.
-/

namespace LintGate.Utility

open Text (Bytes)

/-- Works through operands. A step answers the tree after it, or what it complains about. -/
def eachOperand (k : Task) (operands : List String)
    (step : FileTree → String → Except String FileTree) : Effect :=
  operands.foldl (fun done operand =>
    match step done.tree operand with
    | .ok tree => { done with tree }
    | .error message =>
      { done with errors := done.errors ++ k.complaint message, status := 1 })
    (k.answer [] 0)

def touch (k : Task) : Effect :=
  eachOperand k k.operands fun t p =>
    match t.resolve p with
    | .ok (.present _ _) => .ok t
    | .ok (.absent dir name) => .ok (t.setAt (dir ++ [name]) (some (.file [] Node.plainMode)))
    | .error e => .error s!"cannot touch '{p}': {e.text}"

def rm (k : Task) : Effect :=
  eachOperand k k.operands fun t p =>
    match t.resolveWith false p with
    | .ok (.present l (.dir ..)) =>
      if k.has 'r' || k.has 'R' then .ok (t.setAt l none)
      else .error s!"cannot remove '{p}': Is a directory"
    | .ok (.present l _) => .ok (t.setAt l none)
    | .ok (.absent _ _) =>
      if k.has 'f' then .ok t else .error s!"cannot remove '{p}': No such file or directory"
    | .error e => if k.has 'f' then .ok t else .error s!"cannot remove '{p}': {e.text}"

def mkdir (k : Task) : Effect :=
  eachOperand k k.operands fun t p =>
    if k.has 'p' then .ok (t.makeDirs p)
    else match t.resolve p with
      | .ok (.present _ _) => .error s!"cannot create directory '{p}': File exists"
      | .ok (.absent dir name) => .ok (t.makeDirAt (dir ++ [name]))
      | .error e => .error s!"cannot create directory '{p}': {e.text}"

/-- Where a file goes: into a directory under its own name, or to the path itself. -/
def destination (t : FileTree) (source target : Path) : Path :=
  if t.isDir target then target.join (source.fileName?.getD source) else target

/-- Puts a node at a path. -/
def place (t : FileTree) (target : Path) (node : Node) : Except String FileTree :=
  match t.resolveWith false target with
  | .ok found => .ok (t.setAt found.location (some node))
  | .error e => .error s!"cannot create '{target}': {e.text}"

/-- The last operand, and those before it. -/
def splitLast (operands : List String) : List String × String :=
  (operands.dropLast, operands.getLast?.getD "")

def cp (k : Task) : Effect :=
  let (sources, target) := splitLast k.operands
  eachOperand k sources fun t p =>
    match t.stat p with
    | .ok (.dir entries listable) =>
      if k.has 'r' || k.has 'R' || k.has 'a' then
        place t (destination t p target) (.dir entries listable)
      else .error s!"-r not specified; omitting directory '{p}'"
    | .ok node => place t (destination t p target) node
    | .error e => .error s!"cannot stat '{p}': {e.text}"

def mv (k : Task) : Effect :=
  let (sources, target) := splitLast k.operands
  eachOperand k sources fun t p =>
    match t.resolveWith false p with
    | .ok (.present l node) => place (t.setAt l none) (destination t p target) node
    | .ok (.absent _ _) => .error s!"cannot stat '{p}': No such file or directory"
    | .error e => .error s!"cannot stat '{p}': {e.text}"

def ln (k : Task) : Effect :=
  let (sources, target) := splitLast k.operands
  eachOperand k sources fun t p => place t (destination t p target) (.link p)

def chmod (k : Task) : Effect :=
  match k.args with
  | [] => k.fail "missing operand" 1
  | mode :: operands =>
    let change := fun (old : Nat) =>
      if mode.toList.all Char.isDigit then Nat.ofDigitChars 8 mode.toList 0
      else if mode.endsWith "+x" then old ||| 0o111
      else if mode.endsWith "-x" then old &&& 0o666
      else old
    eachOperand k operands fun t p =>
      match t.resolve p with
      | .ok (.present l (.file contents old)) =>
        .ok (t.setAt l (some (.file contents (change old))))
      | .ok (.present l (.dir entries listable)) =>
        let bits := change (if listable then 0o755 else 0o311)
        .ok (t.setAt l (some (.dir entries (bits &&& Node.readBit ≠ 0))))
      | .ok (.present _ _) => .ok t
      | _ => .error s!"cannot access '{p}': No such file or directory"

/-- The names in a directory, without hidden ones unless they are wanted. -/
def namesIn (k : Task) (entries : List (String × Node)) : List String :=
  let names := entries.map (·.1)
  let own := if k.has 'a' then [".", ".."] else []
  (own ++ names).filter fun n => k.has 'a' || k.has 'A' || !n.startsWith "."

def ls (k : Task) : Effect :=
  let operands := if k.operands.isEmpty then ["."] else k.operands
  let found := operands.map fun p => (p, k.tree.stat p)
  let errors := found.flatMap fun (p, node) => match node with
    | .error e => k.complaint s!"cannot access '{p}': {e.text}"
    | .ok (.dir _ false) =>
      if k.has 'd' then []
      else k.complaint s!"cannot open directory '{p}': {SystemError.accessDenied.text}"
    | .ok _ => []
  let files := found.filterMap fun (p, node) => match node with
    | .ok (.dir ..) => if k.has 'd' then some p else none
    | .ok _ => some p
    | .error _ => none
  let dirs := found.filterMap fun (p, node) => match node with
    | .ok (.dir entries true) => if k.has 'd' then none else some (p, namesIn k entries)
    | _ => none
  let listing := fun (d : String × List String) =>
    (if 1 < operands.length then [d.1 ++ ":"] else []) ++ d.2
  let sections := (if files.isEmpty then [] else [files]) ++ dirs.map listing
  let lines := (sections.intersperse [""]).flatten
  { tree := k.tree, output := unlines (lines.map Text.rawBytes), errors
    status := if errors.isEmpty then 0 else 2 }

def basename (k : Task) : Effect :=
  let name := (k.args.head?.map fun p => (Path.fileName? p).getD p).getD ""
  let shown := match k.args.drop 1 with
    | ending :: _ =>
      if name.endsWith ending && name ≠ ending then (name.dropEnd ending.length).toString else name
    | [] => name
  k.answer (Text.rawBytes (shown ++ "\n")) 0

def dirname (k : Task) : Effect :=
  let above := ((k.args.head?.bind Path.parent?).filter (!·.isEmpty)).getD "."
  k.answer (Text.rawBytes (above ++ "\n")) 0

end LintGate.Utility
