import LintGate.Process.Machine
import LintGate.Shell.Pattern
import LintGate.Shell.Syntax

/-!
# The state of a shell

A shell has variables, arguments, functions and descriptors of its own on a machine that it shares
with all others. A `Run` changes the state and may stop early: `Stop` says why.
-/

namespace LintGate.Shell

open Text (Bytes)

/-- A job in the background, which has done its work but ends at a time of its own. -/
structure Background where
  number : Nat
  finish : Nat
  status : Nat
deriving DecidableEq, Repr

structure State where
  machine : Machine
  /-- The name of the script. -/
  name : String := "sh"
  args : List String := []
  assigned : List (String × String) := []
  /-- The variables that other programs get. -/
  exported : List String := []
  functions : List (String × Command) := []
  descriptors : Descriptors := []
  here : Location := []
  status : Nat := 0
  /-- How far the process is below the watched one. -/
  depth : Nat := 0
  /-- The number of the process. -/
  process : Nat := 0
  lastJob : Option Nat := none
  /-- The jobs in the background that have not been waited for. -/
  jobs : List Background := []
  line : Nat := 1
  /-- What is run when the shell exits. -/
  exitAction : Option String := none
  /-- What is run at a signal. With nothing to run, the signal is ignored. -/
  signalActions : List (Nat × String) := []
  /-- Variables of the function that is run, with their values outside of it. -/
  locals : List (String × Option String) := []
  /-- The shell exits at the first command that fails. -/
  exitsOnFailure : Bool := false
  /-- The status of the command is asked for, so that its failure is no reason to exit. -/
  tested : Bool := false

inductive Stop where
  | exit
  | breakLoop (levels : Nat)
  | continueLoop (levels : Nat)
  | returned
  /-- A signal killed the process of a number. -/
  | killed (process signal : Nat)
  /-- The time of the watched process is over. -/
  | halted
deriving DecidableEq, Repr

abbrev Run := ExceptT Stop (StateM State)

namespace State

/-- The tree as the shell sees it. -/
def tree (s : State) : FileTree :=
  { s.machine.tree with here := s.here }

def setTree (s : State) (t : FileTree) : State :=
  { s with machine := { s.machine with tree := { t with here := s.machine.tree.here } } }

def set (s : State) (name value : String) : State :=
  { s with assigned := (name, value) :: s.assigned.filter (·.1 ≠ name) }

def unset (s : State) (name : String) : State :=
  { s with assigned := s.assigned.filter (·.1 ≠ name) }

def exportName (s : State) (name : String) : State :=
  { s with exported := name :: s.exported.filter (· ≠ name) }

/-- The variables that other programs get, the oldest first. -/
def environment (s : State) : List (String × String) :=
  (s.assigned.filter fun v => s.exported.contains v.1).reverse

/-- The value of a variable or a special parameter. -/
def parameter? (s : State) (name : String) : Option String :=
  match name with
  | "#" => some (toString s.args.length)
  | "?" => some (toString s.status)
  | "$" => some (toString s.process)
  | "!" => s.lastJob.map toString
  | "-" => some ""
  | "0" => some s.name
  | "@" => some (" ".intercalate s.args)
  | "*" => some (" ".intercalate s.args)
  | _ =>
    if name.toList.all Char.isDigit then s.args[Nat.ofDigitChars 10 name.toList 0 - 1]?
    else s.assigned.lookup name

/-- The characters at which values are cut into fields. -/
def separators (s : State) : List Char :=
  match s.assigned.lookup "IFS" with
  | some ifs => ifs.toList
  | none => [' ', '\t', '\n']

def stream (s : State) (descriptor : Nat) : Option Stream :=
  s.descriptors.lookup descriptor

def emit (s : State) (descriptor : Nat) (bs : Bytes) : State :=
  { s with machine := s.machine.write (s.stream descriptor) bs }

/-- Prints a message about what went wrong in a line of the script. -/
def complain (s : State) (message : String) : State :=
  s.emit Descriptors.standardError (Text.rawBytes s!"{s.name}: {s.line}: {message}\n")

/-- Takes what can be read from a descriptor, at most `limit` bytes where there is no end. -/
def takeInput (s : State) (limit : Nat) : Bytes × State :=
  match s.stream Descriptors.standardInput with
  | some (.channel n) => (s.machine.contents n, { s with machine := s.machine.setContents n [] })
  | some (.device .zero) => (List.replicate limit 0, s)
  | _ => ([], s)

/-- Puts back what was read too much. -/
def returnInput (s : State) (bs : Bytes) : State :=
  match s.stream Descriptors.standardInput with
  | some (.channel n) => { s with machine := s.machine.setContents n bs }
  | _ => s

end State

/-- Lets time pass, during which the process keeps its channels open. A process whose time is over
before goes no further; only the watched one does not live on. -/
def State.sleep (s : State) (ms : Nat) : Except Stop Unit × State :=
  let finish := s.machine.clock + ms
  let machine := if s.depth = 0 then s.machine else s.machine.hold s.descriptors finish
  match s.machine.deadline with
  | some limit =>
    if limit ≤ finish then
      (.error .halted, { s with machine := { machine with clock := max machine.clock limit } })
    else (.ok (), { s with machine := { machine with clock := finish } })
  | none => (.ok (), { s with machine := { machine with clock := finish } })

/-! ## Expanded words -/

/-- A piece of an expanded word. -/
inductive Cell where
  /-- A character, which may cut the word into fields. -/
  | glyph (g : Glyph) (splits : Bool)
  /-- There is a field here even if it is empty. -/
  | mark
  | cut
deriving Repr

def glyphCells (quoted splits : Bool) (s : String) : List Cell :=
  s.toList.map fun c => .glyph ⟨c, quoted⟩ splits

/-- The cells of a value. -/
def valueCells (quoted : Bool) (s : String) : List Cell :=
  if quoted then .mark :: glyphCells true false s else glyphCells false true s

/-- The cells of arguments that stay apart. -/
def argumentCells (quoted : Bool) (args : List String) : List Cell :=
  ((args.map (valueCells quoted)).intersperse [.cut]).flatten

/-- Fields that were cut off, the last one first, and the field at which one is. -/
structure Fields where
  done : List (List Glyph) := []
  current : Option (List Glyph) := none

namespace Fields

def finish (f : Fields) : Fields :=
  match f.current with
  | some gs => ⟨gs.reverse :: f.done, none⟩
  | none => f

def add (separators : List Char) (f : Fields) : Cell → Fields
  | .mark => { f with current := some (f.current.getD []) }
  | .cut => f.finish
  | .glyph g splits =>
    if splits && separators.contains g.char then
      if g.char = ' ' || g.char = '\t' || g.char = '\n' then f.finish
      else finish { f with current := some (f.current.getD []) }
    else { f with current := some (g :: f.current.getD []) }

def ofCells (separators : List Char) (cells : List Cell) : List (List Glyph) :=
  (cells.foldl (add separators) {}).finish.done.reverse

end Fields

/-- The glyphs of a word that is not cut into fields. -/
def glyphsOf (cells : List Cell) : List Glyph :=
  cells.filterMap fun c => match c with
    | .glyph g _ => some g
    | .cut => some ⟨' ', true⟩
    | .mark => none

def textOf (cells : List Cell) : String :=
  glyphText (glyphsOf cells)

end LintGate.Shell
