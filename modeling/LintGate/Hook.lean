import LintGate.FileTree
import LintGate.Json.Reader
import LintGate.Text.Blank

/-!
# Hook payloads

A caller that runs the program after an edit says in a payload where it works and which file was
edited. Either gives the directory from which the root is looked for.
-/

namespace LintGate

structure HookPayload where
  cwd : Option String := none
  /-- The tool input is there; within it the edited file, if it is named. -/
  toolInput : Option (Option String) := none
deriving DecidableEq, Repr

namespace HookPayload

/-- A text or nothing. -/
def optionalText? : Json → Option (Option String)
  | .null => some none
  | .string (some s) => some (some s)
  | _ => none

/-- The only field of a name, if there is one; two are too many. -/
def uniqueField? (name : String) (fields : List (Option String × Json)) : Option (Option Json) :=
  match fields.filter fun f => f.1 == some name with
  | [] => some none
  | [f] => some (some f.2)
  | _ => none

/-- A field that may be missing or null. -/
def optionalField? (read : Json → Option (Option α)) (name : String)
    (fields : List (Option String × Json)) : Option (Option α) := do
  match ← uniqueField? name fields with
  | none => some none
  | some value => read value

def hasNames (fields : List (Option String × Json)) : Bool :=
  fields.all (·.1.isSome)

/-- The edited file in a tool input. A tool input may be written as the list of its fields. -/
def readToolInput? : Json → Option (Option (Option String))
  | .null => some none
  | .object fields =>
    if hasNames fields then (optionalField? optionalText? "file_path" fields).map some else none
  | .array [file] => (optionalText? file).map some
  | _ => none

def ofJson? : Json → Option HookPayload
  | .object fields =>
    if hasNames fields then do
      let cwd ← optionalField? optionalText? "cwd" fields
      let toolInput ← optionalField? readToolInput? "tool_input" fields
      some { cwd, toolInput }
    else none
  | .array [cwd] => (optionalText? cwd).map fun cwd => { cwd }
  | .array [cwd, input] => do
    let cwd ← optionalText? cwd
    let toolInput ← readToolInput? input
    some { cwd, toolInput }
  | _ => none

/-- Reads a payload; a blank text says nothing. -/
def parse? (text : String) : Option HookPayload :=
  if Text.allBlank text then some {} else (Json.parse? text).bind ofJson?

/-- Where to look for the root: the directory of the edited file if it exists, else the working
directory of the caller. -/
def directoryHint (p : HookPayload) (t : FileTree) : Option Path :=
  let cwd := p.cwd.filter (!·.isEmpty)
  let file := p.toolInput.join.filter (!·.isEmpty)
  let dir := file.bind fun f =>
    let place := match cwd with
      | some c => if Path.isAbsolute f then f else Path.join c f
      | none => f
    (Path.parent? place).filter t.isDir
  dir <|> cwd

end HookPayload

end LintGate
