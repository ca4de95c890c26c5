import LintGate.Process.Job
import LintGate.SearchPath
import LintGate.Tool.Binding

/-!
# Finding installed tools

A tool is installed when its binary is on the search path, and its launcher too if it has one. The
first candidate that is installed is bound to a role; only tools whose arguments depend on their
version are asked for it.
-/

namespace LintGate

/-- Where tools are looked for. -/
structure Resolver where
  searchPath : String
  root : Path
deriving DecidableEq, Repr

namespace Resolver

/-- How long a tool may take to tell its version. -/
def versionTimeoutMs : Nat := 10000

def versionLaunch (r : Resolver) (binary : Path) : Launch where
  invocation := ⟨binary, ["--version"]⟩
  directory := r.root
  timeoutMs := versionTimeoutMs

/-- The version in what a tool printed when it was asked for it. -/
def versionFrom : Outcome → Option Version
  | .exited _ output => Version.parse? output
  | _ => none

/-- The binary of a tool and the program to run, if both are there. -/
def programs? (r : Resolver) (t : FileTree) (tool : Tool) : Option (Path × Path) := do
  let binary ← t.findProgram? r.searchPath r.root tool.binary
  match tool.launcher with
  | none => some (binary, binary)
  | some l => (t.findProgram? r.searchPath r.root l.program).map fun program => (binary, program)

/-- Looks for a tool. -/
def findTool (r : Resolver) (tool : Tool) : Job (Option InstalledTool) :=
  .look fun t =>
    match r.programs? t tool with
    | none => .done none
    | some (binary, program) =>
      if tool.needsVersion then
        .run (r.versionLaunch binary) fun outcome =>
          .done (some ⟨tool, program, versionFrom outcome⟩)
      else .done (some ⟨tool, program, none⟩)

/-- Looks for the first installed tool among candidates. Names outside the catalog are passed
over. -/
def findFirst (r : Resolver) : List String → Job (Option InstalledTool)
  | [] => .done none
  | name :: more =>
    match Tool.ofName? name with
    | none => findFirst r more
    | some tool => (r.findTool tool).andThen fun found =>
      match found with
      | some installed => .done (some installed)
      | none => findFirst r more

/-- Binds a role to the first installed candidate. -/
def bind (r : Resolver) (role : Role) (candidates : List String) : Job Binding :=
  (r.findFirst candidates).andThen fun found => .done ⟨role, candidates, found⟩

end Resolver

end LintGate
