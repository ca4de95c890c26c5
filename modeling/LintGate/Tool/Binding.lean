import LintGate.Finding
import LintGate.Process.Invocation
import LintGate.Tool.Catalog
import LintGate.Tool.Version
import LintGate.Text.Ascii

/-!
# Bindings

The candidates for a role are names of tools, the preferred one first; `candidateOrder` puts a
preference from the settings in front. A `Binding` joins the candidates of a role with the one of
them that was found installed.
-/

namespace LintGate

/-- A tool that was found on the search path. -/
structure InstalledTool where
  tool : Tool
  /-- The program to run. -/
  program : Path
  version : Option Version
deriving DecidableEq, Repr

namespace InstalledTool

def name (t : InstalledTool) : String :=
  t.tool.name

def major (t : InstalledTool) : Option Nat :=
  t.version.map (·.major.toNat)

/-- The program with the arguments that come before all others. -/
def baseInvocation (t : InstalledTool) : Invocation :=
  ⟨t.program, (t.tool.launcher.map (·.args)).getD []⟩

end InstalledTool

/-- The candidates of a role and the tool that serves it, if any. -/
structure Binding where
  role : Role
  candidates : List String
  installed : Option InstalledTool
deriving DecidableEq, Repr

namespace Binding

/-- A binding as it is listed for people. -/
def display (b : Binding) : String :=
  match b.installed with
  | some t =>
    let version := (t.version.map fun v => " v" ++ v.text).getD ""
    s!"{t.name}{version} ({Text.lossy t.program})"
  | none =>
    if b.candidates.isEmpty then "disabled"
    else "unbound (tried " ++ ", ".intercalate b.candidates ++ ")"

end Binding

/-- The preference that leaves a role without a tool. -/
def noTool : String := "none"

/-- The candidates in the order in which they are tried. A preferred tool of the catalog moves to
the front, `none` leaves no candidate, and any other preference changes nothing. -/
def candidateOrder (defaults : List String) (preferred : Option String) : List String :=
  let wish := Text.trim (preferred.getD "")
  if wish.isEmpty then defaults
  else if Text.sameIgnoringCase wish noTool then []
  else match Tool.ofName? wish with
    | some tool => tool.name :: defaults.filter (· ≠ tool.name)
    | none => defaults

example : candidateOrder ["ruff-format", "black"] (some " black ") = ["black", "ruff-format"] := by
  decide

end LintGate
