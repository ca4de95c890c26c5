import LintGate.Report.Colour
import LintGate.Verdict

/-!
# Reports for people

The report of a verdict groups the findings by tool, in the order in which tools first appear.
Colour only adds control sequences to the text.
-/

namespace LintGate.Report

/-- The last line of every report with findings. -/
def closingInstruction : String :=
  "Fix ALL of the issues above before continuing. Every item is blocking."

/-- The findings of one tool. -/
structure ToolGroup where
  tool : String
  findings : List Finding
deriving DecidableEq, Repr

/-- Adds a finding to the group of its tool, or to a new group behind the others. -/
def addToGroup (f : Finding) : List ToolGroup → List ToolGroup
  | [] => [⟨f.tool, [f]⟩]
  | g :: rest =>
    if g.tool = f.tool then { g with findings := g.findings ++ [f] } :: rest
    else g :: addToGroup f rest

def groupByTool (findings : List Finding) : List ToolGroup :=
  findings.foldl (fun groups f => addToGroup f groups) []

def categoryStyle : Category → Style
  | .formattingNeeded => { colour := some .yellow }
  | .lintViolation => { colour := some .red }
  | .toolFailure => { colour := some .magenta }

/-- The line above the output of a finding. -/
def tag (f : Finding) : String :=
  s!"[{f.profile} · {f.category.text}]"

def renderFinding (colour : Bool) (f : Finding) : String :=
  (categoryStyle f.category).paint colour (tag f) ++ "\n" ++
    if f.output.isEmpty then "" else f.output ++ "\n"

def renderGroup (colour : Bool) (g : ToolGroup) : String :=
  "\n" ++ Style.paint colour { bold := true } s!"── {g.tool} ──" ++ "\n" ++
    String.join (g.findings.map (renderFinding colour))

/-- The first words of the report of a clean verdict. -/
def cleanLine (v : Verdict) : String :=
  if v.profiles.isEmpty then "✔ smart-lint: nothing to check"
  else "✔ smart-lint: all clean (" ++ ", ".intercalate (v.profiles.map (·.profile)) ++ ")"

def renderHuman (v : Verdict) (tokens : Nat) (colour : Bool) : String :=
  if v.isClean then
    Style.paint colour { colour := some .green, bold := true } (cleanLine v) ++ " " ++
      Style.paint colour { colour := some .grey } s!"context ~{tokens} tokens"
  else
    Style.paint colour { colour := some .red, bold := true }
        s!"✖ smart-lint: {v.findings.length} blocking issue(s)" ++ "\n" ++
      String.join ((groupByTool v.findings).map (renderGroup colour)) ++ "\n" ++
      Style.paint colour { colour := some .red, bold := true } closingInstruction

/-- The tools of some languages, for people. -/
def renderTools (list : List ProfileTools) (colour : Bool) : String :=
  if list.isEmpty then "no profiles detected\n"
  else String.join <| list.map fun p =>
    Style.paint colour { bold := true } s!"{p.language.id} ({p.files} changed file(s))" ++ "\n" ++
      s!"  formatter: {p.formatter.display}\n  linter:    {p.linter.display}\n"

end LintGate.Report
