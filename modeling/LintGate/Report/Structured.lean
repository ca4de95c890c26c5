import LintGate.Json
import LintGate.Report.Human

/-!
# Reports for programs

A verdict, and the tools of some languages, as JSON values.
-/

namespace LintGate.Report

def findingJson (f : Finding) : Json :=
  .record [
    ("tool", .text f.tool),
    ("profile", .text f.profile),
    ("role", .text f.role.text),
    ("category", .text f.category.text),
    ("raw_output", .text f.output),
    ("blocking", .bool true)]

def summaryJson (p : ProfileSummary) : Json :=
  .record [
    ("profile", .text p.profile),
    ("files", .nat p.files),
    ("formatter", .optionalText p.formatter),
    ("linter", .optionalText p.linter)]

/-- How many findings are of a category. -/
def countOf (category : Category) (findings : List Finding) : Nat :=
  findings.countP (·.category = category)

def verdictJson (v : Verdict) (tokens : Nat) : Json :=
  .record [
    ("status", .text (if v.isClean then "clean" else "blocked")),
    ("exit_code", .nat v.exitCode),
    ("profiles", .array (v.profiles.map summaryJson)),
    ("findings", .array (v.findings.map findingJson)),
    ("summary", .record [
      ("total", .nat v.findings.length),
      ("formatting_needed", .nat (countOf .formattingNeeded v.findings)),
      ("lint_violation", .nat (countOf .lintViolation v.findings)),
      ("tool_failure", .nat (countOf .toolFailure v.findings))]),
    ("context_tokens", .nat tokens),
    ("instruction", if v.isClean then .null else .text closingInstruction)]

def bindingJson (b : Binding) : Json :=
  .record [
    ("candidates", .texts b.candidates),
    ("tool", .optionalText (b.installed.map (·.name))),
    ("program", .optionalText (b.installed.map fun t => Text.lossy t.program)),
    ("version", .optionalText (b.installed.bind fun t => t.version.map (·.text)))]

def toolsJson (list : List ProfileTools) : Json :=
  .record [("profiles", .array (list.map fun p => .record [
    ("profile", .text p.language.id),
    ("files", .nat p.files),
    ("formatter", bindingJson p.formatter),
    ("linter", bindingJson p.linter)]))]

end LintGate.Report
