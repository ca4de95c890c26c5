import LintGate.Finding
import LintGate.Language
import LintGate.Tool.Binding

/-!
# Verdicts

A verdict is what a run found out: the languages it looked at, and the findings in report order.
-/

namespace LintGate

/-- One language of a run. -/
structure ProfileSummary where
  profile : String
  /-- How many files were selected. -/
  files : Nat
  /-- The tools that were bound, by name. -/
  formatter : Option String
  linter : Option String
deriving DecidableEq, Repr

structure Verdict where
  profiles : List ProfileSummary
  findings : List Finding
deriving DecidableEq, Repr

namespace Verdict

def isClean (v : Verdict) : Bool :=
  v.findings.isEmpty

/-- The exit code of a program that reports this verdict. -/
def exitCode (v : Verdict) : Nat :=
  if v.isClean then 0 else 2

theorem exitCode_eq_zero_iff (v : Verdict) : v.exitCode = 0 ↔ v.findings = [] := by
  simp [exitCode, isClean]

end Verdict

/-- The tools that a language of a working tree is bound to. -/
structure ProfileTools where
  language : Language
  files : Nat
  formatter : Binding
  linter : Binding
deriving DecidableEq, Repr

end LintGate
