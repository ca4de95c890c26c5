/-!
# Findings

A finding is one reportable problem, and every finding blocks. `Role` is the stage that reported
it, `Category` what kind of problem it is.
-/

namespace LintGate

/-- The stages of one language, in the order in which they run. -/
inductive Role where
  | formatter
  | linter
  /-- Size limits and checks from the settings. -/
  | check
deriving DecidableEq, Repr

namespace Role

def text : Role → String
  | formatter => "formatter"
  | linter => "linter"
  | check => "check"

/-- The place of a stage in the order in which stages run. -/
def rank : Role → Nat
  | formatter => 0
  | linter => 1
  | check => 2

end Role

inductive Category where
  /-- Formatting differs even after the formatter has repaired what it could. -/
  | formattingNeeded
  /-- A linter or a check found a violation. -/
  | lintViolation
  /-- A tool could not do its work. -/
  | toolFailure
deriving DecidableEq, Repr

namespace Category

def text : Category → String
  | formattingNeeded => "formatting-needed"
  | lintViolation => "lint-violation"
  | toolFailure => "tool-failure"

/-- What a tool in the given stage reports when it ran and was not content. -/
def violationOf : Role → Category
  | .formatter => formattingNeeded
  | _ => lintViolation

end Category

structure Finding where
  tool : String
  /-- The language, or `custom` for a check that is run once for all languages. -/
  profile : String
  role : Role
  category : Category
  /-- What the tool printed. -/
  output : String
deriving DecidableEq, Repr

end LintGate
