import LintGate.Decimal.Shortest
import LintGate.Language
import LintGate.Path
import LintGate.Text.Ascii

/-!
# Settings

The settings of a run: what the command line says, else what the settings file says, else the
defaults. `Settings.language` is what they say about one language.
-/

namespace LintGate

inductive OutputMode where
  | human
  | json
deriving DecidableEq, Repr

namespace OutputMode

/-- The mode with a name, blanks and the case of letters aside. Unknown names mean `human`. -/
def ofText (s : String) : OutputMode :=
  if Text.asciiLower (Text.trim s) = "json" then json else human

def text : OutputMode → String
  | human => "human"
  | json => "json"

end OutputMode

/-- What a settings file says about one language. -/
structure LanguageSection where
  enabled : Option Bool := none
  /-- The preferred formatter, or `none`. -/
  formatter : Option String := none
  linter : Option String := none
  /-- The linter may repair what can be repaired safely. -/
  autofix : Option Bool := none
  /-- Rules that such repairs leave alone. -/
  unfixable : Option (List String) := none
  timeoutSeconds : Option Nat := none
deriving DecidableEq, Repr

/-- Limits for checks. -/
structure Thresholds where
  maxFileSizeKb : Option Nat := none
  maxComplexity : Option Nat := none
  minCoverage : Option Binary64 := none
deriving DecidableEq, Repr

/-- A check from the settings as it is written there. -/
structure CheckSection where
  name : String
  command : List String
  languages : List String := []
  passFiles : Option Bool := none
  timeoutSeconds : Option Nat := none
deriving DecidableEq, Repr

/-- What a settings file says. -/
structure SettingsFile where
  output : Option String := none
  parallel : Option Bool := none
  timeoutSeconds : Option Nat := none
  lockTimeoutSeconds : Option Nat := none
  detectDepth : Option Nat := none
  ignoreFile : Option String := none
  disableMarker : Option String := none
  markerLines : Option Nat := none
  contextFiles : Option (List String) := none
  /-- One section for each language, the latest first. -/
  languages : List (Language × LanguageSection) := []
  thresholds : Option Thresholds := none
  checks : List CheckSection := []
deriving DecidableEq, Repr

/-- A check that has been validated. -/
structure CustomCheck where
  name : String
  command : List String
  /-- The check runs once for each of these, or once for all if there is none. -/
  languages : List Language
  /-- The selected files are added to the command. -/
  passFiles : Bool
  timeoutSeconds : Nat
deriving DecidableEq, Repr

/-- What the settings say about one language, defaults filled in. -/
structure LanguageSettings where
  enabled : Bool := true
  formatter : Option String := none
  linter : Option String := none
  autofix : Bool := false
  unfixable : Option (List String) := none
  timeoutSeconds : Option Nat := none
deriving DecidableEq, Repr

/-- What the command line says. -/
structure Overrides where
  startDir : Option Path := none
  output : Option String := none
  debug : Bool := false
  noLock : Bool := false
deriving DecidableEq, Repr

structure Settings where
  root : Path
  /-- The file that the settings come from. -/
  file : Option Path := none
  output : OutputMode := .human
  debug : Bool := false
  /-- Languages are looked at side by side. -/
  parallel : Bool := false
  /-- The time limit for tools, unless they have one of their own. -/
  timeoutSeconds : Option Nat := none
  lock : Bool := true
  lockTimeoutSeconds : Nat := 30
  detectDepth : Nat := 3
  ignoreFile : Path := ".smart-lint-ignore"
  disableMarker : String := "smart-lint-disable"
  markerLines : Nat := 5
  contextFiles : List Path := ["CLAUDE.md", "AGENTS.md", ".claude/CLAUDE.md"]
  languages : List (Language × LanguageSection) := []
  thresholds : Thresholds := {}
  checks : List CustomCheck := []
deriving DecidableEq, Repr

namespace Settings

/-- What the settings say about a language. -/
def language (s : Settings) (l : Language) : LanguageSettings :=
  let given := (s.languages.lookup l).getD {}
  { enabled := given.enabled.getD true
    formatter := given.formatter
    linter := given.linter
    autofix := given.autofix.getD false
    unfixable := given.unfixable
    timeoutSeconds := given.timeoutSeconds <|> s.timeoutSeconds }

/-- The time limit for a check that has none of its own and none from the settings. -/
def defaultCheckSeconds : Nat := 120

end Settings

end LintGate
