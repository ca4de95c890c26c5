import LintGate.Document
import LintGate.Settings

/-!
# Settings from documents

Reading a document as a settings file. Unknown fields are passed over. Of several sections for one
language, under whatever names, the last counts.
-/

namespace LintGate

open Document

def LanguageSection.ofDocument (d : Document) : Option LanguageSection := do
  let fields ← d.asStructure [⟨"enabled", false⟩, ⟨"formatter", false⟩, ⟨"linter", false⟩,
    ⟨"autofix", false⟩, ⟨"unfixable", false⟩, ⟨"timeout_secs", false⟩]
  let enabled ← optionalField asBool "enabled" fields
  let formatter ← optionalField asText "formatter" fields
  let linter ← optionalField asText "linter" fields
  let autofix ← optionalField asBool "autofix" fields
  let unfixable ← optionalField (asList asText) "unfixable" fields
  let timeoutSeconds ← optionalField asWord "timeout_secs" fields
  some { enabled, formatter, linter, autofix, unfixable, timeoutSeconds }

def Thresholds.ofDocument (d : Document) : Option Thresholds := do
  let fields ← d.asStructure [⟨"max_file_size_kb", false⟩, ⟨"max_complexity", false⟩,
    ⟨"min_coverage", false⟩]
  let maxFileSizeKb ← optionalField asWord "max_file_size_kb" fields
  let maxComplexity ← optionalField asWord "max_complexity" fields
  let minCoverage ← optionalField asFloat "min_coverage" fields
  some { maxFileSizeKb, maxComplexity, minCoverage }

def CheckSection.ofDocument (d : Document) : Option CheckSection := do
  let fields ← d.asStructure [⟨"name", false⟩, ⟨"command", false⟩, ⟨"languages", true⟩,
    ⟨"pass_files", false⟩, ⟨"timeout_secs", false⟩]
  let name ← requiredField asText "name" fields
  let command ← requiredField (asList asText) "command" fields
  let languages ← fieldOr [] (asList asText) "languages" fields
  let passFiles ← optionalField asBool "pass_files" fields
  let timeoutSeconds ← optionalField asWord "timeout_secs" fields
  some { name, command, languages, passFiles, timeoutSeconds }

/-- Puts a section in place of an earlier one for the same language. -/
def putSection (l : Language) (s : LanguageSection) (sections : List (Language × LanguageSection)) :
    List (Language × LanguageSection) :=
  (l, s) :: sections.filter fun entry => entry.1 ≠ l

/-- Reads the sections of languages, each under a name of its language. -/
def languageSections (d : Document) : Option (List (Language × LanguageSection)) := do
  let entries ← d.asEntries
  entries.foldlM (fun sections entry => do
    let name ← entry.1
    let l ← Language.ofExactId? name
    let given ← LanguageSection.ofDocument entry.2
    some (putSection l given sections)) []

def SettingsFile.ofDocument (d : Document) : Option SettingsFile := do
  let fields ← d.asStructure [⟨"output", false⟩, ⟨"parallel", false⟩, ⟨"timeout_secs", false⟩,
    ⟨"lock_timeout_secs", false⟩, ⟨"detect_depth", false⟩, ⟨"ignore_file", false⟩,
    ⟨"disable_marker", false⟩, ⟨"marker_lines", false⟩, ⟨"context_files", false⟩,
    ⟨"languages", true⟩, ⟨"thresholds", true⟩, ⟨"checks", true⟩]
  let output ← optionalField asText "output" fields
  let parallel ← optionalField asBool "parallel" fields
  let timeoutSeconds ← optionalField asWord "timeout_secs" fields
  let lockTimeoutSeconds ← optionalField asWord "lock_timeout_secs" fields
  let detectDepth ← optionalField asWord "detect_depth" fields
  let ignoreFile ← optionalField asText "ignore_file" fields
  let disableMarker ← optionalField asText "disable_marker" fields
  let markerLines ← optionalField asWord "marker_lines" fields
  let contextFiles ← optionalField (asList asText) "context_files" fields
  let languages ← fieldOr [] languageSections "languages" fields
  let thresholds ← optionalField Thresholds.ofDocument "thresholds" fields
  let checks ← fieldOr [] (asList CheckSection.ofDocument) "checks" fields
  some {
    output, parallel, timeoutSeconds, lockTimeoutSeconds, detectDepth, ignoreFile
    disableMarker, markerLines, contextFiles, languages, thresholds, checks }

end LintGate
