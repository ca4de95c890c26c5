import LintGate.Check.Custom
import LintGate.Detection
import LintGate.FileTree.Walk
import LintGate.Git.Status
import LintGate.Ledger
import LintGate.Process.Execution
import LintGate.Selection
import LintGate.Settings
import LintGate.Tool.Resolver
import LintGate.Verdict
import LintGate.Verification

/-!
# Runs

A run looks at each language of a working tree in turn: it selects files, binds tools, lets the
formatter and the linter work, and carries out the checks. The findings of all stages go into one
ledger, so the verdict does not depend on which stage ends first.
-/

namespace LintGate

/-- What a run needs, found out once at its start. -/
structure RunContext where
  settings : Settings
  ignored : IgnoreRules
  candidates : Candidates
  resolver : Resolver

/-- What one language of a run comes to. -/
structure LanguageResult where
  summary : ProfileSummary
  files : List Path := []
  /-- The findings of each stage, in the order of the stages. -/
  stages : List (Role × List Finding) := []

namespace RunContext

/-- Reads the ignore file and collects the candidates. -/
def prepare (t : FileTree) (settings : Settings) (resolver : Resolver) : Except Fault RunContext :=
  (t.candidates settings.root).map fun candidates =>
    ⟨settings, t.ignoreRules (settings.root.join settings.ignoreFile), candidates, resolver⟩

/-- The languages that apply and are not switched off. -/
def languages (c : RunContext) (t : FileTree) : Except Fault (List Language) :=
  (t.detect c.settings.root c.settings.detectDepth).map fun found =>
    found.filter fun l => (c.settings.language l).enabled

def selectionRules (c : RunContext) : SelectionRules where
  ignored := c.ignored
  disableMarker := c.settings.disableMarker
  markerLines := c.settings.markerLines

/-- The files of a language, as the tree is now. -/
def select (c : RunContext) (t : FileTree) (l : Language) : List Path :=
  l.profile.select t c.settings.root c.selectionRules c.candidates.paths

/-- Whether a language checks a candidate. The file is looked at only when its name and the rules
allow it, and read only when it is a regular one. -/
def keeps (c : RunContext) (l : Language) (file : Path) : Job Bool :=
  let place := c.settings.root.join file
  if l.profile.claimsPath file && !(l.profile.excludingRules c.ignored).any (·.excludes file) then
    .look fun t =>
      if t.isFile place then
        Job.seen fun t => !t.optsOut place c.settings.disableMarker c.settings.markerLines
      else .done false
  else .done false

/-- Selects the files of a language, looking at one candidate after another. -/
def selecting (c : RunContext) (l : Language) : Job (List Path) :=
  Job.keep (c.keeps l) c.candidates.paths

/-- The candidates for the formatter and the linter of a language. -/
def candidateOrders (c : RunContext) (l : Language) : List String × List String :=
  let s := c.settings.language l
  (candidateOrder l.profile.formatters s.formatter, candidateOrder l.profile.linters s.linter)

/-- The formatter and the linter of a language. -/
def bindings (c : RunContext) (l : Language) : Job (Binding × Binding) :=
  (c.resolver.bind .formatter (c.candidateOrders l).1).andThen fun formatter =>
    (c.resolver.bind .linter (c.candidateOrders l).2).andThen fun linter =>
      .done (formatter, linter)

def stageOptions (c : RunContext) (l : Language) : StageOptions :=
  let s := c.settings.language l
  { root := c.settings.root
    profile := l.id
    timeoutMs := s.timeoutSeconds.map (· * 1000)
    autofix := s.autofix
    unfixable := s.unfixable.getD l.profile.unfixable }

/-- Lets the tools of a language work on its files, then carries out its checks. -/
def performStages (c : RunContext) (l : Language) (files : List Path) : Job LanguageResult :=
  (c.bindings l).andThen fun (formatter, linter) =>
    (formatter.verify files (c.stageOptions l)).andThen fun formatted =>
      (linter.verify files (c.stageOptions l)).andThen fun linted =>
        (c.settings.performChecks l files).andThen fun checked =>
          .done {
            summary := ⟨l.id, files.length, formatter.installed.map (·.name),
              linter.installed.map (·.name)⟩
            files
            stages := [(.formatter, formatted.findings), (.linter, linted.findings),
              (.check, checked)] }

/-- Looks at one language. A language without files starts no program. -/
def performLanguage (c : RunContext) (l : Language) : Job LanguageResult :=
  (c.selecting l).andThen fun files =>
    if files.isEmpty then .done { summary := ⟨l.id, 0, none, none⟩ }
    else c.performStages l files

/-- Records the stages of the languages, counting languages from `start`. -/
def recordStages (start : Nat) : List LanguageResult → Ledger → Ledger
  | [], ledger => ledger
  | r :: rest, ledger =>
    recordStages (start + 1) rest
      (r.stages.foldl (fun ledger stage => ledger.record start stage.1 stage.2) ledger)

/-- All selected files, in order and each once. -/
def allFiles (results : List LanguageResult) : List Path :=
  (results.flatMap (·.files)).foldl (fun found f => Path.insertSorted f found) []

/-- Puts the results of all languages together and carries out the checks for all of them. -/
def conclude (c : RunContext) (results : List LanguageResult) : Job Verdict :=
  let ledger := recordStages 0 results .empty
  let files := allFiles results
  let summaries := results.map (·.summary)
  if files.isEmpty then .done ⟨summaries, ledger.sorted⟩
  else (c.settings.performGlobalChecks files).andThen fun found =>
    .done ⟨summaries, (ledger.record results.length .check found).sorted⟩

/-- Looks at some languages one after another. -/
def perform (c : RunContext) (languages : List Language) : Job Verdict :=
  (Job.each c.performLanguage languages).andThen c.conclude

/-- The tools that the languages are bound to, with the numbers of their files. -/
def listTools (c : RunContext) (languages : List Language) : Job (List ProfileTools) :=
  Job.each (fun l => (c.bindings l).andThen fun (formatter, linter) =>
    .look fun t => .done ⟨l, (c.select t l).length, formatter, linter⟩) languages

end RunContext

/-- Runs on a machine. -/
def Machine.host : Job.Host Machine where
  tree := fun m => m.tree
  run := fun m l => m.run l

end LintGate
