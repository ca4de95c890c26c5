import LintGate.Check
import LintGate.Process.Job
import LintGate.Settings

/-!
# Checks from the settings

A check from the settings is a command that is content when it exits with code 0. It learns the
root, the profile and the limits from its environment.
-/

namespace LintGate

namespace CustomCheck

/-- The program of a command. A relative path with a slash is taken from the root. -/
def programAt (root : Path) (program : String) : Path :=
  if !Path.isAbsolute program && 1 < (Path.components program).length then Path.join root program
  else program

/-- The command with the files that it is given. -/
def invocation? (c : CustomCheck) (root : Path) (files : List Path) : Option Invocation :=
  match c.command with
  | [] => none
  | program :: args =>
    some ⟨programAt root program, args ++ if c.passFiles then files.map Path.asArgument else []⟩

/-- What a check learns from its environment. -/
def environment (root : Path) (profile : String) (t : Thresholds) : List (String × String) :=
  [("SMART_LINT_ROOT", Text.lossy root), ("SMART_LINT_PROFILE", profile)]
    ++ (t.maxComplexity.map fun n => ("SMART_LINT_MAX_COMPLEXITY", toString n)).toList
    ++ (t.minCoverage.map fun x => ("SMART_LINT_MIN_COVERAGE", x.text)).toList
    ++ (t.maxFileSizeKb.map fun n => ("SMART_LINT_MAX_FILE_SIZE_KB", toString n)).toList

/-- What the outcome of a check means. -/
def judge (inv : Invocation) : Outcome → Option (Category × String)
  | .exited (some code) output =>
    if code = 0 then none
    else if output.isEmpty then
      some (.lintViolation, s!"{inv.display} exited with code {code}")
    else some (.lintViolation, output)
  | .exited none output => some (.toolFailure, s!"terminated by signal: {inv.display}\n{output}")
  | .timedOut after _ => some (.toolFailure, s!"timed out after {after}s: {inv.display}")
  | .failedToStart message => some (.toolFailure, s!"failed to start {inv.display}: {message}")

/-- Runs a check on some files with a time limit. -/
def performWithin (c : CustomCheck) (timeoutMs : Nat) (root : Path) (profile : String)
    (files : List Path) (t : Thresholds) : Job (Option Finding) :=
  match c.invocation? root files with
  | none => .done none
  | some inv =>
    .run
      { invocation := inv, directory := root, environment := environment root profile t, timeoutMs }
      fun outcome => .done ((judge inv outcome).map fun (category, text) =>
        ⟨c.name, profile, .check, category, text⟩)

/-- Runs a check on some files. -/
def perform (c : CustomCheck) (root : Path) (profile : String) (files : List Path)
    (t : Thresholds) : Job (Option Finding) :=
  c.performWithin (c.timeoutSeconds * 1000) root profile files t

end CustomCheck

namespace Settings

/-- The profile under which checks for all languages are reported. -/
def globalProfile : String := "custom"

/-- The checks of a language. -/
def checksOf (s : Settings) (l : Language) : List CustomCheck :=
  s.checks.filter (·.languages.contains l)

/-- The checks for all languages together. -/
def globalChecks (s : Settings) : List CustomCheck :=
  s.checks.filter (·.languages.isEmpty)

/-- Looks at the sizes of some files, at one after another, if there is a limit. -/
def performSizeCheck (s : Settings) (l : Language) (files : List Path) : Job (Option Finding) :=
  match s.thresholds.maxFileSizeKb with
  | none => .done none
  | some limit =>
    (Job.each (fun f => Job.seen fun t =>
      (Check.sizeIn t s.root f).bind (Check.sizeLine? limit f)) files).andThen fun lines =>
        .done (Check.sizeFinding? l.id (lines.filterMap id))

/-- The size limit and the checks of a language, on its selected files. -/
def performChecks (s : Settings) (l : Language) (files : List Path) : Job (List Finding) :=
  if files.isEmpty then .done []
  else (s.performSizeCheck l files).andThen fun size =>
    (Job.each (fun c => c.perform s.root l.id files s.thresholds) (s.checksOf l)).andThen
      fun found => .done (size.toList ++ found.filterMap id)

/-- The checks for all languages together, on some files. -/
def performGlobalChecks (s : Settings) (files : List Path) : Job (List Finding) :=
  (Job.each (fun c => c.perform s.root globalProfile files s.thresholds) s.globalChecks).andThen
    fun found => .done (found.filterMap id)

end Settings

end LintGate
