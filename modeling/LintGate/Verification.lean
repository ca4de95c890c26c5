import LintGate.Process.Job
import LintGate.Text.Blank
import LintGate.Tool.Binding

/-!
# Verification of one role

A formatter first repairs the files and is then asked whether it is content; a linter is only asked.
A tool that cannot load its configuration is run again with arguments that make it do without. What
the checks print becomes at most one finding about violations and one about failures of the tool.
-/

namespace LintGate

/-- What a role reports in the end. -/
inductive Verified where
  | clean
  | failed (findings : List Finding)
deriving DecidableEq, Repr

def Verified.findings : Verified → List Finding
  | .clean => []
  | .failed fs => fs

/-- What all roles of a language share. -/
structure StageOptions where
  root : Path
  profile : String
  /-- Replaces the time limit of the tool. -/
  timeoutMs : Option Nat := none
  autofix : Bool := false
  unfixable : List String := []
deriving DecidableEq, Repr

/-- One role of a language with the tool that serves it. -/
structure Stage where
  tool : InstalledTool
  role : Role
  files : List Path
  options : StageOptions
deriving DecidableEq, Repr

/-- What one check comes to. -/
inductive Evaluation where
  | clean
  | violation (text : String)
  /-- The tool could not load its configuration. -/
  | configError (output : String)
  | broken (message : String)
  | timedOut (message : String)
deriving DecidableEq, Repr

/-- The texts of violations and of failures, in order. -/
structure Tally where
  violations : List String := []
  failures : List String := []
deriving DecidableEq, Repr

namespace Tally

def addViolation (t : Tally) (text : String) : Tally :=
  { t with violations := t.violations ++ [text] }

def addFailure (t : Tally) (message : String) : Tally :=
  { t with failures := t.failures ++ [message] }

end Tally

/-- How a pass of repairs ended. -/
inductive Repair where
  | finished
  | configError
  | failed (message : String)
deriving DecidableEq, Repr

namespace Stage

/-- How many files are given to one invocation at most. -/
def maxFiles : Nat := 200

/-- Cuts a list into parts of a size. -/
def chunks (size : Nat) : Nat → List Path → List (List Path)
  | 0, _ => []
  | fuel + 1, files =>
    if files.isEmpty then [] else files.take size :: chunks size fuel (files.drop size)

/-- The directory of a file as an argument. What is no text in its path is replaced. -/
def directoryOf (file : Path) : String :=
  match file.parent? with
  | some dir => if dir.isEmpty then "." else "./" ++ Text.lossy dir
  | none => "."

/-- Inserts into a strictly increasing list of texts. -/
def insertText (s : String) : List String → List String
  | [] => [s]
  | t :: rest => if s < t then s :: t :: rest else if s = t then t :: rest
      else t :: insertText s rest

/-- The directories of some files, in order and each once. -/
def directories (files : List Path) : List String :=
  files.foldl (fun found f => insertText (directoryOf f) found) []

/-- The targets of each invocation. -/
def targetLists (targets : Targets) (files : List Path) : List (List String) :=
  match targets with
  | .project => [[]]
  | .eachFile => files.map fun f => [f.asArgument]
  | .files => (chunks maxFiles files.length files).map fun part => part.map Path.asArgument
  | .directories => [directories files]

/-- The invocations in a mode; the extra arguments stand before the targets. -/
def invocations (s : Stage) (mode extra : List String) : List Invocation :=
  (targetLists s.tool.tool.targets s.files).map fun targets =>
    s.tool.baseInvocation.withArgs (mode ++ extra ++ targets)

/-- Tools are told to print without colours. -/
def environment : List (String × String) :=
  [("NO_COLOR", "1")]

def timeoutMs (s : Stage) : Nat :=
  s.options.timeoutMs.getD (s.tool.tool.timeoutSeconds * 1000)

def launch (s : Stage) (inv : Invocation) : Launch where
  invocation := inv
  directory := s.options.root
  environment := environment
  timeoutMs := s.timeoutMs

/-- The arguments for repairs. Only formatters repair before they are asked. -/
def fixArgs? (s : Stage) : Option (List String) :=
  match s.role with
  | .formatter => s.tool.tool.fix
  | _ => none

/-- The arguments that make the tool do without its configuration. -/
def overrideArgs (s : Stage) : List String :=
  (s.tool.tool.recovery.map (·.argsFor s.tool.major)).getD []

/-- The arguments of a check that repairs what is safe to repair, if that is wanted. -/
def autofixArgs? (s : Stage) : Option (List String) :=
  match s.role with
  | .linter => if s.options.autofix then s.tool.tool.autofix else none
  | _ => none

/-- The options that keep rules out of repairs. -/
def unfixableArgs (s : Stage) : List String :=
  match s.tool.tool.unfixableOption with
  | some option => s.options.unfixable.flatMap fun rule => [option, rule]
  | none => []

def checkArgs (s : Stage) : List String :=
  match s.autofixArgs? with
  | some args => args ++ s.unfixableArgs
  | none => s.tool.tool.checkArgs s.tool.major

/-- Whether an output shows that the configuration could not be loaded. -/
def showsConfigError (s : Stage) (output : String) : Bool :=
  s.tool.tool.recovery.any (·.recognises output)

/-- What the outcome of a check comes to. -/
def evaluate (s : Stage) (inv : Invocation) : Outcome → Evaluation
  | .failedToStart message => .broken s!"failed to start {inv.display}: {message}"
  | .timedOut after output =>
    let printed := if output.isEmpty then "" else "\n" ++ output
    .timedOut (s!"timed out after {after}s: {inv.display}" ++ printed)
  | .exited none output => .broken s!"terminated by signal: {inv.display}\n{output}"
  | .exited (some code) output =>
    if code = 0 then
      if s.tool.tool.failsOnOutput && !Text.allBlank output then .violation output else .clean
    else if s.showsConfigError output then .configError output
    else if s.tool.tool.failureCodes.contains code then
      .broken s!"{inv.display} exited with code {code}\n{output}"
    else if Text.allBlank output then .violation s!"{inv.display} exited with code {code}"
    else .violation output

/-- What is reported when the tool does not even do without its configuration. -/
def stillConfigError (s : Stage) (output : String) : String :=
  let extra := " ".intercalate s.overrideArgs
  s!"configuration could not be loaded, even with {extra}:\n{output}"

def failure (s : Stage) (message : String) : Finding :=
  ⟨s.tool.name, s.options.profile, s.role, .toolFailure, message⟩

/-! ## Repairs -/

/-- What the outcome of a repair means for the pass; `none` lets it go on. -/
def repairResult? (s : Stage) (inv : Invocation) : Outcome → Option Repair
  | .exited (some code) output =>
    if code ≠ 0 && s.showsConfigError output then some .configError else none
  | .exited none _ => none
  | .timedOut after output =>
    some (.failed s!"fix pass timed out after {after}s: {inv.display}\n{output}")
  | .failedToStart message => some (.failed s!"failed to start {inv.display}: {message}")

/-- Runs repairs until one of them ends the pass. -/
def repair (s : Stage) : List Invocation → Job Repair
  | [] => .done .finished
  | inv :: rest => .run (s.launch inv) fun outcome =>
    match s.repairResult? inv outcome with
    | some r => .done r
    | none => repair s rest

/-! ## Checks -/

/-- Runs checks that do without the configuration. The answer says whether the role goes on. -/
def checkWithout (s : Stage) : List Invocation → Tally → Job (Tally × Bool)
  | [], t => .done (t, true)
  | inv :: rest, t => .run (s.launch inv) fun outcome =>
    match s.evaluate inv outcome with
    | .clean => checkWithout s rest t
    | .violation text => checkWithout s rest (t.addViolation text)
    | .configError output => checkWithout s rest (t.addFailure (s.stillConfigError output))
    | .broken message => checkWithout s rest (t.addFailure message)
    | .timedOut message => .done (t.addFailure message, false)

/-- The checks that are run again when one of them could not load the configuration. -/
def recoveryInvocations (s : Stage) : List Invocation :=
  s.invocations s.checkArgs s.overrideArgs

/-- Runs checks with the configuration. -/
def checkWith (s : Stage) : List Invocation → Tally → Job Tally
  | [], t => .done t
  | inv :: rest, t => .run (s.launch inv) fun outcome =>
    match s.evaluate inv outcome with
    | .clean => checkWith s rest t
    | .violation text => checkWith s rest (t.addViolation text)
    | .broken message => checkWith s rest (t.addFailure message)
    | .timedOut message => .done (t.addFailure message)
    | .configError _ => (s.checkWithout s.recoveryInvocations t).andThen fun (t, goesOn) =>
      if goesOn then checkWith s rest t else .done t

/-- The findings of a tally: one about the violations, then one about the failures. -/
def findingsOf (s : Stage) (t : Tally) : List Finding :=
  let violations :=
    if t.violations.isEmpty then []
    else [⟨s.tool.name, s.options.profile, s.role, Category.violationOf s.role,
      "\n".intercalate t.violations⟩]
  let failures := if t.failures.isEmpty then [] else [s.failure ("\n".intercalate t.failures)]
  violations ++ failures

def verdict (s : Stage) (t : Tally) : Verified :=
  if (s.findingsOf t).isEmpty then .clean else .failed (s.findingsOf t)

/-- Asks the tool whether it is content. -/
def verify (s : Stage) (withoutConfig : Bool) : Job Verified :=
  if withoutConfig then
    (s.checkWithout s.recoveryInvocations {}).andThen fun (t, _) => .done (s.verdict t)
  else
    (s.checkWith (s.invocations s.checkArgs []) {}).andThen fun t => .done (s.verdict t)

/-- Repairs first, once more without the configuration if need be, and then asks. -/
def perform (s : Stage) : Job Verified :=
  match s.fixArgs? with
  | none => s.verify false
  | some fix => (s.repair (s.invocations fix [])).andThen fun first =>
    match first with
    | .finished => s.verify false
    | .failed message => .done (.failed [s.failure message])
    | .configError => (s.repair (s.invocations fix s.overrideArgs)).andThen fun second =>
      match second with
      | .failed message => .done (.failed [s.failure message])
      | _ => s.verify true

end Stage

/-- Runs the tool of a role on some files. A role without a tool, or without files, is clean. -/
def Binding.verify (b : Binding) (files : List Path) (options : StageOptions) : Job Verified :=
  match b.installed with
  | none => .done .clean
  | some tool =>
    if files.isEmpty then .done .clean
    else (⟨tool, b.role, files, options⟩ : Stage).perform

end LintGate
