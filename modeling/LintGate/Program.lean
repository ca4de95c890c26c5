import LintGate.CommandLine
import LintGate.Hook
import LintGate.Json.Printer
import LintGate.Lock
import LintGate.Report.Human
import LintGate.Report.Structured
import LintGate.Run
import LintGate.Settings.Discovery

/-!
# The program

`Program.run` carries out a command line: it finds the working tree, takes the lock, runs the tools
and reports. The report goes to the errors, where the caller reads it; the output stays free.
-/

namespace LintGate

/-- How the program is called. -/
structure ProgramCall where
  args : List String
  /-- What can be read from standard input. -/
  input : String := ""
  directory : Path
  /-- The lock files that other runs hold. -/
  heldLocks : List Location := []

/-- What the program prints, and how it ends. -/
structure ProgramResult where
  code : Nat := 0
  output : String := ""
  errors : String := ""
deriving DecidableEq, Repr

namespace Program

def name : String := "smart-lint"

def version : String := "0.1.0"

/-- The exit code when there is no verdict. -/
def fatalCode : Nat := 1

/-- The exit code when the program breaks off. -/
def abortCode : Nat := 101

def usage : String :=
  "Usage: smart-lint [OPTIONS] [check|tools|version]\n\n" ++
  "Options:\n" ++
  "      --dir <DIR>        Directory to start in\n" ++
  "      --output <OUTPUT>  Form of the report: human or json\n" ++
  "      --debug            Say more about what is done\n" ++
  "      --hook             Read a hook payload from standard input\n" ++
  "      --no-lock          Do not take the lock\n" ++
  "  -h, --help             Print help\n" ++
  "  -V, --version          Print version\n"

/-- What is printed instead of carrying out a command. -/
def explain (fault : UsageFault) : ProgramResult :=
  match fault with
  | .helpWanted => { output := usage }
  | .versionWanted => { output := s!"{name} {version}\n" }
  | other => { code := other.exitCode, errors := "error: invalid arguments\n\n" ++ usage }

/-- Whether the environment allows colours. -/
def allowsColour (m : Machine) : Bool :=
  (m.environment.lookup "NO_COLOR").isNone

/-- Where lock files lie. -/
def lockDirectory (m : Machine) : Path :=
  (m.environment.lookup "TMPDIR").getD "/tmp"

/-- The report of a fault. -/
def faultResult (colour : Bool) (fault : Fault) : ProgramResult :=
  match fault with
  | .overflow => { code := abortCode, errors := s!"thread 'main' panicked:\n{fault.message}\n" }
  | _ =>
    { code := fatalCode
      errors := Style.paint colour { colour := some .red, bold := true } "error:"
        ++ s!" {fault.message}\n" }

/-- Where to look for the working tree. -/
def startDirectory (line : CommandLine) (m : Machine) (input : String) :
    Except Fault (Option Path) :=
  if line.dir.isNone && line.hook then
    match HookPayload.parse? input with
    | some payload => .ok (payload.directoryHint m.tree)
    | none => .error (.hookPayload "not a payload")
  else .ok line.dir

/-- The settings for a command line. -/
def settingsFor (line : CommandLine) (m : Machine) (call : ProgramCall) :
    Except Fault Settings := do
  let startDir ← startDirectory line m call.input
  Settings.find m.tree
    { startDir, output := line.output, debug := line.debug, noLock := line.noLock } call.directory

/-- Where the tools of the working tree are looked for. -/
def searchPath (m : Machine) : String :=
  (m.environment.lookup "PATH").getD ""

def resolverFor (settings : Settings) (searchPath : String) : Resolver where
  searchPath := searchPath
  root := settings.root

/-- Shows the tools of the working tree. -/
def showTools (m : Machine) (settings : Settings) : Except Fault ProgramResult × Machine :=
  let found := do
    let context ← RunContext.prepare m.tree settings (resolverFor settings (searchPath m))
    return (context, ← context.languages m.tree)
  match found with
  | .error fault => (.error fault, m)
  | .ok (context, languages) =>
    let (list, m) := (context.listTools languages).perform Machine.host m
    let errors := match settings.output with
      | .json => (Report.toolsJson list).pretty ++ "\n"
      | .human => Report.renderTools list (allowsColour m)
    (.ok { errors }, m)

/-- The report of a verdict. -/
def reportVerdict (m : Machine) (mode : OutputMode) (verdict : Verdict) (tokens : Nat) : String :=
  match mode with
  | .json => (Report.verdictJson verdict tokens).pretty ++ "\n"
  | .human => Report.renderHuman verdict tokens (allowsColour m) ++ "\n"

/-- How a check ends that comes to a verdict. -/
def verdictResult (m : Machine) (mode : OutputMode) (verdict : Verdict) (tokens : Nat) :
    ProgramResult where
  code := verdict.exitCode
  errors := reportVerdict m mode verdict tokens

/-- Takes the lock of the working tree, if that is wanted. -/
def takeLock (m : Machine) (settings : Settings) (held : List Location) :
    Except Fault Unit × Machine :=
  if settings.lock then
    let (answer, tree) := Lock.acquire m.tree held (lockDirectory m) settings.root
      (settings.lockTimeoutSeconds * 1000)
    (answer.map fun _ => (), { m with tree })
  else (.ok (), m)

/-- Does some work under the lock of the working tree. Who does not get the lock does none of it. -/
def underLock {α : Type} (m : Machine) (settings : Settings) (held : List Location)
    (work : Job (Except Fault α)) : Except Fault α × Machine :=
  match takeLock m settings held with
  | (.error fault, m) => (.error fault, m)
  | (.ok _, m) => work.perform Machine.host m

/-- The work of a check: it counts the tokens of the context, takes a snapshot of the candidates,
detects the languages and lets them be worked on. -/
def checking (settings : Settings) (searchPath : String) : Job (Except Fault (Verdict × Nat)) :=
  .look fun t =>
    let tokens := Check.contextTokens t settings.root settings.contextFiles
    .look fun t =>
      match RunContext.prepare t settings (resolverFor settings searchPath) with
      | .error fault => .done (.error fault)
      | .ok context => .look fun t =>
        match context.languages t with
        | .error fault => .done (.error fault)
        | .ok languages => (context.perform languages).andThen fun verdict =>
          .done (.ok (verdict, tokens))

/-- Checks the working tree and reports. -/
def check (m : Machine) (settings : Settings) (held : List Location) :
    Except Fault ProgramResult × Machine :=
  let (answer, m) := underLock m settings held (checking settings (searchPath m))
  (answer.map fun (verdict, tokens) => verdictResult m settings.output verdict tokens, m)

/-- Carries out a command. -/
def carryOut (line : CommandLine) (m : Machine) (call : ProgramCall) :
    Except Fault ProgramResult × Machine :=
  match line.command with
  | .version => (.ok { output := version ++ "\n" }, m)
  | .tools =>
    match settingsFor line m call with
    | .error fault => (.error fault, m)
    | .ok settings => showTools m settings
  | .check =>
    match settingsFor line m call with
    | .error fault => (.error fault, m)
    | .ok settings => check m settings call.heldLocks

/-- Runs the program on a machine whose environment is that of the program. -/
def run (m : Machine) (call : ProgramCall) : ProgramResult × Machine :=
  match CommandLine.parse call.args with
  | .error fault => (explain fault, m)
  | .ok line =>
    match carryOut line m call with
    | (.ok result, m) => (result, m)
    | (.error fault, m) => (faultResult (allowsColour m) fault, m)

end Program

end LintGate
