import LintGate.Process.Capture
import LintGate.Process.Invocation
import LintGate.Shell.Evaluation

/-!
# Running invocations

`Machine.run` runs an invocation in a directory until it ends or its time is over, and collects
what it printed: first the output, then the errors, each without blanks at its end.
-/

namespace LintGate

open Text (Bytes)

namespace Machine

/-- How long one waits for output after the end of a program, in milliseconds. -/
def drainMs : Nat := 500

/-- How many files may stand for their interpreters. -/
def maxInterpreters : Nat := 4

/-- Whether the file at a path can be run as a program, scripts by their interpreters. A script that
names none is refused unless `lenient`. -/
def checkProgram (t : FileTree) (lenient : Bool) : Nat → Path → Except SystemError Unit
  | 0, _ => .error .tooManyLinks
  | fuel + 1, path =>
    match t.stat path with
    | .error e => .error e
    | .ok (.program _) => .ok ()
    | .ok (.file contents mode) =>
      if mode &&& 0o111 = 0 then .error .accessDenied
      else match Shell.interpreter? contents with
        | some (interpreter, _) =>
          if interpreter.isEmpty then .error .notExecutable
          else checkProgram t lenient fuel interpreter
        | none => if lenient then .ok () else .error .notExecutable
    | .ok _ => .error .accessDenied

/-- Tries the places of a program one after another. A place without permission does not end the
search, but is what is reported in the end. -/
def tryPlaces (t : FileTree) (lenient : Bool) (worst : SystemError) :
    List Path → Except SystemError Path
  | [] => .error worst
  | path :: more =>
    match checkProgram t lenient maxInterpreters path with
    | .ok () => .ok path
    | .error e =>
      if e = .accessDenied then tryPlaces t lenient e more
      else if e = .notFound || e = .notDirectory then tryPlaces t lenient worst more
      else .error e

/-- The path of the program to start. -/
def findProgram (t : FileTree) (lenient : Bool) (searchPath program : String) :
    Except SystemError Path :=
  if program.isEmpty then .error .notFound
  else if program.toList.contains '/' then
    (checkProgram t lenient maxInterpreters program).map fun _ => program
  else
    tryPlaces t lenient .notFound ((Text.pieces ':' searchPath.toList).map fun dir =>
      Path.join (String.ofList dir) program)

/-- How deep commands may be nested, and how often loops may go round. -/
def shellFuel : Nat := 20000

/-- Starts a program in a directory with two channels for what it prints. -/
def startState (m : Machine) (l : Launch) (here : Location) (environment : List (String × String)) :
    Shell.State :=
  let (m, output) := { m with channels := [], holders := [] }.openChannel []
  let (m, errors) := m.openChannel []
  { machine := { m with
      deadline := some (m.clock + l.timeoutMs)
      nextProcess := m.nextProcess + 1 }
    assigned := environment.reverse
    exported := environment.map (·.1)
    descriptors := [(0, .device .null), (1, .channel output), (2, .channel errors)]
    here
    process := m.nextProcess }

/-- What a channel delivers, unless another process keeps it open for too long. -/
def delivery? (m : Machine) (source : Capture.Source) (n : Nat) : Option Capture.Delivery :=
  if m.clock + drainMs < m.heldUntil n m.clock then none else some ⟨source, m.contents n⟩

/-- Until when one waits for what a channel delivers. -/
def drainedAt (m : Machine) (n : Nat) : Nat :=
  min (m.heldUntil n m.clock) (m.clock + drainMs)

/-- The outcome of a program that was started at a time. -/
def outcome (m : Machine) (start : Nat) (ended : Except Shell.Stop Unit) (status : Nat) :
    Outcome × Machine :=
  let printed := Capture.collect ((m.delivery? .output 0).toList ++ (m.delivery? .errors 1).toList)
  let finish := max (m.drainedAt 0) (m.drainedAt 1)
  let m := { m with clock := finish, deadline := none, channels := [], holders := [] }
  match ended with
  | .error .halted => (.timedOut ((finish - start) / 1000) printed, m)
  | .error (.killed _ _) => (.exited none printed, m)
  | _ => (.exited (some (status % 256)) printed, m)

/-- Where the relative paths of a caller begin is not for a program to change. -/
def returnTo (m : Machine) (here : Location) : Machine :=
  { m with tree := { m.tree with here } }

/-- Whether a path can be handed to the system, which ends it by a zero. -/
def isPassablePath (p : Path) : Bool :=
  !(Text.rawBytes p).contains 0

/-- Whether a text can be handed to the system. -/
def isPassable (s : String) : Bool :=
  !s.toList.contains '\x00'

def zeroMessage : String := "nul byte found in provided data"

/-- Runs an invocation. -/
def run (m : Machine) (l : Launch) : Outcome × Machine :=
  let inv := l.invocation
  let paths := [inv.program, l.directory]
  let texts := inv.args ++ l.environment.flatMap fun v => [v.1, v.2]
  if !(paths.all isPassablePath && texts.all isPassable) then (.failedToStart zeroMessage, m)
  else match m.tree.resolve l.directory with
    | .ok (.present here (.dir ..)) =>
      let environment := Shell.withSettings m.environment l.environment
      let searchPath := (environment.lookup "PATH").getD Shell.defaultSearchPath
      let lenient := l.environment.any (·.1 = "PATH")
      match findProgram { m.tree with here } lenient searchPath inv.program with
      | .error e => (.failedToStart e.message, m)
      | .ok path =>
        if l.timeoutMs = 0 then (.timedOut 0 "", m)
        else
          let (ended, s) := (Shell.launch shellFuel path inv.args).run
            (m.startState l here environment)
          let (outcome, last) := s.machine.outcome m.clock ended s.status
          (outcome, last.returnTo m.tree.here)
    | .ok (.present _ _) => (.failedToStart SystemError.notDirectory.message, m)
    | .ok (.absent _ _) => (.failedToStart SystemError.notFound.message, m)
    | .error e => (.failedToStart e.message, m)

theorem here_run (m : Machine) (l : Launch) : (m.run l).2.tree.here = m.tree.here := by
  unfold run
  dsimp only
  repeat' split
  all_goals rfl

end Machine

end LintGate
