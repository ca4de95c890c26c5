import LintGate.Process.Utility
import LintGate.Shell.State

/-!
# Processes of the shell

`forked` runs a child process: what the child does to the machine stays, what it does to itself
does not. `withRedirects` and `withVariables` change the state for one command only.
-/

namespace LintGate.Shell

open Text (Bytes)

/-- Changes the state after a run, however the run ended. -/
def afterwards (after : State → State) (x : Run α) : Run α :=
  ExceptT.mk fun s =>
    let (r, s) := x.run s
    (r, after s)

def setStatus (n : Nat) : Run Unit :=
  modify fun s => { s with status := n }

/-- Prints a message and sets the status. -/
def failWith (message : String) (status : Nat) : Run Unit :=
  modify fun s => { s.complain message with status := status }

/-- Stops the shell with a message. -/
def fatal (message : String) : Run α := do
  modify fun s => { s.complain message with status := 2 }
  throw .exit

/-- What is printed about a child that a signal killed. -/
def signalText (signal : Nat) : String :=
  match signal with
  | 1 => "Hangup"
  | 2 => ""
  | 3 => "Quit"
  | 6 => "Aborted"
  | 9 => "Killed"
  | 11 => "Segmentation fault"
  | 13 => ""
  | 14 => "Alarm clock"
  | 15 => "Terminated"
  | n => s!"Signal {n}"

/-- Takes over from a child what it leaves behind. A child with the number of its parent is a part
of the same script, and a signal to that number is meant for the parent. -/
def adopt (parent child : State) (announce : Bool) :
    Except Stop Unit → Except Stop Unit × State
  | .error .halted => (.error .halted, { parent with machine := child.machine })
  | .error (.killed process signal) =>
    let parent := { parent with machine := child.machine }
    if process = parent.process then (.error (.killed process signal), parent)
    else
      let text := signalText signal
      let parent := if announce && !text.isEmpty then
          parent.emit Descriptors.standardError (Text.encode (text ++ "\n")) else parent
      (.ok (), { parent with status := 128 + signal })
  | _ => (.ok (), { parent with machine := child.machine, status := child.status })

/-- Runs a part of the script in a process of its own. -/
def forked (x : Run Unit) : Run Unit :=
  ExceptT.mk fun s =>
    let (r, child) := x.run { s with
      depth := s.depth + 1
      jobs := []
      exitAction := none
      signalActions := s.signalActions.filter (·.2.isEmpty) }
    adopt s child true r

/-- Runs another program with some environment: in a child, or in place of the shell itself. -/
def forProgram (inPlace : Bool) (environment : List (String × String)) (x : Run Unit) : Run Unit :=
  ExceptT.mk fun s =>
    let machine := if inPlace then s.machine
      else { s.machine with nextProcess := s.machine.nextProcess + 1 }
    let (r, child) := x.run {
      machine
      assigned := environment.reverse
      exported := environment.map (·.1)
      descriptors := s.descriptors
      here := s.here
      depth := if inPlace then s.depth else s.depth + 1
      process := if inPlace then s.process else s.machine.nextProcess }
    adopt s child true r

/-- Runs a job in the background: its effects are there at once, but its time is its own. -/
def inBackground (x : Run Unit) : Run Unit :=
  ExceptT.mk fun s =>
    let number := s.machine.nextProcess
    let start := s.machine.clock
    let child := { s with
      machine := { s.machine with deadline := none, nextProcess := number + 1 }
      descriptors := s.descriptors.set 0 (some (.device .null))
      depth := s.depth + 1
      jobs := [] }
    let (ended, child) := x.run child
    let finish := child.machine.clock
    let status := match ended with
      | .error (.killed _ signal) => 128 + signal
      | _ => child.status
    let machine := { child.machine with clock := start, deadline := s.machine.deadline }
    (.ok (), { s with
               machine
               status := 0
               lastJob := some number
               jobs := ⟨number, finish, status⟩ :: s.jobs })

/-- Sets variables for one command. -/
def withVariables (values : List (String × String)) (x : Run α) : Run α :=
  ExceptT.mk fun s =>
    let names := values.map (·.1)
    let old := s.assigned.filter fun v => names.contains v.1
    let (r, t) := x.run (values.foldl (fun s v => s.set v.1 v.2) s)
    (r, { t with assigned := old ++ t.assigned.filter fun v => !names.contains v.1 })

/-! ## Opening files -/

/-- The text of an error in opening a file. -/
def openError (creating : Bool) (e : SystemError) : String :=
  if e = .notFound then if creating then "Directory nonexistent" else "No such file" else e.text

/-- Opens a file to write to its end. -/
def openForWriting (truncate : Bool) (path : String) : Run (Option Stream) := do
  let s ← get
  let refuse := fun (e : SystemError) => do
    failWith s!"cannot create {path}: {openError true e}" 2
    pure none
  match s.tree.resolve path with
  | .error e => refuse e
  | .ok (.present _ (.dir ..)) => refuse .isDirectory
  | .ok (.present _ (.device d)) => pure (some (.device d))
  | .ok (.present l (.file _ mode)) =>
    if truncate then set (s.setTree (s.tree.setAt l (some (.file [] mode))))
    pure (some (.file l))
  | .ok (.present l _) => pure (some (.file l))
  | .ok (.absent dir name) =>
    let l := dir ++ [name]
    set (s.setTree (s.tree.setAt l (some (.file [] Node.plainMode))))
    pure (some (.file l))

/-- Opens a file to read from its beginning. -/
def openForReading (path : String) : Run (Option Stream) := do
  let s ← get
  let refuse := fun (e : SystemError) => do
    failWith s!"cannot open {path}: {openError false e}" 2
    pure none
  match s.tree.stat path with
  | .error e => refuse e
  | .ok (.device d) => pure (some (.device d))
  | .ok (.file contents mode) =>
    if mode &&& Node.readBit = 0 then refuse .accessDenied
    else
      let (machine, n) := s.machine.openChannel contents
      set { s with machine }
      pure (some (.channel n))
  | .ok _ =>
    let (machine, n) := s.machine.openChannel []
    set { s with machine }
    pure (some (.channel n))

/-- Makes one redirection. The answer says whether that was possible. -/
def applyRedirect (stream : Nat) (mode : RedirectMode) (target : String) : Run Bool := do
  let put := fun (opened : Option Stream) => do
    match opened with
    | some st =>
      modify fun s => { s with descriptors := s.descriptors.set stream (some st) }
      pure true
    | none => pure false
  match mode with
  | .read => put (← openForReading target)
  | .write => put (← openForWriting true target)
  | .append => put (← openForWriting false target)
  | .document =>
    let (machine, n) := (← get).machine.openChannel (Text.rawBytes target)
    modify fun s => { s with machine }
    put (some (.channel n))
  | .duplicate =>
    if target = "-" then
      modify fun s => { s with descriptors := s.descriptors.set stream none }
      pure true
    else match (← get).stream (Nat.ofDigitChars 10 target.toList 0) with
      | some st => put (some st)
      | none =>
        failWith s!"{target}: Bad file descriptor" 2
        pure false

/-! ## Utilities -/

/-- The utilities that read their input, with the number of operands from which on they do not. -/
def inputReaders : List (String × Nat) :=
  [("cat", 1), ("head", 1), ("tail", 1), ("sort", 1), ("uniq", 1), ("wc", 1), ("cut", 1),
    ("grep", 2), ("tr", 3)]

def readsInput (k : Utility.Task) : Bool :=
  match inputReaders.lookup k.name with
  | none => false
  | some enough => k.operands.length < enough || k.operands.contains "-" || k.name = "head"
    || k.name = "tail" || k.name = "cut"

/-- How much is read where there is no end. -/
def endlessInput : Nat := 300000

/-- Runs a utility in the process that it is given. -/
def runUtility (name : String) (args : List String) : Run Unit := do
  let s ← get
  let k : Utility.Task := { name, args, tree := s.tree, environment := s.environment }
  let (k, s) := if readsInput k then
      let (input, s) := s.takeInput endlessInput
      ({ k with input }, s)
    else (k, s)
  match Utility.run? k with
  | none => failWith s!"{name}: not found" 127
  | some effect =>
    let s := s.setTree effect.tree
    let s := s.emit Descriptors.standardOutput effect.output
    let s := s.emit Descriptors.standardError effect.errors
    set { s with status := effect.status }

/-- A duration in milliseconds: a number with a point and perhaps a unit. -/
def durationMs? (s : String) : Option Nat :=
  let cs := s.toList
  let (factor, cs) := match cs.getLast? with
    | some 's' => (1000, cs.dropLast)
    | some 'm' => (60000, cs.dropLast)
    | some 'h' => (3600000, cs.dropLast)
    | some 'd' => (86400000, cs.dropLast)
    | _ => (1000, cs)
  let whole := cs.takeWhile Char.isDigit
  let fraction := match cs.dropWhile Char.isDigit with
    | '.' :: ds => some ds
    | [] => some []
    | _ => none
  fraction.bind fun ds =>
    if ds.all Char.isDigit && !(whole.isEmpty && ds.isEmpty) then
      some (Nat.ofDigitChars 10 (whole ++ ds) 0 * factor / Nat.pow 10 ds.length)
    else none

def runSleep (args : List String) : Run Unit := do
  match args.mapM durationMs? with
  | some (d :: ds) =>
    setStatus 0
    ExceptT.mk fun s => s.sleep (ds.foldl (· + ·) d)
  | some [] =>
    modify fun s => s.emit Descriptors.standardError (Text.encode "sleep: missing operand\n")
    setStatus 1
  | none =>
    let bad := (args.find? fun a => (durationMs? a).isNone).getD ""
    modify fun s => s.emit Descriptors.standardError
      (Text.rawBytes s!"sleep: invalid time interval '{bad}'\n")
    setStatus 1

/-- The number of a signal, by number or name. -/
def signalNumber (s : String) : Nat :=
  let name := if s.startsWith "SIG" then (s.drop 3).toString else s
  match name with
  | "HUP" => 1
  | "INT" => 2
  | "QUIT" => 3
  | "ABRT" => 6
  | "KILL" => 9
  | "SEGV" => 11
  | "PIPE" => 13
  | "ALRM" => 14
  | "TERM" => 15
  | "EXIT" => 0
  | _ => Nat.ofDigitChars 10 (name.toList.filter Char.isDigit) 0

/-- The signal and the processes in the arguments of `kill`. -/
def killArguments (args : List String) : Nat × List String :=
  match args with
  | "-s" :: signal :: rest => (signalNumber signal, rest)
  | "--" :: rest => (15, rest)
  | first :: rest =>
    if first.startsWith "-" then (signalNumber (first.drop 1).toString, rest) else (15, args)
  | [] => (15, [])

/-- Sends a signal. Only the shell itself can be reached; the answer is what it has to run then. -/
def runKill (args : List String) : Run (Option String) := do
  let (signal, targets) := killArguments args
  let s ← get
  setStatus 0
  if targets.contains (toString s.process) then
    if signal = 0 then pure none
    else match s.signalActions.lookup signal with
      | some action => if signal = 9 then throw (.killed s.process signal) else pure (some action)
      | none => throw (.killed s.process signal)
  else if targets.isEmpty || (s.lastJob.map toString).any targets.contains then pure none
  else
    failWith "kill: No such process" 1
    pure none

end LintGate.Shell
