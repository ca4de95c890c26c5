import LintGate.Shell.Arithmetic
import LintGate.Shell.Fork
import LintGate.SearchPath
import LintGate.Shell.Reader

/-!
# Running shell scripts and programs

`evaluate` runs a command of a script and `launch` a program of the file tree, which may be a
script again. Both take fuel, which bounds how deep commands are nested and how often loops go
round.
-/

namespace LintGate.Shell

open Text (Bytes)

/-- The search path where none is given. -/
def defaultSearchPath : String := "/usr/local/sbin:/usr/local/bin:/usr/sbin:/usr/bin:/sbin:/bin"

/-- The path of a command: a name with a slash is one, others are looked for. -/
def commandPath? (s : State) (name : String) : Option Path :=
  if name.toList.contains '/' then some name
  else
    let searchPath := (s.assigned.lookup "PATH").getD defaultSearchPath
    ((Text.pieces ':' searchPath.toList).map fun dir =>
      Path.join (String.ofList dir) name).find? s.tree.isFile

/-- The commands that the shell itself carries out. -/
def builtins : List String :=
  [":", ".", "[", "break", "cd", "command", "continue", "echo", "eval", "exec", "exit", "export",
    "false", "kill", "local", "printf", "pwd", "read", "readonly", "return", "set", "shift", "test",
    "trap", "true", "umask", "unset", "wait"]

/-- The interpreter that the first line of a script names, with its argument. -/
def interpreter? (contents : Bytes) : Option (String × List String) :=
  match contents with
  | 35 :: 33 :: rest =>
    let line := (Text.ofRawBytes (rest.takeWhile (· ≠ 10))).toList
    let blank := fun (c : Char) => c = ' ' || c = '\t'
    let trimmed := (line.dropWhile blank).reverse.dropWhile blank |>.reverse
    let path := trimmed.takeWhile fun c => !blank c
    let argument := (trimmed.drop path.length).dropWhile blank
    some (String.ofList path, if argument.isEmpty then [] else [String.ofList argument])
  | _ => none

/-- The names of programs that interpret scripts of the shell. -/
def isShell (program : String) : Bool :=
  ["sh", "dash", "bash"].contains program

/-- How a shell is started. -/
inductive Start where
  | script (text : List Char) (name : String) (args : List String)
  | file (path : String) (args : List String)
  | input

/-- Reads the arguments of a shell: its options, then a script or the path of one. -/
def startOf : List String → Start
  | "-c" :: script :: name :: args => .script script.toList name args
  | ["-c", script] => .script script.toList "sh" []
  | "-ec" :: script :: name :: args => .script script.toList name args
  | ["-ec", script] => .script script.toList "sh" []
  | "--" :: path :: args => .file path args
  | [] => .input
  | arg :: rest =>
    if arg = "-s" || arg = "-" then .input
    else if arg.startsWith "-" then startOf rest
    else .file arg rest

def setsExit (args : List String) : Bool :=
  args.takeWhile (·.startsWith "-") |>.any fun o => o.toList.contains 'e'

/-- The assignments before a command of `env`, and the rest. -/
def splitSettings (args : List String) : List (String × String) × List String :=
  let isSetting := fun (a : String) => a.toList.contains '='
  let settings := (args.takeWhile isSetting).map fun a =>
    (String.ofList (a.toList.takeWhile (· ≠ '=')),
      String.ofList ((a.toList.dropWhile (· ≠ '=')).drop 1))
  (settings, args.dropWhile isSetting)

/-- The arguments of `env` behind its options, and whether the environment is emptied first. -/
def environmentOptions : List String → Bool × List String
  | "-i" :: rest => (true, rest)
  | "-" :: rest => (true, rest)
  | args => (false, args)

/-- Adds settings to an environment. -/
def withSettings (environment settings : List (String × String)) : List (String × String) :=
  settings.foldl (fun env v => env.filter (·.1 ≠ v.1) ++ [v]) environment

/-- Sets a variable as `export` and the like are told to. -/
def declare (exporting : Bool) (arg : String) (s : State) : State :=
  let name := String.ofList (arg.toList.takeWhile (· ≠ '='))
  let s := match arg.toList.dropWhile (· ≠ '=') with
    | '=' :: value => s.set name (String.ofList value)
    | _ => s
  if exporting then s.exportName name else s

/-- Makes a variable local to the function that is run. -/
def makeLocal (s : State) (arg : String) : State :=
  let name := String.ofList (arg.toList.takeWhile (· ≠ '='))
  declare false arg { s with locals := (name, s.assigned.lookup name) :: s.locals }

/-- The first line of an input and what follows it. Whether the line was ended is answered too. -/
def takeLine (input : Bytes) : Bytes × Bytes × Bool :=
  let line := input.takeWhile (· ≠ 10)
  match input.drop line.length with
  | _ :: rest => (line, rest, true)
  | [] => (line, [], false)

/-- Gives the fields of a line to variables; the last gets all that is left. -/
def assignFields (separators : List Char) : List String → List Char → State → State
  | [], _, s => s
  | [name], cs, s =>
    let trimmed :=
      ((cs.dropWhile separators.contains).reverse.dropWhile separators.contains).reverse
    s.set name (String.ofList trimmed)
  | name :: more, cs, s =>
    let cs := cs.dropWhile separators.contains
    let field := cs.takeWhile fun c => !separators.contains c
    assignFields separators more (cs.drop field.length) (s.set name (String.ofList field))

def runRead (args : List String) : Run Unit := do
  let names := args.filter fun a => !a.startsWith "-"
  let (input, s) := (← get).takeInput 0
  let (line, rest, ended) := takeLine input
  let s := s.returnInput rest
  let s := assignFields s.separators names (Text.ofRawBytes line).toList s
  set { s with status := if ended then 0 else 1 }

def runCd (args : List String) : Run Unit := do
  let s ← get
  let target := (args.find? fun a => !a.startsWith "-" || a = "-").getD
    ((s.assigned.lookup "HOME").getD "")
  match s.tree.resolve target with
  | .ok (.present l (.dir ..)) => set { s with here := l, status := 0 }
  | _ => failWith s!"cd: can't cd to {target}" 2

def runSet (args : List String) : Run Unit := do
  let flags := args.takeWhile fun a => (a.startsWith "-" || a.startsWith "+") && a ≠ "--"
  let rest := args.drop flags.length
  modify fun s => flags.foldl (fun s flag =>
    if flag.toList.contains 'e' then { s with exitsOnFailure := flag.startsWith "-" } else s) s
  modify fun s => match rest with
    | "--" :: args => { s with args, status := 0 }
    | [] => { s with status := 0 }
    | args => { s with args, status := 0 }

/-- Waits until a job in the background has ended, or all of them where none is named. -/
def runWait (args : List String) : Run Unit := do
  let s ← get
  let awaited := fun (j : Background) => args.isEmpty || args.contains (toString j.number)
  let finish := ((s.jobs.filter awaited).map (·.finish)).foldl max s.machine.clock
  let status := if args.isEmpty then 0 else
    match s.jobs.find? awaited with
    | some j => j.status
    | none => 127
  set { s with jobs := s.jobs.filter fun j => !awaited j, status }
  ExceptT.mk fun s => s.sleep (finish - s.machine.clock)

/-- Says what is run at a signal or at the exit; a dash takes it back. -/
def setAction (action : String) (s : State) (signal : String) : State :=
  let action? := if action = "-" then none else some action
  match signalNumber signal with
  | 0 => { s with exitAction := action? }
  | n => { s with
    signalActions := (action?.toList.map fun a => (n, a)) ++ s.signalActions.filter (·.1 ≠ n) }

def runTrap : List String → Run Unit
  | [] => setStatus 0
  | action :: signals =>
    modify fun s => { signals.foldl (setAction action) s with status := 0 }

/-- Prints what a builtin writes, which fails where the output is closed. -/
def printOutput (name : String) (bs : Bytes) : Run Unit := do
  match (← get).stream Descriptors.standardOutput with
  | some _ =>
    modify fun s => s.emit Descriptors.standardOutput bs
    setStatus 0
  | none => failWith s!"{name}: {name}: I/O error" 1

/-- Evaluates the arguments of `test`. -/
def runCondition (args : List String) : Run Unit := do
  match Utility.Condition.holds? (← get).tree args with
  | some b => setStatus (if b then 0 else 1)
  | none =>
    let word := (args.drop 1).headD ""
    if args.length = 2 then failWith s!"[: {word}: argument expected" 2
    else failWith s!"[: {word}: unexpected operator" 2

/-- Whether a builtin is given something else than a number. -/
def isIllegal (name : String) (args : List String) : Bool :=
  ["exit", "return", "break", "continue", "shift"].contains name
    && args.head?.any fun a => a.isEmpty || !a.toList.all Char.isDigit

/-- The builtins that need no evaluation of their own. -/
def runSimpleBuiltin (name : String) (args : List String) : Run Unit := do
  let number := fun (missing : Nat) => (args.head?.map Utility.countOf).getD missing
  let given := args.headD ""
  if isIllegal name args then fatal s!"{name}: Illegal number: {given}"
  else match name with
  | ":" => setStatus 0
  | "break" =>
    setStatus 0
    throw (.breakLoop (number 1))
  | "continue" =>
    setStatus 0
    throw (.continueLoop (number 1))
  | "exit" =>
    modify fun s => { s with status := number s.status % 256 }
    throw .exit
  | "return" =>
    modify fun s => { s with status := number s.status % 256 }
    throw .returned
  | "echo" => printOutput name (Utility.echo true args)
  | "cd" => runCd args
  | "export" => modify fun s => { args.foldl (fun s a => declare true a s) s with status := 0 }
  | "local" => modify fun s => { args.foldl makeLocal s with status := 0 }
  | "readonly" => modify fun s => { args.foldl (fun s a => declare false a s) s with status := 0 }
  | "unset" => modify fun s => { args.foldl State.unset s with status := 0 }
  | "read" => runRead args
  | "set" => runSet args
  | "shift" =>
    let s ← get
    if s.args.length < number 1 then fatal "shift: can't shift that many"
    else set { s with args := s.args.drop (number 1), status := 0 }
  | "wait" => runWait args
  | "trap" => runTrap args
  | "test" => runCondition args
  | "[" =>
    if args.getLast? = some "]" then runCondition args.dropLast else failWith "[: missing ]" 2
  | "printf" =>
    if args.isEmpty then failWith "printf: usage: printf format [arg ...]" 2
    else printOutput name (Utility.printf args)
  | "umask" => setStatus 0
  | _ => runUtility name args

/-- Describes a command for `command -v`. -/
def describe (s : State) (name : String) : Option String :=
  if builtins.contains name || (s.functions.lookup name).isSome then some name
  else (commandPath? s name).filter fun p => s.tree.isProgram p

/-- A word that asks for the arguments where there are none stands for nothing. -/
def dropEmptyArguments (noArgs : Bool) : Word → Word
  | [] => []
  | .text [] true :: .parameter "@" none [] true :: rest =>
    if noArgs then dropEmptyArguments noArgs rest
    else .text [] true :: .parameter "@" none [] true :: dropEmptyArguments noArgs rest
  | part :: rest => part :: dropEmptyArguments noArgs rest

/-- What an operator makes of a value, if it needs no other. -/
def keepsValue (empty : Bool) (value : Option String) : Bool :=
  match value with
  | some v => !(empty && v.isEmpty)
  | none => false

/-- Whether the values of assignments run scripts, whose status they then have. -/
def runsScript (assignments : List Assignment) : Bool :=
  assignments.any fun a => a.value.any fun p => match p with
    | .output .. => true
    | _ => false

/-- Lets a loop go on after a round that a stop ended. The answer says whether it does. -/
def afterRound (x : Run Unit) : Run Bool :=
  ExceptT.mk fun s =>
    match x.run s with
    | (.ok (), s) => (.ok true, s)
    | (.error (.breakLoop n), s) =>
      if n ≤ 1 then (.ok false, s) else (.error (.breakLoop (n - 1)), s)
    | (.error (.continueLoop n), s) =>
      if n ≤ 1 then (.ok true, s) else (.error (.continueLoop (n - 1)), s)
    | (.error stop, s) => (.error stop, s)

/-- Asks for the status of a command, so that a failure is no reason to exit. -/
def testing (x : Run Unit) : Run Nat := do
  let outer := (← get).tested
  modify fun s => { s with tested := true }
  afterwards (fun s => { s with tested := outer }) x
  return (← get).status

/-- Exits after a failure that nobody asked for. -/
def checkFailure : Run Unit := do
  let s ← get
  if s.exitsOnFailure && !s.tested && s.status ≠ 0 then throw .exit

/-- Runs a function: it has arguments of its own, and a return ends it. -/
def asFunction (args : List String) (x : Run Unit) : Run Unit :=
  ExceptT.mk fun s =>
    let (r, t) := x.run { s with args, locals := [] }
    let t := t.locals.foldl (fun t v => match v.2 with
      | some value => t.set v.1 value
      | none => t.unset v.1) t
    let t := { t with args := s.args, locals := s.locals }
    match r with
    | .error .returned => (.ok (), t)
    | r => (r, t)

/-- Runs stages one after another, each with what the one before it printed as its input. -/
def inPipe (input : Option Nat) (output : Option Nat) (x : Run Unit) : Run Unit :=
  forked do
    modify fun s =>
      let ds := match input with
        | some n => s.descriptors.set 0 (some (.channel n))
        | none => s.descriptors
      let ds := match output with
        | some n => ds.set 1 (some (.channel n))
        | none => ds
      { s with descriptors := ds }
    x

/-- Keeps what a process writes to open as long as another one that has been left behind. -/
def holdIfHalted (x : Run Unit) : Run Unit :=
  ExceptT.mk fun s =>
    match x.run s with
    | (.error .halted, t) =>
      let finish := (t.machine.holders.map (·.2)).foldl max 0
      let machine := if finish = 0 then t.machine else t.machine.hold s.descriptors finish
      (.error .halted, { t with machine })
    | other => other

mutual

/-- The cells of a piece of a word. -/
def expandPart : Nat → Part → Run (List Cell)
  | 0, _ => fatal "too much recursion"
  | fuel + 1, part => do
    match part with
    | .text cs quoted =>
      let cells := glyphCells quoted false (String.ofList cs)
      return if quoted then .mark :: cells else cells
    | .output script quoted => do
      let (machine, n) := (← get).machine.openChannel []
      modify fun s => { s with machine }
      forked do
        modify fun s =>
          { s with descriptors := s.descriptors.set 1 (some (.channel n)) }
        runText fuel script
      let bytes := (← get).machine.contents n
      return valueCells quoted (Text.ofRawBytes (bytes.reverse.dropWhile (· = 10)).reverse)
    | .arithmetic parts quoted => do
      let text := textOf (← expandParts fuel parts)
      let s ← get
      let lookup := fun (name : String) => Utility.numberOf ((s.parameter? name).getD "")
      match Arithmetic.value lookup text.toList with
      | .ok n => return valueCells quoted (toString n)
      | .error problem =>
        let reason := problem.text
        fatal s!"arithmetic expression: {reason}: \"{text}\""
    | .parameter name operator operand quoted => do
      let s ← get
      let value := s.parameter? name
      let given := value.getD ""
      match operator with
      | none =>
        if name = "@" then return argumentCells quoted s.args
        else if name = "*" && !quoted then return argumentCells false s.args
        else return valueCells quoted given
      | some .length => return valueCells quoted (toString (Text.rawBytes given).length)
      | some (.default empty) =>
        if keepsValue empty value then return valueCells quoted given
        else expandParts fuel operand
      | some (.assign empty) =>
        if keepsValue empty value then return valueCells quoted given
        else do
          let text := textOf (← expandParts fuel operand)
          modify fun s => s.set name text
          return valueCells quoted text
      | some (.require empty) =>
        if keepsValue empty value then return valueCells quoted given
        else do
          let text := textOf (← expandParts fuel operand)
          let missing := if empty then "parameter not set or null" else "parameter not set"
          let reason := if text.isEmpty then missing else text
          fatal s!"{name}: {reason}"
      | some (.replace empty) =>
        if keepsValue empty value then expandParts fuel operand
        else return if quoted then [.mark] else []
      | some (.dropStart longest) => do
        let pattern := Pattern.ofGlyphs (glyphsOf (← expandParts fuel operand))
        return valueCells quoted (String.ofList (pattern.dropStart longest given.toList))
      | some (.dropEnd longest) => do
        let pattern := Pattern.ofGlyphs (glyphsOf (← expandParts fuel operand))
        return valueCells quoted (String.ofList (pattern.dropEnd longest given.toList))

/-- The cells of a word. -/
def expandParts : Nat → List Part → Run (List Cell)
  | 0, _ => fatal "too much recursion"
  | _ + 1, [] => pure []
  | fuel + 1, part :: rest => do
    let cells ← expandPart fuel part
    return cells ++ (← expandParts fuel rest)

/-- The text of a word that is not cut into fields. -/
def expandText : Nat → Word → Run String
  | 0, _ => fatal "too much recursion"
  | fuel + 1, word => do return textOf (← expandParts fuel word)

/-- The fields that some words stand for. -/
def expandWords : Nat → List Word → Run (List String)
  | 0, _ => fatal "too much recursion"
  | _ + 1, [] => pure []
  | fuel + 1, word :: rest => do
    let word := dropEmptyArguments (← get).args.isEmpty word
    let cells ← expandParts fuel word
    let s ← get
    let fields := (Fields.ofCells s.separators cells).flatMap (expandPaths s.tree)
    return fields ++ (← expandWords fuel rest)

def expandAssignments : Nat → List Assignment → Run (List (String × String))
  | 0, _ => fatal "too much recursion"
  | _ + 1, [] => pure []
  | fuel + 1, a :: rest => do
    let value ← expandText fuel a.value
    return (a.name, value) :: (← expandAssignments fuel rest)

/-- Makes redirections in order up to one that fails. -/
def redirectAll : Nat → List Redirect → Run Bool
  | 0, _ => fatal "too much recursion"
  | _ + 1, [] => pure true
  | fuel + 1, r :: rest => do
    let target ← expandText fuel r.target
    if ← applyRedirect r.stream r.mode target then redirectAll fuel rest else pure false

/-- Runs a script from its text. -/
def runText : Nat → List Char → Run Unit
  | 0, _ => fatal "too much recursion"
  | fuel + 1, text => do
    match parse? text with
    | some command => evaluate fuel command
    | none => fatal "Syntax error"

/-- Runs a whole script and what it wants to be run at its exit. -/
def runWithExit : Nat → List Char → Run Unit
  | 0, _ => fatal "too much recursion"
  | fuel + 1, text =>
    ExceptT.mk fun s =>
      match (runText fuel text).run s with
      | (.error (.killed process signal), s) => (.error (.killed process signal), s)
      | (.error .halted, s) => (.error .halted, s)
      | (ended, s) =>
        match s.exitAction with
        | none => (ended, s)
        | some action =>
          let (_, t) := (runText fuel action.toList).run { s with exitAction := none }
          (ended, { t with status := s.status })

/-- Runs a command. -/
def evaluate : Nat → Command → Run Unit
  | 0, _ => fatal "too much recursion"
  | fuel + 1, command => do
    match command with
    | .simple line assignments words redirects => do
      modify fun s => { s with line }
      evaluateSimple fuel assignments words redirects
      checkFailure
    | .sequence commands => evaluateAll fuel commands
    | .both first second => do
      if (← testing (evaluate fuel first)) = 0 then evaluate fuel second
    | .either first second => do
      if (← testing (evaluate fuel first)) ≠ 0 then evaluate fuel second
    | .pipeline negated stages => do
      if negated then do
        let status ← testing (evaluateStages fuel none stages)
        setStatus (if status = 0 then 1 else 0)
      else do
        evaluateStages fuel none stages
        checkFailure
    | .background body => inBackground (evaluate fuel body)
    | .subshell body => do
      forked (evaluate fuel body)
      checkFailure
    | .ifElse test body otherwise => do
      if (← testing (evaluate fuel test)) = 0 then evaluate fuel body
      else match otherwise with
        | some other => evaluate fuel other
        | none => setStatus 0
    | .loop untilTrue test body => evaluateLoop fuel untilTrue 0 test body
    | .forEach name words body => do
      let values ← match words with
        | some ws => expandWords fuel ws
        | none => do pure (← get).args
      setStatus 0
      evaluateFor fuel name values body
    | .choose subject branches => do
      let text ← expandText fuel subject
      setStatus 0
      evaluateCase fuel text branches
    | .define name body =>
      modify fun s => { s with
        functions := (name, body) :: s.functions.filter (·.1 ≠ name)
        status := 0 }
    | .redirected body redirects => do
      let outer := (← get).descriptors
      afterwards (fun s => { s with descriptors := outer }) do
        if ← redirectAll fuel redirects then evaluate fuel body
      checkFailure

def evaluateAll : Nat → List Command → Run Unit
  | 0, _ => fatal "too much recursion"
  | _ + 1, [] => pure ()
  | fuel + 1, first :: rest => do
    evaluate fuel first
    evaluateAll fuel rest

/-- Runs the stages of a pipeline, the first of which may read from a channel. -/
def evaluateStages : Nat → Option Nat → List Command → Run Unit
  | 0, _, _ => fatal "too much recursion"
  | _ + 1, _, [] => pure ()
  | fuel + 1, input, [only] =>
    if input.isNone then evaluate fuel only
    else inPipe input none (evaluate fuel only)
  | fuel + 1, input, stage :: rest => do
    let (machine, n) := (← get).machine.openChannel []
    modify fun s => { s with machine }
    holdIfHalted (inPipe input (some n) (evaluate fuel stage))
    evaluateStages fuel (some n) rest

/-- Runs the rounds of a loop. Its status is that of the last round, which is given for the rounds
before. -/
def evaluateLoop : Nat → Bool → Nat → Command → Command → Run Unit
  | 0, _, _, _, _ => fatal "too much recursion"
  | fuel + 1, untilTrue, outcome, test, body => do
    let status ← testing (evaluate fuel test)
    if (status = 0) = untilTrue then setStatus outcome
    else if ← afterRound (evaluate fuel body) then
      evaluateLoop fuel untilTrue (← get).status test body

def evaluateFor : Nat → String → List String → Command → Run Unit
  | 0, _, _, _ => fatal "too much recursion"
  | _ + 1, _, [], _ => pure ()
  | fuel + 1, name, value :: rest, body => do
    modify fun s => s.set name value
    if ← afterRound (evaluate fuel body) then evaluateFor fuel name rest body

/-- Runs the first branch that has a pattern for a text. -/
def evaluateCase : Nat → String → List (List Word × Command) → Run Unit
  | 0, _, _ => fatal "too much recursion"
  | _ + 1, _, [] => pure ()
  | fuel + 1, text, (patterns, body) :: rest => do
    if ← matchesAny fuel text patterns then evaluate fuel body
    else evaluateCase fuel text rest

def matchesAny : Nat → String → List Word → Run Bool
  | 0, _, _ => fatal "too much recursion"
  | _ + 1, _, [] => pure false
  | fuel + 1, text, word :: rest => do
    let pattern := Pattern.ofGlyphs (glyphsOf (← expandParts fuel word))
    if pattern.accepts text.toList then pure true else matchesAny fuel text rest

def evaluateSimple : Nat → List Assignment → List Word → List Redirect → Run Unit
  | 0, _, _, _ => fatal "too much recursion"
  | fuel + 1, assignments, words, redirects => do
    let fields ← expandWords fuel words
    let outer := (← get).descriptors
    let restored := fun (x : Run Unit) =>
      afterwards (fun s => { s with descriptors := outer }) x
    match fields with
    | [] => do
      let values ← expandAssignments fuel assignments
      modify fun s => values.foldl (fun s v => s.set v.1 v.2) s
      if !runsScript assignments then setStatus 0
      restored do
        let _ ← redirectAll fuel redirects
    | "exec" :: command => do
      let values ← expandAssignments fuel assignments
      if ← redirectAll fuel redirects then
        match command with
        | [] => setStatus 0
        | name :: args => do
          runProgram fuel true name args values
          throw .exit
    | name :: args =>
      restored do
        if ← redirectAll fuel redirects then
          let values ← expandAssignments fuel assignments
          match (← get).functions.lookup name with
          | some body => withVariables values (asFunction args (evaluate fuel body))
          | none =>
            if builtins.contains name then withVariables values (runBuiltin fuel name args)
            else runProgram fuel false name args values

def runBuiltin : Nat → String → List String → Run Unit
  | 0, _, _ => fatal "too much recursion"
  | fuel + 1, name, args => do
    match name with
    | "eval" => runText fuel (" ".intercalate args).toList
    | "kill" => do
      if let some action ← runKill args then
        runText fuel action.toList
        setStatus 0
    | "." => do
      let path := args.headD ""
      match (← get).tree.read? path with
      | some bytes => runText fuel (Text.ofRawBytes bytes).toList
      | none => fatal s!".: cannot open {path}: No such file"
    | "command" =>
      match args with
      | "-v" :: wanted :: _ => do
        match describe (← get) wanted with
        | some text =>
          modify fun s => s.emit Descriptors.standardOutput (Text.rawBytes (text ++ "\n"))
          setStatus 0
        | none => setStatus 127
      | wanted :: rest =>
        if builtins.contains wanted then runBuiltin fuel wanted rest
        else runProgram fuel false wanted rest []
      | [] => setStatus 0
    | _ => runSimpleBuiltin name args

/-- Runs a program of the search path, in a child or in place of the shell. -/
def runProgram : Nat → Bool → String → List String → List (String × String) → Run Unit
  | 0, _, _, _, _ => fatal "too much recursion"
  | fuel + 1, inPlace, name, args, values => do
    let s ← get
    let shown := if inPlace then "exec: " ++ name else name
    match commandPath? s name with
    | none => failWith s!"{shown}: not found" 127
    | some path =>
      match s.tree.stat path with
      | .error e =>
        let text := if e = .notFound then "not found" else e.text
        failWith s!"{shown}: {text}" (if e = .notFound then 127 else 126)
      | .ok node =>
        if node.isExecutable then
          forProgram inPlace (withSettings s.environment values) (launch fuel path args)
        else failWith s!"{shown}: Permission denied" 126

/-- Runs the program at a path in the process that it is given. -/
def launch : Nat → Path → List String → Run Unit
  | 0, _, _ => fatal "too much recursion"
  | fuel + 1, path, args => do
    match (← get).tree.stat path with
    | .ok (.program name) => runNative fuel name args
    | .ok (.file contents mode) =>
      match interpreter? contents with
      | some (interpreter, own) => launch fuel interpreter (own ++ path :: args)
      | none =>
        if mode &&& Node.readBit = 0 then failWith s!"cannot open {path}: Permission denied" 2
        else do
          modify fun s => { s with name := path, args }
          runText fuel (Text.ofRawBytes contents).toList
    | _ => failWith s!"{path}: not found" 127

/-- Runs a program that comes with the machine. -/
def runNative : Nat → String → List String → Run Unit
  | 0, _, _ => fatal "too much recursion"
  | fuel + 1, name, args => do
    if isShell name then
      modify fun s => { s with exitsOnFailure := setsExit args }
      match startOf args with
      | .script text name args => do
        modify fun s => { s with name, args }
        runWithExit fuel text
      | .file path args => do
        match (← get).tree.read path with
        | .ok bytes => do
          modify fun s => { s with name := path, args }
          runWithExit fuel (Text.ofRawBytes bytes).toList
        | .error e => do
          modify fun s => { s with line := 0 }
          failWith s!"cannot open {path}: {openError false e}" 2
      | .input => do
        let (bytes, s) := (← get).takeInput 0
        set s
        runText fuel (Text.ofRawBytes bytes).toList
    else match name with
      | "sleep" => runSleep args
      | "env" => do
        let (emptied, args) := environmentOptions args
        if emptied then modify fun s => { s with assigned := [], exported := [] }
        let (settings, command) := splitSettings args
        let environment := withSettings (← get).environment settings
        match command with
        | [] =>
          modify fun s => { s with
            assigned := environment.reverse
            exported := environment.map (·.1) }
          runUtility "printenv" []
        | program :: rest =>
          if (commandPath? (← get) program).isNone then do
            modify fun s => s.emit Descriptors.standardError
              (Text.rawBytes s!"env: ‘{program}’: No such file or directory\n")
            setStatus 127
          else runProgram fuel true program rest settings
      | _ => runUtility name args

end

end LintGate.Shell
