/-!
# Command line

The command line names a command, `check` unless another is given, and options that may stand
before or behind it. `CommandLine.parse` reads it; what stands behind the command wins over what
stands before it. An option that expects a value takes the next argument, and its value is judged
when the next option is read or the arguments end.
-/

namespace LintGate

inductive Command where
  /-- Repair, check and report. -/
  | check
  /-- Show which tools would be used. -/
  | tools
  | version
deriving DecidableEq, Repr

namespace Command

def all : List Command :=
  [check, tools, version]

def text : Command → String
  | check => "check"
  | tools => "tools"
  | version => "version"

def ofText? (word : String) : Option Command :=
  all.find? (·.text == word)

end Command

/-- Why the arguments are not carried out as a command. -/
inductive UsageFault where
  /-- An option is given twice. -/
  | repeated
  /-- An option that takes no value has one. -/
  | needlessValue
  /-- A value is missing, or is empty where it may not be. -/
  | badValue
  | unknownArgument
  | unknownCommand
  | helpWanted
  | versionWanted
deriving DecidableEq, Repr

namespace UsageFault

/-- A request for information is no failure. -/
def exitCode : UsageFault → Nat
  | helpWanted | versionWanted => 0
  | _ => 2

end UsageFault

/-- What is asked for on the command line. -/
structure CommandLine where
  command : Command := .check
  /-- Where to look for the working tree. -/
  dir : Option String := none
  output : Option String := none
  debug : Bool := false
  /-- Read a hook payload from standard input. -/
  hook : Bool := false
  noLock : Bool := false
deriving DecidableEq, Repr

namespace CommandLine

/-- The options that take a value. -/
inductive Valued where
  | dir
  | output
deriving DecidableEq, Repr

/-- The options that take none. -/
inductive Flag where
  | debug
  | hook
  | noLock
  | help
  | version
deriving DecidableEq, Repr

inductive Known where
  | valued (option : Valued)
  | flag (option : Flag)
deriving DecidableEq, Repr

/-- The option with a long name. The version is asked for only before the command. -/
def longOption? (atTop : Bool) : String → Option Known
  | "dir" => some (.valued .dir)
  | "output" => some (.valued .output)
  | "debug" => some (.flag .debug)
  | "hook" => some (.flag .hook)
  | "no-lock" => some (.flag .noLock)
  | "help" => some (.flag .help)
  | "version" => if atTop then some (.flag .version) else none
  | _ => none

def shortOption? (atTop : Bool) : Char → Option Flag
  | 'h' => some .help
  | 'V' => if atTop then some .version else none
  | _ => none

/-- An option whose value has not been judged yet, and that value if it was read. -/
structure Pending where
  option : Valued
  value : Option String
deriving DecidableEq, Repr

/-- What has been read on one side of the command. -/
structure Reader where
  line : CommandLine := {}
  pending : Option Pending := none
deriving DecidableEq, Repr

namespace Reader

/-- Puts a value to its option. -/
def assign (r : Reader) (option : Valued) (value : String) : Except UsageFault Reader :=
  match option with
  | .dir =>
    if r.line.dir.isSome then .error .repeated
    else if value.isEmpty then .error .badValue
    else .ok { r with line := { r.line with dir := some value } }
  | .output =>
    if r.line.output.isSome then .error .repeated
    else .ok { r with line := { r.line with output := some value } }

/-- Judges the option that is pending, if any. -/
def settle (r : Reader) : Except UsageFault Reader :=
  match r.pending with
  | none => .ok r
  | some ⟨_, none⟩ => .error .badValue
  | some ⟨option, some value⟩ => { r with pending := none }.assign option value

def raise (r : Reader) (flag : Flag) : Except UsageFault Reader := do
  let r ← r.settle
  match flag with
  | .help => .error .helpWanted
  | .version => .error .versionWanted
  | .debug =>
    if r.line.debug then .error .repeated else .ok { r with line := { r.line with debug := true } }
  | .hook =>
    if r.line.hook then .error .repeated else .ok { r with line := { r.line with hook := true } }
  | .noLock =>
    if r.line.noLock then .error .repeated
    else .ok { r with line := { r.line with noLock := true } }

/-- Reads an argument that begins with two dashes; `body` is what follows them. -/
def long (atTop : Bool) (r : Reader) (body : List Char) : Except UsageFault Reader :=
  let name := String.ofList (body.takeWhile (· ≠ '='))
  let value := match body.dropWhile (· ≠ '=') with
    | [] => none
    | _ :: cs => some (String.ofList cs)
  match longOption? atTop name, value with
  | none, _ => .error .unknownArgument
  | some (.flag _), some _ => .error .needlessValue
  | some (.flag flag), none => r.raise flag
  | some (.valued option), some value => do
    let r ← r.settle
    r.assign option value
  | some (.valued option), none => do
    let r ← r.settle
    .ok { r with pending := some ⟨option, none⟩ }

/-- Reads the letters behind a single dash. -/
def short (atTop : Bool) (r : Reader) : List Char → Except UsageFault Reader
  | [] => .ok r
  | c :: more =>
    match shortOption? atTop c with
    | none => .error .unknownArgument
    | some flag => do
      let r ← r.raise flag
      r.short atTop more

end Reader

/-- What stands behind the command, completed by what stands before it. -/
def withOuter (inner outer : CommandLine) : CommandLine where
  command := inner.command
  dir := inner.dir <|> outer.dir
  output := inner.output <|> outer.output
  debug := inner.debug || outer.debug
  hook := inner.hook || outer.hook
  noLock := inner.noLock || outer.noLock

/-- Reads the words behind `help`: at most one, the name of a command. -/
def readHelp : List String → UsageFault
  | [] => .helpWanted
  | [word] =>
    if word = "help" || (Command.ofText? word).isSome then .helpWanted else .unknownCommand
  | _ => .unknownCommand

/-- Finds fault with a word that is neither an option nor a value. -/
def strayWord (atTop afterDashes : Bool) (word : String) : UsageFault :=
  let isCommand := word = "help" || (Command.ofText? word).isSome
  if atTop && !(afterDashes && isCommand) then .unknownCommand else .unknownArgument

/-- Reads arguments, before the command if `atTop` and behind it if not. -/
def read (atTop : Bool) (r : Reader) : List String → Except UsageFault CommandLine
  | [] => do
    let r ← r.settle
    .ok r.line
  | arg :: rest =>
    let awaiting := r.pending.any (·.value.isNone)
    let command := if atTop && !awaiting then Command.ofText? arg else none
    match command with
    | some command => do
      let inner ← read false { line := { command } } rest
      let r ← r.settle
      .ok (inner.withOuter r.line)
    | none =>
      if atTop && !awaiting && arg = "help" then .error (readHelp rest)
      else match arg.toList with
        | ['-', '-'] =>
          match rest with
          | [] => do
            let r ← r.settle
            .ok r.line
          | word :: _ => .error (strayWord atTop true word)
        | '-' :: '-' :: body => do
          let r ← r.long atTop body
          read atTop r rest
        | '-' :: c :: more => do
          let r ← r.short atTop (c :: more)
          read atTop r rest
        | _ =>
          match r.pending with
          | some ⟨option, none⟩ => read atTop { r with pending := some ⟨option, some arg⟩ } rest
          | _ => .error (strayWord atTop false arg)

/-- Reads the arguments of the program, its own name excepted. -/
def parse (args : List String) : Except UsageFault CommandLine :=
  read true {} args

example : (parse ["--dir", "check"]).toOption = some { dir := some "check" } := by decide

example : (parse ["--dir", "a", "tools", "--dir=b"]).toOption =
    some { command := .tools, dir := some "b" } := by
  decide

end CommandLine

end LintGate
