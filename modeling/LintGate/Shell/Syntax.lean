/-!
# Shell scripts

The tools that a run calls are often scripts of the shell. `Command` is the abstract form of a
script: words with their expansions, redirections, and the ways of joining commands.
-/

namespace LintGate.Shell

/-- What is done with the value of a parameter. The flag of the first four says that an empty value
counts as missing. -/
inductive Operator where
  | default (emptyToo : Bool)
  | assign (emptyToo : Bool)
  | require (emptyToo : Bool)
  | replace (emptyToo : Bool)
  | dropStart (longest : Bool)
  | dropEnd (longest : Bool)
  | length
deriving DecidableEq, Repr

/-- Whether the operand is a pattern, which has quotes of its own. -/
def Operator.takesPattern : Operator → Bool
  | dropStart _ | dropEnd _ => true
  | _ => false

/-- A piece of a word. A flag says whether it stands in quotes. -/
inductive Part where
  | text (cs : List Char) (quoted : Bool)
  | parameter (name : String) (operator : Option Operator) (operand : List Part) (quoted : Bool)
  /-- The output of a script. -/
  | output (script : List Char) (quoted : Bool)
  | arithmetic (expression : List Part) (quoted : Bool)
deriving Repr

abbrev Word := List Part

inductive RedirectMode where
  | read
  | write
  | append
  /-- To another stream, or closed. -/
  | duplicate
  /-- From the text of the target itself. -/
  | document
deriving DecidableEq, Repr

structure Redirect where
  stream : Nat
  mode : RedirectMode
  target : Word
deriving Repr

structure Assignment where
  name : String
  value : Word
deriving Repr

inductive Command where
  /-- The line is where the command begins. -/
  | simple (line : Nat) (assignments : List Assignment) (words : List Word)
    (redirects : List Redirect)
  /-- The output of each command is the input of the next. -/
  | pipeline (negated : Bool) (stages : List Command)
  | both (first second : Command)
  | either (first second : Command)
  | sequence (commands : List Command)
  | background (command : Command)
  | subshell (body : Command)
  | ifElse (test body : Command) (otherwise : Option Command)
  | loop (untilTrue : Bool) (test body : Command)
  /-- Without words, over the arguments. -/
  | forEach (name : String) (words : Option (List Word)) (body : Command)
  | choose (subject : Word) (branches : List (List Word × Command))
  | define (name : String) (body : Command)
  | redirected (body : Command) (redirects : List Redirect)
deriving Repr

end LintGate.Shell
