import LintGate.Path

/-!
# Invocations

An invocation is a program with its arguments, a launch says where and how long it runs, and an
outcome is how that ended.
-/

namespace LintGate

structure Invocation where
  program : Path
  args : List String := []
deriving DecidableEq, Repr

namespace Invocation

/-- The invocation with more arguments behind those it has. -/
def withArgs (inv : Invocation) (more : List String) : Invocation :=
  { inv with args := inv.args ++ more }

/-- The invocation in messages: the file name of the program, then the arguments. -/
def display (inv : Invocation) : String :=
  " ".intercalate (Text.lossy (inv.program.fileName?.getD inv.program) :: inv.args)

@[simp] theorem withArgs_nil (inv : Invocation) : inv.withArgs [] = inv := by
  simp [withArgs]

end Invocation

/-- How a program is started. -/
structure Launch where
  invocation : Invocation
  directory : Path
  /-- What the program is told besides the environment of the machine. -/
  environment : List (String × String) := []
  timeoutMs : Nat
deriving DecidableEq, Repr

/-- How a run of a program ended. -/
inductive Outcome where
  /-- The program ended by itself, with an exit code unless a signal killed it. -/
  | exited (code : Option Nat) (output : String)
  /-- The program was stopped after its time was over. -/
  | timedOut (afterSeconds : Nat) (output : String)
  | failedToStart (message : String)
deriving DecidableEq, Repr

end LintGate
