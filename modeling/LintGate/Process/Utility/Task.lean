import LintGate.FileTree

/-!
# Tasks of utilities

A utility is a program that comes with the machine. It gets a `Task` and answers an `Effect`: what
it printed, how it ended, and the file tree that it left.
-/

namespace LintGate.Utility

open Text (Bytes)

structure Task where
  name : String
  args : List String
  /-- Relative paths begin where the process is. -/
  tree : FileTree
  environment : List (String × String) := []
  input : Bytes := []

structure Effect where
  tree : FileTree
  output : Bytes := []
  errors : Bytes := []
  status : Nat := 0

namespace Task

/-- An effect that prints something and leaves the tree alone. -/
def answer (k : Task) (output : Bytes) (status : Nat) : Effect where
  tree := k.tree
  output := output
  status := status

/-- The message about something that went wrong. -/
def complaint (k : Task) (message : String) : Bytes :=
  Text.rawBytes (k.name ++ ": " ++ message ++ "\n")

def fail (k : Task) (message : String) (status : Nat) : Effect where
  tree := k.tree
  errors := k.complaint message
  status := status

/-- The arguments that begin with a dash, and the others. Everything behind two dashes is among
the others, and so is a lone dash. -/
def splitOptions : List String → List String × List String
  | [] => ([], [])
  | "--" :: rest => ([], rest)
  | arg :: rest =>
    let (options, others) := splitOptions rest
    if arg.startsWith "-" && arg ≠ "-" then (arg :: options, others)
    else (options, arg :: others)

def options (k : Task) : List String :=
  (splitOptions k.args).1

def operands (k : Task) : List String :=
  (splitOptions k.args).2

/-- Whether an option of one letter is given, perhaps together with others. -/
def has (k : Task) (letter : Char) : Bool :=
  k.options.any fun o => !o.startsWith "--" && o.toList.contains letter

/-- The contents of an operand, at most `limit` bytes where there is no end. -/
def read (k : Task) (limit : Nat) (operand : String) : Except SystemError Bytes :=
  if operand = "-" then .ok k.input
  else match k.tree.stat operand with
    | .ok (.device .zero) => .ok (List.replicate limit 0)
    | _ => k.tree.read operand

/-- The contents of some operands, or of the input if there are none, with complaints about those
that cannot be read. -/
def readAll (k : Task) (limit : Nat) (operands : List String) :
    List (String × Bytes) × Bytes :=
  (if operands.isEmpty then ["-"] else operands).foldr
    (fun operand (found, errors) =>
      match k.read limit operand with
      | .ok bytes => ((operand, bytes) :: found, errors)
      | .error e => (found, k.complaint s!"{operand}: {e.text}" ++ errors)) ([], [])

end Task

/-- The lines of some bytes, without the line feeds behind them. -/
def linesOf (bs : Bytes) : List Bytes :=
  let all := Text.pieces (10 : UInt8) bs
  if all.getLast? = some [] then all.dropLast else all

def unlines (lines : List Bytes) : Bytes :=
  lines.flatMap fun line => line ++ [10]

/-- Order on bytes. -/
def bytesBefore : Bytes → Bytes → Bool
  | [], [] => false
  | [], _ :: _ => true
  | _ :: _, [] => false
  | a :: as, b :: bs => a < b || (a = b && bytesBefore as bs)

end LintGate.Utility
