import LintGate.FileTree

/-!
# Conditions on files, texts and numbers

`Condition.holds` evaluates the arguments of `test`. A single argument is a text that must not be
empty; otherwise operators stand before or between their operands.
-/

namespace LintGate.Utility.Condition

def wholeNumber? (s : String) : Option Int :=
  match s.toList with
  | [] => none
  | '-' :: ds => if ds.isEmpty || !ds.all Char.isDigit then none
      else some (-(Nat.ofDigitChars 10 ds 0 : Int))
  | ds => if ds.all Char.isDigit then some (Nat.ofDigitChars 10 ds 0) else none

/-- A condition on one operand. -/
def unary? (t : FileTree) (operator operand : String) : Option Bool :=
  match operator with
  | "-n" => some (!operand.isEmpty)
  | "-z" => some operand.isEmpty
  | "-e" => some (t.exists? operand)
  | "-f" => some (t.isFile operand)
  | "-d" => some (t.isDir operand)
  | "-s" => some ((t.stat? operand).any fun node => 0 < node.size)
  | "-x" => some ((t.stat? operand).any fun node => node.isExecutable || node.isDir)
  | "-r" => some (t.exists? operand)
  | "-w" => some (t.exists? operand)
  | "-h" => some (match t.resolveWith false operand with
    | .ok (.present _ (.link _)) => true
    | _ => false)
  | "-L" => some (match t.resolveWith false operand with
    | .ok (.present _ (.link _)) => true
    | _ => false)
  | "-t" => some false
  | _ => none

def compare? (test : Int → Int → Bool) (a b : String) : Option Bool := do
  some (test (← wholeNumber? a) (← wholeNumber? b))

/-- A condition on two operands. -/
def binary? (a operator b : String) : Option Bool :=
  match operator with
  | "=" => some (a = b)
  | "==" => some (a = b)
  | "!=" => some (a ≠ b)
  | "-eq" => compare? (fun m n => m = n) a b
  | "-ne" => compare? (fun m n => m ≠ n) a b
  | "-lt" => compare? (fun m n => m < n) a b
  | "-le" => compare? (fun m n => m ≤ n) a b
  | "-gt" => compare? (fun m n => m > n) a b
  | "-ge" => compare? (fun m n => m ≥ n) a b
  | _ => none

def isBinary (operator : String) : Bool :=
  ["=", "==", "!=", "-eq", "-ne", "-lt", "-le", "-gt", "-ge"].contains operator

mutual

/-- Conditions with `-o` between them. -/
def any? (t : FileTree) : Nat → List String → Option (Bool × List String)
  | 0, _ => none
  | fuel + 1, args => do
    let (first, rest) ← all? t fuel args
    match rest with
    | "-o" :: rest => do
      let (second, rest) ← any? t fuel rest
      some (first || second, rest)
    | _ => some (first, rest)

/-- Conditions with `-a` between them. -/
def all? (t : FileTree) : Nat → List String → Option (Bool × List String)
  | 0, _ => none
  | fuel + 1, args => do
    let (first, rest) ← single? t fuel args
    match rest with
    | "-a" :: rest => do
      let (second, rest) ← all? t fuel rest
      some (first && second, rest)
    | _ => some (first, rest)

def single? (t : FileTree) : Nat → List String → Option (Bool × List String)
  | 0, _ => none
  | fuel + 1, args =>
    match args with
    | [] => none
    | [only] => some (!only.isEmpty, [])
    | first :: second :: rest =>
      match isBinary second, rest with
      | true, third :: rest => (binary? first second third).map fun b => (b, rest)
      | _, _ =>
        if first = "!" then do
          let (b, rest) ← single? t fuel (second :: rest)
          some (!b, rest)
        else if first = "(" then do
          let (b, rest) ← any? t fuel (second :: rest)
          match rest with
          | ")" :: rest => some (b, rest)
          | _ => none
        else match unary? t first second with
          | some b => some (b, rest)
          | none => some (!first.isEmpty, second :: rest)

end

/-- Whether a condition holds; `none` if the arguments are no condition. -/
def holds? (t : FileTree) (args : List String) : Option Bool :=
  if args.isEmpty then some false
  else match any? t (4 * args.length + 8) args with
    | some (b, []) => some b
    | _ => none

end LintGate.Utility.Condition
