import LintGate.Shell.Word

/-!
# Arithmetic of the shell

Expressions over whole numbers with the usual operators. A name stands for the number that is its
value.
-/

namespace LintGate.Shell.Arithmetic

/-- Why an expression has no value. -/
inductive Problem where
  | divisionByZero
  | malformed
deriving DecidableEq, Repr

/-- The text of a message about a problem. -/
def Problem.text : Problem → String
  | .divisionByZero => "division by zero"
  | .malformed => "expecting primary"

inductive Token where
  | number (n : Int)
  | name (text : String)
  | operator (text : String)
deriving DecidableEq, Repr

/-- The operators of two characters. -/
def longOperators : List String :=
  ["==", "!=", "<=", ">=", "&&", "||", "<<", ">>"]

def tokens : Nat → List Char → List Token
  | 0, _ => []
  | _, [] => []
  | fuel + 1, c :: rest =>
    if c = ' ' || c = '\t' || c = '\n' then tokens fuel rest
    else if c.isDigit then
      let ds := (c :: rest).takeWhile Char.isDigit
      .number (Nat.ofDigitChars 10 ds 0) :: tokens fuel ((c :: rest).drop ds.length)
    else if isNameStart c then
      let name := (c :: rest).takeWhile isNameChar
      .name (String.ofList name) :: tokens fuel ((c :: rest).drop name.length)
    else
      let two := String.ofList ((c :: rest).take 2)
      if longOperators.contains two then .operator two :: tokens fuel (rest.drop 1)
      else .operator (String.singleton c) :: tokens fuel rest

/-- The value of an operator between two operands. -/
def combine (operator : String) (a b : Int) : Except Problem Int :=
  let truth := fun (p : Bool) => .ok (if p then (1 : Int) else 0)
  match operator with
  | "+" => .ok (a + b)
  | "-" => .ok (a - b)
  | "*" => .ok (a * b)
  | "/" => if b = 0 then .error .divisionByZero else .ok (a.tdiv b)
  | "%" => if b = 0 then .error .divisionByZero else .ok (a.tmod b)
  | "<" => truth (a < b)
  | ">" => truth (a > b)
  | "<=" => truth (a ≤ b)
  | ">=" => truth (a ≥ b)
  | "==" => truth (a = b)
  | "!=" => truth (a ≠ b)
  | "&&" => truth (a ≠ 0 && b ≠ 0)
  | "||" => truth (a ≠ 0 || b ≠ 0)
  | _ => .error .malformed

/-- The operators from the loosest to the tightest. -/
def levels : List (List String) :=
  [["||"], ["&&"], ["==", "!="], ["<=", ">=", "<", ">"], ["+", "-"], ["*", "/", "%"]]

mutual

/-- Reads operands with the operators of a level between them. -/
def level (lookup : String → Int) : Nat → List (List String) → List Token →
    Except Problem (Int × List Token)
  | 0, _, _ => .error .malformed
  | fuel + 1, [], ts => operand lookup fuel ts
  | fuel + 1, _ :: tighter, ts => do
    let (first, rest) ← level lookup fuel tighter ts
    more lookup fuel (levels.drop (levels.length - tighter.length - 1)) first rest

def more (lookup : String → Int) : Nat → List (List String) → Int → List Token →
    Except Problem (Int × List Token)
  | 0, _, _, _ => .error .malformed
  | _, [], first, ts => .ok (first, ts)
  | fuel + 1, operators :: tighter, first, ts =>
    match ts with
    | .operator o :: rest =>
      if operators.contains o then do
        let (second, rest) ← level lookup fuel tighter rest
        more lookup fuel (operators :: tighter) (← combine o first second) rest
      else .ok (first, ts)
    | _ => .ok (first, ts)

def operand (lookup : String → Int) : Nat → List Token → Except Problem (Int × List Token)
  | 0, _ => .error .malformed
  | fuel + 1, ts =>
    match ts with
    | .number n :: rest => .ok (n, rest)
    | .name s :: rest => .ok (lookup s, rest)
    | .operator "-" :: rest => (operand lookup fuel rest).map fun (n, rest) => (-n, rest)
    | .operator "+" :: rest => operand lookup fuel rest
    | .operator "!" :: rest =>
      (operand lookup fuel rest).map fun (n, rest) => (if n = 0 then 1 else 0, rest)
    | .operator "(" :: rest => do
      let (n, rest) ← level lookup fuel levels rest
      match rest with
      | .operator ")" :: rest => .ok (n, rest)
      | _ => .error .malformed
    | _ => .error .malformed

end

/-- The value of an expression. The empty one is zero. -/
def value (lookup : String → Int) (expression : List Char) : Except Problem Int :=
  let ts := tokens (expression.length + 1) expression
  if ts.isEmpty then .ok 0
  else match level lookup (20 * ts.length + 20) levels ts with
    | .ok (n, []) => .ok n
    | .ok _ => .error .malformed
    | .error e => .error e

end LintGate.Shell.Arithmetic
