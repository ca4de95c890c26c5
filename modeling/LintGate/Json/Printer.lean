import LintGate.Decimal.Shortest
import LintGate.Json

/-!
# Writing JSON

`Json.pretty` writes a value with one field or item to a line and two spaces for each level.
-/

namespace LintGate.Json

/-- A control character by its number. -/
def escapedNumber (c : Char) : List Char :=
  let digits := Nat.toDigits 16 c.toNat
  ['\\', 'u'] ++ List.replicate (4 - digits.length) '0' ++ digits

/-- A character as it is written within a string. -/
def escaped (c : Char) : List Char :=
  match c with
  | '"' => ['\\', '"']
  | '\\' => ['\\', '\\']
  | '\n' => ['\\', 'n']
  | '\r' => ['\\', 'r']
  | '\t' => ['\\', 't']
  | '\x08' => ['\\', 'b']
  | '\x0c' => ['\\', 'f']
  | c => if c.toNat < 0x20 then escapedNumber c else [c]

def quoted (s : String) : String :=
  String.ofList ('"' :: s.toList.flatMap escaped ++ ['"'])

def Number.text : Number → String
  | .integer n => toString n
  | .float x => x.text

/-- The beginning of a line at a level. -/
def indent (level : Nat) : String :=
  "\n" ++ String.ofList (List.replicate (2 * level) ' ')

mutual

def prettyAt (level : Nat) : Json → String
  | .null => "null"
  | .bool b => if b then "true" else "false"
  | .number n => (n.map Number.text).getD "null"
  | .string s => quoted (s.getD "")
  | .array [] => "[]"
  | .array (item :: rest) =>
    "[" ++ indent (level + 1) ++ item.prettyAt (level + 1) ++ prettyItems (level + 1) rest ++
      indent level ++ "]"
  | .object [] => "\x7b\x7d"
  | .object ((name, value) :: rest) =>
    "\x7b" ++ indent (level + 1) ++ quoted (name.getD "") ++ ": " ++ value.prettyAt (level + 1) ++
      prettyFields (level + 1) rest ++ indent level ++ "\x7d"

def prettyItems (level : Nat) : List Json → String
  | [] => ""
  | item :: rest => "," ++ indent level ++ item.prettyAt level ++ prettyItems level rest

def prettyFields (level : Nat) : List (Option String × Json) → String
  | [] => ""
  | (name, value) :: rest =>
    "," ++ indent level ++ quoted (name.getD "") ++ ": " ++ value.prettyAt level ++
      prettyFields level rest

end

def pretty (value : Json) : String :=
  value.prettyAt 0

end LintGate.Json
