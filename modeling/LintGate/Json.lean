import LintGate.Decimal.Binary64

/-!
# JSON values

A text can be well-formed JSON and still hold something without a value: a number that is out of
range, or a string with half of a surrogate pair. Such parts stand as `none` in a `Json`, so that
a reader who does not need them may pass over them; `Json.sound` says that there are none.
-/

namespace LintGate

inductive Json.Number where
  | integer (n : Int)
  | float (x : Binary64)
deriving DecidableEq, Repr

inductive Json where
  | null
  | bool (b : Bool)
  | number (n : Option Json.Number)
  | string (s : Option String)
  | array (items : List Json)
  /-- The fields in the order in which they are written. -/
  | object (fields : List (Option String × Json))
deriving Repr

namespace Json

def text (s : String) : Json :=
  .string (some s)

def nat (n : Nat) : Json :=
  .number (some (.integer n))

/-- An object whose field names are known. -/
def record (fields : List (String × Json)) : Json :=
  .object (fields.map fun f => (some f.1, f.2))

def texts (items : List String) : Json :=
  .array (items.map text)

/-- A text, or null for want of one. -/
def optionalText : Option String → Json
  | some s => text s
  | none => .null

mutual

/-- Every number and string in a value has a value of its own. -/
def sound : Json → Bool
  | .null => true
  | .bool _ => true
  | .number n => n.isSome
  | .string s => s.isSome
  | .array items => soundItems items
  | .object fields => soundFields fields

def soundItems : List Json → Bool
  | [] => true
  | item :: rest => item.sound && soundItems rest

def soundFields : List (Option String × Json) → Bool
  | [] => true
  | (name, value) :: rest => name.isSome && value.sound && soundFields rest

end

mutual

/-- How deep arrays and objects are nested. -/
def depth : Json → Nat
  | .array items => depthItems items + 1
  | .object fields => depthFields fields + 1
  | _ => 0

def depthItems : List Json → Nat
  | [] => 0
  | item :: rest => max item.depth (depthItems rest)

def depthFields : List (Option String × Json) → Nat
  | [] => 0
  | (_, value) :: rest => max value.depth (depthFields rest)

end

/-- The last field with a name. -/
def field? (name : String) : Json → Option Json
  | .object fields => (fields.reverse.find? fun f => f.1 == some name).map (·.2)
  | _ => none

end Json

end LintGate
