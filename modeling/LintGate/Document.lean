import LintGate.Decimal.Binary64

/-!
# Documents

A `Document` is what a settings file says, whatever format it is written in. The functions after it
read a document as a value of a wanted type and answer `none` when it is no such value. A plain
scalar is a piece of text without quotes: it has no type of its own and is read as whatever is
wanted.
-/

namespace LintGate

inductive Document where
  | null
  | bool (b : Bool)
  | integer (n : Int)
  | float (x : Binary64)
  | text (s : String)
  | plain (s : String) (tag : Option String)
  | sequence (items : List Document)
  /-- Fields in order. A key that is no text has no name. -/
  | record (fields : List (Option String × Document))
deriving Repr

namespace Document

/-- The greatest number of 64 bits. -/
def maxWord : Nat := Nat.pow 2 64 - 1

def asText : Document → Option String
  | .text s => some s
  | .plain s _ => some s
  | _ => none

/-! ## Plain scalars -/

def plainBool? (s : String) : Option Bool :=
  if ["true", "True", "TRUE"].contains s then some true
  else if ["false", "False", "FALSE"].contains s then some false
  else none

/-- The words for nothing. -/
def isNullWord (s : String) : Bool :=
  ["null", "Null", "NULL", "~"].contains s

/-- The value of a digit in any base up to sixteen. -/
def digitValue? (c : Char) : Option Nat :=
  if c.isDigit then some (c.toNat - '0'.toNat)
  else if 'a' ≤ c && c ≤ 'f' then some (c.toNat - 'a'.toNat + 10)
  else if 'A' ≤ c && c ≤ 'F' then some (c.toNat - 'A'.toNat + 10)
  else none

/-- A number written in digits of a base; there is at least one digit. -/
def natInBase? (base : Nat) (cs : List Char) : Option Nat :=
  if cs.isEmpty then none
  else cs.foldlM (fun n c => do
    let d ← digitValue? c
    if d < base then some (n * base + d) else none) 0

/-- A whole number. Zeros in front of other digits make it no number. -/
def plainNat? (s : String) : Option Nat :=
  let cs := match s.toList with
    | '+' :: rest => rest
    | cs => cs
  match cs with
  | '0' :: 'x' :: rest => natInBase? 16 rest
  | '0' :: 'o' :: rest => natInBase? 8 rest
  | '0' :: 'b' :: rest => natInBase? 2 rest
  | '0' :: _ :: _ => none
  | _ => natInBase? 10 cs

/-- A number in decimal notation without its sign: digits, perhaps a point among them, perhaps an
exponent. -/
def unsignedDecimal? (negative : Bool) (cs : List Char) : Option Binary64 :=
  let whole := cs.takeWhile Char.isDigit
  let rest := cs.dropWhile Char.isDigit
  let (fraction, rest) := match rest with
    | '.' :: more => (more.takeWhile Char.isDigit, more.dropWhile Char.isDigit)
    | _ => ([], rest)
  if whole.isEmpty && fraction.isEmpty then none
  else
    let digits := Nat.ofDigitChars 10 (whole ++ fraction) 0
    let places : Int := fraction.length
    let value := fun (exponent : Int) =>
      let power := exponent - places
      -- beyond these bounds every number of digits is out of range or vanishes
      if digits = 0 then Binary64.zero negative
      else if 400 < power then .infinite negative
      else if power < -(400 + (whole ++ fraction).length) then Binary64.zero negative
      else Binary64.ofDecimal negative digits power
    match rest with
    | [] => some (value 0)
    | e :: more =>
      if e = 'e' || e = 'E' then
        let (sign, exponent) := match more with
          | '-' :: ds => ((-1 : Int), ds)
          | '+' :: ds => (1, ds)
          | ds => (1, ds)
        if exponent.isEmpty || !exponent.all Char.isDigit then none
        else some (value (sign * Nat.ofDigitChars 10 exponent 0))
      else none

/-- A number in decimal notation. -/
def decimal? (cs : List Char) : Option Binary64 :=
  match cs with
  | '-' :: rest => unsignedDecimal? true rest
  | '+' :: rest => unsignedDecimal? false rest
  | _ => unsignedDecimal? false cs

def plainFloat? (s : String) : Option Binary64 :=
  let positive := if s.startsWith "+" then String.ofList (s.toList.drop 1) else s
  if [".inf", ".Inf", ".INF"].contains positive then some (.infinite false)
  else if ["-.inf", "-.Inf", "-.INF"].contains s then some (.infinite true)
  else if [".nan", ".NaN", ".NAN"].contains s then some .nan
  else if s.startsWith "+-" || s.startsWith "++" then none
  else (decimal? s.toList).filter Binary64.isFinite

/-! ## Reading values -/

def asBool : Document → Option Bool
  | .bool b => some b
  | .plain s _ => plainBool? s
  | _ => none

/-- A whole number that fits into 64 bits. -/
def asWord : Document → Option Nat
  | .integer n => if 0 ≤ n && n ≤ maxWord then some n.toNat else none
  | .plain s _ => (plainNat? s).filter (· ≤ maxWord)
  | _ => none

/-- A number, whole or not. -/
def asFloat : Document → Option Binary64
  | .float x => some x
  | .integer n => if -(Nat.pow 2 63 : Int) ≤ n && n ≤ maxWord then some (Binary64.ofInt n) else none
  | .plain s _ => plainFloat? s
  | _ => none

/-- A value or nothing. The tag of nothing stands only in front of a word for nothing, and any
other tag only in front of a value. -/
def asOptional (read : Document → Option α) : Document → Option (Option α)
  | .null => some none
  | .plain s (some tag) =>
    if tag = "tag:yaml.org,2002:null" then if isNullWord s then some none else none
    else (read (.plain s (some tag))).map some
  | .plain s none =>
    if s.isEmpty || isNullWord s then some none else (read (.plain s none)).map some
  | d => (read d).map some

def asList (read : Document → Option α) : Document → Option (List α)
  | .sequence items => items.mapM read
  | .plain s _ => if s.isEmpty then some [] else none
  | _ => none

/-- The entries of a record, in order. -/
def asEntries : Document → Option (List (Option String × Document))
  | .record fields => some fields
  | .plain s _ => if s.isEmpty then some [] else none
  | _ => none

/-- A field of a record that is read as a structure. -/
structure FieldSpec where
  name : String
  /-- The field may be missing at the end of a structure that is written as a sequence. -/
  mayEnd : Bool := false

/-- The known fields of a structure. A structure is a record in which no known field is repeated,
or the sequence of its fields. -/
def asStructure (specs : List FieldSpec) : Document → Option (List (String × Document))
  | .record fields => do
    let named ← fields.mapM fun f => f.1.map fun name => (name, f.2)
    let known := named.filter fun f => specs.any (·.name == f.1)
    if (known.map (·.1)).eraseDups.length = known.length then some known else none
  | .sequence items =>
    if specs.length < items.length then none
    else if (specs.drop items.length).all (·.mayEnd) then
      some ((specs.map (·.name)).zip items)
    else none
  | .plain s _ => if s.isEmpty then some [] else none
  | _ => none

/-- A field that may be missing or empty. -/
def optionalField (read : Document → Option α) (name : String) (fields : List (String × Document)) :
    Option (Option α) :=
  match fields.lookup name with
  | none => some none
  | some d => asOptional read d

/-- A field that has a value when it is missing. -/
def fieldOr (missing : α) (read : Document → Option α) (name : String)
    (fields : List (String × Document)) : Option α :=
  match fields.lookup name with
  | none => some missing
  | some d => read d

def requiredField (read : Document → Option α) (name : String)
    (fields : List (String × Document)) : Option α :=
  (fields.lookup name).bind read

end Document

end LintGate
