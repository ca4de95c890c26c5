import LintGate.Json

/-!
# Reading JSON

`Json.parse?` reads a text that is one JSON value with blanks around it. Numbers with a fraction
or an exponent are rounded twice: the digits are read as a whole number of at most 64 bits, which
is then multiplied or divided by a power of ten.
-/

namespace LintGate.Json

def isBlank (c : Char) : Bool :=
  c = ' ' || c = '\n' || c = '\t' || c = '\r'

def skipBlanks (cs : List Char) : List Char :=
  cs.dropWhile isBlank

def digitValue (c : Char) : Nat :=
  c.toNat - '0'.toNat

/-- The greatest number of 64 bits. -/
def maxWord : Nat := Nat.pow 2 64 - 1

/-- The digits of a number, as far as they fit into 64 bits. -/
structure Significand where
  value : Nat := 0
  /-- How many digits came after those that fit. -/
  dropped : Nat := 0
deriving Repr

/-- Takes in one more digit, unless one was dropped before. -/
def Significand.push (s : Significand) (c : Char) : Significand :=
  let next := s.value * 10 + digitValue c
  if s.dropped = 0 && next ≤ maxWord then { s with value := next }
  else { s with dropped := s.dropped + 1 }

def Significand.ofDigits (digits : List Char) (s : Significand) : Significand :=
  digits.foldl Significand.push s

/-- The greatest power of ten that one rounding can divide by. -/
def maxPower : Nat := 308

/-- Multiplies or divides by a power of ten; none if the result is out of range. -/
def scale? (negative : Bool) (significand : Nat) (exponent : Int) : Option Binary64 :=
  let x := Binary64.ofRatio negative significand 1
  if 0 ≤ exponent then
    if significand = 0 then some x
    else if exponent.toNat ≤ maxPower then
      let power := (Binary64.ofRatio false (Nat.pow 10 exponent.toNat) 1).toNat
      let product := x.timesNat power
      if product.isFinite then some product else none
    else none
  else
    let steps := (-exponent).toNat
    if 3 * maxPower < steps then some (Binary64.zero negative)
    else some (shrink x steps 4)
where
  /-- Divides by `10 ^ steps`, at most 308 places at a time. -/
  shrink (x : Binary64) (steps : Nat) : Nat → Binary64
    | 0 => x
    | fuel + 1 =>
      if steps ≤ maxPower then x.divNat (Binary64.ofRatio false (Nat.pow 10 steps) 1).toNat
      else shrink (x.divNat (Binary64.ofRatio false (Nat.pow 10 maxPower) 1).toNat)
        (steps - maxPower) fuel

/-- An exponent beyond this is out of range for every significand but zero. -/
def maxExponent : Nat := Nat.pow 2 31 - 1

/-- The digits after the letter of an exponent, with their sign. -/
def readExponent? (cs : List Char) : Option (Int × List Char) :=
  let (negative, body) := match cs with
    | '-' :: rest => (true, rest)
    | '+' :: rest => (false, rest)
    | _ => (false, cs)
  let digits := body.takeWhile Char.isDigit
  if digits.isEmpty then none
  else
    let size : Int := min maxExponent (Nat.ofDigitChars 10 digits 0)
    some (if negative then -size else size, body.dropWhile Char.isDigit)

/-- A number that is written without fraction and exponent. -/
def wholeNumber (negative : Bool) (digits : Significand) : Option Number :=
  if digits.dropped ≠ 0 then (scale? negative digits.value digits.dropped).map .float
  else if !negative then some (.integer digits.value)
  else if 0 < digits.value && digits.value ≤ Nat.pow 2 63 then some (.integer (-digits.value))
  else some (.float (Binary64.ofRatio true digits.value 1))

/-- Reads what follows the sign of a number. -/
def readNumber? (negative : Bool) (cs : List Char) : Option (Option Number × List Char) :=
  let whole := cs.takeWhile Char.isDigit
  let rest := cs.dropWhile Char.isDigit
  if whole.isEmpty || (whole.head? = some '0' && 1 < whole.length) then none
  else
    let significand := Significand.ofDigits whole {}
    let withExponent := fun (s : Significand) (power : Int) (rest : List Char) =>
      match rest with
      | c :: more =>
        if c = 'e' || c = 'E' then do
          let (exponent, rest) ← readExponent? more
          some ((scale? negative s.value (power + exponent)).map Number.float, rest)
        else some ((scale? negative s.value power).map Number.float, rest)
      | [] => some ((scale? negative s.value power).map Number.float, rest)
    match rest with
    | '.' :: more =>
      let digits := more.takeWhile Char.isDigit
      if digits.isEmpty then none
      else
        let all := Significand.ofDigits digits { significand with dropped := 0 }
        let places : Int := digits.length - all.dropped
        withExponent all (significand.dropped - places) (more.dropWhile Char.isDigit)
    | c :: _ =>
      if c = 'e' || c = 'E' then withExponent significand significand.dropped rest
      else some (wholeNumber negative significand, rest)
    | [] => some (wholeNumber negative significand, rest)

def hexValue? (c : Char) : Option Nat :=
  if c.isDigit then some (digitValue c)
  else if 'a' ≤ c && c ≤ 'f' then some (c.toNat - 'a'.toNat + 10)
  else if 'A' ≤ c && c ≤ 'F' then some (c.toNat - 'A'.toNat + 10)
  else none

def readHex4? : List Char → Option (Nat × List Char)
  | a :: b :: c :: d :: rest => do
    let a ← hexValue? a
    let b ← hexValue? b
    let c ← hexValue? c
    let d ← hexValue? d
    return (((a * 16 + b) * 16 + c) * 16 + d, rest)
  | _ => none

def simpleEscape? : Char → Option Char
  | '"' => some '"'
  | '\\' => some '\\'
  | '/' => some '/'
  | 'b' => some '\x08'
  | 'f' => some '\x0c'
  | 'n' => some '\n'
  | 'r' => some '\r'
  | 't' => some '\t'
  | _ => none

/-- One unit of a string: a character, or a surrogate without its partner. -/
inductive Unit where
  | char (c : Char)
  | surrogate (code : Nat)
deriving DecidableEq

/-- Reads the body of a string up to its closing quote. -/
def readUnits? : Nat → List Unit → List Char → Option (List Unit × List Char)
  | 0, _, _ => none
  | _, _, [] => none
  | _ + 1, done, '"' :: rest => some (done.reverse, rest)
  | fuel + 1, done, '\\' :: 'u' :: rest => do
    let (code, rest) ← readHex4? rest
    let unit := if 0xD800 ≤ code && code < 0xE000 then .surrogate code else .char (Char.ofNat code)
    readUnits? fuel (unit :: done) rest
  | fuel + 1, done, '\\' :: c :: rest => do
    let c ← simpleEscape? c
    readUnits? fuel (.char c :: done) rest
  | fuel + 1, done, c :: rest =>
    if c.toNat < 0x20 || c = '\\' then none else readUnits? fuel (.char c :: done) rest

/-- The text of some units, if every surrogate has its partner. -/
def textOf? : List Unit → Option (List Char)
  | [] => some []
  | .char c :: rest => (textOf? rest).map (c :: ·)
  | .surrogate high :: .surrogate low :: rest =>
    if high < 0xDC00 && 0xDC00 ≤ low then
      (textOf? rest).map (Char.ofNat (0x10000 + (high - 0xD800) * 0x400 + (low - 0xDC00)) :: ·)
    else none
  | .surrogate _ :: _ => none

/-- Reads a string whose opening quote has been read. -/
def readString? (cs : List Char) : Option (Option String × List Char) := do
  let (units, rest) ← readUnits? (cs.length + 1) [] cs
  return ((textOf? units).map String.ofList, rest)

mutual

def readValue? : Nat → List Char → Option (Json × List Char)
  | 0, _ => none
  | fuel + 1, cs =>
    match skipBlanks cs with
    | 'n' :: 'u' :: 'l' :: 'l' :: rest => some (.null, rest)
    | 't' :: 'r' :: 'u' :: 'e' :: rest => some (.bool true, rest)
    | 'f' :: 'a' :: 'l' :: 's' :: 'e' :: rest => some (.bool false, rest)
    | '"' :: rest => do
      let (s, rest) ← readString? rest
      return (.string s, rest)
    | '[' :: rest =>
      match skipBlanks rest with
      | ']' :: rest => some (.array [], rest)
      | _ => do
        let (items, rest) ← readItems? fuel rest
        return (.array items, rest)
    | '{' :: rest =>
      match skipBlanks rest with
      | '}' :: rest => some (.object [], rest)
      | _ => do
        let (fields, rest) ← readFields? fuel rest
        return (.object fields, rest)
    | '-' :: rest => do
      let (n, rest) ← readNumber? true rest
      return (.number n, rest)
    | rest => do
      let (n, rest) ← readNumber? false rest
      return (.number n, rest)

/-- Reads the items of an array up to its closing bracket; there is at least one. -/
def readItems? : Nat → List Char → Option (List Json × List Char)
  | 0, _ => none
  | fuel + 1, cs => do
    let (item, rest) ← readValue? fuel cs
    match skipBlanks rest with
    | ']' :: rest => return ([item], rest)
    | ',' :: rest => do
      let (items, rest) ← readItems? fuel rest
      return (item :: items, rest)
    | _ => none

/-- Reads the fields of an object up to its closing brace; there is at least one. -/
def readFields? : Nat → List Char → Option (List (Option String × Json) × List Char)
  | 0, _ => none
  | fuel + 1, cs =>
    match skipBlanks cs with
    | '"' :: rest => do
      let (name, rest) ← readString? rest
      match skipBlanks rest with
      | ':' :: rest => do
        let (value, rest) ← readValue? fuel rest
        match skipBlanks rest with
        | '}' :: rest => return ([(name, value)], rest)
        | ',' :: rest => do
          let (fields, rest) ← readFields? fuel rest
          return ((name, value) :: fields, rest)
        | _ => none
      | _ => none
    | _ => none

end

/-- Reads a text that is one value with blanks around it. -/
def parse? (s : String) : Option Json := do
  let cs := s.toList
  let (value, rest) ← readValue? (2 * cs.length + 2) cs
  if (skipBlanks rest).isEmpty then some value else none

/-- How deep a value may be nested that is kept as a whole. -/
def maxDepth : Nat := 127

/-- Reads a value of which every part has a value and which is not nested too deeply. -/
def parseSound? (s : String) : Option Json := do
  let value ← parse? s
  if value.sound && value.depth ≤ maxDepth then some value else none

end LintGate.Json
