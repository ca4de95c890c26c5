import LintGate.Text.DecimalDigit

/-!
# Versions

`Version.parse?` finds the first `MAJOR.MINOR` or `MAJOR.MINOR.PATCH` in what a tool prints about
itself. The digits may be of any script, but only ASCII digits that fit into 64 bits have a value.
-/

namespace LintGate

structure Version where
  major : UInt64
  minor : UInt64
  patch : UInt64
deriving DecidableEq, Repr

namespace Version

/-- The largest number that a part of a version may have. -/
def maxPart : Nat := Nat.pow 2 64 - 1

/-- The value of a run of digits. -/
def part? (digits : List Char) : Option UInt64 :=
  if digits.all Char.isDigit then
    let n := Nat.ofDigitChars 10 digits 0
    if n ≤ maxPart then some (UInt64.ofNat n) else none
  else none

/-- The digits after a dot at the beginning of a text, when there are any. -/
def dotDigits? : List Char → Option (List Char × List Char)
  | '.' :: rest =>
    let digits := rest.takeWhile Text.isDecimalDigit
    if digits.isEmpty then none else some (digits, rest.dropWhile Text.isDecimalDigit)
  | _ => none

/-- Reads the parts of a version whose first digits have been read. -/
def ofParts? (major minor : List Char) (rest : List Char) : Option Version := do
  let major ← part? major
  let minor ← part? minor
  let patch := (dotDigits? rest).bind fun found => part? found.1
  return ⟨major, minor, patch.getD 0⟩

/-- Looks for a version, where `run` holds the digits just read, the last one first. -/
def search (run : List Char) : List Char → Option Version
  | [] => none
  | c :: rest =>
    if Text.isDecimalDigit c then search (c :: run) rest
    else match run, dotDigits? (c :: rest) with
      | _ :: _, some (minor, after) => ofParts? run.reverse minor after
      | _, _ => search [] rest

/-- The first version in a text. -/
def parse? (text : String) : Option Version :=
  search [] text.toList

/-- A version as it is written: three numbers with dots between them. -/
def text (v : Version) : String :=
  s!"{v.major.toNat}.{v.minor.toNat}.{v.patch.toNat}"

end Version

end LintGate
