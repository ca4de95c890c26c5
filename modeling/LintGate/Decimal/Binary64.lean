/-!
# Binary64 numbers

The numbers of the binary64 format as sign, mantissa and exponent, and rounding into that format.
`ofRatio` rounds a quotient of natural numbers to the nearest number of the format, ties to even;
everything else is defined through it.
-/

namespace LintGate

/-- A number of the binary64 format. A finite one is `mantissa * 2 ^ exponent`, where either the
mantissa has 53 bits or the exponent is the smallest, `-1074`. -/
inductive Binary64 where
  | finite (negative : Bool) (mantissa : Nat) (exponent : Int)
  | infinite (negative : Bool)
  | nan
deriving DecidableEq, Repr

namespace Binary64

def minExponent : Int := -1074

def maxExponent : Int := 971

def zero (negative : Bool) : Binary64 :=
  .finite negative 0 minExponent

/-- The quotient rounded to the nearest whole number, a half to the even neighbour. -/
def roundedQuotient (num den : Nat) : Nat :=
  let q := num / den
  let twice := 2 * (num % den)
  if twice < den then q else if den < twice then q + 1 else if q % 2 = 0 then q else q + 1

/-- `num / den` in units of `2 ^ exponent`, as a quotient of whole numbers. -/
def scaled (num den : Nat) (exponent : Int) : Nat × Nat :=
  if 0 ≤ exponent then (num, den * Nat.pow 2 exponent.toNat)
  else (num * Nat.pow 2 (-exponent).toNat, den)

/-- The exponent in which the mantissa of `num / den` has 53 bits before rounding, but not less
than the smallest exponent. -/
def fittingExponent (num den : Nat) : Int :=
  let guess : Int := (Nat.log2 num : Int) - Nat.log2 den - 53
  let (n, d) := scaled num den guess
  let exact := if n / d < Nat.pow 2 53 then guess else guess + 1
  max exact minExponent

/-- Mantissa and exponent as a number; a mantissa of 54 bits is a power of two and moves into the
exponent. -/
def ofParts (negative : Bool) (mantissa : Nat) (exponent : Int) : Binary64 :=
  let (m, e) :=
    if mantissa = Nat.pow 2 53 then (Nat.pow 2 52, exponent + 1) else (mantissa, exponent)
  if maxExponent < e then .infinite negative else .finite negative m e

/-- The number nearest to `num / den`, where `den` is not zero. -/
def ofRatio (negative : Bool) (num den : Nat) : Binary64 :=
  if num = 0 then zero negative
  else
    let e := fittingExponent num den
    let (n, d) := scaled num den e
    ofParts negative (roundedQuotient n d) e

/-- The number nearest to `digits * 10 ^ exponent`. -/
def ofDecimal (negative : Bool) (digits : Nat) (exponent : Int) : Binary64 :=
  if 0 ≤ exponent then ofRatio negative (digits * Nat.pow 10 exponent.toNat) 1
  else ofRatio negative digits (Nat.pow 10 (-exponent).toNat)

def ofInt (n : Int) : Binary64 :=
  ofRatio (n < 0) n.natAbs 1

def isFinite : Binary64 → Bool
  | .finite .. => true
  | _ => false

/-- The absolute value of a finite number as a quotient. -/
def ratio (mantissa : Nat) (exponent : Int) : Nat × Nat :=
  if 0 ≤ exponent then (mantissa * Nat.pow 2 exponent.toNat, 1)
  else (mantissa, Nat.pow 2 (-exponent).toNat)

/-- The rounded product of a number and a whole number of the format. -/
def timesNat (x : Binary64) (n : Nat) : Binary64 :=
  match x with
  | .finite negative m e =>
    let (num, den) := ratio m e
    ofRatio negative (num * n) den
  | other => other

/-- The rounded quotient of a number and a whole number of the format, which is not zero. -/
def divNat (x : Binary64) (n : Nat) : Binary64 :=
  match x with
  | .finite negative m e =>
    let (num, den) := ratio m e
    ofRatio negative num (den * n)
  | other => other

/-- The whole number that a number of the format is, rounded toward zero if it is none. -/
def toNat (x : Binary64) : Nat :=
  match x with
  | .finite _ m e =>
    let (num, den) := ratio m e
    num / den
  | _ => 0

example : ofDecimal false 1 (-1) = .finite false 7205759403792794 (-56) := by decide

example : ofInt 80 = .finite false (80 * 2 ^ 46) (-46) := by decide

end Binary64

end LintGate
