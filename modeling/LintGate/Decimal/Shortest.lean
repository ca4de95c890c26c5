import LintGate.Decimal.Binary64

/-!
# Shortest decimals

The text of a number is the shortest decimal that reads back as the number, and of several such
the nearest. It is written without an exponent, whatever its size.
-/

namespace LintGate.Binary64

/-- The digits of a decimal as one whole number, and the power of ten of its last digit. -/
structure Decimal where
  digits : Nat
  exponent : Int
deriving DecidableEq, Repr

/-- How many digits the whole number below `n + 1` has. -/
def digitCount (n : Nat) : Nat :=
  (Nat.toDigits 10 n).length

/-- A power of ten `e` with `num / den < 10 ^ e`, and the least one unless the quotient is close
below a power of ten. -/
def magnitude (num den : Nat) : Int :=
  if den ≤ num then digitCount (num / den)
  else 1 - (digitCount (den / num) : Int)

/-- `num / den` in units of `10 ^ exponent`. -/
def inUnits (num den : Nat) (exponent : Int) : Nat × Nat :=
  if 0 ≤ exponent then (num, den * Nat.pow 10 exponent.toNat)
  else (num * Nat.pow 10 (-exponent).toNat, den)

/-- The neighbour of `num / den` on the grid of multiples of `10 ^ exponent` that reads back as
`x`; of two the nearer. -/
def onGrid? (x : Binary64) (num den : Nat) (exponent : Int) : Option Decimal :=
  let (n, d) := inUnits num den exponent
  let below := n / d
  let nearest := roundedQuotient n d
  let other := if nearest = below then below + 1 else below
  let readsBack := fun (k : Nat) => k ≠ 0 && ofDecimal false k exponent = x
  if readsBack nearest then some ⟨nearest, exponent⟩
  else if readsBack other then some ⟨other, exponent⟩
  else none

/-- The first grid with a decimal that reads back as `x`, from coarse to fine. -/
def firstGrid (x : Binary64) (num den : Nat) (top : Int) : Nat → Nat → Decimal
  | _, 0 => ⟨0, 0⟩
  | taken, left + 1 =>
    match onGrid? x num den (top - taken) with
    | some found => found
    | none => firstGrid x num den top (taken + 1) left

/-- The shortest decimal for `mantissa * 2 ^ exponent`, which is not zero. -/
def shortest (mantissa : Nat) (exponent : Int) : Decimal :=
  let (num, den) := ratio mantissa exponent
  firstGrid (.finite false mantissa exponent) num den (magnitude num den) 0 20

/-- A decimal in positional notation. A whole number has no point. -/
def Decimal.text (d : Decimal) : String :=
  let digits := Nat.toDigits 10 d.digits
  if 0 ≤ d.exponent then String.ofList (digits ++ List.replicate d.exponent.toNat '0')
  else
    let places := (-d.exponent).toNat
    let padded := List.replicate (places + 1 - digits.length) '0' ++ digits
    let whole := padded.take (padded.length - places)
    let fraction := padded.drop (padded.length - places)
    let fraction := (fraction.reverse.dropWhile (· = '0')).reverse
    if fraction.isEmpty then String.ofList whole
    else String.ofList (whole ++ '.' :: fraction)

/-- The text of a number. -/
def text : Binary64 → String
  | .nan => "NaN"
  | .infinite negative => if negative then "-inf" else "inf"
  | .finite negative m e =>
    let sign := if negative then "-" else ""
    sign ++ if m = 0 then "0" else (shortest m e).text

end LintGate.Binary64
