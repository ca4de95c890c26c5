import LintGate.Text.Blank
import LintGate.Text.Utf8

/-!
# Captured output

A program prints to its output and to its errors. Each of the two is delivered when it is closed, in
whatever order that happens; `Capture.collect` puts them together so that the order does not matter.
-/

namespace LintGate.Capture

open Text (Bytes)

inductive Source where
  | output
  | errors
deriving DecidableEq, Repr

/-- What was printed to one source, all at once. -/
structure Delivery where
  source : Source
  contents : Bytes
deriving DecidableEq, Repr

/-- What is kept of one source: its text without blanks at the end. -/
def visible (contents : Bytes) : String :=
  Text.trimEnd (Text.decodeLossy contents)

/-- The output, then the errors. A part of which nothing is visible is left out. -/
def combine (output errors : Bytes) : String :=
  "\n".intercalate ([visible output, visible errors].filter (!·.isEmpty))

/-- What was received of each source. A source that was not delivered is empty. -/
structure Kept where
  output : Bytes := []
  errors : Bytes := []
deriving DecidableEq, Repr

def Kept.put (kept : Kept) : Delivery → Kept
  | ⟨.output, contents⟩ => { kept with output := contents }
  | ⟨.errors, contents⟩ => { kept with errors := contents }

/-- How many deliveries are waited for, one for each source. -/
def awaited : Nat := 2

/-- The text of all that was delivered in time, in the order in which it was received. -/
def collect (received : List Delivery) : String :=
  let kept := (received.take awaited).foldl Kept.put {}
  combine kept.output kept.errors

end LintGate.Capture
