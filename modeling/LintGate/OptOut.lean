import LintGate.Text.Pieces
import LintGate.Text.Utf8

/-!
# Opting out

A file opts out of checking by a marker in one of its first lines. Lines end at a line feed; a
line that is not well-formed text is read with replacement characters.
-/

namespace LintGate

open Text (Bytes)

/-- Whether a file with these contents has `marker` in one of its first `maxLines` lines. -/
def optsOut (contents : Bytes) (marker : String) (maxLines : Nat) : Bool :=
  if marker.isEmpty then false
  else (Text.firstPieces 0x0A maxLines contents).any fun line =>
    Text.occursIn marker.toList (Text.decodeChars line)

@[simp] theorem optsOut_zero (contents : Bytes) (marker : String) :
    optsOut contents marker 0 = false := by
  simp [optsOut, Text.firstPieces]

end LintGate
