/-!
# Colours on a terminal

A painted text stands between a control sequence that sets a property and one that resets it.
-/

namespace LintGate

inductive Colour where
  | red
  | green
  | yellow
  | magenta
  | grey
deriving DecidableEq, Repr

namespace Colour

/-- The number of the control sequence that sets a colour. -/
def number : Colour → Nat
  | red => 31
  | green => 32
  | yellow => 33
  | magenta => 35
  | grey => 90

/-- A control sequence of the terminal. -/
def sequence (number : Nat) : String :=
  s!"\x1b[{number}m"

end Colour

/-- How a piece of a report is to look. -/
structure Style where
  colour : Option Colour := none
  bold : Bool := false
deriving DecidableEq, Repr

namespace Style

/-- A text in a style; without styles the text itself. Boldness is set before the colour and reset
after it. -/
def paint (styled : Bool) (style : Style) (text : String) : String :=
  if styled then
    let coloured := match style.colour with
      | some colour => Colour.sequence colour.number ++ text ++ Colour.sequence 39
      | none => text
    if style.bold then Colour.sequence 1 ++ coloured ++ Colour.sequence 0 else coloured
  else text

@[simp] theorem paint_false (style : Style) (text : String) : paint false style text = text := rfl

end Style

end LintGate
