/-!
# Cutting lists at a separator

`pieces` cuts at every separator and keeps empty pieces; `firstPieces` stops after a number of
them, so that only the beginning of a long list is read.
-/

namespace LintGate.Text

variable {α : Type} [DecidableEq α]

/-- The pieces of a list between its separators, of which there is always one more than
separators. -/
def pieces (sep : α) : List α → List (List α)
  | [] => [[]]
  | x :: rest =>
    if x = sep then [] :: pieces sep rest
    else match pieces sep rest with
      | [] => [[x]]
      | piece :: more => (x :: piece) :: more

/-- At most `count` pieces of a list. A separator ends a piece, so nothing stands after the last
separator unless something follows it. -/
def firstPieces (sep : α) : Nat → List α → List (List α)
  | 0, _ => []
  | _ + 1, [] => []
  | count + 1, x :: rest =>
    (x :: rest).takeWhile (· ≠ sep) ::
      firstPieces sep count (((x :: rest).dropWhile (· ≠ sep)).drop 1)

/-- Puts `sep` between the members of a list of lists. -/
def joined (sep : List α) : List (List α) → List α
  | [] => []
  | [only] => only
  | piece :: more => piece ++ sep ++ joined sep more

/-- The lines of a text: each ends at a line feed, which may follow a carriage return. A line feed
at the very end begins no further line. -/
def lines (s : String) : List String :=
  let all := pieces '\n' s.toList
  let kept := if all.getLast? = some [] then all.dropLast else all
  kept.map fun line =>
    String.ofList (if line.getLast? = some '\r' then line.dropLast else line)

/-- Whether `part` occurs in `whole` as a run of neighbouring members. -/
def occursIn (part : List α) : List α → Bool
  | [] => part.isEmpty
  | x :: rest => part.isPrefixOf (x :: rest) || occursIn part rest

theorem pieces_ne_nil (sep : α) (xs : List α) : pieces sep xs ≠ [] := by
  induction xs with
  | nil => simp [pieces]
  | cons x rest ih =>
    by_cases h : x = sep
    · simp [pieces, h]
    · simp only [pieces, h, if_false]
      split <;> simp

theorem joined_pieces (sep : α) (xs : List α) : joined [sep] (pieces sep xs) = xs := by
  induction xs with
  | nil => rfl
  | cons x rest ih =>
    have nonempty := pieces_ne_nil sep rest
    by_cases h : x = sep
    · subst h
      match cut : pieces x rest with
      | [] => exact absurd cut nonempty
      | piece :: more =>
        rw [cut] at ih
        simp [pieces, cut, joined, ih]
    · match cut : pieces sep rest with
      | [] => exact absurd cut nonempty
      | [piece] =>
        rw [cut] at ih
        simpa [pieces, h, cut, joined] using ih
      | piece :: next :: more =>
        rw [cut] at ih
        simpa [pieces, h, cut, joined] using ih

example : pieces ' ' "a  b".toList = [['a'], [], ['b']] := by decide

example : firstPieces '\n' 3 "a\n\nb\n".toList = [['a'], [], ['b']] := by decide

end LintGate.Text
