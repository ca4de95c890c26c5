/-!
# Blank characters and trimming

A character is blank when it has the Unicode property White_Space. Trimming works on character
lists, where each of its halves is a `dropWhile`; the functions on `String` only convert.
-/

namespace LintGate.Text

/-- The characters with the Unicode property White_Space. -/
def isBlank (c : Char) : Bool :=
  let n := c.toNat
  (9 ≤ n && n ≤ 13) || n == 0x20 || n == 0x85 || n == 0xA0 || n == 0x1680 ||
    (0x2000 ≤ n && n ≤ 0x200A) || n == 0x2028 || n == 0x2029 || n == 0x202F || n == 0x205F ||
    n == 0x3000

/-- Removes the blank characters at the end of a list. -/
def trimEndChars (cs : List Char) : List Char :=
  (cs.reverse.dropWhile isBlank).reverse

/-- Removes the blank characters at both ends of a list. -/
def trimChars (cs : List Char) : List Char :=
  trimEndChars (cs.dropWhile isBlank)

/-- A text without the blank characters at its end. -/
def trimEnd (s : String) : String :=
  String.ofList (trimEndChars s.toList)

/-- A text without the blank characters at its ends. -/
def trim (s : String) : String :=
  String.ofList (trimChars s.toList)

/-- A text is blank when all its characters are; the empty text is blank. -/
def allBlank (s : String) : Bool :=
  s.toList.all isBlank

@[simp] theorem trimEndChars_nil : trimEndChars [] = [] := rfl

/-- What is left of a list after trimming its end is its beginning. -/
theorem trimEndChars_append_blank (cs : List Char) :
    ∃ tail, cs = trimEndChars cs ++ tail ∧ ∀ c ∈ tail, isBlank c = true := by
  refine ⟨(cs.reverse.takeWhile isBlank).reverse, ?_, ?_⟩
  · rw [trimEndChars, ← List.reverse_append, List.takeWhile_append_dropWhile, List.reverse_reverse]
  · intro c member
    have all := List.all_takeWhile (p := isBlank) (l := cs.reverse)
    exact List.all_eq_true.1 all c (by simpa using member)

end LintGate.Text
