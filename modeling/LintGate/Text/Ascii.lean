/-!
# Letter case of the ASCII letters

Names of languages, tools and file extensions are compared without regard to the case of the
letters `A` to `Z`; every other character stands for itself.
-/

namespace LintGate.Text

/-- A text with its ASCII capital letters made small. -/
def asciiLower (s : String) : String :=
  String.ofList (s.toList.map Char.toLower)

/-- Equality of texts up to the case of ASCII letters. -/
def sameIgnoringCase (a b : String) : Bool :=
  asciiLower a == asciiLower b

theorem sameIgnoringCase_iff {a b : String} :
    sameIgnoringCase a b = true ↔ asciiLower a = asciiLower b := by
  simp [sameIgnoringCase]

@[simp] theorem sameIgnoringCase_refl (a : String) : sameIgnoringCase a a = true := by
  simp [sameIgnoringCase]

end LintGate.Text
