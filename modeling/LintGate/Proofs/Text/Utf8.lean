import LintGate.Text.Utf8

/-!
# Bytes of characters

Different texts have different bytes, and the byte of an ASCII character occurs in no other
character.
-/

namespace LintGate.Text

theorem encodeChars_cons (c : Char) (cs : List Char) :
    encodeChars (c :: cs) = String.utf8EncodeChar c ++ encodeChars cs := rfl

theorem encodeChars_inj {as bs : List Char} : encodeChars as = encodeChars bs ↔ as = bs := by
  constructor
  · intro same
    have arrays : as.utf8Encode = bs.utf8Encode := congrArg List.toByteArray same
    rw [← String.toByteArray_ofList, ← String.toByteArray_ofList, String.toByteArray_inj] at arrays
    exact String.ofList_inj.mp arrays
  · rintro rfl
    rfl

/-- The byte of an ASCII character belongs to that character only. -/
theorem toNat_eq_of_mem_utf8EncodeChar {c : Char} {b : UInt8} (ascii : b.toNat < 0x80)
    (member : b ∈ String.utf8EncodeChar c) : c.toNat = b.toNat := by
  have size : c.val.toNat < 0x110000 := by
    rcases c.valid with low | high <;> omega
  unfold String.utf8EncodeChar at member
  dsimp only at member
  split at member
  case isTrue small =>
    rw [List.mem_singleton] at member
    subst member
    rw [UInt8.toNat_ofNat']
    change c.val.toNat = c.val.toNat % 2 ^ 8
    omega
  -- Longer encodings have bytes of at least 0x80 only.
  all_goals
    exfalso
    split at member
    case isTrue =>
      simp only [List.mem_cons, List.not_mem_nil, or_false] at member
      rcases member with rfl | rfl <;> simp only [UInt8.toNat_ofNat'] at ascii <;> omega
    case isFalse =>
      split at member
      case isTrue =>
        simp only [List.mem_cons, List.not_mem_nil, or_false] at member
        rcases member with rfl | rfl | rfl <;> simp only [UInt8.toNat_ofNat'] at ascii <;> omega
      case isFalse =>
        simp only [List.mem_cons, List.not_mem_nil, or_false] at member
        rcases member with rfl | rfl | rfl | rfl <;> simp only [UInt8.toNat_ofNat'] at ascii <;>
          omega

end LintGate.Text
