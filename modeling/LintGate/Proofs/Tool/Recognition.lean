import LintGate.Proofs.Process.Capture
import LintGate.Proofs.Tool.Wording
import Mathlib.Data.List.Permutation

/-!
# Recognising unreadable configuration

A recovery rule recognises a text that holds a text of one of its wordings, so whatever stands
around that text does no harm. The known wordings end visibly: neither trimming what a program
printed nor joining its output and its errors can hide them.
-/

namespace LintGate

/-- Removing blanks from the end of a text keeps every part that ends visibly. -/
theorem Text.infix_trimEndChars {part cs : List Char} {c : Char} (last : c ∈ part.getLast?)
    (visible : isBlank c = false) (inside : part <:+: cs) : part <:+: trimEndChars cs := by
  obtain ⟨tail, shape, blank⟩ := trimEndChars_append_blank cs
  have not_in_tail : c ∉ tail := by
    intro member
    rw [blank c member] at visible
    cases visible
  rw [shape, List.infix_append_iff] at inside
  rcases inside with kept | cut | ⟨front, back, rfl, ends, begins⟩
  · exact kept
  · exact absurd (cut.subset (List.mem_of_getLast? last)) not_in_tail
  · cases back with
    | nil =>
        rw [List.append_nil]
        exact ends.isInfix
    | cons d back =>
        rw [List.getLast?_append_of_ne_nil _ (List.cons_ne_nil d back)] at last
        exact absurd (begins.subset (List.mem_of_getLast? last)) not_in_tail

namespace RecoveryRule

variable {rule : RecoveryRule}

theorem recognises_iff {text : String} :
    rule.recognises text = true ↔
      ∃ w ∈ rule.wordings, ∃ read, w.Reads read ∧ read <:+: text.toList := by
  simp only [recognises, List.any_eq_true, Wording.occursIn_iff]

theorem recognises_of_infix {text whole : String} (inside : text.toList <:+: whole.toList)
    (found : rule.recognises text = true) : rule.recognises whole = true := by
  rw [recognises, List.any_eq_true] at found ⊢
  obtain ⟨w, member, occurs⟩ := found
  exact ⟨w, member, Wording.occursIn_mono inside occurs⟩

theorem recognises_asciiLower (text : String) :
    rule.recognises (Text.asciiLower text) = rule.recognises text := by
  simp only [recognises, Text.asciiLower, String.toList_ofList, Wording.occursIn_toLower]

theorem closes_of_mem_all (known : rule ∈ all) : ∀ w ∈ rule.wordings, w.closes = true := by
  have checked : ∀ rule ∈ all, rule.wordings.all Wording.closes = true := by decide
  exact List.all_eq_true.mp (checked rule known)

theorem recognises_trimEnd (known : rule ∈ all) {text : String}
    (found : rule.recognises text = true) : rule.recognises (Text.trimEnd text) = true := by
  obtain ⟨w, member, read, reads, inside⟩ := recognises_iff.mp found
  obtain ⟨c, last, visible⟩ := reads.exists_last (closes_of_mem_all known w member)
  rw [recognises_iff, Text.trimEnd, String.toList_ofList]
  exact ⟨w, member, read, reads, Text.infix_trimEndChars last visible inside⟩

/-- A recognised text has a visible character. -/
theorem ne_empty_of_recognises (known : rule ∈ all) {text : String}
    (found : rule.recognises text = true) : text ≠ "" := by
  rintro rfl
  obtain ⟨w, member, read, reads, inside⟩ := recognises_iff.mp found
  obtain ⟨c, last, -⟩ := reads.exists_last (closes_of_mem_all known w member)
  have nothing : c ∈ "".toList := inside.subset (List.mem_of_getLast? last)
  cases nothing

theorem recognises_combine (known : rule ∈ all) {contents output errors : Text.Bytes}
    (source : contents = output ∨ contents = errors)
    (found : rule.recognises (Text.decodeLossy contents) = true) :
    rule.recognises (Capture.combine output errors) = true := by
  have shown : rule.recognises (Capture.visible contents) = true := recognises_trimEnd known found
  have kept : Capture.visible contents ∈
      [Capture.visible output, Capture.visible errors].filter (!·.isEmpty) := by
    have some_text := ne_empty_of_recognises known shown
    rw [List.mem_filter]
    rcases source with rfl | rfl <;> simpa using some_text
  exact recognises_of_infix (Text.infix_intercalate kept) shown

/-- A rule recognises a text exactly when a text of one of its wordings stands in it. What it
recognises in the output or in the errors of a program it recognises in what is captured of both, in
whatever order they are delivered; text around a recognised one and the case of its letters make no
difference. -/
theorem recognises_amid_chatter (known : rule ∈ all) :
    (∀ text : String, rule.recognises text = true ↔
      ∃ w ∈ rule.wordings, ∃ read, w.Reads read ∧ read <:+: text.toList) ∧
    (∀ (output errors : Text.Bytes) (deliveries : List Capture.Delivery),
      deliveries.Perm [⟨.output, output⟩, ⟨.errors, errors⟩] →
      rule.recognises (Text.decodeLossy output) = true ∨
        rule.recognises (Text.decodeLossy errors) = true →
      rule.recognises (Capture.collect deliveries) = true) ∧
    (∀ front text back : String, rule.recognises text = true →
      rule.recognises (front ++ text ++ back) = true) ∧
    ∀ text other : String, Text.sameIgnoringCase text other = true →
      rule.recognises text = rule.recognises other := by
  refine ⟨fun _ => recognises_iff, ?_, ?_, ?_⟩
  · intro output errors deliveries delivered found
    have collected : Capture.collect deliveries = Capture.combine output errors := by
      rcases List.perm_pair.mp delivered with rfl | rfl <;> rfl
    rw [collected]
    rcases found with out | err
    · exact recognises_combine known (.inl rfl) out
    · exact recognises_combine known (.inr rfl) err
  · intro front text back found
    apply recognises_of_infix _ found
    rw [String.toList_append, String.toList_append]
    exact List.infix_append _ _ _
  · intro text other same
    rw [← recognises_asciiLower text, Text.sameIgnoringCase_iff.mp same, recognises_asciiLower]

/-- The errors of a tool that shouts, with an ill-formed byte before them and blanks behind. -/
def shoutedErrors : Text.Bytes :=
  0xFF :: Text.encode "RUFF failed \n\n CAUSE: no Toml \t\n"

/-- The errors are delivered first, and the output ends in blanks. -/
theorem recognises_amid_chatter_of_ruff :
    ruff ∈ all ∧
      [⟨.errors, shoutedErrors⟩, ⟨.output, Text.encode "a.py: E1\n \n"⟩].Perm
        [(⟨.output, Text.encode "a.py: E1\n \n"⟩ : Capture.Delivery), ⟨.errors, shoutedErrors⟩] ∧
      ruff.recognises (Text.decodeLossy shoutedErrors) = true ∧
      ruff.recognises (Capture.collect
        [⟨.errors, shoutedErrors⟩, ⟨.output, Text.encode "a.py: E1\n \n"⟩]) = true ∧
      ruff.recognises "Unknown field x expected one of" = true ∧
      ruff.recognises ("error: " ++ "Unknown field x expected one of" ++ "\ny") = true ∧
      Text.sameIgnoringCase "ruff failed" "Ruff FAILED" = true ∧
      ruff.recognises "ruff failed" = ruff.recognises "Ruff FAILED" := by
  have known : ruff ∈ all := by simp [all]
  have failed : ruff.recognises (Text.decodeLossy shoutedErrors) = true := by decide
  have unknown : ruff.recognises "Unknown field x expected one of" = true := by decide
  have same : Text.sameIgnoringCase "ruff failed" "Ruff FAILED" = true := by decide
  obtain ⟨-, captured, around, caseless⟩ := recognises_amid_chatter known
  exact ⟨known, .swap .., failed, captured _ _ _ (.swap ..) (.inr failed), unknown,
    around _ _ _ unknown, same, caseless _ _ same⟩

end RecoveryRule

end LintGate
