import LintGate.Process.Execution
import LintGate.Proofs.Process.Together

/-!
# What captured output shows

Captured output that is not empty shows something: each of its parts was trimmed, and a part of
which nothing is left was left out. A machine answers with captured output only, so the histories of
what it carries out hold nothing else.
-/

namespace LintGate

namespace Text

theorem allBlank_append (a b : String) : allBlank (a ++ b) = (allBlank a && allBlank b) := by
  rw [allBlank, String.toList_append, List.all_append]
  rfl

theorem allBlank_eq_false_iff {s : String} :
    allBlank s = false ↔ ∃ c ∈ s.toList, isBlank c = false := by
  simp [allBlank]

/-- A member of a joined list of texts is a part of the whole. -/
theorem infix_intercalate {separator part : String} {parts : List String}
    (member : part ∈ parts) : part.toList <:+: (separator.intercalate parts).toList := by
  induction parts with
  | nil => cases member
  | cons first parts ih =>
      by_cases alone : parts = []
      · subst alone
        obtain rfl := List.mem_singleton.mp member
        exact String.intercalate_singleton ▸ List.infix_refl _
      · rw [String.intercalate_cons_of_ne_nil alone, String.toList_append, String.toList_append,
          List.append_assoc]
        rcases List.mem_cons.mp member with rfl | later
        · exact (List.prefix_append _ _).isInfix
        · exact (ih later).trans ((List.suffix_append _ _).trans (List.suffix_append _ _)).isInfix

/-- A text stays visible when it is joined with others. -/
theorem allBlank_intercalate {separator part : String} {parts : List String}
    (member : part ∈ parts) (shows : allBlank part = false) :
    allBlank (separator.intercalate parts) = false := by
  obtain ⟨c, inside, visible⟩ := allBlank_eq_false_iff.mp shows
  exact allBlank_eq_false_iff.mpr ⟨c, (infix_intercalate member).subset inside, visible⟩

theorem allBlank_joined {separator : String} {parts : List String} (nonempty : parts ≠ [])
    (show_all : ∀ part ∈ parts, allBlank part = false) :
    allBlank (separator.intercalate parts) = false := by
  obtain ⟨part, member⟩ := List.exists_mem_of_ne_nil parts nonempty
  exact allBlank_intercalate member (show_all part member)

/-- Trimming takes away nothing but blanks. -/
theorem exists_trimEnd_append (s : String) :
    ∃ blanks, s = trimEnd s ++ blanks ∧ allBlank blanks = true := by
  obtain ⟨tail, shape, blank⟩ := trimEndChars_append_blank s.toList
  refine ⟨String.ofList tail, ?_, ?_⟩
  · rw [trimEnd, ← String.ofList_append, ← shape, String.ofList_toList]
  · rw [allBlank, String.toList_ofList, List.all_eq_true]
    exact blank

/-- The text is empty, or its last character is visible. -/
def EndsVisibly (s : String) : Prop :=
  ∀ c ∈ s.toList.getLast?, isBlank c = false

theorem endsVisibly_trimEnd (s : String) : EndsVisibly (trimEnd s) := by
  intro c last
  rw [trimEnd, String.toList_ofList, trimEndChars, List.getLast?_reverse] at last
  have visible := List.head?_dropWhile_not isBlank s.toList.reverse
  rw [Option.mem_def.mp last] at visible
  exact visible

theorem EndsVisibly.append {a b : String} (ends : EndsVisibly b) (left : b ≠ "") :
    EndsVisibly (a ++ b) := by
  intro c last
  have chars : b.toList ≠ [] := fun nothing => left (String.toList_eq_nil_iff.mp nothing)
  rw [String.toList_append, List.getLast?_append_of_ne_nil _ chars] at last
  exact ends c last

/-- A text that ends visibly is blank only when it is empty. -/
theorem EndsVisibly.eq_empty_iff {s : String} (ends : EndsVisibly s) :
    s = "" ↔ allBlank s = true := by
  constructor
  · rintro rfl
    rfl
  · intro blank
    by_contra left
    have chars : s.toList ≠ [] := fun nothing => left (String.toList_eq_nil_iff.mp nothing)
    have visible := ends _ (List.getLast?_eq_some_getLast chars)
    rw [List.all_eq_true.mp blank _ (List.getLast_mem chars)] at visible
    cases visible

theorem trimEnd_eq_empty_iff {s : String} : trimEnd s = "" ↔ allBlank s = true := by
  obtain ⟨blanks, shape, blank⟩ := exists_trimEnd_append s
  rw [(endsVisibly_trimEnd s).eq_empty_iff]
  conv_rhs => rw [shape, allBlank_append, blank, Bool.and_true]

end Text

namespace Capture

open Text (Bytes)

variable {output errors : Bytes}

/-- The parts of which something is visible, on lines of their own. -/
theorem combine_eq (output errors : Bytes) :
    combine output errors =
      if visible errors = "" then visible output
      else if visible output = "" then visible errors
      else visible output ++ "\n" ++ visible errors := by
  rw [combine]
  by_cases no_errors : visible errors = "" <;> by_cases no_output : visible output = "" <;>
    simp [no_errors, no_output]

theorem endsVisibly_visible (contents : Bytes) : Text.EndsVisibly (visible contents) :=
  Text.endsVisibly_trimEnd _

theorem endsVisibly_combine (output errors : Bytes) :
    Text.EndsVisibly (combine output errors) := by
  rw [combine_eq]
  split
  · exact endsVisibly_visible output
  · split
    · exact endsVisibly_visible errors
    case isFalse some_errors _ => exact (endsVisibly_visible errors).append some_errors

theorem combine_eq_empty_iff : combine output errors = "" ↔
    Text.allBlank (Text.decodeLossy output) = true ∧
      Text.allBlank (Text.decodeLossy errors) = true := by
  rw [← Text.trimEnd_eq_empty_iff, ← Text.trimEnd_eq_empty_iff]
  change _ ↔ visible output = "" ∧ visible errors = ""
  rw [combine_eq]
  split
  case isTrue no_errors => simp [no_errors]
  case isFalse some_errors =>
      split
      case isTrue no_output => simp [no_output]
      case isFalse some_output => simp [some_output]

/-- Output that is not empty has a character that is not blank. -/
theorem allBlank_collect {deliveries : List Delivery} (printed : collect deliveries ≠ "") :
    Text.allBlank (collect deliveries) = false := by
  rw [collect] at printed ⊢
  rw [Ne, (endsVisibly_combine _ _).eq_empty_iff] at printed
  exact Bool.eq_false_of_not_eq_true printed

end Capture

namespace Outcome

/-- What a program printed is the captured text of what it delivered. -/
def Captured : Outcome → Prop
  | .exited _ output => ∃ deliveries, output = Capture.collect deliveries
  | .timedOut _ output => ∃ deliveries, output = Capture.collect deliveries
  | .failedToStart _ => True

/-- Captured output is blank only when it is empty. -/
theorem Captured.shows {code : Option Nat} {output : String}
    (captured : (Outcome.exited code output).Captured) (printed : output ≠ "") :
    Text.allBlank output = false := by
  rw [Captured] at captured
  obtain ⟨deliveries, same⟩ := captured
  rw [same] at printed ⊢
  exact Capture.allBlank_collect printed

end Outcome

/-- All that is told of the programs was captured. -/
def History.Captured (history : History) : Prop :=
  ∀ entry ∈ history, entry.2.Captured

theorem History.captured_append_iff {first second : History} :
    History.Captured (first ++ second) ↔ first.Captured ∧ second.Captured :=
  List.forall_mem_append

/-- Whatever a program is and does, a machine tells of it what was captured. -/
theorem Machine.run_captured (m : Machine) (l : Launch) : (m.run l).1.Captured := by
  have outcome_captured (later : Machine) (start : Nat) (ended : Except Shell.Stop Unit)
      (status : Nat) : (later.outcome start ended status).1.Captured := by
    cases ended with
    | ok => exact ⟨_, rfl⟩
    | error stop => cases stop <;> exact ⟨_, rfl⟩
  rw [Machine.run]
  dsimp only
  split
  · trivial
  · split
    · split
      · trivial
      · split
        · exact ⟨[], rfl⟩
        · exact outcome_captured _ _ _ _
    · trivial
    · trivial
    · trivial

end LintGate
