import LintGate.Proofs.Report.Groups

/-!
# Colour adds control sequences only

A control sequence is an escape, a bracket, digits and semicolons, and the letter `m`. Removing the
sequences goes through a text from left to right, so what it leaves of two texts in a row can be
told from what it leaves of each as long as no sequence is cut in two. A painted text stands between
whole sequences, and a report is put together of painted texts and of texts without escapes.
-/

namespace LintGate.Report

/-! ## Removing control sequences -/

def escape : Char := '\x1b'

/-- Digits and semicolons stand between the beginning and the end of a control sequence. -/
def isParameter (c : Char) : Bool :=
  c.isDigit || c == ';'

/-- The length of the control sequence with which a text begins, or 0 for want of one. -/
def sequenceLength : List Char → Nat
  | c :: '[' :: rest =>
    let parameters := (rest.takeWhile isParameter).length
    if c = escape ∧ rest[parameters]? = some 'm' then parameters + 3 else 0
  | _ => 0

/-- A text without its control sequences. The first `inside` characters are the end of one. -/
def withoutSequences : Nat → List Char → List Char
  | _, [] => []
  | inside + 1, _ :: rest => withoutSequences inside rest
  | 0, c :: rest =>
    match sequenceLength (c :: rest) with
    | 0 => c :: withoutSequences 0 rest
    | length + 1 => withoutSequences length rest

def uncoloured (text : String) : String :=
  String.ofList (withoutSequences 0 text.toList)

theorem withoutSequences_inside {inside : Nat} {ending : List Char} (rest : List Char)
    (length : ending.length = inside) :
    withoutSequences inside (ending ++ rest) = withoutSequences 0 rest := by
  induction ending generalizing inside with
  | nil =>
      subst length
      rfl
  | cons c ending ih =>
      subst length
      exact ih rfl

theorem sequenceLength_eq {parameters rest : List Char}
    (all : ∀ c ∈ parameters, isParameter c = true) :
    sequenceLength (escape :: '[' :: (parameters ++ 'm' :: rest)) = parameters.length + 3 := by
  have taken : (parameters ++ 'm' :: rest).takeWhile isParameter = parameters := by
    rw [List.takeWhile_append_of_pos all, List.takeWhile_cons_of_neg (by decide), List.append_nil]
  simp [sequenceLength, taken]

theorem withoutSequences_sequence {parameters : List Char} (rest : List Char)
    (all : ∀ c ∈ parameters, isParameter c = true) :
    withoutSequences 0 (escape :: '[' :: (parameters ++ 'm' :: rest)) =
      withoutSequences 0 rest := by
  rw [withoutSequences, sequenceLength_eq all]
  have ending : withoutSequences (parameters.length + 2) ('[' :: (parameters ++ ['m']) ++ rest) =
      withoutSequences 0 rest := withoutSequences_inside rest (by simp)
  simpa using ending

theorem withoutSequences_cons {c : Char} (rest : List Char) (other : c ≠ escape) :
    withoutSequences 0 (c :: rest) = c :: withoutSequences 0 rest := by
  have none_begins : sequenceLength (c :: rest) = 0 := by
    unfold sequenceLength
    split
    case h_1 begins =>
      cases begins
      exact if_neg fun whole => other whole.1
    case h_2 => rfl
  rw [withoutSequences, none_begins]

example : uncoloured "a\x1b[1;31mb\x1b[c" = "ab\x1b[c" := by decide

theorem toList_toString (n : Nat) : (toString n).toList = Nat.toDigits 10 n := by
  simp [ToString.toString]

/-- Removing control sequences leaves `plain` of `coloured`, whatever follows. -/
def Uncolours (coloured plain : String) : Prop :=
  ∀ rest, withoutSequences 0 (coloured.toList ++ rest) = plain.toList ++ withoutSequences 0 rest

/-- A text without escapes. -/
def Clear (text : String) : Prop :=
  escape ∉ text.toList

instance (text : String) : Decidable (Clear text) :=
  inferInstanceAs (Decidable (¬ _))

namespace Clear

variable {a b c : String}

theorem append (first : Clear a) (second : Clear b) : Clear (a ++ b) := by
  rw [Clear, String.toList_append, List.mem_append, not_or]
  exact ⟨first, second⟩

theorem around (inner : Clear b) (before : Clear a) (after : Clear c) : Clear (a ++ b ++ c) :=
  (before.append inner).append after

theorem intercalate {separator : String} {parts : List String} (between : Clear separator)
    (all : ∀ part ∈ parts, Clear part) : Clear (separator.intercalate parts) := by
  induction parts with
  | nil => exact List.not_mem_nil
  | cons part parts ih =>
      rw [List.forall_mem_cons] at all
      by_cases alone : parts = []
      · subst alone
        rw [String.intercalate_singleton]
        exact all.1
      · rw [String.intercalate_cons_of_ne_nil alone]
        exact (all.1.append between).append (ih all.2)

theorem toString_nat (n : Nat) : Clear (toString n) := by
  intro member
  have digit : escape.isDigit = true := by
    rw [toList_toString] at member
    exact Nat.isDigit_of_mem_toDigits (by decide) (by decide) member
  cases digit

theorem category_text (category : Category) : Clear category.text := by
  cases category <;> decide

end Clear

namespace Uncolours

theorem append {a b a' b' : String} (first : Uncolours a a') (second : Uncolours b b') :
    Uncolours (a ++ b) (a' ++ b') := by
  intro rest
  rw [String.toList_append, List.append_assoc, first, second, String.toList_append,
    List.append_assoc]

theorem of_clear {text : String} (clear : Clear text) : Uncolours text text := by
  intro rest
  rw [Clear] at clear
  generalize text.toList = cs at clear
  induction cs with
  | nil => rfl
  | cons c cs ih =>
      rw [List.mem_cons, not_or] at clear
      rw [List.cons_append, withoutSequences_cons _ (Ne.symm clear.1), ih clear.2, List.cons_append]

theorem sequence (number : Nat) : Uncolours (Colour.sequence number) "" := by
  intro rest
  have digits : ∀ c ∈ Nat.toDigits 10 number, isParameter c = true := by
    intro c member
    rw [isParameter, Nat.isDigit_of_mem_toDigits (by decide) (by decide) member]
    rfl
  have shape : (Colour.sequence number).toList =
      escape :: '[' :: (Nat.toDigits 10 number ++ ['m']) := by
    rw [Colour.sequence, String.toList_append, String.toList_append]
    exact congrArg (fun ds => escape :: '[' :: (ds ++ ['m'])) (toList_toString number)
  rw [shape]
  simpa using withoutSequences_sequence rest digits

/-- Whatever the numbers of the sequences on both sides are, they are removed. -/
theorem wrap {coloured plain : String} (before after : Nat) (inner : Uncolours coloured plain) :
    Uncolours (Colour.sequence before ++ coloured ++ Colour.sequence after) plain := by
  have wrapped := ((sequence before).append inner).append (sequence after)
  rwa [String.empty_append, String.append_empty] at wrapped

theorem paint (style : Style) {text : String} (clear : Clear text) :
    Uncolours (style.paint true text) text := by
  obtain ⟨colour, bold⟩ := style
  have plain : Uncolours text text := of_clear clear
  cases colour with
  | none =>
      cases bold with
      | false => exact plain
      | true => exact plain.wrap 1 0
  | some colour =>
      cases bold with
      | false => exact plain.wrap colour.number 39
      | true => exact (plain.wrap colour.number 39).wrap 1 0

theorem join {α : Type} {coloured plain : α → String} {xs : List α}
    (each : ∀ x ∈ xs, Uncolours (coloured x) (plain x)) :
    Uncolours (String.join (xs.map coloured)) (String.join (xs.map plain)) := by
  induction xs with
  | nil => exact of_clear List.not_mem_nil
  | cons x xs ih =>
      rw [List.forall_mem_cons] at each
      rw [List.map_cons, List.map_cons, String.join_cons, String.join_cons]
      exact each.1.append (ih each.2)

theorem uncoloured_eq {coloured plain : String} (uncolours : Uncolours coloured plain) :
    uncoloured coloured = plain := by
  have whole := uncolours []
  rw [List.append_nil, withoutSequences, List.append_nil] at whole
  rw [uncoloured, whole, String.ofList_toList]

end Uncolours

/-! ## Reports -/

/-- What is shown of a finding has no escapes of its own. -/
structure ClearFinding (f : Finding) : Prop where
  tool : Clear f.tool
  profile : Clear f.profile
  output : Clear f.output

structure ClearVerdict (v : Verdict) : Prop where
  profiles : ∀ p ∈ v.profiles, Clear p.profile
  findings : ∀ f ∈ v.findings, ClearFinding f

theorem clear_lineFeed : Clear "\n" := by decide

theorem uncolours_renderFinding {f : Finding} (clear : ClearFinding f) :
    Uncolours (renderFinding true f) (renderFinding false f) := by
  have tag_clear : Clear (tag f) := by
    have begins : Clear ("[" ++ f.profile ++ " · ") := clear.profile.around (by decide) (by decide)
    exact (Clear.category_text f.category).around begins (by decide)
  have output_clear : Clear (if f.output.isEmpty then "" else f.output ++ "\n") := by
    split
    · exact List.not_mem_nil
    · exact clear.output.append clear_lineFeed
  exact ((Uncolours.paint _ tag_clear).append (.of_clear clear_lineFeed)).append
    (.of_clear output_clear)

theorem uncolours_renderGroup {g : ToolGroup} (tool : Clear g.tool)
    (findings : ∀ f ∈ g.findings, ClearFinding f) :
    Uncolours (renderGroup true g) (renderGroup false g) := by
  have title_clear : Clear s!"── {g.tool} ──" := tool.around (by decide) (by decide)
  exact (((Uncolours.of_clear clear_lineFeed).append (.paint _ title_clear)).append
    (.of_clear clear_lineFeed)).append
      (.join fun f member => uncolours_renderFinding (findings f member))

theorem clear_cleanLine {v : Verdict} (clear : ClearVerdict v) : Clear (cleanLine v) := by
  rw [cleanLine]
  split
  · decide
  · refine Clear.around (Clear.intercalate (by decide) ?_) (by decide) (by decide)
    intro id member
    obtain ⟨p, inside, rfl⟩ := List.mem_map.mp member
    exact clear.profiles p inside

theorem uncolours_groups {findings : List Finding} (clear : ∀ f ∈ findings, ClearFinding f) :
    Uncolours (String.join ((groupByTool findings).map (renderGroup true)))
      (String.join ((groupByTool findings).map (renderGroup false))) := by
  have grouped := grouped_groupByTool findings
  apply Uncolours.join
  intro g member
  apply uncolours_renderGroup
  · obtain ⟨f, inside, same⟩ :=
      List.mem_map.mp ((grouped.complete g.tool).mp (List.mem_map_of_mem member))
    rw [← same]
    exact (clear f inside).tool
  · intro f inside
    rw [grouped.own g member] at inside
    exact clear f (List.mem_filter.mp inside).1

theorem uncolours_renderHuman {v : Verdict} (clear : ClearVerdict v) (tokens : Nat) :
    Uncolours (renderHuman v tokens true) (renderHuman v tokens false) := by
  rw [renderHuman, renderHuman]
  split
  case isTrue =>
    have space : Clear " " := by decide
    have metric : Clear s!"context ~{tokens} tokens" :=
      (Clear.toString_nat tokens).around (by decide) (by decide)
    exact ((Uncolours.paint _ (clear_cleanLine clear)).append (.of_clear space)).append
      (.paint _ metric)
  case isFalse =>
    have header : Clear s!"✖ smart-lint: {v.findings.length} blocking issue(s)" :=
      (Clear.toString_nat _).around (by decide) (by decide)
    have instruction : Clear closingInstruction := by decide
    exact ((((Uncolours.paint _ header).append (.of_clear clear_lineFeed)).append
      (uncolours_groups clear.findings)).append (.of_clear clear_lineFeed)).append
        (.paint _ instruction)

/-- Removing the control sequences from a coloured report leaves the report without colour. -/
theorem uncoloured_renderHuman {v : Verdict} (clear : ClearVerdict v) (tokens : Nat) :
    uncoloured (renderHuman v tokens true) = renderHuman v tokens false :=
  (uncolours_renderHuman clear tokens).uncoloured_eq

/-- Two tools by turns, and an output that looks like the rest of a control sequence. -/
def paintedVerdict : Verdict where
  profiles := [⟨"go", 1, some "gofmt", some "golangci-lint"⟩]
  findings := [
    ⟨"gofmt", "go", .formatter, .formattingNeeded, "a.go"⟩,
    ⟨"golangci-lint", "go", .linter, .lintViolation, "[31m;0m"⟩,
    ⟨"gofmt", "go", .formatter, .toolFailure, ""⟩]

theorem uncoloured_renderHuman_of_painted :
    ClearVerdict paintedVerdict ∧
      renderHuman paintedVerdict 7 true ≠ renderHuman paintedVerdict 7 false ∧
      uncoloured (renderHuman paintedVerdict 7 true) = renderHuman paintedVerdict 7 false := by
  have clear : ClearVerdict paintedVerdict := by
    constructor
    · decide
    · intro f member
      simp only [paintedVerdict, List.mem_cons, List.not_mem_nil, or_false] at member
      rcases member with rfl | rfl | rfl <;> exact ⟨by decide, by decide, by decide⟩
  exact ⟨clear, by decide, uncoloured_renderHuman clear 7⟩

end LintGate.Report
