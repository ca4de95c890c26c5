import LintGate.Proofs.Report.Groups
import LintGate.Report.Structured

/-!
# What the reports say

Both reports carry every finding of a verdict once. The report for people is made of pieces, each on
lines of its own; the report for programs lists the findings in the order of the verdict and counts
them by category. The first words of the one tell the status that the other gives.
-/

namespace LintGate

namespace Report

/-! ## The report for people -/

/-- The pieces of a report about a finding. -/
def findingPieces (f : Finding) : List String :=
  s!"[{f.profile} · {f.category.text}]" :: if f.output = "" then [] else [f.output]

def groupPieces (g : ToolGroup) : List String :=
  "" :: s!"── {g.tool} ──" :: g.findings.flatMap findingPieces

/-- The pieces of a report about findings, which stand on lines of their own. -/
def issuePieces (findings : List Finding) : List String :=
  s!"✖ smart-lint: {findings.length} blocking issue(s)" ::
    (groupByTool findings).flatMap groupPieces ++ ["", closingInstruction]

def lineEnded (pieces : List String) : String :=
  String.join (pieces.map (· ++ "\n"))

theorem lineEnded_cons (piece : String) (pieces : List String) :
    lineEnded (piece :: pieces) = piece ++ "\n" ++ lineEnded pieces := by
  rw [lineEnded, List.map_cons, String.join_cons]
  rfl

theorem lineEnded_append (first second : List String) :
    lineEnded (first ++ second) = lineEnded first ++ lineEnded second := by
  rw [lineEnded, List.map_append, String.join_append]
  rfl

theorem lineEnded_flatMap {α : Type} (pieces : α → List String) (xs : List α) :
    lineEnded (xs.flatMap pieces) = String.join (xs.map fun x => lineEnded (pieces x)) := by
  induction xs with
  | nil => rfl
  | cons x xs ih =>
      rw [List.flatMap_cons, lineEnded_append, ih, List.map_cons, String.join_cons]

theorem intercalate_append_singleton (pieces : List String) (last : String) :
    "\n".intercalate (pieces ++ [last]) = lineEnded pieces ++ last := by
  induction pieces with
  | nil =>
      rw [List.nil_append, String.intercalate_singleton]
      exact String.empty_append.symm
  | cons piece pieces ih =>
      have more : pieces ++ [last] ≠ [] := by simp
      rw [List.cons_append, String.intercalate_cons_of_ne_nil more, ih, lineEnded_cons]
      exact String.append_assoc.symm

theorem renderFinding_false (f : Finding) :
    renderFinding false f = lineEnded (findingPieces f) := by
  rw [renderFinding, Style.paint_false, tag, findingPieces, lineEnded_cons]
  by_cases silent : f.output = ""
  · rw [if_pos silent, if_pos (by simp [silent])]
    rfl
  · rw [if_neg silent, if_neg (by simp [silent]), lineEnded_cons]
    exact congrArg _ String.append_empty.symm

theorem renderGroup_false (g : ToolGroup) : renderGroup false g = lineEnded (groupPieces g) := by
  have findings : renderFinding false = fun f => lineEnded (findingPieces f) :=
    funext renderFinding_false
  rw [renderGroup, Style.paint_false, groupPieces, lineEnded_cons, lineEnded_cons,
    lineEnded_flatMap, findings, String.empty_append]
  simp only [String.append_assoc]

theorem renderHuman_false (v : Verdict) (tokens : Nat) :
    renderHuman v tokens false =
      if v.findings = [] then cleanLine v ++ " " ++ s!"context ~{tokens} tokens"
      else "\n".intercalate (issuePieces v.findings) := by
  rw [renderHuman, Verdict.isClean]
  by_cases clean : v.findings = []
  · rw [if_pos clean, if_pos (by simp [clean]), Style.paint_false, Style.paint_false]
  · have groups : renderGroup false = fun g => lineEnded (groupPieces g) :=
      funext renderGroup_false
    have pieces : issuePieces v.findings =
        s!"✖ smart-lint: {v.findings.length} blocking issue(s)" ::
          ((groupByTool v.findings).flatMap groupPieces ++ [""]) ++ [closingInstruction] := by
      simp [issuePieces]
    rw [if_neg clean, if_neg (by simp [clean]), Style.paint_false, Style.paint_false, pieces,
      intercalate_append_singleton, lineEnded_cons, lineEnded_append, lineEnded_flatMap, groups]
    simp only [String.append_assoc]
    rfl

/-- The report for people says that there are findings. -/
def ShowsIssues (text : String) : Prop :=
  "✖ smart-lint: ".toList <+: text.toList

instance (text : String) : Decidable (ShowsIssues text) :=
  inferInstanceAs (Decidable (_ <+: _))

theorem exists_cleanLine_eq (v : Verdict) : ∃ rest, cleanLine v = "✔" ++ rest := by
  rw [cleanLine]
  split
  · exact ⟨" smart-lint: nothing to check", rfl⟩
  · refine ⟨" smart-lint: all clean (" ++ ", ".intercalate (v.profiles.map (·.profile)) ++ ")", ?_⟩
    rw [← String.append_assoc, ← String.append_assoc]
    rfl

theorem showsIssues_renderHuman_iff (v : Verdict) (tokens : Nat) :
    ShowsIssues (renderHuman v tokens false) ↔ v.isClean = false := by
  rw [ShowsIssues, renderHuman_false, Verdict.isClean]
  by_cases clean : v.findings = []
  · obtain ⟨rest, line⟩ := exists_cleanLine_eq v
    have hook : ¬ "✖ smart-lint: ".toList <+: "✔".toList ++ (rest.toList ++ " ".toList ++
        (s!"context ~{tokens} tokens").toList) := by
      intro begins
      cases (List.cons_prefix_cons.mp begins).1
    rw [if_pos clean, line, clean]
    simp only [String.toList_append, List.append_assoc] at hook ⊢
    exact ⟨fun begins => absurd begins hook, fun shows => by cases shows⟩
  · have blocked : v.findings.isEmpty = false := by simp [clean]
    have more : (groupByTool v.findings).flatMap groupPieces ++ ["", closingInstruction] ≠ [] := by
      simp
    rw [if_neg clean, blocked, issuePieces, List.cons_append,
      String.intercalate_cons_of_ne_nil more]
    simp only [String.toList_append, List.append_assoc]
    exact iff_of_true (List.prefix_append _ _) trivial

/-! ## The report for programs -/

end Report

theorem Role.text_injective : Function.Injective Role.text := by
  intro a b same
  cases a <;> cases b <;> first | rfl | exact absurd same (by decide)

theorem Category.text_injective : Function.Injective Category.text := by
  intro a b same
  cases a <;> cases b <;> first | rfl | exact absurd same (by decide)

namespace Report

/-- A finding can be told from its place in the report. -/
theorem findingJson_injective : Function.Injective findingJson := by
  rintro ⟨tool, profile, role, category, output⟩ ⟨tool', profile', role', category', output'⟩ same
  simp only [findingJson, Json.record, Json.text, List.map_cons, List.map_nil, Json.object.injEq,
    List.cons.injEq, Prod.mk.injEq, Json.string.injEq, Option.some.injEq, true_and,
    and_true] at same
  obtain ⟨rfl, rfl, same_role, same_category, rfl⟩ := same
  rw [Role.text_injective same_role, Category.text_injective same_category]

theorem length_eq_counts (findings : List Finding) :
    findings.length = countOf .formattingNeeded findings + countOf .lintViolation findings +
      countOf .toolFailure findings := by
  induction findings with
  | nil => rfl
  | cons f rest ih =>
      simp only [countOf, List.countP_cons, List.length_cons] at ih ⊢
      cases kind : f.category <;> simp <;> omega

/-- The reports of a verdict carry each of its findings once: the one for people in groups by tool,
the one for programs in the order of the verdict and counted by category. -/
theorem reports_carry_every_finding (v : Verdict) (tokens : Nat) :
    Grouped v.findings (groupByTool v.findings) ∧
    (renderHuman v tokens false =
      if v.findings = [] then cleanLine v ++ " " ++ s!"context ~{tokens} tokens"
      else "\n".intercalate (issuePieces v.findings)) ∧
    (verdictJson v tokens).field? "findings" = some (.array (v.findings.map findingJson)) ∧
    Function.Injective findingJson ∧
    (∃ summary total formatting lint failure,
      (verdictJson v tokens).field? "summary" = some summary ∧
      summary.field? "total" = some (.nat total) ∧
      summary.field? "formatting_needed" = some (.nat formatting) ∧
      summary.field? "lint_violation" = some (.nat lint) ∧
      summary.field? "tool_failure" = some (.nat failure) ∧
      total = v.findings.length ∧ total = formatting + lint + failure ∧
      formatting = v.findings.countP (·.category = .formattingNeeded) ∧
      lint = v.findings.countP (·.category = .lintViolation) ∧
      failure = v.findings.countP (·.category = .toolFailure)) ∧
    (verdictJson v tokens).field? "status" =
      some (.text (if ShowsIssues (renderHuman v tokens false) then "blocked" else "clean")) ∧
    (verdictJson v tokens).field? "exit_code" =
      some (.nat (if ShowsIssues (renderHuman v tokens false) then 2 else 0)) ∧
    (verdictJson v tokens).field? "instruction" =
      some (if ShowsIssues (renderHuman v tokens false) then .text closingInstruction
        else .null) := by
  have blocked_iff := showsIssues_renderHuman_iff v tokens
  refine ⟨grouped_groupByTool _, renderHuman_false v tokens, rfl, findingJson_injective,
    ⟨_, _, _, _, _, rfl, rfl, rfl, rfl, rfl, rfl, length_eq_counts _, rfl, rfl, rfl⟩, ?_⟩
  have status : (verdictJson v tokens).field? "status" =
      some (.text (if v.isClean then "clean" else "blocked")) := rfl
  have code : (verdictJson v tokens).field? "exit_code" = some (.nat v.exitCode) := rfl
  have instruction : (verdictJson v tokens).field? "instruction" =
      some (if v.isClean then .null else .text closingInstruction) := rfl
  rw [status, code, instruction, Verdict.exitCode]
  cases clean : v.isClean <;> simp [blocked_iff, clean]

end Report

end LintGate
