import LintGate.Report.Human
import Mathlib.Data.List.Induction
import Mathlib.Data.List.Basic

/-!
# Findings grouped by tool

The groups of a report are made by adding one finding after another. Each addition keeps them what
they should be for the findings so far: one group for each tool, in the order in which the tools
first appear, with the findings of the tool in their order. No finding is lost or doubled.
-/

namespace LintGate.Report

def toolsOf (findings : List Finding) : List String :=
  findings.map (·.tool)

/-- The groups that some findings belong into. -/
structure Grouped (findings : List Finding) (groups : List ToolGroup) : Prop where
  distinct : (groups.map (·.tool)).Nodup
  /-- The tools stand in the order of their first findings. -/
  ordered : (groups.map (·.tool)).Pairwise fun a b =>
    (toolsOf findings).idxOf a < (toolsOf findings).idxOf b
  complete : ∀ tool, tool ∈ groups.map (·.tool) ↔ tool ∈ toolsOf findings
  own : ∀ g ∈ groups, g.findings = findings.filter (·.tool = g.tool)
  all : (groups.flatMap (·.findings)).Perm findings

variable {f : Finding} {findings : List Finding} {groups : List ToolGroup}

theorem map_tool_addToGroup : (addToGroup f groups).map (·.tool) =
    if f.tool ∈ groups.map (·.tool) then groups.map (·.tool)
    else groups.map (·.tool) ++ [f.tool] := by
  induction groups with
  | nil => rfl
  | cons g rest ih =>
      rw [addToGroup]
      by_cases same : g.tool = f.tool
      · simp [same]
      · rw [if_neg same, List.map_cons, ih]
        by_cases known : f.tool ∈ rest.map (·.tool)
        · rw [if_pos known, List.map_cons, if_pos (List.mem_cons_of_mem _ known)]
        · have unknown : f.tool ∉ (g :: rest).map (·.tool) := by
            rw [List.map_cons, List.mem_cons, not_or]
            exact ⟨Ne.symm same, known⟩
          rw [if_neg known, if_neg unknown, List.map_cons, List.cons_append]

/-- Where a group comes from when a finding is added. -/
theorem mem_addToGroup_cases (distinct : (groups.map (·.tool)).Nodup) {group : ToolGroup}
    (member : group ∈ addToGroup f groups) :
    (group ∈ groups ∧ group.tool ≠ f.tool) ∨
      (∃ g ∈ groups, g.tool = f.tool ∧ group = ⟨f.tool, g.findings ++ [f]⟩) ∨
      (f.tool ∉ groups.map (·.tool) ∧ group = ⟨f.tool, [f]⟩) := by
  induction groups with
  | nil => exact .inr (.inr ⟨by simp, List.mem_singleton.mp member⟩)
  | cons g rest ih =>
      rw [List.map_cons, List.nodup_cons] at distinct
      rw [addToGroup] at member
      by_cases same : g.tool = f.tool
      · rw [if_pos same] at member
        rcases List.mem_cons.mp member with rfl | later
        · exact .inr (.inl ⟨g, List.mem_cons_self, same, by rw [same]⟩)
        · refine .inl ⟨List.mem_cons_of_mem _ later, fun equal => distinct.1 ?_⟩
          rw [same, ← equal]
          exact List.mem_map_of_mem later
      · rw [if_neg same] at member
        rcases List.mem_cons.mp member with rfl | later
        · exact .inl ⟨List.mem_cons_self, same⟩
        · rcases ih distinct.2 later with ⟨old, other⟩ | ⟨g', old, found⟩ | ⟨unknown, new⟩
          · exact .inl ⟨List.mem_cons_of_mem _ old, other⟩
          · exact .inr (.inl ⟨g', List.mem_cons_of_mem _ old, found⟩)
          · refine .inr (.inr ⟨?_, new⟩)
            rw [List.map_cons, List.mem_cons, not_or]
            exact ⟨Ne.symm same, unknown⟩

theorem addToGroup_perm : ((addToGroup f groups).flatMap (·.findings)).Perm
    (groups.flatMap (·.findings) ++ [f]) := by
  induction groups with
  | nil => exact .refl _
  | cons g rest ih =>
      rw [addToGroup]
      split
      case isTrue =>
        rw [List.flatMap_cons, List.flatMap_cons, List.append_assoc, List.append_assoc]
        exact List.perm_append_comm.append_left _
      case isFalse =>
        rw [List.flatMap_cons, List.flatMap_cons, List.append_assoc]
        exact ih.append_left _

theorem toolsOf_append_singleton : toolsOf (findings ++ [f]) = toolsOf findings ++ [f.tool] := by
  rw [toolsOf, List.map_append]
  rfl

theorem filter_append_singleton (tool : String) :
    (findings ++ [f]).filter (·.tool = tool) =
      findings.filter (·.tool = tool) ++ if f.tool = tool then [f] else [] := by
  rw [List.filter_append]
  by_cases same : f.tool = tool <;> simp [same]

namespace Grouped

theorem empty : Grouped [] [] where
  distinct := .nil
  ordered := .nil
  complete := fun _ => .rfl
  own := fun _ member => by cases member
  all := .refl _

theorem add (grouped : Grouped findings groups) :
    Grouped (findings ++ [f]) (addToGroup f groups) := by
  have known_iff := grouped.complete f.tool
  have still {tool : String} (member : tool ∈ groups.map (·.tool)) :
      (toolsOf (findings ++ [f])).idxOf tool = (toolsOf findings).idxOf tool := by
    rw [toolsOf_append_singleton]
    exact List.idxOf_append_of_mem ((grouped.complete tool).mp member)
  have ordered : ((addToGroup f groups).map (·.tool)).Pairwise fun a b =>
      (toolsOf (findings ++ [f])).idxOf a < (toolsOf (findings ++ [f])).idxOf b := by
    have before_all : (groups.map (·.tool)).Pairwise fun a b =>
        (toolsOf (findings ++ [f])).idxOf a < (toolsOf (findings ++ [f])).idxOf b := by
      apply grouped.ordered.imp_of_mem
      intro a b first second before
      rwa [still first, still second]
    rw [map_tool_addToGroup]
    split
    case isTrue => exact before_all
    case isFalse unknown =>
      refine List.pairwise_append.mpr ⟨before_all, List.pairwise_singleton _ _, ?_⟩
      intro tool member _ last
      rw [List.mem_singleton.mp last, still member, toolsOf_append_singleton,
        List.idxOf_append_of_notMem (mt known_iff.mpr unknown)]
      exact Nat.lt_add_right _ (List.idxOf_lt_length_of_mem ((grouped.complete tool).mp member))
  constructor
  case distinct =>
    apply ordered.imp
    rintro tool _ before rfl
    exact Nat.lt_irrefl _ before
  case ordered => exact ordered
  case complete =>
    intro tool
    rw [map_tool_addToGroup, toolsOf_append_singleton, List.mem_append, List.mem_singleton,
      ← grouped.complete]
    split
    case isTrue known =>
      refine ⟨.inl, ?_⟩
      rintro (old | rfl)
      · exact old
      · exact known
    case isFalse => rw [List.mem_append, List.mem_singleton]
  case own =>
    intro group member
    rcases mem_addToGroup_cases grouped.distinct member with
      ⟨old, other⟩ | ⟨g, old, same, rfl⟩ | ⟨unknown, rfl⟩
    · rw [filter_append_singleton, if_neg (Ne.symm other), List.append_nil]
      exact grouped.own group old
    · rw [filter_append_singleton, if_pos rfl, grouped.own g old, same]
    · have nothing : findings.filter (·.tool = f.tool) = [] := by
        rw [List.filter_eq_nil_iff]
        intro other inside same
        apply unknown
        rw [known_iff, ← of_decide_eq_true same]
        exact List.mem_map_of_mem inside
      rw [filter_append_singleton, if_pos rfl, nothing, List.nil_append]
  case all => exact addToGroup_perm.trans (grouped.all.append_right _)

end Grouped

theorem grouped_groupByTool (findings : List Finding) :
    Grouped findings (groupByTool findings) := by
  induction findings using List.reverseRecOn with
  | nil => exact .empty
  | append_singleton findings f ih =>
      rw [groupByTool, List.foldl_append]
      exact ih.add

end LintGate.Report
