import LintGate.Proofs.Path.Names
import LintGate.Proofs.Path.Order
import Mathlib.Data.List.Basic

/-!
# Paths of locations

The path of a location is spelt by its names alone, so its components and steps are these names.
Locations come in the order of their paths: those below an entry come before everything at or below
an entry with a later name.
-/

namespace LintGate

namespace Location

theorem before_append_left (common a b : Location) :
    before (common ++ a) (common ++ b) = before a b := by
  induction common with
  | nil => rfl
  | cons name common ih => simp [before, Text.rawBefore_irrefl, ih]

/-- What is at or below an entry comes before what is at or below one with a later name. -/
theorem before_of_rawBefore {a b : String} (earlier : Text.rawBefore a b = true)
    (as bs : Location) :
    before (a :: as) (b :: bs) = true := by
  simp [before, earlier]

theorem before_eq_componentsBefore (a b : Location) :
    before a b = Path.componentsBefore (a.map .name) (b.map .name) := by
  induction a generalizing b with
  | nil => cases b <;> rfl
  | cons name a ih =>
      cases b with
      | nil => rfl
      | cons other b =>
          by_cases same : name = other
          · simp [before, Path.componentsBefore, Path.Component.before, same, ih]
          · simp [before, Path.componentsBefore, Path.Component.before, same]

theorem before_asymm {a b : Location} (earlier : before a b = true) : before b a = false := by
  rw [before_eq_componentsBefore] at earlier ⊢
  rw [Bool.eq_false_iff]
  intro later
  have loop := Path.componentsBefore_trans earlier later
  rw [Path.componentsBefore_irrefl] at loop
  cases loop

instance : Std.Asymm (fun a b : Location => before a b = true) where
  asymm _ _ earlier later := by
    rw [before_asymm earlier] at later
    cases later

/-- Locations that are in order already stay as they are. -/
theorem sorted_eq_self {ls : List Location} (inOrder : ls.Pairwise (before · ·)) :
    sorted ls = ls := by
  apply List.mergeSort_of_pairwise
  exact inOrder.imp fun earlier => by simp [before_asymm earlier]

end Location

namespace Path

section Spelling

variable {l : Location} (nonempty : l ≠ []) (isName : ∀ name ∈ l, IsName name)

include nonempty isName

theorem pieces_relativePath :
    Text.pieces '/' (Location.relativePath l).toList = l.map String.toList := by
  rw [Location.relativePath, toList_intercalate_slash, pieces_joined_names nonempty isName]

/-- No name is empty or a dot, so nothing but names opens the path of a location. -/
theorem opening_relativePath : opening (Location.relativePath l).toList = [] := by
  have cut := pieces_relativePath nonempty isName
  obtain ⟨name, below, rfl⟩ := List.exists_cons_of_ne_nil nonempty
  have first : IsName name := isName name List.mem_cons_self
  have no_dot (more : List (List Char))
      (split : ['.'] :: more = (name :: below).map String.toList) : False := by
    have dot : ['.'] = name.toList := List.head_eq_of_cons_eq split
    exact first.notHere (String.toList_inj.mp dot.symm)
  unfold opening
  split
  case h_1 rest slash =>
    rw [slash, Text.pieces_cons_sep] at cut
    have empty : [] = name.toList := List.head_eq_of_cons_eq cut
    exact absurd (by simpa using empty.symm) first.nonempty
  case h_2 alone =>
    rw [alone] at cut
    exact (no_dot [] cut).elim
  case h_3 rest dot =>
    rw [dot, Text.pieces_cons_of_ne (by decide) (Text.pieces_cons_sep rest)] at cut
    exact (no_dot _ cut).elim
  case h_4 => rfl

theorem isAbsolute_relativePath : (Location.relativePath l).isAbsolute = false := by
  rw [Bool.eq_false_iff]
  intro absolute
  have opened := opening_relativePath nonempty isName
  rw [isAbsolute, beq_iff_eq] at absolute
  obtain ⟨rest, shape⟩ := List.head?_eq_some_iff.mp absolute
  rw [shape] at opened
  cases opened

theorem steps_relativePath : FileTree.steps (Location.relativePath l) = l := by
  obtain ⟨last, ends, other⟩ := getLast?_relativePath nonempty isName
  have noSlash : (some last : Option Char) ≠ some '/' := fun same => other (Option.some.inj same)
  rw [steps_eq, ends, if_neg noSlash, List.append_nil, segments_relativePath nonempty isName]

end Spelling

theorem components_relativePath {l : Location} (isName : ∀ name ∈ l, IsName name) :
    (Location.relativePath l).components = l.map .name := by
  by_cases empty : l = []
  · subst empty
    rfl
  · rw [components_eq, opening_relativePath empty isName, List.nil_append,
      segments_relativePath empty isName]
    apply List.filterMap_eq_map_iff_forall_eq_some.mpr
    intro name member
    exact (isName name member).ofSegment?_eq

theorem names_relativePath {l : Location} (isName : ∀ name ∈ l, IsName name) :
    (Location.relativePath l).names = l := by
  rw [names, components_relativePath isName, List.filterMap_map]
  have same : Component.name? ∘ Component.name = some := rfl
  rw [same, List.filterMap_some]

theorem relativePath_before {a b : Location} (isName : ∀ name ∈ a, IsName name)
    (isName' : ∀ name ∈ b, IsName name) :
    (Location.relativePath a).before (Location.relativePath b) = Location.before a b := by
  rw [before, components_relativePath isName, components_relativePath isName',
    Location.before_eq_componentsBefore]

end Path

end LintGate
