import LintGate.Text.Pieces

/-!
# Pieces and joins

The pieces of a list hold no separator. Cutting undoes joining as long as no part holds a separator,
and a separator splits the pieces of a list into those before it and those after it.
-/

namespace LintGate.Text

variable {α : Type} [DecidableEq α] {sep : α}

theorem pieces_cons_sep (rest : List α) : pieces sep (sep :: rest) = [] :: pieces sep rest := by
  simp [pieces]

theorem pieces_cons_of_ne {x : α} {rest piece : List α} {more : List (List α)} (other : x ≠ sep)
    (cut : pieces sep rest = piece :: more) :
    pieces sep (x :: rest) = (x :: piece) :: more := by
  simp [pieces, other, cut]

theorem exists_pieces_eq_cons (sep : α) (xs : List α) :
    ∃ piece more, pieces sep xs = piece :: more :=
  List.exists_cons_of_ne_nil (pieces_ne_nil sep xs)

/-- A separator in the middle of a list cuts it. -/
theorem pieces_append_sep (xs ys : List α) :
    pieces sep (xs ++ sep :: ys) = pieces sep xs ++ pieces sep ys := by
  induction xs with
  | nil => simp [pieces]
  | cons x xs ih =>
      by_cases same : x = sep
      · subst same
        rw [List.cons_append, pieces_cons_sep, pieces_cons_sep, ih, List.cons_append]
      · obtain ⟨piece, more, cut⟩ := exists_pieces_eq_cons sep xs
        have whole : pieces sep (xs ++ sep :: ys) = piece :: (more ++ pieces sep ys) := by
          rw [ih, cut, List.cons_append]
        rw [List.cons_append, pieces_cons_of_ne same whole, pieces_cons_of_ne same cut,
          List.cons_append]

theorem not_mem_of_mem_pieces {xs piece : List α} (member : piece ∈ pieces sep xs) :
    sep ∉ piece := by
  induction xs generalizing piece with
  | nil =>
      rw [pieces, List.mem_singleton] at member
      simp [member]
  | cons x xs ih =>
      by_cases same : x = sep
      · subst same
        rw [pieces_cons_sep] at member
        rcases List.mem_cons.mp member with rfl | later
        · simp
        · exact ih later
      · obtain ⟨first, more, cut⟩ := exists_pieces_eq_cons sep xs
        rw [pieces_cons_of_ne same cut] at member
        rw [cut] at ih
        rcases List.mem_cons.mp member with rfl | later
        · have absent := ih List.mem_cons_self
          simp [Ne.symm same, absent]
        · exact ih (List.mem_cons_of_mem _ later)

theorem pieces_of_not_mem {xs : List α} (absent : sep ∉ xs) : pieces sep xs = [xs] := by
  induction xs with
  | nil => rfl
  | cons x xs ih =>
      rw [List.mem_cons, not_or] at absent
      exact pieces_cons_of_ne (Ne.symm absent.1) (ih absent.2)

/-- Cutting undoes joining. -/
theorem pieces_joined {parts : List (List α)} (nonempty : parts ≠ [])
    (clean : ∀ part ∈ parts, sep ∉ part) : pieces sep (joined [sep] parts) = parts := by
  induction parts with
  | nil => exact absurd rfl nonempty
  | cons part parts ih =>
      have first := clean part List.mem_cons_self
      cases parts with
      | nil => exact pieces_of_not_mem first
      | cons next parts =>
          have rest := ih (List.cons_ne_nil _ _) fun other member =>
            clean other (List.mem_cons_of_mem _ member)
          have shape : joined [sep] (part :: next :: parts) =
              part ++ sep :: joined [sep] (next :: parts) := by
            simp [joined]
          rw [shape, pieces_append_sep, pieces_of_not_mem first, rest, List.singleton_append]

end LintGate.Text
