import LintGate.FileTree
import LintGate.Proofs.Text.Pieces

/-!
# Segments of paths

The segments of a path are its pieces between slashes, the empty ones left out. A path is resolved
along its segments and compared by its components, so both are stated here in terms of segments.
-/

namespace LintGate

namespace Path

/-- The pieces between the slashes of a path that are not empty. -/
def segments (p : Path) : List String :=
  ((Text.pieces '/' p.toList).filter (!·.isEmpty)).map String.ofList

/-- The component that a segment stands for. Dots stand for none. -/
def Component.ofSegment? (segment : String) : Option Component :=
  if segment = "." then none else if segment = ".." then some .up else some (.name segment)

theorem mem_segments_iff {p : Path} {segment : String} :
    segment ∈ p.segments ↔ segment ≠ "" ∧ segment.toList ∈ Text.pieces '/' p.toList := by
  simp only [segments, List.mem_map, List.mem_filter, Bool.not_eq_true', List.isEmpty_eq_false_iff]
  constructor
  · rintro ⟨piece, ⟨member, nonempty⟩, rfl⟩
    rw [String.toList_ofList]
    exact ⟨fun empty => nonempty (by simpa using congrArg String.toList empty), member⟩
  · rintro ⟨nonempty, member⟩
    refine ⟨segment.toList, ⟨member, ?_⟩, String.ofList_toList⟩
    simpa using nonempty

theorem slash_not_mem_segment {p : Path} {segment : String} (member : segment ∈ p.segments) :
    '/' ∉ segment.toList :=
  Text.not_mem_of_mem_pieces (mem_segments_iff.mp member).2

theorem Component.ofPiece?_eq_ofSegment? {piece : List Char} (nonempty : piece ≠ []) :
    ofPiece? piece = ofSegment? (String.ofList piece) := by
  have one_dot : String.ofList piece = "." ↔ piece = ['.'] := String.ofList_inj
  have two_dots : String.ofList piece = ".." ↔ piece = ['.', '.'] := String.ofList_inj
  unfold ofPiece? ofSegment?
  split
  · exact absurd rfl nonempty
  · rfl
  · rfl
  · rename_i dot dots
    rw [if_neg (fun same => dot (one_dot.mp same)), if_neg (fun same => dots (two_dots.mp same))]

theorem components_eq (p : Path) :
    p.components = opening p.toList ++ p.segments.filterMap Component.ofSegment? := by
  have same (pieces : List (List Char)) : pieces.filterMap Component.ofPiece? =
      ((pieces.filter (!·.isEmpty)).map String.ofList).filterMap Component.ofSegment? := by
    induction pieces with
    | nil => rfl
    | cons piece pieces ih =>
        by_cases empty : piece = []
        · subst empty
          rw [List.filterMap_cons_none rfl, ih]
          rfl
        · simp [empty, List.filterMap_cons, Component.ofPiece?_eq_ofSegment? empty, ih]
  rw [components, same, segments]

theorem steps_eq (p : Path) :
    FileTree.steps p = p.segments ++ if p.toList.getLast? = some '/' then ["."] else [] := by
  simp only [FileTree.steps, segments]
  split <;> simp

/-! ## Joined paths -/

theorem segments_append_slash (p q : Path) :
    segments (p ++ "/" ++ q) = p.segments ++ q.segments := by
  have chars : (p ++ "/" ++ q).toList = p.toList ++ '/' :: q.toList := by simp
  simp only [segments, chars, Text.pieces_append_sep, List.filter_append, List.map_append]

theorem eq_append_slash {p : Path} (ending : p.toList.getLast? = some '/') :
    ∃ front : Path, p = front ++ "/" := by
  obtain ⟨front, shape⟩ := List.getLast?_eq_some_iff.mp ending
  refine ⟨String.ofList front, String.toList_inj.mp ?_⟩
  rw [shape, String.toList_append, String.toList_ofList]
  rfl

theorem segments_append_slash_nil (p : Path) : segments (p ++ "/") = p.segments := by
  have same := segments_append_slash p ""
  have none_more : segments "" = [] := by decide
  rwa [none_more, List.append_nil, String.append_empty] at same

theorem segments_join {p q : Path} (relative : q.isAbsolute = false) (nonempty : p ≠ "") :
    (p.join q).segments = p.segments ++ q.segments := by
  have some_text : p.isEmpty = false := by simpa using nonempty
  rw [join, relative, some_text, Bool.or_self, if_neg Bool.false_ne_true]
  split
  case isTrue ending =>
    obtain ⟨front, rfl⟩ := eq_append_slash ending
    rw [segments_append_slash, segments_append_slash_nil]
  case isFalse => exact segments_append_slash p q

theorem getLast?_join {p q : Path} (nonempty : q ≠ "") :
    (p.join q).toList.getLast? = q.toList.getLast? := by
  have some_chars : q.toList ≠ [] := by simpa using nonempty
  have last := List.getLast?_eq_some_getLast some_chars
  unfold join
  split
  · rfl
  · split
    · rw [String.toList_append, List.getLast?_append, last, Option.some_or]
    · rw [String.toList_append, List.getLast?_append, last, Option.some_or]

/-- A path from within another is resolved after it. -/
theorem steps_join {p q : Path} (relative : q.isAbsolute = false) (nonempty : p ≠ "")
    (nonempty' : q ≠ "") : FileTree.steps (p.join q) = p.segments ++ FileTree.steps q := by
  rw [steps_eq, steps_eq, segments_join relative nonempty, getLast?_join nonempty',
    List.append_assoc]

theorem isAbsolute_join {p q : Path} (relative : q.isAbsolute = false) (nonempty : p ≠ "") :
    (p.join q).isAbsolute = p.isAbsolute := by
  have some_chars : p.toList ≠ [] := by simpa using nonempty
  obtain ⟨first, rest, shape⟩ := List.exists_cons_of_ne_nil some_chars
  have some_text : p.isEmpty = false := by simpa using nonempty
  rw [join, relative, some_text, Bool.or_self, if_neg Bool.false_ne_true]
  split <;> simp [isAbsolute, shape]

end Path

end LintGate
