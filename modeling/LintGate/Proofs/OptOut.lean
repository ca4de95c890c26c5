import LintGate.Proofs.Text.Decoding
import LintGate.Selection
import Mathlib.Data.List.TakeWhile

/-!
# Markers in first lines

A file opts out exactly when the marker is not empty and occurs in one of its first lines. The lines
of a file are its pieces between line feeds; nothing stands behind a line feed at the very end. They
are the same whether its bytes or its text are cut.
-/

namespace LintGate

namespace Text

variable {α : Type} [DecidableEq α]

/-- The pieces of a list whose last member ends the last of them if it is a separator. -/
def endedPieces (sep : α) (xs : List α) : List (List α) :=
  if (pieces sep xs).getLast? = some [] then (pieces sep xs).dropLast else pieces sep xs

theorem endedPieces_append_sep (sep : α) {piece : List α} (clean : sep ∉ piece) (rest : List α) :
    endedPieces sep (piece ++ sep :: rest) = piece :: endedPieces sep rest := by
  obtain ⟨next, more, cut⟩ := exists_pieces_eq_cons sep rest
  have whole : pieces sep (piece ++ sep :: rest) = piece :: next :: more := by
    rw [pieces_append_sep, pieces_of_not_mem clean, cut, List.singleton_append]
  rw [endedPieces, endedPieces, whole, cut, List.getLast?_cons_cons]
  split
  · rfl
  · rfl

theorem endedPieces_of_not_mem {sep : α} {piece : List α} (nonempty : piece ≠ [])
    (clean : sep ∉ piece) : endedPieces sep piece = [piece] := by
  have last : ([piece] : List (List α)).getLast? ≠ some [] := by simpa using nonempty
  rw [endedPieces, pieces_of_not_mem clean, if_neg last]

/-- The piece that a separator at the end leaves is empty, so nothing is found in it. -/
theorem exists_mem_take_endedPieces_iff {sep : α} {xs : List α} {count : Nat}
    (holds : List α → Prop) (empty : ¬ holds []) :
    (∃ piece ∈ (endedPieces sep xs).take count, holds piece) ↔
      ∃ piece ∈ (pieces sep xs).take count, holds piece := by
  rw [endedPieces]
  split
  case isFalse => rfl
  case isTrue last =>
    obtain ⟨front, whole⟩ := List.getLast?_eq_some_iff.mp last
    rw [whole, List.dropLast_concat, List.take_append]
    constructor
    · rintro ⟨piece, member, found⟩
      exact ⟨piece, List.mem_append_left _ member, found⟩
    · rintro ⟨piece, member, found⟩
      rcases List.mem_append.mp member with early | last
      · exact ⟨piece, early, found⟩
      · rw [List.mem_singleton.mp (List.mem_of_mem_take last)] at found
        exact absurd found empty

/-- Of a list with separators enough, only the beginning has a say in the first pieces. -/
theorem take_pieces_append {sep : α} {xs : List α} (ys : List α) {count : Nat}
    (enough : count ≤ xs.count sep) :
    (pieces sep (xs ++ ys)).take count = (pieces sep xs).take count := by
  induction xs generalizing count with
  | nil =>
      rw [List.count_nil, Nat.le_zero] at enough
      simp [enough]
  | cons x xs ih =>
      cases count with
      | zero => rfl
      | succ count =>
          by_cases same : x = sep
          · subst same
            rw [List.count_cons_self] at enough
            rw [List.cons_append, pieces_cons_sep, pieces_cons_sep, List.take_succ_cons,
              List.take_succ_cons, ih (Nat.le_of_succ_le_succ enough)]
          · rw [List.count_cons_of_ne same] at enough
            obtain ⟨piece, more, cut⟩ := exists_pieces_eq_cons sep xs
            obtain ⟨piece', more', cut'⟩ := exists_pieces_eq_cons sep (xs ++ ys)
            have begun := ih enough
            rw [cut, cut', List.take_succ_cons, List.take_succ_cons, List.cons.injEq] at begun
            rw [List.cons_append, pieces_cons_of_ne same cut, pieces_cons_of_ne same cut',
              List.take_succ_cons, List.take_succ_cons, begun.1, begun.2]

theorem firstPieces_eq_take (sep : α) (count : Nat) (xs : List α) :
    firstPieces sep count xs = (endedPieces sep xs).take count := by
  induction count generalizing xs with
  | zero => simp [firstPieces]
  | succ count ih =>
      have kept {piece : List α} (clean : sep ∉ piece) : ∀ x ∈ piece, decide (x ≠ sep) = true := by
        intro x member
        exact decide_eq_true fun same => clean (same ▸ member)
      have unfolded {xs : List α} (nonempty : xs ≠ []) : firstPieces sep (count + 1) xs =
          xs.takeWhile (· ≠ sep) :: firstPieces sep count ((xs.dropWhile (· ≠ sep)).drop 1) := by
        obtain ⟨x, rest, rfl⟩ := List.exists_cons_of_ne_nil nonempty
        rfl
      by_cases present : sep ∈ xs
      · obtain ⟨piece, rest, rfl, clean⟩ := List.eq_append_cons_of_mem present
        rw [unfolded (by simp), List.takeWhile_append_of_pos (kept clean),
          List.dropWhile_append_of_pos (kept clean), endedPieces_append_sep sep clean,
          List.take_succ_cons, ← ih]
        simp
      · by_cases empty : xs = []
        · subst empty
          simp [firstPieces, endedPieces, pieces]
        · have none_left : firstPieces sep count [] = [] := by cases count <;> rfl
          rw [unfolded empty, endedPieces_of_not_mem empty present,
            List.takeWhile_eq_self_iff.mpr (kept present),
            List.dropWhile_eq_nil_iff.mpr (kept present), List.drop_nil, none_left,
            List.take_succ_cons, List.take_nil]

theorem occursIn_iff {part whole : List α} : occursIn part whole = true ↔ part <:+: whole := by
  induction whole with
  | nil => simp [occursIn]
  | cons x rest ih =>
      rw [occursIn, Bool.or_eq_true, ih, List.isPrefixOf_iff_prefix, List.infix_cons_iff]

end Text

/-- The contents hold the marker in one of their first lines. -/
def HasMarker (contents : Text.Bytes) (marker : String) (maxLines : Nat) : Prop :=
  marker ≠ "" ∧ ∃ line ∈ (Text.endedPieces 0x0A contents).take maxLines,
    marker.toList <:+: Text.decodeChars line

theorem optsOut_iff {contents : Text.Bytes} {marker : String} {maxLines : Nat} :
    optsOut contents marker maxLines = true ↔ HasMarker contents marker maxLines := by
  rw [optsOut, HasMarker]
  split
  case isTrue empty => simp [String.isEmpty_iff.mp empty]
  case isFalse some_text =>
    have nonempty : marker ≠ "" := by simpa using some_text
    rw [Text.firstPieces_eq_take, List.any_eq_true]
    simp only [nonempty, ne_eq, not_false_eq_true, true_and, Text.occursIn_iff]

/-- The lines of a text, as they stand between line feeds. -/
def textLines (contents : Text.Bytes) : List (List Char) :=
  Text.pieces '\n' (Text.decodeLossy contents).toList

theorem textLines_eq (contents : Text.Bytes) :
    textLines contents = (Text.pieces 0x0A contents).map Text.decodeChars := by
  rw [textLines, Text.decodeLossy, String.toList_ofList]
  exact Text.pieces_decodeChars (b := 0x0A) (by decide) contents

/-- The lines may be read before they are cut. -/
theorem hasMarker_iff_textLines {contents : Text.Bytes} {marker : String} {maxLines : Nat}
    (nonempty : marker ≠ "") : HasMarker contents marker maxLines ↔
      ∃ line ∈ (textLines contents).take maxLines, marker.toList <:+: line := by
  have empty : ¬ marker.toList <:+: Text.decodeChars [] := by
    intro found
    exact nonempty (String.toList_eq_nil_iff.mp (List.infix_nil.mp found))
  rw [HasMarker, and_iff_right nonempty, textLines_eq, ← List.map_take,
    Text.exists_mem_take_endedPieces_iff
      (fun line => marker.toList <:+: Text.decodeChars line) empty]
  simp only [List.mem_map, exists_exists_and_eq_and]

theorem hasMarker_append_iff {front : Text.Bytes} (rest : Text.Bytes) {marker : String}
    {maxLines : Nat} (nonempty : marker ≠ "") (enough : maxLines ≤ front.count 0x0A) :
    HasMarker (front ++ rest) marker maxLines ↔ HasMarker front marker maxLines := by
  rw [hasMarker_iff_textLines nonempty, hasMarker_iff_textLines nonempty, textLines_eq,
    textLines_eq, ← List.map_take, ← List.map_take, Text.take_pieces_append rest enough]

theorem HasMarker.mono {contents : Text.Bytes} {marker : String} {fewer more : Nat}
    (found : HasMarker contents marker fewer) (atMost : fewer ≤ more) :
    HasMarker contents marker more := by
  obtain ⟨nonempty, line, member, found⟩ := found
  exact ⟨nonempty, line, List.take_subset_take_left _ atMost member, found⟩

theorem FileTree.optsOut_iff_of_read {t : FileTree} {file : Path} {contents : Text.Bytes}
    (held : t.read? file = some contents) {marker : String} {maxLines : Nat} :
    t.optsOut file marker maxLines = true ↔ HasMarker contents marker maxLines := by
  rw [FileTree.optsOut, held, Option.map_some, Option.getD_some, LintGate.optsOut_iff]

/-- Whether a file opts out is told by the first lines of its text. -/
theorem FileTree.optsOut_reads_first_lines {t : FileTree} {file : Path} {contents : Text.Bytes}
    (held : t.read? file = some contents) {marker : String} (nonempty : marker ≠ "") :
    (∀ maxLines, t.optsOut file marker maxLines = true ↔
      ∃ line ∈ (textLines contents).take maxLines, marker.toList <:+: line) ∧
    (∀ fewer more, fewer ≤ more → t.optsOut file marker fewer = true →
      t.optsOut file marker more = true) ∧
    (∀ maxLines front rest, contents = front ++ rest → maxLines ≤ front.count 0x0A →
      ∀ (other : FileTree) (copy : Path) (rest' : Text.Bytes),
        other.read? copy = some (front ++ rest') →
          other.optsOut copy marker maxLines = t.optsOut file marker maxLines) ∧
    t.optsOut file marker 0 = false := by
  refine ⟨?_, ?_, ?_, ?_⟩
  · intro maxLines
    rw [FileTree.optsOut_iff_of_read held, hasMarker_iff_textLines nonempty]
  · intro fewer more atMost found
    rw [FileTree.optsOut_iff_of_read held] at found ⊢
    exact found.mono atMost
  · intro maxLines front rest shape enough other copy rest' held'
    subst shape
    rw [Bool.eq_iff_iff, FileTree.optsOut_iff_of_read held, FileTree.optsOut_iff_of_read held',
      hasMarker_append_iff rest nonempty enough, hasMarker_append_iff rest' nonempty enough]
  · rw [FileTree.optsOut, held, Option.map_some, Option.getD_some, optsOut_zero]

/-- A first line that ends within a character, and a second line with a marker. -/
def brokenLines : Text.Bytes := [0x23, 0xE2, 0x82, 0x0A, 0xFF, 0x6F, 0x66, 0x66, 0x0A]

def brokenTree (rest : Text.Bytes) : FileTree :=
  ⟨.dir [("a.py", .file (brokenLines ++ rest) 0o644)], []⟩

theorem FileTree.optsOut_reads_first_lines_of_broken :
    (brokenTree []).read? "a.py" = some brokenLines ∧ "off" ≠ "" ∧
      (brokenTree []).optsOut "a.py" "off" 1 = false ∧
      (brokenTree []).optsOut "a.py" "off" 9 = true ∧
      (brokenTree [0xF0, 0x9F]).optsOut "a.py" "off" 2 = true := by
  have held : (brokenTree []).read? "a.py" = some brokenLines := by decide +kernel
  have held' : (brokenTree [0xF0, 0x9F]).read? "a.py" = some (brokenLines ++ [0xF0, 0x9F]) := by
    decide +kernel
  have nonempty : "off" ≠ "" := by decide
  obtain ⟨told, grows, same, -⟩ := FileTree.optsOut_reads_first_lines held nonempty
  have second : (brokenTree []).optsOut "a.py" "off" 2 = true := (told 2).mpr (by decide +kernel)
  refine ⟨held, nonempty, ?_, grows 2 9 (by decide) second, ?_⟩
  · rw [Bool.eq_false_iff, ne_eq, told 1]
    decide +kernel
  · rw [same 2 brokenLines [] rfl (by decide) _ _ _ held', second]

end LintGate
