import LintGate.Proofs.FileTree.Walk
import LintGate.Proofs.Language.Extensions
import Mathlib.Data.List.Basic

/-!
# Languages of a tree

Detection lists the languages that apply to the files of a walk, in the order in which the program
knows them. Neither the order of the files nor repetitions among them matter, and more files show
more languages.
-/

namespace LintGate

namespace TreeIndex

/-- The languages of more files are further ones in the same order. -/
theorem languages_sublist {paths others : List Path} (within : paths ⊆ others) :
    (ofPaths paths).languages.Sublist (ofPaths others).languages :=
  List.monotone_filter_right _ fun _ => shows_of_subset within

/-- What applies depends on the files alone, not on how they are listed. -/
theorem shows_eq_of_mem_iff {paths others : List Path} (same : ∀ p, p ∈ paths ↔ p ∈ others)
    (p : Profile) : (ofPaths paths).shows p = (ofPaths others).shows p := by
  rw [Bool.eq_iff_iff]
  constructor
  · exact shows_of_subset fun path => (same path).mp
  · exact shows_of_subset fun path => (same path).mpr

end TreeIndex

namespace FileTree

/-- A language applies to files exactly when one of them is named like a marker of the language or
has a name that selection claims for it. So the files matter as a set, and more of them show more.
Detection lists the languages that apply to what a walk finds, each once and in their order. -/
theorem detect_agrees_with_claims :
    (∀ (p : Profile) (paths : List Path), (TreeIndex.ofPaths paths).shows p = true ↔
      ∃ path ∈ paths, ∃ name, path.shownName? = some name ∧
        (name ∈ p.markers ∨ p.claims name = true)) ∧
    (∀ (p : Profile) (paths others : List Path), (∀ path, path ∈ paths ↔ path ∈ others) →
      (TreeIndex.ofPaths paths).shows p = (TreeIndex.ofPaths others).shows p) ∧
    (∀ (p : Profile) (paths others : List Path), paths ⊆ others →
      (TreeIndex.ofPaths paths).shows p = true → (TreeIndex.ofPaths others).shows p = true) ∧
    ∀ (t : FileTree) (root : Path) (depth : Nat),
      (∀ fault, t.walk root (some depth) = .error fault → t.detect root depth = .error fault) ∧
      ∀ files, t.walk root (some depth) = .ok files →
        ∃ found, t.detect root depth = .ok found ∧ found.Sublist Language.all ∧
          ∀ l, l ∈ found ↔ (TreeIndex.ofPaths files).shows l.profile = true := by
  refine ⟨fun p paths => TreeIndex.shows_iff,
    fun p _ _ same => TreeIndex.shows_eq_of_mem_iff same p,
    fun p _ _ within => TreeIndex.shows_of_subset within, fun t root depth => ⟨?_, ?_⟩⟩
  · intro fault walked
    rw [detect, walked]
    rfl
  · intro files walked
    refine ⟨(TreeIndex.ofPaths files).languages, ?_, List.filter_sublist, ?_⟩
    · rw [detect, walked]
      rfl
    · exact fun l => TreeIndex.mem_languages

section Example

def notesEntries : List (String × Node) :=
  [(".py", .file [] 0o644), ("Notes.MD", .file [] 0o644), ("go.mod", .file [] 0o644)]

/-- A tree with a marker, with an extension in capital letters and with a name that has none. -/
def notesTree : FileTree where
  root := .dir [("w", .dir notesEntries)]

theorem walk_notesTree {levels : Option Nat} (small : ∀ d ∈ levels, d < maxDepth) :
    notesTree.walk "/w" levels = .ok [".py", "Notes.MD", "go.mod"] := by
  have there : notesTree.resolve "/w" = .ok (.present ["w"] (.dir notesEntries)) := rfl
  have below : (Node.dir notesEntries).filesBelow (notesTree.hasFile "/w") levels [] =
      [[".py"], ["Notes.MD"], ["go.mod"]] := by
    simp [notesEntries, Node.filesBelow, Node.filesAmong]
  exact walk_eq_of_sorted there small below (by decide)

theorem detect_agrees_on_notesTree :
    (∃ found, notesTree.detect "/w" 0 = .ok found ∧ found.Sublist Language.all ∧
      Language.go ∈ found ∧ Language.markdown ∈ found ∧ Language.python ∉ found) ∧
    (TreeIndex.ofPaths ["b/go.mod", "a.TF", "a.TF"]).shows (Language.profile .terraform) =
      (TreeIndex.ofPaths ["a.TF", "b/go.mod"]).shows (Language.profile .terraform) ∧
    (TreeIndex.ofPaths ["b/go.mod", "a.TF", "a.TF"]).shows (Language.profile .terraform) =
      true := by
  obtain ⟨shows_iff, reordered, more, detected⟩ := detect_agrees_with_claims
  have walked : notesTree.walk "/w" (some 0) = .ok [".py", "Notes.MD", "go.mod"] :=
    walk_notesTree (by decide)
  obtain ⟨found, answer, inOrder, members⟩ := (detected notesTree "/w" 0).2 _ walked
  refine ⟨⟨found, answer, inOrder, ?_, ?_, ?_⟩, reordered _ _ _ (by simp [or_comm]), ?_⟩
  · exact (members .go).mpr
      ((shows_iff _ _).mpr ⟨"go.mod", by simp, "go.mod", by decide, by decide⟩)
  · rw [members, shows_iff]
    exact ⟨"Notes.MD", by simp, "Notes.MD", by decide, by decide⟩
  · rw [members]
    decide
  · exact more _ ["a.TF"] _ (by simp) (by decide)

end Example

end FileTree

end LintGate
