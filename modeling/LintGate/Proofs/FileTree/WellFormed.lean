import LintGate.Proofs.FileTree.Resolution
import LintGate.Proofs.Path.Names
import LintGate.Proofs.Text.Raw

/-!
# Well-formed trees

The entries of a directory have names that a path can hold, in strictly increasing order. Every tree
of a file system is of this kind, with names of at most `FileTree.maxNameBytes` bytes.
-/

namespace LintGate

/-- A name that an entry of a directory can have. -/
structure IsEntryName (name : String) : Prop extends Path.IsName name where
  short : (Text.rawBytes name).length ≤ FileTree.maxNameBytes

instance (name : String) : Decidable (IsEntryName name) :=
  decidable_of_iff (Path.IsName name ∧ (Text.rawBytes name).length ≤ FileTree.maxNameBytes)
    ⟨fun ⟨isName, short⟩ => ⟨isName, short⟩, fun isName => ⟨isName.toIsName, isName.short⟩⟩

inductive Node.WellFormed : Node → Prop where
  | file (contents : Text.Bytes) (mode : Nat) : WellFormed (.file contents mode)
  | link (target : Path) : WellFormed (.link target)
  | program (name : String) : WellFormed (.program name)
  | device (d : Device) : WellFormed (.device d)
  | dir {entries : List (String × Node)} {listable : Bool} :
      (entries.map (·.1)).Pairwise (Text.rawBefore · ·) →
      (∀ entry ∈ entries, IsEntryName entry.1) →
      (∀ entry ∈ entries, WellFormed entry.2) →
      WellFormed (.dir entries listable)

namespace Node

theorem mem_of_child? {name : String} {entries : List (String × Node)} {node : Node}
    (found : child? name entries = some node) : (name, node) ∈ entries := by
  induction entries with
  | nil => cases found
  | cons entry entries ih =>
      obtain ⟨other, first⟩ := entry
      rw [child?] at found
      split at found
      case isTrue same =>
        cases found
        simp [same]
      case isFalse => exact List.mem_cons_of_mem _ (ih found)

/-- Among entries in order each is found by its name. -/
theorem child?_of_mem {name : String} {entries : List (String × Node)} {node : Node}
    (sorted : (entries.map (·.1)).Pairwise (Text.rawBefore · ·)) (member : (name, node) ∈ entries) :
    child? name entries = some node := by
  induction entries with
  | nil => cases member
  | cons entry entries ih =>
      obtain ⟨other, first⟩ := entry
      rw [List.map_cons, List.pairwise_cons] at sorted
      rw [child?]
      rcases List.mem_cons.mp member with same | later
      · cases same
        rw [if_pos rfl]
      · have earlier : Text.rawBefore other name = true := sorted.1 _ (List.mem_map_of_mem later)
        rw [if_neg (Text.ne_of_rawBefore earlier)]
        exact ih sorted.2 later

theorem WellFormed.get? {node below : Node} {l : Location} (wellFormed : node.WellFormed)
    (found : node.get? l = some below) : below.WellFormed := by
  induction l generalizing node with
  | nil =>
      rw [get?_nil] at found
      cases found
      exact wellFormed
  | cons name l ih =>
      cases wellFormed with
      | dir _ _ entries =>
          rw [Node.get?, Option.bind_eq_some_iff] at found
          obtain ⟨child, here, inside⟩ := found
          exact ih (entries _ (mem_of_child? here)) inside
      | file | link | program | device => cases found

/-- The names on the way to an entry are names of entries. -/
theorem WellFormed.isEntryName {node below : Node} {l : Location} (wellFormed : node.WellFormed)
    (found : node.get? l = some below) : ∀ name ∈ l, IsEntryName name := by
  induction l generalizing node with
  | nil => simp
  | cons name l ih =>
      cases wellFormed with
      | dir _ names entries =>
          rw [Node.get?, Option.bind_eq_some_iff] at found
          obtain ⟨child, here, inside⟩ := found
          have member := mem_of_child? here
          intro other among
          rcases List.mem_cons.mp among with rfl | later
          · exact names _ member
          · exact ih (entries _ member) inside other later
      | file | link | program | device => cases found

end Node

/-- Whatever a path denotes in a well-formed tree is well-formed. -/
theorem FileTree.wellFormed_of_resolve {t : FileTree} {p : Path} {l : Location} {node : Node}
    (wellFormed : t.root.WellFormed) (found : t.resolve p = .ok (.present l node)) :
    node.WellFormed := by
  have contents := getD_get?_of_resolve found
  cases there : t.root.get? l with
  | none =>
      rw [there] at contents
      cases contents
      exact .dir .nil (by simp) (by simp)
  | some other =>
      rw [there] at contents
      cases contents
      exact wellFormed.get? there

end LintGate
