import LintGate.Proofs.FileTree.Rewriting

/-!
# Files that are added

A file is added where a path denotes a place that is still empty. The tree then keeps all that it
had, and every path leads where it led before.
-/

namespace LintGate

open Text (Bytes)

namespace Node

variable {root : Node} {name : String} {above : Location}

/-- A tree has the same entries as another one, and one file more. -/
structure AddsFile (root root' : Node) (l : Location) : Prop where
  absent : root.get? l = none
  added : ∃ contents mode, root'.get? l = some (.file contents mode)
  elsewhere : ∀ place, place ≠ l →
    (root'.get? place).map shallow = (root.get? place).map shallow

theorem withFile_below {child : Node} {entries : List (String × Node)} {listable : Bool}
    (contents : Bytes) (mode : Nat) (step : String) (found : child? step entries = some child)
    (parent : child.HasDir above) :
    (Node.dir entries listable).withFile (step :: (above ++ [name])) contents mode =
      .dir (putEntry step (some (child.withFile (above ++ [name]) contents mode)) entries)
        listable := by
  obtain ⟨inner, _, isDir⟩ := parent.of_prefix List.nil_prefix
  rw [get?_nil] at isDir
  cases isDir
  obtain ⟨first, rest, shape⟩ :=
    List.exists_cons_of_ne_nil (List.append_ne_nil_of_right_ne_nil above (List.cons_ne_nil name []))
  rw [withFile, withFile, update, found, shape, update]
  rfl

theorem addsFile_withFile (contents : Bytes) (mode : Nat) (parent : root.HasDir above)
    (absent : root.get? (above ++ [name]) = none) :
    root.AddsFile (root.withFile (above ++ [name]) contents mode) (above ++ [name]) := by
  obtain ⟨entries, listable, parent⟩ := parent
  induction above generalizing root with
  | nil =>
      rw [get?_nil] at parent
      cases parent
      have shape : (Node.dir entries listable).withFile [name] contents mode =
          .dir (putEntry name (some (.file contents mode)) entries) listable := rfl
      rw [List.nil_append] at absent ⊢
      rw [shape]
      refine ⟨absent, ⟨contents, mode, ?_⟩, ?_⟩
      · rw [Node.get?, child?_putEntry_self]
        rfl
      · intro place differs
        cases place with
        | nil => rfl
        | cons step place =>
            rw [Node.get?, Node.get?]
            by_cases same : name = step
            · subst same
              obtain ⟨next, more, rfl⟩ := List.exists_cons_of_ne_nil fun empty =>
                differs (congrArg (name :: ·) empty)
              have nothing : child? name entries = none := by
                simpa [Node.get?, get?_nil] using absent
              rw [child?_putEntry_self, nothing]
              rfl
            · rw [child?_putEntry_of_ne same]
  | cons step above ih =>
      cases root with
      | dir others _ =>
          rw [Node.get?, Option.bind_eq_some_iff] at parent
          obtain ⟨child, inside, parent⟩ := parent
          rw [List.cons_append] at absent ⊢
          rw [Node.get?, inside, Option.bind_some] at absent
          obtain ⟨-, ⟨now, bits, added⟩, elsewhere⟩ := ih absent parent
          rw [withFile_below contents mode step inside ⟨_, _, parent⟩]
          refine ⟨?_, ⟨now, bits, ?_⟩, ?_⟩
          · rw [Node.get?, inside, Option.bind_some, absent]
          · rw [Node.get?, child?_putEntry_self, Option.bind_some, added]
          · intro place differs
            cases place with
            | nil => rfl
            | cons next place =>
                rw [Node.get?, Node.get?]
                by_cases same : step = next
                · subst same
                  rw [child?_putEntry_self, inside]
                  exact elsewhere place fun same => differs (congrArg (step :: ·) same)
                · rw [child?_putEntry_of_ne same]
      | file | link | program | device => cases parent

theorem AddsFile.keeps {root' : Node} {l : Location} (adds : root.AddsFile root' l) :
    root.Keeps root' := by
  intro place
  by_cases here : place = l
  · subst here
    obtain ⟨contents, mode, added⟩ := adds.added
    exact .inr ⟨adds.absent, contents, mode, added⟩
  · have same := congrArg (Option.map outline) (adds.elsewhere place here)
    exact .inl (by simpa only [Option.map_map, Function.comp_def, outline_shallow] using same)

end Node

namespace FileTree

/-- A place that is still empty is in a directory. -/
theorem hasDir_of_absent {root : Node} {followLast : Bool} {links : Nat} {dir above : Location}
    {name : String} {ss : List String} (real : root.HasDir dir)
    (found : follow root followLast links dir ss = .ok (.absent above name)) :
    root.HasDir above ∧ root.get? (above ++ [name]) = none := by
  rw [follow_eq_ok_iff] at found
  generalize there : Place.absent above name = place at found
  induction found with
  | arrived | ended => cases there
  | stays _ ih => exact ih real there
  | up _ ih => exact ih (real.of_prefix (List.dropLast_prefix _)) there
  | down _ _ _ entry _ ih => exact ih ⟨_, _, entry⟩ there
  | linked _ _ _ _ _ _ _ ih =>
      apply ih _ there
      split
      · exact real.of_prefix List.nil_prefix
      · exact real
  | absent _ _ _ entry =>
      cases there
      exact ⟨real, entry⟩

variable {t : FileTree} {p : Path} {above : Location} {name : String}

theorem hasDir_of_resolve_absent (here : t.root.HasDir t.here)
    (empty : t.resolve p = .ok (.absent above name)) :
    t.root.HasDir above ∧ t.root.get? (above ++ [name]) = none := by
  rw [resolve, resolveWith] at empty
  split at empty
  · cases empty
  · have start : t.root.HasDir (if p.isAbsolute then [] else t.here) := by
      split
      · exact here.of_prefix List.nil_prefix
      · exact here
    exact hasDir_of_absent start empty

theorem addsFile_of_absent (contents : Bytes) (mode : Nat) (here : t.root.HasDir t.here)
    (empty : t.resolve p = .ok (.absent above name)) :
    t.root.AddsFile (t.withFile (above ++ [name]) contents mode).root (above ++ [name]) := by
  obtain ⟨parent, absent⟩ := hasDir_of_resolve_absent here empty
  exact Node.addsFile_withFile contents mode parent absent

/-- A file that is added is at the place that its path denotes. -/
theorem exists_file_of_added (contents : Bytes) (mode : Nat) (here : t.root.HasDir t.here)
    (empty : t.resolve p = .ok (.absent above name)) :
    ∃ now bits, (t.withFile (above ++ [name]) contents mode).resolve p =
      .ok (.present (above ++ [name]) (.file now bits)) := by
  have adds := addsFile_of_absent contents mode here empty
  obtain ⟨bytes, bits, added⟩ := adds.added
  obtain ⟨now, there, located, -⟩ := exists_remains_of_resolve adds.keeps rfl empty
  cases now with
  | present place node =>
      have here : place = above ++ [name] := located
      subst here
      have found := getD_get?_of_resolve there
      rw [added, Option.getD_some] at found
      exact ⟨bytes, bits, found ▸ there⟩
  | absent above' name' =>
      -- Something is there, so the path cannot denote an empty place.
      obtain ⟨entries, listable, isDir⟩ := here
      obtain ⟨node, entry, same⟩ := adds.keeps.exists_outline isDir
      obtain ⟨others, rfl⟩ := Node.exists_dir_of_outline same
      obtain ⟨-, nothing⟩ := hasDir_of_resolve_absent ⟨others, listable, entry⟩ there
      rw [show above' ++ [name'] = above ++ [name] from located, added] at nothing
      cases nothing

end FileTree

end LintGate
