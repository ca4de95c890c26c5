import LintGate.Proofs.FileTree.View

/-!
# What a change of files shows

When two trees without links differ in files with names of one kind only, they show the same at
every path that does not end with such a name.
-/

namespace LintGate

/-- The last step of a path is the name of its file, unless it is a dot or leads up. -/
theorem Path.fileName?_of_steps {p : Path} {name : String} (notHere : name ≠ ".")
    (notUp : name ≠ "..") (last : (FileTree.steps p).getLast? = some name) :
    p.fileName? = some name := by
  rw [steps_eq] at last
  split at last
  case isTrue =>
    rw [List.getLast?_concat] at last
    exact absurd (Option.some.inj last).symm notHere
  case isFalse =>
    rw [List.append_nil] at last
    obtain ⟨front, split⟩ := List.getLast?_eq_some_iff.mp last
    have named := Component.ofSegment?_eq_name_iff.mpr ⟨rfl, notHere, notUp⟩
    rw [fileName?_eq_some_iff, components_eq, split, List.filterMap_append,
      List.filterMap_cons_some named, ← List.append_assoc]
    exact ⟨_, rfl⟩

namespace Node

/-- No links are at the node or below it, and what has a name of the kind is a file. -/
structure Plain (kind : String → Bool) (node : Node) : Prop where
  linkless : ∀ l target, node.get? l ≠ some (.link target)
  notDir : ∀ l name, kind name = true → ¬ node.HasDir (l ++ [name])

/-- Two plain nodes are the same but for files with names of the kind. -/
structure DiffersInFiles (kind : String → Bool) (a b : Node) : Prop where
  plain : a.Plain kind
  plain' : b.Plain kind
  elsewhere : ∀ l, (∀ name, l.getLast? = some name → kind name = false) →
    (a.get? l).map shallow = (b.get? l).map shallow

theorem eq_of_shallow_eq {a b : Node} (same : a.shallow = b.shallow)
    (notDir : a.isDir = false) : a = b := by
  cases a with
  | dir => cases notDir
  | file | link | program | device =>
      cases b with
      | dir => cases same
      | file | link | program | device => exact same

/-! ## Trees put together -/

variable {kind : String → Bool}

theorem plain_file (contents : Text.Bytes) (mode : Nat) : (Node.file contents mode).Plain kind where
  linkless := by
    intro l target found
    cases l with
    | nil => cases found
    | cons name l => cases found
  notDir := by
    rintro l name _ ⟨entries, listable, found⟩
    cases l with
    | nil => cases found
    | cons step l => cases found

theorem plain_dir {entries : List (String × Node)} {listable : Bool}
    (plain : ∀ entry ∈ entries, entry.2.Plain kind)
    (files : ∀ entry ∈ entries, kind entry.1 = true → entry.2.isDir = false) :
    (Node.dir entries listable).Plain kind where
  linkless := by
    intro l target found
    cases l with
    | nil => cases found
    | cons name l =>
        rw [Node.get?, Option.bind_eq_some_iff] at found
        obtain ⟨child, inside, below⟩ := found
        exact (plain _ (mem_of_child? inside)).linkless l target below
  notDir := by
    rintro l name ofKind ⟨below, listable, found⟩
    cases l with
    | nil =>
        rw [List.nil_append, Node.get?, Option.bind_eq_some_iff] at found
        obtain ⟨child, inside, same⟩ := found
        rw [get?_nil] at same
        cases same
        cases files _ (mem_of_child? inside) ofKind
    | cons step l =>
        rw [List.cons_append, Node.get?, Option.bind_eq_some_iff] at found
        obtain ⟨child, inside, found⟩ := found
        exact (plain _ (mem_of_child? inside)).notDir l name ofKind ⟨below, listable, found⟩

theorem DiffersInFiles.refl {node : Node} (plain : node.Plain kind) :
    node.DiffersInFiles kind node :=
  ⟨plain, plain, fun _ _ => rfl⟩

theorem Plain.get?_eq_none {node : Node} {name : String} {l : Location} (plain : node.Plain kind)
    (ofKind : kind name = true) (nonempty : l ≠ []) : node.get? (name :: l) = none := by
  apply Option.eq_none_iff_forall_not_mem.mpr
  intro below found
  have isDir : node.HasDir [name] := hasDir_of_get?_append nonempty found
  exact plain.notDir [] name ofKind isDir

/-- Directories differ in files of the kind when their entries with other names do. -/
theorem differsInFiles_dir {entries others : List (String × Node)} {listable : Bool}
    (plain : (Node.dir entries listable).Plain kind)
    (plain' : (Node.dir others listable).Plain kind)
    (below : ∀ name, kind name = false →
      (child? name entries = none ∧ child? name others = none) ∨
        ∃ a b, child? name entries = some a ∧ child? name others = some b ∧
          a.DiffersInFiles kind b) :
    (Node.dir entries listable).DiffersInFiles kind (.dir others listable) where
  plain := plain
  plain' := plain'
  elsewhere := by
    intro l other
    cases l with
    | nil => rfl
    | cons name l =>
        by_cases ofKind : kind name = true
        · have nonempty : l ≠ [] := by
            rintro rfl
            cases ofKind.symm.trans (other name rfl)
          rw [plain.get?_eq_none ofKind nonempty, plain'.get?_eq_none ofKind nonempty]
        · rw [Bool.not_eq_true] at ofKind
          rw [Node.get?, Node.get?]
          rcases below name ofKind with ⟨absent, absent'⟩ | ⟨a, b, found, found', differs⟩
          · rw [absent, absent']
          · rw [found, found']
            apply differs.elsewhere l
            intro last ends
            cases l with
            | nil => cases ends
            | cons next l => exact other last (List.getLast?_cons_cons.trans ends)

end Node

namespace FileTree

variable {kind : String → Bool} {root root' : Node} {followLast : Bool}

/-- Nothing is found below a file. -/
theorem shown_follow_below (plain : root.Plain kind) {step : String} {rest : List String}
    (ofKind : kind step = true) (here : step ≠ ".") (up : step ≠ "..") (more : rest ≠ [])
    (links : Nat) (dir : Location) :
    shown (follow root followLast links dir (step :: rest)) = none := by
  have not_last : rest.isEmpty = false := by simpa using more
  rcases Nat.lt_or_ge maxNameBytes (Text.rawBytes step).length with long | short
  · rw [follow_long here up long]
    rfl
  · rw [follow_name here up short, not_last]
    cases found : root.get? (dir ++ [step]) with
    | none => rfl
    | some node =>
        cases node with
        | dir => exact absurd ⟨_, _, found⟩ (plain.notDir dir step ofKind)
        | link target => exact absurd found (plain.linkless _ target)
        | file | program | device => rfl

/-- Steps that do not end with a name of the kind show the same. -/
theorem shown_follow_eq (differs : root.DiffersInFiles kind root') (links : Nat) {dir : Location}
    {ss : List String} (real : root.HasDir dir)
    (other : ∀ name, ss.getLast? = some name → name ≠ "." → name ≠ ".." → kind name = false) :
    shown (follow root followLast links dir ss) = shown (follow root' followLast links dir ss) := by
  induction ss generalizing dir with
  | nil =>
      have same := differs.elsewhere dir (by
        intro name last
        obtain ⟨above, rfl⟩ := List.getLast?_eq_some_iff.mp last
        rw [Bool.eq_false_iff]
        intro ofKind
        exact differs.plain.notDir above name ofKind real)
      obtain ⟨entries, listable, found⟩ := real
      obtain ⟨others, found'⟩ := Node.exists_dir_of_map_shallow same found
      rw [follow_nil, follow_nil, found, found']
      rfl
  | cons step rest ih =>
      have later : ∀ name, rest.getLast? = some name → name ≠ "." → name ≠ ".." →
          kind name = false := by
        intro name last
        cases rest with
        | nil => cases last
        | cons next rest => exact other name last
      by_cases here : step = "."
      · subst here
        rw [follow_here, follow_here]
        exact ih real later
      by_cases up : step = ".."
      · subst up
        rw [follow_up, follow_up]
        exact ih (real.of_prefix (List.dropLast_prefix _)) later
      by_cases ofKind : kind step = true
      case pos =>
        have more : rest ≠ [] := by
          rintro rfl
          cases ofKind.symm.trans (other step rfl here up)
        rw [shown_follow_below differs.plain ofKind here up more,
          shown_follow_below differs.plain' ofKind here up more]
      case neg =>
        have same := differs.elsewhere (dir ++ [step]) (by
          intro name last
          rw [List.getLast?_concat] at last
          cases last
          simpa using ofKind)
        rcases Nat.lt_or_ge maxNameBytes (Text.rawBytes step).length with long | short
        · rw [follow_long here up long, follow_long here up long]
        rw [follow_name here up short, follow_name here up short]
        cases found : root.get? (dir ++ [step]) with
        | none =>
            rw [found, Option.map_none, eq_comm, Option.map_eq_none_iff] at same
            rw [same]
        | some node =>
            cases node with
            | dir entries listable =>
                obtain ⟨others, found'⟩ := Node.exists_dir_of_map_shallow same found
                rw [found']
                exact ih ⟨entries, listable, found⟩ later
            | link target => exact absurd found (differs.plain.linkless _ _)
            | file | program | device =>
                rw [found, Option.map_some, eq_comm, Option.map_eq_some_iff] at same
                obtain ⟨node, found', shallow⟩ := same
                rw [found', ← Node.eq_of_shallow_eq shallow.symm rfl]

/-- A path that does not end with a name of the kind shows the same. -/
theorem sameAt_of_differsInFiles {t u : FileTree} {p : Path}
    (differs : t.root.DiffersInFiles kind u.root) (here : t.here = u.here)
    (real : t.root.HasDir t.here)
    (other : ∀ name, p.fileName? = some name → kind name = false) : SameAt p t u := by
  intro followLast
  rw [glimpse, glimpse, resolveWith, resolveWith, ← here]
  split
  · rfl
  · apply shown_follow_eq differs maxLinks
    · split
      · exact real.of_prefix List.nil_prefix
      · exact real
    · intro name last notHere notUp
      exact other name (Path.fileName?_of_steps notHere notUp last)

end FileTree

end LintGate
