import LintGate.Check
import LintGate.Proofs.FileTree.WellFormed
import LintGate.Proofs.FileTree.Descent
import LintGate.SearchPath
import LintGate.Selection

/-!
# What a path shows

A glimpse of a path is what is there, but not what is below it. Whatever the program asks about a
single file is decided by a glimpse of its path, and well-formed trees that show the same at every
path are the same tree.
-/

namespace LintGate

namespace Node

/-- A node without what is below it. -/
def shallow : Node → Node
  | .dir _ listable => .dir [] listable
  | other => other

theorem isFile_shallow (node : Node) : node.shallow.isFile = node.isFile := by
  cases node <;> rfl

theorem isExecutable_shallow (node : Node) : node.shallow.isExecutable = node.isExecutable := by
  cases node <;> rfl

theorem size_shallow (node : Node) : node.shallow.size = node.size := by
  cases node <;> rfl

/-- What is read from a node, unless it is a directory or its owner may not read it. -/
def contents? : Node → Option Text.Bytes
  | .file contents mode => if mode &&& readBit = 0 then none else some contents
  | .dir .. => none
  | .link _ | .program _ | .device _ => some []

theorem contents?_shallow (node : Node) : node.shallow.contents? = node.contents? := by
  cases node <;> rfl

theorem exists_dir_of_shallow {node : Node} {entries : List (String × Node)} {listable : Bool}
    (same : node.shallow = (Node.dir entries listable).shallow) :
    ∃ others, node = .dir others listable := by
  cases node with
  | dir others _ =>
      cases same
      exact ⟨others, rfl⟩
  | file | link | program | device => cases same

theorem exists_dir_of_map_shallow {a b : Option Node} {entries : List (String × Node)}
    {listable : Bool} (same : a.map shallow = b.map shallow)
    (real : a = some (.dir entries listable)) : ∃ others, b = some (.dir others listable) := by
  rw [real, Option.map_some, eq_comm, Option.map_eq_some_iff] at same
  obtain ⟨node, found, shallow⟩ := same
  obtain ⟨others, rfl⟩ := exists_dir_of_shallow shallow
  exact ⟨others, found⟩

theorem HasDir.of_map_shallow {root root' : Node} {l : Location} (real : root.HasDir l)
    (same : (root.get? l).map shallow = (root'.get? l).map shallow) : root'.HasDir l := by
  obtain ⟨entries, listable, found⟩ := real
  obtain ⟨others, found'⟩ := exists_dir_of_map_shallow same found
  exact ⟨others, listable, found'⟩

/-! ## Entries that are found alike -/

theorem child?_cons (name other : String) (node : Node) (rest : List (String × Node)) :
    child? name ((other, node) :: rest) =
      if other = name then some node else child? name rest := rfl

theorem child?_eq_none {name : String} {entries : List (String × Node)}
    (others : ∀ other ∈ entries.map (·.1), Text.rawBefore name other = true) :
    child? name entries = none := by
  induction entries with
  | nil => rfl
  | cons entry entries ih =>
      rw [List.map_cons, List.forall_mem_cons] at others
      rw [child?_cons, if_neg (Text.ne_of_rawBefore others.1).symm]
      exact ih others.2

/-- Lists of entries in order of their names are the same when all names lead to the same. -/
theorem eq_of_child?_eq {xs ys : List (String × Node)}
    (sortedX : (xs.map (·.1)).Pairwise (Text.rawBefore · ·))
    (sortedY : (ys.map (·.1)).Pairwise (Text.rawBefore · ·))
    (same : ∀ name, child? name xs = child? name ys) : xs = ys := by
  induction xs generalizing ys with
  | nil =>
      cases ys with
      | nil => rfl
      | cons y ys =>
          have found := same y.1
          rw [child?_cons, if_pos rfl] at found
          cases found
  | cons x xs ih =>
      cases ys with
      | nil =>
          have found := same x.1
          rw [child?_cons, if_pos rfl] at found
          cases found
      | cons y ys =>
          rw [List.map_cons, List.pairwise_cons] at sortedX sortedY
          have first : x.1 = y.1 := by
            have foundX : child? x.1 (y :: ys) = some x.2 := by
              rw [← same, child?_cons, if_pos rfl]
            have foundY : child? y.1 (x :: xs) = some y.2 := by
              rw [same, child?_cons, if_pos rfl]
            rcases List.mem_cons.mp (mem_of_child? foundX) with here | later
            · exact congrArg Prod.fst here
            rcases List.mem_cons.mp (mem_of_child? foundY) with here | later'
            · exact (congrArg Prod.fst here).symm
            · have below := sortedX.1 _ (List.mem_map_of_mem later')
              have above := sortedY.1 _ (List.mem_map_of_mem later)
              exact absurd rfl (Text.ne_of_rawBefore (Text.rawBefore_trans below above))
          have second : x.2 = y.2 := by
            have found := same x.1
            rw [child?_cons, child?_cons, if_pos rfl, if_pos first.symm] at found
            exact Option.some.inj found
          have rest : xs = ys := by
            apply ih sortedX.2 sortedY.2
            intro name
            by_cases here : x.1 = name
            · subst here
              rw [child?_eq_none sortedX.1, first, child?_eq_none sortedY.1]
            · have found := same name
              rwa [child?_cons, child?_cons, if_neg here, if_neg (first ▸ here)] at found
          rw [rest, Prod.ext first second]

/-- Well-formed nodes are the same when each location below them shows the same in both. -/
theorem WellFormed.eq_of_get?_shallow {a b : Node} (wellFormed : a.WellFormed)
    (wellFormed' : b.WellFormed)
    (same : ∀ l, (a.get? l).map shallow = (b.get? l).map shallow) : a = b := by
  have top : a.shallow = b.shallow := by
    have here := same []
    rw [get?_nil, get?_nil] at here
    exact Option.some.inj here
  induction wellFormed generalizing b with
  | @dir entries listable sorted names below ih =>
      obtain ⟨others, rfl⟩ := exists_dir_of_shallow top.symm
      cases wellFormed' with
      | dir sorted' _ below' =>
          congr 1
          apply eq_of_child?_eq sorted sorted'
          intro name
          have inside (l : Location) := same (name :: l)
          simp only [Node.get?] at inside
          cases found : child? name entries with
          | none =>
              cases found' : child? name others with
              | none => rfl
              | some node =>
                  have here := inside []
                  rw [found, found', Option.bind_some, get?_nil] at here
                  cases here
          | some node =>
              cases found' : child? name others with
              | none =>
                  have here := inside []
                  rw [found, found', Option.bind_some, get?_nil] at here
                  cases here
              | some other =>
                  rw [found, found'] at inside
                  have here := inside []
                  rw [Option.bind_some, Option.bind_some, get?_nil, get?_nil] at here
                  congr 1
                  exact ih _ (mem_of_child? found) (below' _ (mem_of_child? found')) inside
                    (Option.some.inj here)
  | file | link | program | device =>
      cases b with
      | dir => cases top
      | file | link | program | device => exact top

end Node

namespace FileTree

/-- What is at a place that was found, but not what is below it. -/
def shown : Except SystemError Place → Option Node
  | .ok (.present _ node) => some node.shallow
  | .ok (.absent _ _) | .error _ => none

/-- What is at a path, but not what is below it. A link at its end is followed if `followLast`. -/
def glimpse (t : FileTree) (followLast : Bool) (p : Path) : Option Node :=
  shown (t.resolveWith followLast p)

/-- A path shows the same in two trees. -/
def SameAt (p : Path) (t u : FileTree) : Prop :=
  ∀ followLast, t.glimpse followLast p = u.glimpse followLast p

theorem glimpse_true (t : FileTree) (p : Path) :
    t.glimpse true p = (t.stat? p).map Node.shallow := by
  rw [glimpse, stat?, stat, resolve]
  cases t.resolveWith true p with
  | error fault => rfl
  | ok place => cases place <;> rfl

theorem read?_eq (t : FileTree) (p : Path) :
    t.read? p = ((t.stat? p).map Node.contents?).join := by
  rw [read?, read, stat?]
  cases t.stat p with
  | error fault => rfl
  | ok node =>
      cases node with
      | file contents mode =>
          by_cases unreadable : mode &&& Node.readBit = 0
          · simp [Node.contents?, Except.toOption, unreadable]
          · simp [Node.contents?, Except.toOption, unreadable]
      | dir | link | program | device => rfl

namespace SameAt

variable {p : Path} {t u v : FileTree}

theorem refl (p : Path) (t : FileTree) : SameAt p t t :=
  fun _ => rfl

theorem symm (same : SameAt p t u) : SameAt p u t :=
  fun followLast => (same followLast).symm

theorem trans (first : SameAt p t u) (second : SameAt p u v) : SameAt p t v :=
  fun followLast => (first followLast).trans (second followLast)

/-- What does not depend on what is below a path is the same. -/
theorem map_stat?_eq {α : Type} {f : Node → α} (shallow : ∀ node, f node.shallow = f node)
    (same : SameAt p t u) : (t.stat? p).map f = (u.stat? p).map f := by
  have through (t : FileTree) : (t.stat? p).map f = (t.glimpse true p).map f := by
    rw [glimpse_true, Option.map_map]
    congr 1
    funext node
    exact (shallow node).symm
  rw [through, through, same true]

theorem isFile_eq (same : SameAt p t u) : t.isFile p = u.isFile p := by
  have known := same.map_stat?_eq Node.isFile_shallow
  have asked (t : FileTree) : t.isFile p = ((t.stat? p).map Node.isFile).any id := by
    rw [isFile, Option.any_map]
    rfl
  rw [asked, asked, known]

theorem isProgram_eq (same : SameAt p t u) : t.isProgram p = u.isProgram p := by
  have known := same.map_stat?_eq Node.isExecutable_shallow
  have asked (t : FileTree) : t.isProgram p = ((t.stat? p).map Node.isExecutable).any id := by
    rw [isProgram, Option.any_map]
    rfl
  rw [asked, asked, known]

theorem optsOut_eq (same : SameAt p t u) (marker : String) (maxLines : Nat) :
    t.optsOut p marker maxLines = u.optsOut p marker maxLines := by
  have known := same.map_stat?_eq Node.contents?_shallow
  rw [optsOut, optsOut, read?_eq, read?_eq, known]

theorem sizeIn_eq {root file : Path} (same : SameAt (root.join file) t u) :
    Check.sizeIn t root file = Check.sizeIn u root file :=
  same.map_stat?_eq Node.size_shallow

end SameAt

/-! ## From what is shown to the tree -/

theorem glimpse_absolutePath (t : FileTree) {l : Location} (followLast : Bool) (nonempty : l ≠ [])
    (isName : ∀ name ∈ l, Path.IsName name) :
    t.glimpse followLast (absolutePath l) = shown (follow t.root followLast maxLinks [] l) := by
  have some_path : absolutePath l ≠ "" := by simp [absolutePath]
  have absolute : (absolutePath l).isAbsolute = true := by
    simp [absolutePath, Path.isAbsolute]
  rw [glimpse, resolveWith_eq some_path, if_pos absolute, Path.steps_absolutePath nonempty isName]

/-- An entry of a real directory is what its path shows. -/
theorem glimpse_entry {t : FileTree} {above : Location} {name : String}
    (wellFormed : t.root.WellFormed) (real : t.root.HasDir above) (isName : IsEntryName name) :
    t.glimpse false (absolutePath (above ++ [name])) =
      (t.root.get? (above ++ [name])).map Node.shallow := by
  obtain ⟨entries, listable, isDir⟩ := real
  have names := wellFormed.isEntryName isDir
  have all_names : ∀ other ∈ above ++ [name], Path.IsName other := by
    intro other member
    rcases List.mem_append.mp member with earlier | last
    · exact (names other earlier).toIsName
    · rw [List.mem_singleton.mp last]
      exact isName.toIsName
  have enters : Enters t.root maxLinks [] above maxLinks above :=
    enters_of_location maxLinks names isDir
  rw [glimpse_absolutePath t false (by simp) all_names,
    enters.follow_append (List.cons_ne_nil _ _),
    follow_name isName.notHere isName.notUp isName.short]
  cases found : t.root.get? (above ++ [name]) with
  | none => rfl
  | some node =>
      cases node with
      | dir =>
          dsimp only
          rw [follow_nil, found]
          rfl
      | file | link | program | device => rfl

/-- Well-formed trees are the same when every path shows the same in both. -/
theorem eq_of_sameAt {t u : FileTree} (wellFormed : t.root.WellFormed)
    (wellFormed' : u.root.WellFormed) (here : t.here = u.here) (same : ∀ p, SameAt p t u) :
    t = u := by
  have roots : t.root = u.root := by
    apply wellFormed.eq_of_get?_shallow wellFormed'
    intro l
    induction l using List.reverseRecOn with
    | nil =>
        have top := same "/" false
        exact top
    | append_singleton above name ih =>
        by_cases reachable : t.root.HasDir above ∧ IsEntryName name
        · obtain ⟨real, isName⟩ := reachable
          have real' := real.of_map_shallow ih
          rw [← glimpse_entry wellFormed real isName, ← glimpse_entry wellFormed' real' isName]
          exact same _ _
        · -- An entry has a directory above it and a name of an entry, in either tree.
          have absent : t.root.get? (above ++ [name]) = none := by
            apply Option.eq_none_iff_forall_not_mem.mpr
            intro node found
            refine reachable ⟨Node.hasDir_of_get?_append (List.cons_ne_nil _ _) found, ?_⟩
            exact wellFormed.isEntryName found name (by simp)
          have absent' : u.root.get? (above ++ [name]) = none := by
            apply Option.eq_none_iff_forall_not_mem.mpr
            intro node found
            have real' := Node.hasDir_of_get?_append (List.cons_ne_nil _ _) found
            refine reachable ⟨real'.of_map_shallow ih.symm, ?_⟩
            exact wellFormed'.isEntryName found name (by simp)
          rw [absent, absent']
  cases t
  cases u
  cases roots
  cases here
  rfl

end FileTree

end LintGate
