import LintGate.Proofs.FileTree.View

/-!
# Files that are rewritten

A file is rewritten at the place that a path denotes. No path then denotes another place than
before. So a rewriting that changes no contents a second time can be done to any files, in any
order, and after that it changes none of them.
-/

namespace LintGate

open Text (Bytes)

namespace Node

/-- A node without what it contains. -/
def outline : Node → Node
  | .dir _ listable => .dir [] listable
  | .file _ mode => .file [] mode
  | other => other

theorem exists_file_of_outline {node : Node} {contents : Bytes} {mode : Nat}
    (same : node.outline = (Node.file contents mode).outline) :
    ∃ others, node = .file others mode := by
  cases node with
  | file others => cases same; exact ⟨others, rfl⟩
  | dir | link | program | device => cases same

theorem exists_dir_of_outline {node : Node} {entries : List (String × Node)} {listable : Bool}
    (same : node.outline = (Node.dir entries listable).outline) :
    ∃ others, node = .dir others listable := by
  cases node with
  | dir others _ =>
      cases same
      exact ⟨others, rfl⟩
  | file | link | program | device => cases same

theorem eq_link_of_outline {node : Node} {target : Path}
    (same : node.outline = (Node.link target).outline) : node = .link target := by
  cases node with
  | link other =>
      cases same
      rfl
  | file | dir | program | device => cases same

theorem endsAt_outline (followLast : Bool) (node : Node) :
    node.outline.endsAt followLast = node.endsAt followLast := by
  cases node <;> rfl

/-! ## A new node in the place of an old one -/

variable {name other : String} {entries : List (String × Node)} {listable : Bool} {node : Node}

theorem child?_putEntry_self : child? name (putEntry name (some node) entries) = some node := by
  induction entries with
  | nil => simp [putEntry, child?]
  | cons entry entries ih =>
      obtain ⟨first, old⟩ := entry
      rw [putEntry]
      split
      · simp [child?]
      · split
        · simp [child?]
        case isFalse differs _ => rw [child?, if_neg differs, ih]

theorem child?_putEntry_of_ne (differs : name ≠ other) :
    child? other (putEntry name (some node) entries) = child? other entries := by
  induction entries with
  | nil => simp [putEntry, child?, differs]
  | cons entry entries ih =>
      obtain ⟨first, old⟩ := entry
      rw [putEntry]
      split
      case isTrue here =>
        subst here
        simp [child?, differs]
      · split
        · simp [child?, differs]
        · rw [child?, ih, child?]

theorem map_fst_putEntry (found : child? name entries ≠ none)
    (sorted : (entries.map (·.1)).Pairwise (Text.rawBefore · ·)) :
    (putEntry name (some node) entries).map (·.1) = entries.map (·.1) := by
  induction entries with
  | nil => exact absurd rfl found
  | cons entry entries ih =>
      obtain ⟨first, old⟩ := entry
      rw [List.map_cons, List.pairwise_cons] at sorted
      rw [putEntry]
      split
      case isTrue here => simp [here]
      case isFalse differs =>
        rw [child?, if_neg differs] at found
        split
        case isTrue before =>
          -- What is found stands behind all smaller names.
          refine absurd (child?_eq_none fun other member => ?_) found
          exact Text.rawBefore_trans before (sorted.1 other member)
        · rw [List.map_cons, List.map_cons, ih found sorted.2]

theorem mem_putEntry {entry : String × Node} (member : entry ∈ putEntry name (some node) entries) :
    entry = (name, node) ∨ entry ∈ entries := by
  induction entries with
  | nil =>
      rw [putEntry] at member
      simpa using member
  | cons first entries ih =>
      obtain ⟨first, old⟩ := first
      rw [putEntry] at member
      split at member
      · simp only [Option.map_some, Option.getD_some, List.mem_cons] at member ⊢
        tauto
      · split at member
        · simp only [Option.map_some, Option.getD_some, List.mem_cons] at member ⊢
          tauto
        · rcases List.mem_cons.mp member with here | later
          · exact .inr (here ▸ List.mem_cons_self)
          · exact (ih later).imp_right (List.mem_cons_of_mem _)

def withFile (root : Node) (l : Location) (contents : Bytes) (mode : Nat) : Node :=
  (update (fun _ => some (.file contents mode)) l (some root)).getD .empty

theorem withFile_nil (root : Node) (contents : Bytes) (mode : Nat) :
    root.withFile [] contents mode = .file contents mode := rfl

theorem withFile_cons {child : Node} {l : Location} (contents : Bytes) (mode : Nat)
    (found : child? name entries = some child) (below : child.get? l ≠ none) :
    (Node.dir entries listable).withFile (name :: l) contents mode =
      .dir (putEntry name (some (child.withFile l contents mode)) entries) listable := by
  have isSome :
      (update (fun _ => some (Node.file contents mode)) l (some child)).isSome = true := by
    cases l with
    | nil => rfl
    | cons step l =>
        cases child with
        | dir => rfl
        | file | link | program | device => exact absurd rfl below
  obtain ⟨updated, same⟩ := Option.isSome_iff_exists.mp isSome
  rw [withFile, withFile, update, found, same]
  rfl

variable {root : Node} {l : Location} {old contents : Bytes} {mode : Nat}

theorem get?_withFile (found : root.get? l ≠ none) :
    (root.withFile l contents mode).get? l = some (.file contents mode) := by
  induction l generalizing root with
  | nil => rw [withFile_nil, get?_nil]
  | cons name l ih =>
      cases root with
      | dir entries _ =>
          cases inside : child? name entries with
          | none => simp [Node.get?, inside] at found
          | some child =>
              rw [Node.get?, inside, Option.bind_some] at found
              rw [withFile_cons contents mode inside found, Node.get?, child?_putEntry_self,
                Option.bind_some, ih found]
      | file | link | program | device => exact absurd rfl found

/-- Nothing else is put in the place of a file. -/
theorem shallow_get?_withFile (contents : Bytes) (found : root.get? l = some (.file old mode))
    {place : Location} (differs : place ≠ l) :
    ((root.withFile l contents mode).get? place).map shallow = (root.get? place).map shallow := by
  induction l generalizing root place with
  | nil =>
      rw [get?_nil] at found
      cases found
      obtain ⟨name, below, rfl⟩ := List.exists_cons_of_ne_nil differs
      rfl
  | cons name l ih =>
      cases root with
      | dir entries _ =>
          rw [Node.get?, Option.bind_eq_some_iff] at found
          obtain ⟨child, inside, found⟩ := found
          rw [withFile_cons contents mode inside (by simp [found])]
          cases place with
          | nil => rfl
          | cons step place =>
              rw [Node.get?, Node.get?]
              by_cases same : name = step
              · subst same
                rw [child?_putEntry_self, inside]
                exact ih found fun same => differs (congrArg (name :: ·) same)
              · rw [child?_putEntry_of_ne same]
      | file | link | program | device => cases found

theorem outline_shallow (node : Node) : node.shallow.outline = node.outline := by
  cases node <;> rfl

theorem outline_get?_withFile (found : root.get? l = some (.file old mode)) (place : Location) :
    ((root.withFile l contents mode).get? place).map outline = (root.get? place).map outline := by
  by_cases here : place = l
  · subst here
    rw [get?_withFile (by simp [found]), found]
    rfl
  · have same := congrArg (Option.map outline) (shallow_get?_withFile contents found here)
    simpa only [Option.map_map, Function.comp_def, outline_shallow] using same

theorem WellFormed.withFile (wellFormed : root.WellFormed)
    (found : root.get? l = some (.file old mode)) : (root.withFile l contents mode).WellFormed := by
  induction l generalizing root with
  | nil => exact .file _ _
  | cons name l ih =>
      cases wellFormed with
      | dir sorted names below =>
          rw [Node.get?, Option.bind_eq_some_iff] at found
          obtain ⟨child, inside, found⟩ := found
          have member := mem_of_child? inside
          rw [withFile_cons contents mode inside (by simp [found])]
          refine .dir ?_ ?_ ?_
          · rwa [map_fst_putEntry (by simp [inside]) sorted]
          · intro entry member'
            rcases mem_putEntry member' with rfl | among
            · exact names (name, child) member
            · exact names _ among
          · intro entry member'
            rcases mem_putEntry member' with rfl | among
            · exact ih (below _ member) found
            · exact below _ among
      | file | link | program | device => cases found

theorem WellFormed.withFile_eq (wellFormed : root.WellFormed)
    (found : root.get? l = some (.file contents mode)) : root.withFile l contents mode = root := by
  apply (wellFormed.withFile found).eq_of_get?_shallow wellFormed
  intro place
  by_cases here : place = l
  · subst here
    rw [get?_withFile (by simp [found]), found]
  · exact shallow_get?_withFile contents found here

end Node

/-! ## The ways through a tree -/

namespace Node

/-- Each entry of a tree is in another one too, with the same outline. Where the tree has no entry
the other one may have a file. -/
def Keeps (root root' : Node) : Prop :=
  ∀ l, (root'.get? l).map outline = (root.get? l).map outline ∨
    (root.get? l = none ∧ ∃ contents mode, root'.get? l = some (.file contents mode))

theorem Keeps.exists_outline {root root' node : Node} {l : Location} (keeps : root.Keeps root')
    (entry : root.get? l = some node) :
    ∃ node', root'.get? l = some node' ∧ node'.outline = node.outline := by
  rcases keeps l with same | ⟨absent, -⟩
  · rwa [entry, Option.map_some, Option.map_eq_some_iff] at same
  · cases absent.symm.trans entry

end Node

namespace FileTree

variable {followLast : Bool} {root root' : Node}

/-- A place is where it was, and what was there is still there. -/
def Place.Remains (before now : Place) : Prop :=
  now.location = before.location ∧ (before.node?.isSome = true → now.node?.isSome = true)

/-- Steps lead to the places to which they led, and by the same ways. -/
theorem Follows.exists_remains (keeps : root.Keeps root') {links : Nat} {dir : Location}
    {ss : List String} {place : Place} (follows : Follows root followLast links dir ss place) :
    ∃ now, Follows root' followLast links dir ss now ∧ place.Remains now := by
  induction follows with
  | arrived links dir => exact ⟨_, .arrived links dir, rfl, fun _ => rfl⟩
  | stays _ ih =>
      obtain ⟨now, onward, remains⟩ := ih
      exact ⟨now, .stays onward, remains⟩
  | up _ ih =>
      obtain ⟨now, onward, remains⟩ := ih
      exact ⟨now, .up onward, remains⟩
  | down here up short entry _ ih =>
      obtain ⟨node, entry', same⟩ := keeps.exists_outline entry
      obtain ⟨others, rfl⟩ := Node.exists_dir_of_outline same
      obtain ⟨now, onward, remains⟩ := ih
      exact ⟨now, .down here up short entry' onward, remains⟩
  | linked here up short entry goesOn some_target _ ih =>
      obtain ⟨node, entry', same⟩ := keeps.exists_outline entry
      obtain rfl := Node.eq_link_of_outline same
      obtain ⟨now, onward, remains⟩ := ih
      exact ⟨now, .linked here up short entry' goesOn some_target onward, remains⟩
  | ended here up short entry ends =>
      obtain ⟨node, entry', same⟩ := keeps.exists_outline entry
      have ends' : node.endsAt followLast = true := by
        rwa [← Node.endsAt_outline, same, Node.endsAt_outline]
      exact ⟨_, .ended here up short entry' ends', rfl, fun _ => rfl⟩
  | @absent links dir step here up short entry =>
      -- Where nothing was, a file may be now.
      rcases keeps (dir ++ [step]) with same | ⟨-, contents, mode, added⟩
      · rw [entry, Option.map_none, Option.map_eq_none_iff] at same
        exact ⟨_, .absent here up short same, rfl, id⟩
      · exact ⟨_, .ended here up short added rfl, rfl, fun _ => rfl⟩

variable {t u : FileTree} {p q : Path} {l : Location} {old contents : Bytes} {mode : Nat}

section Kept

variable (keeps : t.root.Keeps u.root) (same : u.here = t.here)

include keeps same

theorem exists_remains_of_resolve {place : Place} (found : t.resolve p = .ok place) :
    ∃ now, u.resolve p = .ok now ∧ place.Remains now := by
  rw [resolve, resolveWith] at found ⊢
  split at found
  case isTrue => cases found
  case isFalse some_path =>
    rw [if_neg some_path, same]
    obtain ⟨now, follows, remains⟩ := (follow_eq_ok_iff.mp found).exists_remains keeps
    exact ⟨now, follows.follow_eq, remains⟩

theorem exists_present_of_resolve {node : Node} (found : t.resolve p = .ok (.present l node)) :
    ∃ node', u.resolve p = .ok (.present l node') := by
  obtain ⟨now, found', located, remains⟩ := exists_remains_of_resolve keeps same found
  cases now with
  | present place node' =>
      cases located
      exact ⟨node', found'⟩
  | absent dir name => cases remains rfl

theorem exists?_of_kept (denotes : t.exists? p = true) : u.exists? p = true := by
  rw [exists?, stat?, stat] at denotes ⊢
  cases found : t.resolve p with
  | error e =>
      rw [found] at denotes
      cases denotes
  | ok place =>
      rw [found] at denotes
      cases place with
      | absent => cases denotes
      | present l node =>
          obtain ⟨node', found'⟩ := exists_present_of_resolve keeps same found
          rw [found']
          rfl

/-- What there is has the canonical path that it had. -/
theorem canonical?_of_kept {path : Path} (found : t.canonical? p = some path) :
    u.canonical? p = some path := by
  rw [canonical?] at found
  split at found
  case h_1 place node there =>
    obtain ⟨node', there'⟩ := exists_present_of_resolve keeps same there
    rw [canonical?, there']
    exact found
  case h_2 => cases found

end Kept

theorem get?_of_resolve_file (found : t.resolve p = .ok (.present l (.file contents mode))) :
    t.root.get? l = some (.file contents mode) := by
  have contents := getD_get?_of_resolve found
  cases there : t.root.get? l with
  | none =>
      rw [there] at contents
      cases contents
  | some node =>
      rw [there] at contents
      exact congrArg some contents

def withFile (t : FileTree) (l : Location) (contents : Bytes) (mode : Nat) : FileTree :=
  t.setAt l (some (.file contents mode))

theorem keeps_withFile (contents : Bytes) (found : t.root.get? l = some (.file old mode)) :
    t.root.Keeps (t.withFile l contents mode).root := fun place =>
  .inl (Node.outline_get?_withFile found place)

theorem withFile_keeps (contents : Bytes) (found : t.root.get? l = some (.file old mode)) :
    (t.withFile l contents mode).root.Keeps t.root := fun place =>
  .inl (Node.outline_get?_withFile found place).symm

/-- A path denotes the file it denoted before, with the contents that were given to it if it is the
one that was changed. -/
theorem resolve_of_withFile (found : t.root.get? l = some (.file old mode)) {place : Location}
    {now : Bytes} {bits : Nat}
    (denotes : (t.withFile l contents mode).resolve q = .ok (.present place (.file now bits))) :
    ∃ before, t.resolve q = .ok (.present place (.file before bits)) ∧
      ((place = l ∧ now = contents) ∨ (place ≠ l ∧ now = before)) := by
  have there : (t.root.withFile l contents mode).get? place = some (.file now bits) :=
    get?_of_resolve_file denotes
  have keeps := withFile_keeps contents found
  obtain ⟨node, denoted⟩ := exists_present_of_resolve keeps rfl denotes
  obtain ⟨node', there', same⟩ := keeps.exists_outline there
  obtain ⟨before, rfl⟩ := Node.exists_file_of_outline same
  have contents_before := getD_get?_of_resolve denoted
  rw [there', Option.getD_some] at contents_before
  subst contents_before
  refine ⟨before, denoted, ?_⟩
  by_cases here : place = l
  · subst here
    have written : (t.root.withFile place contents mode).get? place = some (.file contents mode) :=
      Node.get?_withFile (by simp [found])
    cases there.symm.trans written
    exact .inl ⟨rfl, rfl⟩
  · have kept := Node.shallow_get?_withFile contents found here
    rw [there, there'] at kept
    cases kept
    exact .inr ⟨here, rfl⟩

/-! ## Rewriting -/

/-- What becomes of the contents of the file at each location. -/
abbrev Rewriting := Location → Bytes → Bytes

/-- Rewrites the file that a path denotes, if it denotes one. -/
def rewrite (f : Rewriting) (t : FileTree) (p : Path) : FileTree :=
  match t.resolve p with
  | .ok (.present l (.file contents mode)) => t.withFile l (f l contents) mode
  | _ => t

/-- The contents of the file that a path denotes stay the same. -/
def Settled (f : Rewriting) (t : FileTree) (p : Path) : Prop :=
  ∀ l contents mode, t.resolve p = .ok (.present l (.file contents mode)) →
    f l contents = contents

variable {f : Rewriting}

theorem rewrite_cases (f : Rewriting) (t : FileTree) (p : Path) :
    (t.rewrite f p = t ∧ ∀ l contents mode, t.resolve p ≠ .ok (.present l (.file contents mode))) ∨
      ∃ l contents mode, t.resolve p = .ok (.present l (.file contents mode)) ∧
        t.rewrite f p = t.withFile l (f l contents) mode := by
  rw [rewrite]
  split
  case h_1 l contents mode found => exact .inr ⟨l, contents, mode, found, rfl⟩
  case h_2 other => exact .inl ⟨rfl, other⟩

theorem rewrite_eq_self (wellFormed : t.root.WellFormed) (settled : t.Settled f p) :
    t.rewrite f p = t := by
  rcases rewrite_cases f t p with ⟨same, -⟩ | ⟨l, contents, mode, found, same⟩
  · exact same
  · have root : t.root.withFile l contents mode = t.root :=
      wellFormed.withFile_eq (get?_of_resolve_file found)
    rw [same, settled l contents mode found]
    exact congrArg (fun root => ({ t with root } : FileTree)) root

theorem settled_of_rewrite_eq (same : t.rewrite f p = t) : t.Settled f p := by
  intro l contents mode found
  have there := get?_of_resolve_file found
  have written : (t.rewrite f p).root.get? l = some (.file (f l contents) mode) := by
    rw [rewrite, found]
    exact Node.get?_withFile (by simp [there])
  rw [same, there] at written
  injection written with written
  injection written with still
  exact still.symm

theorem exists?_rewrite (q : Path) : (t.rewrite f p).exists? q = t.exists? q := by
  rcases rewrite_cases f t p with ⟨same, -⟩ | ⟨l, contents, mode, found, same⟩
  · rw [same]
  · have there := get?_of_resolve_file found
    rw [same, Bool.eq_iff_iff]
    exact ⟨exists?_of_kept (withFile_keeps _ there) rfl,
      exists?_of_kept (keeps_withFile _ there) rfl⟩

theorem wellFormed_rewrite (wellFormed : t.root.WellFormed) : (t.rewrite f p).root.WellFormed := by
  rcases rewrite_cases f t p with ⟨same, -⟩ | ⟨l, contents, mode, found, same⟩
  · rwa [same]
  · rw [same]
    exact wellFormed.withFile (get?_of_resolve_file found)

/-- To rewrite a file unsettles no other. -/
theorem Settled.rewrite (settled : t.Settled f q) (p : Path) : (t.rewrite f p).Settled f q := by
  intro place now bits denotes
  rcases rewrite_cases f t p with ⟨same, -⟩ | ⟨l, contents, mode, found, same⟩
  · rw [same] at denotes
    exact settled place now bits denotes
  · rw [same] at denotes
    have there := get?_of_resolve_file found
    obtain ⟨before, denoted, ⟨rfl, rfl⟩ | ⟨-, rfl⟩⟩ := resolve_of_withFile there denotes
    · -- Both paths denote the same file, which the rewriting leaves as it is.
      cases there.symm.trans (get?_of_resolve_file denoted)
      have still := settled place _ _ denoted
      rw [still, still]
    · exact settled place now bits denoted

theorem settled_rewrite (idempotent : ∀ l contents, f l (f l contents) = f l contents) :
    (t.rewrite f p).Settled f p := by
  intro place now bits denotes
  rcases rewrite_cases f t p with ⟨same, other⟩ | ⟨l, contents, mode, found, same⟩
  · rw [same] at denotes
    exact absurd denotes (other place now bits)
  · rw [same] at denotes
    obtain ⟨before, denoted, ⟨rfl, rfl⟩ | ⟨elsewhere, -⟩⟩ :=
      resolve_of_withFile (get?_of_resolve_file found) denotes
    · exact idempotent place contents
    · cases found.symm.trans denoted
      exact absurd rfl elsewhere

def rewriteAll (f : Rewriting) (t : FileTree) (ps : List Path) : FileTree :=
  ps.foldl (rewrite f) t

theorem rewriteAll_append (f : Rewriting) (t : FileTree) (front back : List Path) :
    t.rewriteAll f (front ++ back) = (t.rewriteAll f front).rewriteAll f back :=
  List.foldl_append

theorem wellFormed_rewriteAll (wellFormed : t.root.WellFormed) (ps : List Path) :
    (t.rewriteAll f ps).root.WellFormed := by
  induction ps generalizing t with
  | nil => exact wellFormed
  | cons p ps ih => exact ih (wellFormed_rewrite wellFormed)

theorem Settled.rewriteAll (settled : t.Settled f q) (ps : List Path) :
    (t.rewriteAll f ps).Settled f q := by
  induction ps generalizing t with
  | nil => exact settled
  | cons p ps ih => exact ih (settled.rewrite p)

theorem settled_rewriteAll (idempotent : ∀ l contents, f l (f l contents) = f l contents)
    {ps : List Path} (member : p ∈ ps) : (t.rewriteAll f ps).Settled f p := by
  induction ps generalizing t with
  | nil => cases member
  | cons first ps ih =>
      rcases List.mem_cons.mp member with rfl | later
      · exact (settled_rewrite idempotent).rewriteAll ps
      · exact ih later

theorem rewriteAll_eq_self (wellFormed : t.root.WellFormed) {ps : List Path}
    (settled : ∀ p ∈ ps, t.Settled f p) : t.rewriteAll f ps = t := by
  induction ps with
  | nil => rfl
  | cons p ps ih =>
      rw [List.forall_mem_cons] at settled
      have first := rewrite_eq_self wellFormed settled.1
      rw [FileTree.rewriteAll, List.foldl_cons, first]
      exact ih settled.2

theorem rewriteAll_rewriteAll (wellFormed : t.root.WellFormed)
    (idempotent : ∀ l contents, f l (f l contents) = f l contents) (ps : List Path) :
    (t.rewriteAll f ps).rewriteAll f ps = t.rewriteAll f ps :=
  rewriteAll_eq_self (wellFormed_rewriteAll wellFormed ps) fun _ member =>
    settled_rewriteAll idempotent member

end FileTree

end LintGate
