import LintGate.Proofs.FileTree.Linkless

/-!
# Where files lie below a root

The path of a file is taken from a root. The file lies where its names say below the directory to
which the root leads, unless its path strays: one of its steps goes up or leads to a link. So a file
that two roots share lies below both of them, and then the directories are the same or one of them
lies within the other.
-/

namespace LintGate

namespace FileTree

/-- A path from a root leads to a regular file. Links are followed. -/
def LeadsTo (t : FileTree) (root file : Path) (place : Location) : Prop :=
  ∃ node, t.resolve (root.join file) = .ok (.present place node) ∧ node.isFile = true

/-- On the way from a root to a file there is a step elsewhere, or a link. -/
def Strays (t : FileTree) (root file : Path) : Prop :=
  ∃ dir node, t.resolve root = .ok (.present dir node) ∧
    ((∃ c ∈ file.components, c = .root ∨ c = .up) ∨
      ∃ front target, front <+: file.components ∧
        t.root.get? (dir.descend front) = some (.link target))

/-- A root leads strictly below where another one leads. -/
def LiesWithin (t : FileTree) (inner outer : Path) : Prop :=
  ∃ dir node name names below, t.resolve outer = .ok (.present dir node) ∧
    t.resolve inner = .ok (.present (dir ++ name :: names) below)

variable {t : FileTree} {root root' file file' : Path} {name name' : String}
  {dir dir' place : Location} {node node' : Node}

/-- A root below which there is a file leads to a directory. -/
theorem exists_dir_of_leadsTo (here : t.root.HasDir t.here)
    (rooted : t.resolve root = .ok (.present dir node)) (relative : file.isAbsolute = false)
    (named : file.fileName? = some name) (leads : t.LeadsTo root file place) :
    ∃ entries listable, node = .dir entries listable ∧
      t.root.get? dir = some (.dir entries listable) := by
  obtain ⟨_, found, -⟩ := leads
  have some_file : file ≠ "" := by
    rintro rfl
    cases named
  have some_root : root ≠ "" := by
    rintro rfl
    cases rooted
  have some_steps : steps file ≠ [] := by
    obtain ⟨front, back, segments, -⟩ := Path.exists_segments_eq_of_fileName? named
    simp [Path.steps_eq, segments]
  have some_path : root.join file ≠ "" := by
    rintro empty
    rw [empty] at found
    cases found
  rw [resolve, resolveWith_eq some_path, Path.isAbsolute_join relative some_root,
    Path.steps_join relative some_root some_file] at found
  obtain ⟨left, above, enters, -⟩ := exists_enters_of_follow_append some_steps found
  -- A slash at the end of the root is a step that leads nowhere else.
  have whole : Enters t.root maxLinks (if root.isAbsolute then [] else t.here) (steps root) left
      above := by
    rw [Path.steps_eq]
    apply enters.append
    split
    · exact .stays (.arrived _ _)
    · exact .arrived _ _
  rw [resolve, resolveWith_eq some_root, whole.follow_eq] at rooted
  have start : t.root.HasDir (if root.isAbsolute then [] else t.here) := by
    split
    · exact here.of_prefix List.nil_prefix
    · exact here
  obtain ⟨entries, listable, real⟩ := enters.hasDir start
  rw [real] at rooted
  cases rooted
  exact ⟨entries, listable, rfl, real⟩

theorem isAbsolute_of_not_strays (rooted : t.resolve root = .ok (.present dir node))
    (straight : ¬ t.Strays root file) : file.isAbsolute = false := by
  rw [Bool.eq_false_iff]
  intro absolute
  refine straight ⟨dir, node, rooted, .inl ⟨.root, ?_, .inl rfl⟩⟩
  rw [Path.components_eq, Path.opening_of_absolute absolute]
  exact List.mem_cons_self

/-- A file whose path does not stray lies where its components lead. -/
theorem eq_descend_of_leadsTo (here : t.root.HasDir t.here)
    (rooted : t.resolve root = .ok (.present dir node)) (named : file.fileName? = some name)
    (straight : ¬ t.Strays root file) (leads : t.LeadsTo root file place) :
    place = dir.descend file.components := by
  have relative := isAbsolute_of_not_strays rooted straight
  obtain ⟨entries, listable, rfl, real⟩ := exists_dir_of_leadsTo here rooted relative named leads
  obtain ⟨left, opens⟩ := exists_opensAt rooted
  obtain ⟨leaf, found, isFile⟩ := leads
  have noLink (front : List Path.Component) (target : Path) (begins : front <+: file.components) :
      t.root.get? (dir.descend front) ≠ some (.link target) := fun link =>
    straight ⟨dir, _, rooted, .inr ⟨front, target, begins, link⟩⟩
  have last_step := opens.follow_last ⟨_, _, real⟩ relative named
    (fun front target begins => noLink front target (begins.trans (List.dropLast_prefix _))) found
    (Node.isDir_eq_false_of_isFile isFile)
  obtain ⟨above, shape⟩ := Path.fileName?_eq_some_iff.mp named
  rw [shape, Location.descend_concat]
  rw [shape, List.dropLast_concat] at last_step
  apply location_eq_of_follow_name (Path.isName_of_fileName? named) _ last_step
  intro _ target
  have whole := noLink _ target (List.prefix_refl _)
  rwa [shape, Location.descend_concat] at whole

theorem prefix_of_leadsTo (here : t.root.HasDir t.here)
    (rooted : t.resolve root = .ok (.present dir node)) (named : file.fileName? = some name)
    (straight : ¬ t.Strays root file) (leads : t.LeadsTo root file place) : dir <+: place := by
  rw [eq_descend_of_leadsTo here rooted named straight leads]
  apply Location.prefix_descend
  intro c member
  rw [← not_or]
  exact fun elsewhere => straight ⟨dir, node, rooted, .inl ⟨c, member, elsewhere⟩⟩

theorem liesWithin_of_begins (outer : t.resolve root = .ok (.present dir node))
    (inner : t.resolve root' = .ok (.present dir' node')) (begins : dir <+: dir')
    (differs : dir ≠ dir') : t.LiesWithin root' root := by
  obtain ⟨names, rfl⟩ := begins
  cases names with
  | nil => exact absurd (List.append_nil dir).symm differs
  | cons name names => exact ⟨dir, node, name, names, node', outer, inner⟩

/-- Of two different roots with a common file, one lies within the other, or the path of the file
strays from one of them. -/
theorem liesWithin_or_strays (here : t.root.HasDir t.here)
    (rooted : t.resolve root = .ok (.present dir node))
    (rooted' : t.resolve root' = .ok (.present dir' node')) (differs : dir ≠ dir')
    (named : file.fileName? = some name) (named' : file'.fileName? = some name')
    (leads : t.LeadsTo root file place) (leads' : t.LeadsTo root' file' place) :
    t.LiesWithin root root' ∨ t.LiesWithin root' root ∨ t.Strays root file ∨
      t.Strays root' file' := by
  by_cases strays : t.Strays root file
  · exact .inr (.inr (.inl strays))
  by_cases strays' : t.Strays root' file'
  · exact .inr (.inr (.inr strays'))
  have above := prefix_of_leadsTo here rooted named strays leads
  have above' := prefix_of_leadsTo here rooted' named' strays' leads'
  rcases List.prefix_or_prefix_of_prefix above above' with outer | inner
  · exact .inr (.inl (liesWithin_of_begins rooted rooted' outer differs))
  · exact .inl (liesWithin_of_begins rooted' rooted inner (Ne.symm differs))

end FileTree

end LintGate
