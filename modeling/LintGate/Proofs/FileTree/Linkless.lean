import LintGate.Proofs.FileTree.Descent
import LintGate.Proofs.Path.Parents

/-!
# Paths without links

A path leads where its components lead as long as none of them is a link and steps up are taken from
directories only. What lies in the directory to which it leads is then found by its names from the
root, whether or not it is there.
-/

namespace LintGate

/-- Where the components of an absolute path lead when none of them is a link. -/
def Path.location (p : Path) : Location :=
  Location.descend [] p.components

namespace FileTree

variable {root : Node} {followLast : Bool}

/-! ## Dots within a list of steps -/

section Dots

variable {back : List String} (nonempty : back ≠ [])

include nonempty

private theorem followLink_append_here {links : Nat}
    (linked : ∀ dir front, followLink root followLast links dir (front ++ "." :: back) =
      followLink root followLast links dir (front ++ back))
    (dir : Location) (front : List String) :
    follow root followLast links dir (front ++ "." :: back) =
      follow root followLast links dir (front ++ back) := by
  induction front generalizing dir with
  | nil => exact follow_here links dir back
  | cons step front ih =>
      have not_last : (front ++ "." :: back).isEmpty = false := by simp
      have not_last' : (front ++ back).isEmpty = false := by simp [nonempty]
      rw [List.cons_append, List.cons_append]
      by_cases here : step = "."
      · subst here
        rw [follow_here, follow_here, ih]
      by_cases up : step = ".."
      · subst up
        rw [follow_up, follow_up, ih]
      rcases Nat.lt_or_ge maxNameBytes (Text.rawBytes step).length with long | short
      · rw [follow_long here up long, follow_long here up long]
      rw [follow_name here up short, follow_name here up short, not_last, not_last']
      cases root.get? (dir ++ [step]) with
      | none => rfl
      | some node =>
          cases node with
          | dir => exact ih _
          | link target =>
              dsimp only
              rw [← List.append_assoc, ← List.append_assoc, linked]
          | file | program | device => rfl

/-- A dot among the steps changes nothing, unless it stands at their end. -/
theorem follow_append_here (links : Nat) (dir : Location) (front : List String) :
    follow root followLast links dir (front ++ "." :: back) =
      follow root followLast links dir (front ++ back) := by
  induction links generalizing dir front with
  | zero => exact followLink_append_here nonempty (fun _ _ => rfl) dir front
  | succ links ih =>
      have linked : ∀ dir front,
          followLink root followLast (links + 1) dir (front ++ "." :: back) =
            followLink root followLast (links + 1) dir (front ++ back) := ih
      exact followLink_append_here nonempty linked dir front

end Dots

theorem Enters.follow_eq {links left : Nat} {dir last : Location} {ss : List String}
    (enters : Enters root links dir ss left last) :
    follow root true links dir ss = .ok (.present last ((root.get? last).getD .empty)) := by
  induction enters with
  | arrived => exact follow_nil _ _
  | stays _ ih => rw [follow_here, ih]
  | up _ ih => rw [follow_up, ih]
  | down here up short entry _ ih => rw [follow_name here up short, entry, ih]
  | @linked _ _ _ _ _ _ target here up short entry some_target _ ih =>
      have not_empty : target.isEmpty = false := by simpa using some_target
      rw [follow_name here up short, entry]
      simp only [not_empty, Bool.not_true, Bool.and_false, Bool.false_eq_true, if_false]
      exact ih

theorem Enters.dots_append {links left : Nat} {dir last : Location} {dots ss : List String}
    (all_dots : ∀ dot ∈ dots, dot = ".") (enters : Enters root links dir ss left last) :
    Enters root links dir (dots ++ ss) left last := by
  induction dots with
  | nil => exact enters
  | cons dot dots ih =>
      rw [List.forall_mem_cons] at all_dots
      rw [all_dots.1]
      exact .stays (ih all_dots.2)

/-- Where steps lead depends on their components only. -/
theorem Enters.of_components_eq {links left : Nat} {dir last : Location} {ss ss' : List String}
    (enters : Enters root links dir ss left last)
    (same : ss'.filterMap Path.Component.ofSegment? = ss.filterMap Path.Component.ofSegment?) :
    Enters root links dir ss' left last := by
  induction enters generalizing ss' with
  | arrived =>
      rw [← List.append_nil ss']
      exact .dots_append (Path.filterMap_ofSegment?_eq_nil_iff.mp same) (.arrived _ _)
  | stays _ ih => exact ih same
  | up _ ih =>
      obtain ⟨dots, more, rfl, all_dots, later⟩ :=
        Path.exists_dots_of_filterMap_eq (by decide) same
      exact .dots_append all_dots (.up (ih later))
  | down here up short entry _ ih =>
      obtain ⟨dots, more, rfl, all_dots, later⟩ := Path.exists_dots_of_filterMap_eq here same
      exact .dots_append all_dots (.down here up short entry (ih later))
  | linked here up short entry some_target _ ih =>
      obtain ⟨dots, more, rfl, all_dots, later⟩ := Path.exists_dots_of_filterMap_eq here same
      refine .dots_append all_dots (.linked here up short entry some_target (ih ?_))
      rw [List.filterMap_append, List.filterMap_append, later]

theorem enters_of_dir {l : Location} (wellFormed : root.WellFormed) (links : Nat)
    (real : root.HasDir l) : Enters root links [] l links l := by
  obtain ⟨entries, listable, found⟩ := real
  exact enters_of_location links (wellFormed.isEntryName found) found

/-! ## Paths -/

/-- No component of a path is a link. What is missing is no link either. -/
def Unlinked (t : FileTree) (cs : List Path.Component) : Prop :=
  ∀ front target, front <+: cs → t.root.get? (Location.descend [] front) ≠ some (.link target)

theorem Unlinked.of_prefix {t : FileTree} {front cs : List Path.Component}
    (noLink : t.Unlinked cs) (begins : front <+: cs) : t.Unlinked front :=
  fun _ target earlier => noLink _ target (earlier.trans begins)

theorem Unlinked.of_root {t : FileTree} {cs : List Path.Component}
    (noLink : t.Unlinked (.root :: cs)) : t.Unlinked cs := by
  intro front target begins
  exact noLink (.root :: front) target ((List.prefix_cons_inj _).mpr begins)

/-- No component of a path is a link, and steps up are taken from directories only. -/
structure Linkless (t : FileTree) (cs : List Path.Component) : Prop where
  noLink : t.Unlinked cs
  upFromDir : ∀ front, front ++ [.up] <+: cs →
    t.root.HasDir (Location.descend [] front)

namespace Linkless

variable {t : FileTree} {p : Path}

theorem of_prefix {front cs : List Path.Component} (linkless : t.Linkless cs)
    (begins : front <+: cs) : t.Linkless front where
  noLink := linkless.noLink.of_prefix begins
  upFromDir := fun _ earlier => linkless.upFromDir _ (earlier.trans begins)

theorem of_root {cs : List Path.Component} (linkless : t.Linkless (.root :: cs)) :
    t.Linkless cs where
  noLink := linkless.noLink.of_root
  upFromDir := by
    intro front begins
    have longer : (.root :: front) ++ [.up] <+: .root :: cs := (List.prefix_cons_inj _).mpr begins
    exact linkless.upFromDir (.root :: front) longer

/-- Steps from the root lead on from where their components lead. -/
theorem follow_eq (wellFormed : t.root.WellFormed) {ss back : List String}
    (linkless : t.Linkless (ss.filterMap Path.Component.ofSegment?)) (nonempty : back ≠ [])
    (links : Nat) :
    follow t.root followLast links [] (ss ++ back) =
      follow t.root followLast links []
        (Location.descend [] (ss.filterMap Path.Component.ofSegment?) ++ back) := by
  -- From the back, since a step up takes away what the steps before it have led to.
  induction ss using List.reverseRecOn generalizing back with
  | nil => rfl
  | append_singleton ss step ih =>
      rw [List.append_assoc, List.singleton_append]
      rw [List.filterMap_append] at linkless ⊢
      have earlier := linkless.of_prefix (List.prefix_append _ _)
      rw [ih earlier (List.cons_ne_nil _ _)]
      by_cases here : step = "."
      · subst here
        rw [follow_append_here nonempty]
        exact congrArg (fun l => follow t.root followLast links [] (l ++ back))
          (congrArg (Location.descend []) (List.append_nil _).symm)
      by_cases up : step = ".."
      · subst up
        have real := linkless.upFromDir _ (List.prefix_refl _)
        have above := real.of_prefix (List.dropLast_prefix _)
        have leads : Location.descend [] (ss.filterMap Path.Component.ofSegment? ++
            [".."].filterMap Path.Component.ofSegment?) =
              (Location.descend [] (ss.filterMap Path.Component.ofSegment?)).dropLast :=
          Location.descend_concat _ _ .up
        rw [leads, (enters_of_dir wellFormed links real).follow_append (List.cons_ne_nil _ _),
          follow_up, (enters_of_dir wellFormed links above).follow_append nonempty]
      · have named : [step].filterMap Path.Component.ofSegment? = [.name step] := by
          rw [List.filterMap_cons_some (Path.Component.ofSegment?_eq_name_iff.mpr ⟨rfl, here, up⟩)]
          rfl
        rw [named, Location.descend_concat, Location.toward, List.append_assoc]
        rfl

end Linkless

theorem exists_resolve_of_isDir {t : FileTree} {p : Path} (isDir : t.isDir p = true) :
    ∃ l entries listable, t.resolve p = .ok (.present l (.dir entries listable)) := by
  simp only [FileTree.isDir, stat?, stat] at isDir
  split at isDir
  case h_1 => cases isDir
  case h_2 l node found =>
    cases node with
    | dir entries listable => exact ⟨l, entries, listable, found⟩
    | file | link | program | device => cases isDir
  case h_3 => cases isDir

section Absolute

variable {t : FileTree} {p : Path} (absolute : p.isAbsolute = true)

include absolute

theorem resolve_of_isAbsolute : t.resolve p = follow t.root true maxLinks [] (steps p) := by
  rw [resolve, resolveWith_eq (Path.ne_empty_of_isAbsolute absolute), if_pos absolute]

theorem location_eq :
    p.location = Location.descend [] (p.segments.filterMap Path.Component.ofSegment?) := by
  rw [Path.location, Path.components_of_segments absolute]
  rfl

/-- When a path without links denotes a directory, so does each of its beginnings. -/
theorem hasDir_of_isDir (noLink : t.Unlinked p.components) (isDir : t.isDir p = true)
    {front : List Path.Component} (begins : front <+: p.components) :
    t.root.HasDir (Location.descend [] front) := by
  obtain ⟨last, entries, listable, found⟩ := exists_resolve_of_isDir isDir
  rw [resolve_of_isAbsolute absolute] at found
  obtain ⟨contents, left, whole⟩ := exists_enters_of_follow_dir found
  have rootDir : t.root.HasDir [] := by
    obtain ⟨node, there⟩ := whole.exists_node ⟨t.root, Node.get?_nil t.root⟩
    rw [there, Option.getD_some] at contents
    rw [contents] at there
    exact Node.HasDir.of_prefix ⟨_, _, there⟩ List.nil_prefix
  rw [Path.components_of_segments absolute] at noLink begins
  cases front with
  | nil => exact rootDir
  | cons first front =>
      rw [List.cons_prefix_cons] at begins
      obtain ⟨rfl, more, split⟩ := begins
      obtain ⟨early, late, segments, rfl, -⟩ := List.filterMap_eq_append_iff.mp split.symm
      -- The dot behind the steps makes the beginning one that is followed by something.
      have arrives : follow t.root true maxLinks [] (steps p ++ ["."]) =
          .ok (.present last ((t.root.get? last).getD .empty)) := by
        rw [whole.follow_append (List.cons_ne_nil _ _), follow_here, follow_nil]
      rw [Path.steps_eq, segments, List.append_assoc, List.append_assoc] at arrives
      obtain ⟨_, above, enters, -⟩ := exists_enters_of_follow_append (by simp) arrives
      have noLinkEarly : t.Unlinked (early.filterMap Path.Component.ofSegment?) :=
        noLink.of_root.of_prefix ⟨more, split⟩
      obtain ⟨-, same⟩ := enters.eq_descend noLinkEarly
      have real := enters.hasDir rootDir
      rw [same] at real
      exact real

/-- On the way to a directory without links, steps up are taken from directories. -/
theorem Linkless.of_isDir (noLink : t.Unlinked p.components) (isDir : t.isDir p = true) :
    t.Linkless p.components where
  noLink := noLink
  upFromDir := by
    intro front begins
    exact hasDir_of_isDir absolute noLink isDir ((List.prefix_append _ _).trans begins)

variable (wellFormed : t.root.WellFormed) (linkless : t.Linkless p.components)

include wellFormed linkless

theorem Linkless.follow_segments {back : List String} (nonempty : back ≠ []) (links : Nat) :
    follow t.root followLast links [] (p.segments ++ back) =
      follow t.root followLast links [] (p.location ++ back) := by
  rw [Path.components_of_segments absolute] at linkless
  rw [location_eq absolute]
  exact linkless.of_root.follow_eq wellFormed nonempty links

/-- What has a name in the directory to which a path leads is found there by its names from the
root. -/
theorem Linkless.resolve_join {name : String} (isName : Path.IsName name) :
    t.resolve (p.join name) = t.resolve (absolutePath (p.location ++ [name])) := by
  have names : ∀ other ∈ p.location ++ [name], Path.IsName other := by
    intro other member
    rcases List.mem_append.mp member with inside | last
    · apply Path.isName_of_name_mem_components
      exact Location.name_mem_of_descend_eq (List.nil_append p.location).symm other inside
    · rw [List.mem_singleton.mp last]
      exact isName
  have some_path := Path.ne_empty_of_isAbsolute absolute
  have joined : (p.join name).isAbsolute = true := by
    rw [Path.isAbsolute_join isName.isAbsolute_eq some_path, absolute]
  have located : (absolutePath (p.location ++ [name])).isAbsolute = true := by
    simp [absolutePath, Path.isAbsolute]
  rw [resolve_of_isAbsolute joined, resolve_of_isAbsolute located,
    Path.steps_join isName.isAbsolute_eq some_path isName.nonempty, isName.steps_eq,
    Path.steps_absolutePath (by simp) names]
  exact linkless.follow_segments absolute wellFormed (List.cons_ne_nil _ _) maxLinks

/-- A path whose components lead to a directory denotes this directory. -/
theorem Linkless.resolve_eq {entries : List (String × Node)} {listable : Bool}
    (real : t.root.get? p.location = some (.dir entries listable)) :
    t.resolve p = .ok (.present p.location (.dir entries listable)) := by
  have arrives : follow t.root true maxLinks [] (p.segments ++ ["."]) =
      .ok (.present p.location (.dir entries listable)) := by
    rw [linkless.follow_segments absolute wellFormed (List.cons_ne_nil _ _),
      (enters_of_dir wellFormed maxLinks ⟨_, _, real⟩).follow_append (List.cons_ne_nil _ _),
      follow_here,
      follow_nil, real]
    rfl
  rw [resolve_of_isAbsolute absolute, Path.steps_eq]
  split
  case isTrue => exact arrives
  case isFalse =>
    obtain ⟨left, above, enters, rest⟩ :=
      exists_enters_of_follow_append (List.cons_ne_nil _ _) arrives
    rw [follow_here] at rest
    obtain ⟨rfl, contents⟩ := eq_of_follow_nil rest
    rw [List.append_nil, enters.follow_eq, contents]

theorem Linkless.canonical?_eq (real : t.root.HasDir p.location) :
    t.canonical? p = some (absolutePath p.location) := by
  obtain ⟨entries, listable, found⟩ := real
  rw [canonical?, linkless.resolve_eq absolute wellFormed found]

end Absolute

end FileTree

end LintGate
