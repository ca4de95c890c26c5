import LintGate.FileTree

/-!
# Resolution of paths

`FileTree.Follows` describes the places to which steps lead, and `FileTree.Enters` steps that all
lead to directories. To follow a list of steps is to enter the directory to which its beginning
leads and to follow the rest from there, with as many links as are left.
-/

namespace LintGate

namespace Node

theorem get?_append (node : Node) (front back : Location) :
    node.get? (front ++ back) = (node.get? front).bind fun below => below.get? back := by
  induction front generalizing node with
  | nil => cases node <;> simp [get?]
  | cons name front ih =>
      cases node with
      | dir entries _ =>
          cases found : child? name entries with
          | none => simp [get?, found]
          | some below => simp [get?, found, ih]
      | file | link | program | device => simp [get?]

theorem get?_nil (node : Node) : node.get? [] = some node := by
  cases node <;> rfl

theorem eq_dir_of_get? {node below : Node} {l : Location} (nonempty : l ≠ [])
    (found : node.get? l = some below) : ∃ entries listable, node = .dir entries listable := by
  cases l with
  | nil => exact absurd rfl nonempty
  | cons name l =>
      cases node with
      | dir entries listable => exact ⟨entries, listable, rfl⟩
      | file | link | program | device => cases found

/-- There is a directory at a location. It need not be listable. -/
def HasDir (root : Node) (l : Location) : Prop :=
  ∃ entries listable, root.get? l = some (.dir entries listable)

/-- What is above an entry is a directory. -/
theorem hasDir_of_get?_append {node below : Node} {front back : Location} (nonempty : back ≠ [])
    (found : node.get? (front ++ back) = some below) : node.HasDir front := by
  rw [get?_append, Option.bind_eq_some_iff] at found
  obtain ⟨above, here, inside⟩ := found
  obtain ⟨entries, listable, rfl⟩ := eq_dir_of_get? nonempty inside
  exact ⟨entries, listable, here⟩

theorem exists_of_prefix {node below : Node} {front l : Location} (begins : front <+: l)
    (found : node.get? l = some below) : ∃ above, node.get? front = some above := by
  obtain ⟨back, rfl⟩ := begins
  rw [get?_append, Option.bind_eq_some_iff] at found
  obtain ⟨above, here, -⟩ := found
  exact ⟨above, here⟩

theorem HasDir.of_prefix {node : Node} {front l : Location} (real : node.HasDir l)
    (begins : front <+: l) : node.HasDir front := by
  obtain ⟨back, rfl⟩ := begins
  cases back with
  | nil => rwa [List.append_nil] at real
  | cons name back =>
      obtain ⟨entries, listable, found⟩ := real
      exact hasDir_of_get?_append (List.cons_ne_nil _ _) found

/-- The last step of a path may lead to this node and no further. -/
def endsAt (followLast : Bool) : Node → Bool
  | .dir .. => false
  | .link _ => !followLast
  | .file _ _ | .program _ | .device _ => true

end Node

namespace FileTree

/-- Steps from a directory that all lead to directories: from where, with how many links left, and
to where with how many of them left. -/
inductive Enters (root : Node) : Nat → Location → List String → Nat → Location → Prop where
  | arrived (links : Nat) (dir : Location) : Enters root links dir [] links dir
  | stays {links left : Nat} {dir last : Location} {rest : List String} :
      Enters root links dir rest left last → Enters root links dir ("." :: rest) left last
  | up {links left : Nat} {dir last : Location} {rest : List String} :
      Enters root links dir.dropLast rest left last → Enters root links dir (".." :: rest) left last
  | down {links left : Nat} {dir last : Location} {step : String} {rest : List String}
      {entries : List (String × Node)} {listable : Bool} :
      step ≠ "." → step ≠ ".." → (Text.rawBytes step).length ≤ maxNameBytes →
      root.get? (dir ++ [step]) = some (.dir entries listable) →
      Enters root links (dir ++ [step]) rest left last →
      Enters root links dir (step :: rest) left last
  | linked {links left : Nat} {dir last : Location} {step : String} {rest : List String}
      {target : Path} :
      step ≠ "." → step ≠ ".." → (Text.rawBytes step).length ≤ maxNameBytes →
      root.get? (dir ++ [step]) = some (.link target) → target ≠ "" →
      Enters root links (if target.isAbsolute then [] else dir) (steps target ++ rest) left last →
      Enters root (links + 1) dir (step :: rest) left last

/-- Steps from a directory to a place, with this many links that may be followed. -/
inductive Follows (root : Node) (followLast : Bool) :
    Nat → Location → List String → Place → Prop where
  | arrived (links : Nat) (dir : Location) :
      Follows root followLast links dir [] (.present dir ((root.get? dir).getD .empty))
  | stays {links : Nat} {dir : Location} {rest : List String} {place : Place} :
      Follows root followLast links dir rest place →
      Follows root followLast links dir ("." :: rest) place
  | up {links : Nat} {dir : Location} {rest : List String} {place : Place} :
      Follows root followLast links dir.dropLast rest place →
      Follows root followLast links dir (".." :: rest) place
  | down {links : Nat} {dir : Location} {step : String} {rest : List String} {place : Place}
      {entries : List (String × Node)} {listable : Bool} :
      step ≠ "." → step ≠ ".." → (Text.rawBytes step).length ≤ maxNameBytes →
      root.get? (dir ++ [step]) = some (.dir entries listable) →
      Follows root followLast links (dir ++ [step]) rest place →
      Follows root followLast links dir (step :: rest) place
  | linked {links : Nat} {dir : Location} {step : String} {rest : List String} {place : Place}
      {target : Path} :
      step ≠ "." → step ≠ ".." → (Text.rawBytes step).length ≤ maxNameBytes →
      root.get? (dir ++ [step]) = some (.link target) → (rest.isEmpty && !followLast) = false →
      target ≠ "" →
      Follows root followLast links (if target.isAbsolute then [] else dir) (steps target ++ rest)
        place →
      Follows root followLast (links + 1) dir (step :: rest) place
  | ended {links : Nat} {dir : Location} {step : String} {node : Node} :
      step ≠ "." → step ≠ ".." → (Text.rawBytes step).length ≤ maxNameBytes →
      root.get? (dir ++ [step]) = some node → node.endsAt followLast = true →
      Follows root followLast links dir [step] (.present (dir ++ [step]) node)
  | absent {links : Nat} {dir : Location} {step : String} :
      step ≠ "." → step ≠ ".." → (Text.rawBytes step).length ≤ maxNameBytes →
      root.get? (dir ++ [step]) = none →
      Follows root followLast links dir [step] (.absent dir step)

variable {root : Node} {followLast : Bool}

/-- What is done with a link when this many may be followed. -/
def followLink (root : Node) (followLast : Bool) :
    Nat → Location → List String → Except SystemError Place
  | 0 => fun _ _ => .error .tooManyLinks
  | links + 1 => follow root followLast links

theorem follow_eq (links : Nat) (dir : Location) (ss : List String) :
    follow root followLast links dir ss =
      walkSteps root followLast (followLink root followLast links) dir ss := by
  cases links <;> rfl

theorem follow_here (links : Nat) (dir : Location) (rest : List String) :
    follow root followLast links dir ("." :: rest) = follow root followLast links dir rest := by
  simp [follow_eq, walkSteps]

theorem follow_up (links : Nat) (dir : Location) (rest : List String) :
    follow root followLast links dir (".." :: rest) =
      follow root followLast links dir.dropLast rest := by
  simp [follow_eq, walkSteps]

/-- A step to an entry by its name. -/
theorem follow_name {step : String} (notHere : step ≠ ".") (notUp : step ≠ "..")
    (short : (Text.rawBytes step).length ≤ maxNameBytes) (links : Nat) (dir : Location)
    (rest : List String) :
    follow root followLast links dir (step :: rest) =
      match root.get? (dir ++ [step]) with
      | none => if rest.isEmpty then .ok (.absent dir step) else .error .notFound
      | some (.dir ..) => follow root followLast links (dir ++ [step]) rest
      | some (.link target) =>
        if rest.isEmpty && !followLast then .ok (.present (dir ++ [step]) (.link target))
        else if target.isEmpty then .error .notFound
        else followLink root followLast links (if target.isAbsolute then [] else dir)
          (steps target ++ rest)
      | some other =>
        if rest.isEmpty then .ok (.present (dir ++ [step]) other) else .error .notDirectory := by
  rw [follow_eq, walkSteps, if_neg notHere, if_neg notUp, if_neg (Nat.not_lt.mpr short)]
  cases root.get? (dir ++ [step]) with
  | none => rfl
  | some node =>
      cases node with
      | dir => exact (follow_eq links (dir ++ [step]) rest).symm
      | file | link | program | device => rfl

theorem follow_long {step : String} (notHere : step ≠ ".") (notUp : step ≠ "..")
    (long : maxNameBytes < (Text.rawBytes step).length) (links : Nat) (dir : Location)
    (rest : List String) :
    follow root followLast links dir (step :: rest) = .error .nameTooLong := by
  simp only [follow_eq, walkSteps, notHere, notUp, long, if_false, if_true]

theorem follow_nil (links : Nat) (dir : Location) :
    follow root followLast links dir [] = .ok (.present dir ((root.get? dir).getD .empty)) := by
  simp [follow_eq, walkSteps]

theorem Follows.follow_eq {links : Nat} {dir : Location} {ss : List String} {place : Place}
    (follows : Follows root followLast links dir ss place) :
    follow root followLast links dir ss = .ok place := by
  induction follows with
  | arrived links dir => exact follow_nil links dir
  | stays _ ih => rw [follow_here, ih]
  | up _ ih => rw [follow_up, ih]
  | down here up short entry _ ih => rw [follow_name here up short, entry, ih]
  | @linked links dir step rest place target here up short entry goesOn some_target _ ih =>
      have not_empty : target.isEmpty = false := by simpa using some_target
      rw [follow_name here up short, entry]
      simp only [goesOn, not_empty, Bool.false_eq_true, if_false]
      exact ih
  | @ended links dir step node here up short entry ends =>
      rw [follow_name here up short, entry]
      cases node with
      | dir => cases ends
      | link target =>
          rw [Node.endsAt] at ends
          simp [ends]
      | file | program | device => rfl
  | absent here up short entry =>
      rw [follow_name here up short, entry]
      rfl

theorem follow_eq_ok_iff {links : Nat} {dir : Location} {ss : List String} {place : Place} :
    follow root followLast links dir ss = .ok place ↔
      Follows root followLast links dir ss place := by
  refine ⟨fun found => ?_, Follows.follow_eq⟩
  -- A link leads to further steps, with fewer links to follow.
  induction links using Nat.strongRecOn generalizing dir ss with
  | ind links onLink =>
  induction ss generalizing dir with
  | nil =>
      rw [follow_nil] at found
      cases found
      exact .arrived links dir
  | cons step rest ih =>
      by_cases here : step = "."
      · subst here
        rw [follow_here] at found
        exact .stays (ih found)
      by_cases up : step = ".."
      · subst up
        rw [follow_up] at found
        exact .up (ih found)
      rcases Nat.lt_or_ge maxNameBytes (Text.rawBytes step).length with long | short
      · rw [follow_long here up long] at found
        cases found
      rw [follow_name here up short] at found
      cases entry : root.get? (dir ++ [step]) with
      | none =>
          rw [entry] at found
          dsimp only at found
          split at found
          case isFalse => cases found
          case isTrue last =>
            cases found
            rw [List.isEmpty_iff.mp last]
            exact .absent here up short entry
      | some node =>
          rw [entry] at found
          cases node with
          | dir => exact .down here up short entry (ih found)
          | link target =>
              dsimp only at found
              split at found
              case isTrue ends =>
                cases found
                rw [Bool.and_eq_true] at ends
                rw [List.isEmpty_iff.mp ends.1]
                exact .ended here up short entry ends.2
              case isFalse goesOn =>
                split at found
                case isTrue => cases found
                case isFalse some_target =>
                  cases links with
                  | zero => cases found
                  | succ links =>
                      have onward := onLink links (Nat.lt_succ_self links) found
                      exact .linked here up short entry (by simpa using goesOn)
                        (by simpa using some_target) onward
          | file | program | device =>
              dsimp only at found
              split at found
              case isFalse => cases found
              case isTrue last =>
                cases found
                rw [List.isEmpty_iff.mp last]
                exact .ended here up short entry rfl

theorem getD_get?_of_follow {links : Nat} {dir last : Location} {ss : List String} {node : Node}
    (found : follow root followLast links dir ss = .ok (.present last node)) :
    (root.get? last).getD .empty = node := by
  rw [follow_eq_ok_iff] at found
  generalize there : Place.present last node = place at found
  induction found with
  | arrived =>
      cases there
      rfl
  | stays _ ih | up _ ih | down _ _ _ _ _ ih | linked _ _ _ _ _ _ _ ih => exact ih there
  | ended _ _ _ entry =>
      cases there
      rw [entry, Option.getD_some]
  | absent => cases there

/-! ## The beginning of a list of steps -/

theorem eq_of_follow_nil {links : Nat} {dir last : Location} {node : Node}
    (found : follow root followLast links dir [] = .ok (.present last node)) :
    last = dir ∧ (root.get? last).getD .empty = node := by
  rw [follow_nil] at found
  injection found with same
  injection same with locations nodes
  subst locations
  exact ⟨rfl, nodes⟩

section Beginning

variable {back : List String} (nonempty : back ≠ [])

include nonempty

private theorem exists_enters_of_followLink {links : Nat}
    (linked : ∀ {dir front place},
      followLink root followLast links dir (front ++ back) = .ok place →
      ∃ fewer left above, links = fewer + 1 ∧ Enters root fewer dir front left above ∧
        follow root followLast left above back = .ok place)
    {dir : Location} {front : List String} {place : Place}
    (found : follow root followLast links dir (front ++ back) = .ok place) :
    ∃ left above, Enters root links dir front left above ∧
      follow root followLast left above back = .ok place := by
  induction front generalizing dir with
  | nil => exact ⟨_, dir, .arrived _ dir, found⟩
  | cons step front ih =>
      have not_last : (front ++ back).isEmpty = false := by simp [nonempty]
      rw [List.cons_append] at found
      by_cases here : step = "."
      · subst here
        rw [follow_here] at found
        obtain ⟨left, above, enters, rest⟩ := ih found
        exact ⟨left, above, .stays enters, rest⟩
      by_cases up : step = ".."
      · subst up
        rw [follow_up] at found
        obtain ⟨left, above, enters, rest⟩ := ih found
        exact ⟨left, above, .up enters, rest⟩
      rcases Nat.lt_or_ge maxNameBytes (Text.rawBytes step).length with long | short
      · rw [follow_long here up long] at found
        cases found
      rw [follow_name here up short, not_last] at found
      cases entry : root.get? (dir ++ [step]) with
      | none =>
          rw [entry] at found
          cases found
      | some node =>
          rw [entry] at found
          cases node with
          | dir =>
              obtain ⟨left, above, enters, rest⟩ := ih found
              exact ⟨left, above, .down here up short entry enters, rest⟩
          | link target =>
              simp only [Bool.false_and, Bool.false_eq_true, if_false] at found
              split at found
              · cases found
              case isFalse some_target =>
                rw [← List.append_assoc] at found
                obtain ⟨fewer, left, above, rfl, enters, rest⟩ := linked found
                refine ⟨left, above, .linked here up short entry ?_ enters, rest⟩
                simpa using some_target
          | file | program | device => cases found

/-- What comes last is followed from the directory to which the steps before it lead. -/
theorem exists_enters_of_follow_append {links : Nat} {dir : Location} {front : List String}
    {place : Place} (found : follow root followLast links dir (front ++ back) = .ok place) :
    ∃ left above, Enters root links dir front left above ∧
      follow root followLast left above back = .ok place := by
  induction links generalizing dir front place with
  | zero => exact exists_enters_of_followLink nonempty (fun linked => by cases linked) found
  | succ links ih =>
      apply exists_enters_of_followLink nonempty _ found
      intro dir front place linked
      obtain ⟨left, above, enters, rest⟩ := ih linked
      exact ⟨links, left, above, rfl, enters, rest⟩

theorem Enters.follow_append {links left : Nat} {dir last : Location} {front : List String}
    (enters : Enters root links dir front left last) :
    follow root followLast links dir (front ++ back) = follow root followLast left last back := by
  induction enters with
  | arrived => rfl
  | stays _ ih => rw [List.cons_append, follow_here, ih]
  | up _ ih => rw [List.cons_append, follow_up, ih]
  | down here up short entry _ ih => rw [List.cons_append, follow_name here up short, entry, ih]
  | @linked _ _ _ _ _ rest target here up short entry some_target _ ih =>
      have not_last : (rest ++ back).isEmpty = false := by simp [nonempty]
      have not_empty : target.isEmpty = false := by simpa using some_target
      rw [List.cons_append, follow_name here up short, entry]
      simp only [not_last, not_empty, Bool.false_and, Bool.false_eq_true, if_false]
      rw [← List.append_assoc]
      exact ih

end Beginning

/-! ## Directories -/

namespace Enters

/-- What holds of every directory, and above every place of which it holds, holds wherever steps
lead. -/
theorem keeps {holds : Location → Prop} {links left : Nat} {dir last : Location} {ss : List String}
    (enters : Enters root links dir ss left last)
    (above : ∀ {front l : Location}, front <+: l → holds l → holds front)
    (real : ∀ {l : Location} {entries : List (String × Node)} {listable : Bool},
      root.get? l = some (.dir entries listable) → holds l)
    (starts : holds dir) : holds last := by
  induction enters with
  | arrived => exact starts
  | stays _ ih => exact ih starts
  | up _ ih => exact ih (above (List.dropLast_prefix _) starts)
  | down _ _ _ entry _ ih => exact ih (real entry)
  | linked _ _ _ _ _ _ ih =>
      apply ih
      split
      · exact above List.nil_prefix starts
      · exact starts

/-- Steps from a directory lead to a directory. -/
theorem hasDir {links left : Nat} {dir last : Location} {ss : List String}
    (enters : Enters root links dir ss left last) (starts : root.HasDir dir) :
    root.HasDir last := by
  apply keeps enters _ _ starts
  · exact fun begins real => real.of_prefix begins
  · exact fun found => ⟨_, _, found⟩

/-- Steps from a place that exists lead to one that exists. -/
theorem exists_node {links left : Nat} {dir last : Location} {ss : List String}
    (enters : Enters root links dir ss left last) (starts : ∃ node, root.get? dir = some node) :
    ∃ node, root.get? last = some node := by
  apply keeps enters _ _ starts
  · intro front l begins there
    obtain ⟨node, found⟩ := there
    exact Node.exists_of_prefix begins found
  · intro l entries listable found
    exact ⟨_, found⟩

end Enters

theorem Enters.append {links middle left : Nat} {dir between last : Location}
    {front back : List String} (first : Enters root links dir front middle between)
    (second : Enters root middle between back left last) :
    Enters root links dir (front ++ back) left last := by
  induction first with
  | arrived => exact second
  | stays _ ih => exact .stays (ih second)
  | up _ ih => exact .up (ih second)
  | down here up short entry _ ih => exact .down here up short entry (ih second)
  | linked here up short entry some_target _ ih =>
      have onward := ih second
      rw [List.append_assoc] at onward
      exact .linked here up short entry some_target onward

/-- Steps that denote a directory, the last link followed, lead there. -/
theorem exists_enters_of_follow_dir {links : Nat} {dir last : Location} {ss : List String}
    {entries : List (String × Node)} {listable : Bool}
    (found : follow root true links dir ss = .ok (.present last (.dir entries listable))) :
    (root.get? last).getD .empty = .dir entries listable ∧
      ∃ left, Enters root links dir ss left last := by
  refine ⟨getD_get?_of_follow found, ?_⟩
  rw [follow_eq_ok_iff] at found
  generalize there : Place.present last (.dir entries listable) = place at found
  induction found with
  | arrived links dir =>
      injection there with locations
      subst locations
      exact ⟨links, .arrived links _⟩
  | stays _ ih =>
      obtain ⟨left, enters⟩ := ih there
      exact ⟨left, .stays enters⟩
  | up _ ih =>
      obtain ⟨left, enters⟩ := ih there
      exact ⟨left, .up enters⟩
  | down here up short entry _ ih =>
      obtain ⟨left, enters⟩ := ih there
      exact ⟨left, .down here up short entry enters⟩
  | linked here up short entry _ some_target _ ih =>
      obtain ⟨left, enters⟩ := ih there
      exact ⟨left, .linked here up short entry some_target enters⟩
  | ended _ _ _ _ ends =>
      cases there
      cases ends
  | absent => cases there

theorem resolveWith_eq {t : FileTree} {p : Path} (nonempty : p ≠ "") (followLast : Bool) :
    t.resolveWith followLast p =
      follow t.root followLast maxLinks (if p.isAbsolute then [] else t.here) (steps p) := by
  have some_text : p.isEmpty = false := by simpa using nonempty
  rw [resolveWith, some_text, if_neg Bool.false_ne_true]

theorem getD_get?_of_resolve {t : FileTree} {p : Path} {l : Location} {node : Node}
    (found : t.resolve p = .ok (.present l node)) : (t.root.get? l).getD .empty = node := by
  rw [resolve, resolveWith] at found
  split at found
  · cases found
  · exact getD_get?_of_follow found

end FileTree

end LintGate
