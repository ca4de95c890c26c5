import LintGate.Proofs.Path.Names

/-!
# Parents of paths

The parent of a path has the components of the path but the last, whatever slashes and dots the path
is spelt with. So the ancestors of an absolute path are its beginnings, the longest first.
-/

namespace LintGate

namespace Path

/-! ## The end of a path -/

/-- The components between the slashes of a text. -/
def pieceComponents (cs : List Char) : List Component :=
  (Text.pieces '/' cs).filterMap Component.ofPiece?

theorem pieceComponents_append_slash (front back : List Char) :
    pieceComponents (front ++ '/' :: back) = pieceComponents front ++ pieceComponents back := by
  rw [pieceComponents, Text.pieces_append_sep, List.filterMap_append]
  rfl

theorem pieceComponents_append_slash_nil (front : List Char) :
    pieceComponents (front ++ ['/']) = pieceComponents front := by
  rw [pieceComponents_append_slash]
  exact List.append_nil _

theorem pieceComponents_append_slash_dot (front : List Char) :
    pieceComponents (front ++ ['/', '.']) = pieceComponents front := by
  rw [pieceComponents_append_slash]
  exact List.append_nil _

/-- A piece is one component, unless nothing or a dot stands there. -/
theorem exists_pieceComponents_eq {piece : List Char} (nonempty : piece ≠ [])
    (notHere : piece ≠ ['.']) (clean : '/' ∉ piece) : ∃ c, pieceComponents piece = [c] := by
  have found : ∃ c, Component.ofPiece? piece = some c := by
    unfold Component.ofPiece?
    split
    · exact absurd rfl nonempty
    · exact absurd rfl notHere
    · exact ⟨_, rfl⟩
    · exact ⟨_, rfl⟩
  obtain ⟨c, same⟩ := found
  refine ⟨c, ?_⟩
  rw [pieceComponents, Text.pieces_of_not_mem clean, List.filterMap_cons_some same]
  rfl

theorem root_not_mem_pieceComponents {cs : List Char} : .root ∉ pieceComponents cs := by
  intro member
  obtain ⟨piece, -, found⟩ := List.mem_filterMap.mp member
  unfold Component.ofPiece? at found
  split at found <;> cases found

theorem length_pieceComponents_le (cs : List Char) : (pieceComponents cs).length ≤ cs.length := by
  induction cs with
  | nil => exact Nat.le_refl _
  | cons x cs ih =>
      by_cases slash : x = '/'
      · subst slash
        have same : pieceComponents ('/' :: cs) = pieceComponents cs :=
          pieceComponents_append_slash [] cs
        rw [same, List.length_cons]
        omega
      · obtain ⟨piece, more, cut⟩ := Text.exists_pieces_eq_cons '/' cs
        have later : (more.filterMap Component.ofPiece?).length ≤ (pieceComponents cs).length := by
          rw [pieceComponents, cut]
          exact ((List.sublist_cons_self piece more).filterMap _).length_le
        have first : (pieceComponents (x :: cs)).length ≤
            (more.filterMap Component.ofPiece?).length + 1 := by
          rw [pieceComponents, Text.pieces_cons_of_ne slash cut]
          cases found : Component.ofPiece? (x :: piece) with
          | none =>
              rw [List.filterMap_cons_none found]
              omega
          | some c =>
              rw [List.filterMap_cons_some found]
              exact Nat.le_refl _
        rw [List.length_cons]
        omega

/-- What is removed at the end of a path stands for no component. -/
theorem pieceComponents_trimEndReversed (cs : List Char) :
    pieceComponents (trimEndReversed cs).reverse = pieceComponents cs.reverse := by
  fun_induction trimEndReversed cs with
  | case1 => rfl
  | case2 => rfl
  | case3 rest notAlone ih =>
      rw [List.reverse_cons, pieceComponents_append_slash_nil]
      exact ih
  | case4 rest ih =>
      have dot : ('.' :: '/' :: rest).reverse = rest.reverse ++ ['/', '.'] := by simp
      rw [dot, pieceComponents_append_slash_dot, ← pieceComponents_append_slash_nil rest.reverse,
        ← List.reverse_cons]
      exact ih
  | case5 => rfl

theorem trimEndReversed_suffix (cs : List Char) : trimEndReversed cs <:+ cs := by
  fun_induction trimEndReversed cs with
  | case1 | case2 | case5 => exact List.suffix_refl _
  | case3 rest notAlone ih => exact ih.trans (List.suffix_cons _ _)
  | case4 rest ih => exact ih.trans (List.suffix_cons _ _)

theorem getLast?_trimEndReversed {cs : List Char} (absolute : cs.getLast? = some '/') :
    (trimEndReversed cs).getLast? = some '/' := by
  fun_induction trimEndReversed cs with
  | case1 => cases absolute
  | case2 | case5 => exact absolute
  | case3 rest notAlone ih =>
      apply ih
      cases rest with
      | nil => exact absurd rfl notAlone
      | cons x rest => exact absolute
  | case4 rest ih => exact ih absolute

/-- What is left is the root, or a single piece, or it ends with a piece that stands for a
component. -/
theorem trimEndReversed_cases (cs : List Char) :
    trimEndReversed cs = ['/'] ∨ '/' ∉ trimEndReversed cs ∨
      ∃ piece rest c, trimEndReversed cs = piece ++ '/' :: rest ∧ '/' ∉ piece ∧
        pieceComponents piece.reverse = [c] := by
  fun_induction trimEndReversed cs with
  | case1 => exact .inr (.inl List.not_mem_nil)
  | case2 => exact .inl rfl
  | case3 rest notAlone ih => exact ih
  | case4 rest ih => exact ih
  | case5 cs nonempty notRoot notSlash notDot =>
      by_cases member : '/' ∈ cs
      case neg => exact .inr (.inl member)
      obtain ⟨piece, rest, rfl, clean⟩ := List.eq_append_cons_of_mem member
      have nonempty : piece ≠ [] := by
        rintro rfl
        exact notSlash rest rfl
      have notHere : piece ≠ ['.'] := by
        rintro rfl
        exact notDot rest rfl
      obtain ⟨c, last⟩ : ∃ c, pieceComponents piece.reverse = [c] := by
        apply exists_pieceComponents_eq
        · simpa using nonempty
        · intro dot
          exact notHere (by simpa using congrArg List.reverse dot)
        · simpa using clean
      exact .inr (.inr ⟨piece, rest, c, rfl, clean, last⟩)

theorem dropWhile_append_of_clean {piece : List Char} (clean : '/' ∉ piece) (rest : List Char) :
    (piece ++ rest).dropWhile (· ≠ '/') = rest.dropWhile (· ≠ '/') := by
  apply List.dropWhile_append_of_pos
  intro x member
  simpa using fun same : x = '/' => clean (same ▸ member)

theorem getLast?_dropWhile {cs : List Char} (absolute : cs.getLast? = some '/') :
    (cs.dropWhile (· ≠ '/')).getLast? = some '/' := by
  obtain ⟨piece, rest, rfl, clean⟩ := List.eq_append_cons_of_mem (List.mem_of_getLast? absolute)
  have last := List.getLast?_eq_some_getLast (List.cons_ne_nil '/' rest)
  rw [dropWhile_append_of_clean clean, List.dropWhile_cons_of_neg (by simp)]
  rw [List.getLast?_append, last, Option.some_or] at absolute
  exact last.trans absolute

/-- A reversed text without its last component. -/
def withoutLast (cs : List Char) : List Char :=
  trimEndReversed ((trimEndReversed cs).dropWhile (· ≠ '/'))

theorem withoutLast_suffix (cs : List Char) : withoutLast cs <:+ cs :=
  (trimEndReversed_suffix _).trans ((List.dropWhile_suffix _).trans (trimEndReversed_suffix _))

theorem getLast?_withoutLast {cs : List Char} (absolute : cs.getLast? = some '/') :
    (withoutLast cs).getLast? = some '/' :=
  getLast?_trimEndReversed (getLast?_dropWhile (getLast?_trimEndReversed absolute))

theorem pieceComponents_withoutLast {cs : List Char} {above : List Component} {c : Component}
    (whole : pieceComponents cs.reverse = above ++ [c]) :
    pieceComponents (withoutLast cs).reverse = above := by
  rw [← pieceComponents_trimEndReversed] at whole
  rw [withoutLast, pieceComponents_trimEndReversed]
  rcases trimEndReversed_cases cs with alone | single | ⟨piece, rest, last, split, clean, ends⟩
  case inl =>
    have nothing : pieceComponents ['/'].reverse = [] := rfl
    rw [alone, nothing] at whole
    simp at whole
  case inr.inl =>
    have dropped : (trimEndReversed cs).dropWhile (· ≠ '/') = [] := by
      have kept := dropWhile_append_of_clean single []
      rwa [List.append_nil] at kept
    have clean : '/' ∉ (trimEndReversed cs).reverse := by simpa using single
    have short : (pieceComponents (trimEndReversed cs).reverse).length ≤ 1 := by
      rw [pieceComponents, Text.pieces_of_not_mem clean]
      exact List.length_filterMap_le _ _
    rw [whole, List.length_append, List.length_singleton] at short
    rw [dropped, List.length_eq_zero_iff.mp (Nat.le_zero.mp (Nat.le_of_succ_le_succ short))]
    rfl
  case inr.inr =>
    rw [split, List.reverse_append, List.reverse_cons, List.append_assoc, List.singleton_append,
      pieceComponents_append_slash, ends] at whole
    rw [split, dropWhile_append_of_clean clean, List.dropWhile_cons_of_neg (by simp),
      List.reverse_cons, pieceComponents_append_slash_nil]
    exact (List.append_inj' whole rfl).1

/-- The parent of a path is spelt like the beginning of the path and has its components but the
last. -/
theorem exists_parent?_eq {p : Path} {above : List Component} {c : Component}
    (whole : pieceComponents p.toList = above ++ [c]) :
    ∃ q, p.parent? = some q ∧ q.toList = (withoutLast p.toList.reverse).reverse ∧
      pieceComponents q.toList = above := by
  have notRoot : c ≠ .root := by
    rintro rfl
    have member : .root ∈ pieceComponents p.toList := by simp [whole]
    exact root_not_mem_pieceComponents member
  have last : p.components.getLast? = some c := by
    have shape : p.components = opening p.toList ++ pieceComponents p.toList := rfl
    rw [shape, whole, ← List.append_assoc, List.getLast?_concat]
  refine ⟨String.ofList (withoutLast p.toList.reverse).reverse, ?_, String.toList_ofList, ?_⟩
  · rw [parent?, last]
    cases c with
    | root => exact absurd rfl notRoot
    | here | up | name => rfl
  · rw [String.toList_ofList]
    apply pieceComponents_withoutLast
    rwa [List.reverse_reverse]

/-! ## Absolute paths -/

theorem isAbsolute_iff {p : Path} : p.isAbsolute = true ↔ ∃ rest, p.toList = '/' :: rest := by
  rw [isAbsolute, beq_iff_eq, List.head?_eq_some_iff]

theorem ne_empty_of_isAbsolute {p : Path} (absolute : p.isAbsolute = true) : p ≠ "" := by
  rintro rfl
  cases absolute

theorem getLast?_reverse_of_isAbsolute {p : Path} (absolute : p.isAbsolute = true) :
    p.toList.reverse.getLast? = some '/' := by
  obtain ⟨rest, shape⟩ := isAbsolute_iff.mp absolute
  simp [shape]

theorem isAbsolute_ofList_reverse {cs : List Char} (absolute : cs.getLast? = some '/') :
    isAbsolute (String.ofList cs.reverse) = true := by
  obtain ⟨front, shape⟩ := List.getLast?_eq_some_iff.mp absolute
  simp [isAbsolute, shape]

theorem components_of_isAbsolute {p : Path} (absolute : p.isAbsolute = true) :
    p.components = .root :: pieceComponents p.toList := by
  obtain ⟨rest, shape⟩ := isAbsolute_iff.mp absolute
  rw [components, shape]
  rfl

theorem components_of_segments {p : Path} (absolute : p.isAbsolute = true) :
    p.components = .root :: p.segments.filterMap Component.ofSegment? := by
  obtain ⟨rest, shape⟩ := isAbsolute_iff.mp absolute
  rw [components_eq, shape]
  rfl

/-- The root has no parent, and that of any other absolute path is the path without its last
component. -/
theorem parent?_cases {p : Path} (absolute : p.isAbsolute = true) :
    (p.components = [.root] ∧ p.parent? = none) ∨
      ∃ q c, p.parent? = some q ∧ q.isAbsolute = true ∧ p.components = q.components ++ [c] := by
  have shape := components_of_isAbsolute absolute
  rcases List.eq_nil_or_concat (pieceComponents p.toList) with nothing | ⟨above, c, whole⟩
  case inl =>
    rw [nothing] at shape
    refine .inl ⟨shape, ?_⟩
    rw [parent?, shape]
    rfl
  case inr =>
    rw [List.concat_eq_append] at whole
    obtain ⟨q, parent, spelt, components⟩ := exists_parent?_eq whole
    have absolute' : q.isAbsolute = true := by
      have ending := getLast?_withoutLast (getLast?_reverse_of_isAbsolute absolute)
      rw [← String.ofList_toList (s := q), spelt]
      exact isAbsolute_ofList_reverse ending
    refine .inr ⟨q, c, parent, absolute', ?_⟩
    rw [shape, whole, components_of_isAbsolute absolute', components, List.cons_append]

/-! ## Files -/

theorem pieceComponents_eq (p : Path) :
    pieceComponents p.toList = p.segments.filterMap Component.ofSegment? :=
  List.append_cancel_left (components_eq p)

/-- The steps of a path lead through its components. A step to a directory itself is none. -/
theorem filterMap_steps (p : Path) :
    (FileTree.steps p).filterMap Component.ofSegment? = pieceComponents p.toList := by
  have none_more : (if p.toList.getLast? = some '/' then ["."] else []).filterMap
      Component.ofSegment? = [] := by
    split <;> rfl
  rw [steps_eq, List.filterMap_append, none_more, List.append_nil, pieceComponents_eq]

/-- A file lies in the directory of its parent, which is spelt like the beginning of its path. -/
theorem exists_parent?_of_fileName? {p : Path} {name : String} (named : p.fileName? = some name) :
    ∃ q, p.parent? = some q ∧ q.toList <+: p.toList ∧
      pieceComponents p.toList = pieceComponents q.toList ++ [.name name] := by
  obtain ⟨front, back, segments, dots, -⟩ := exists_segments_eq_of_fileName? named
  have no_more : back.filterMap Component.ofSegment? = [] :=
    filterMap_ofSegment?_eq_nil_iff.mpr dots
  have whole : pieceComponents p.toList =
      front.filterMap Component.ofSegment? ++ [.name name] := by
    rw [pieceComponents_eq, segments, List.filterMap_append,
      List.filterMap_cons_some (isName_of_fileName? named).ofSegment?_eq, no_more]
  obtain ⟨q, parent, spelt, components⟩ := exists_parent?_eq whole
  refine ⟨q, parent, ?_, by rw [whole, components]⟩
  rw [spelt, ← List.reverse_suffix, List.reverse_reverse]
  exact withoutLast_suffix _

/-! ## Ancestors -/

theorem exists_ancestors_eq_cons (p : Path) : ∃ above, p.ancestors = p :: above := by
  rw [ancestors]
  cases p.length with
  | zero => exact ⟨[], rfl⟩
  | succ fuel => exact ⟨_, rfl⟩

theorem isAbsolute_of_mem_go {fuel : Nat} {p q : Path} (absolute : p.isAbsolute = true)
    (member : q ∈ ancestors.go p fuel) : q.isAbsolute = true := by
  induction fuel generalizing p with
  | zero =>
      rw [List.mem_singleton.mp member]
      exact absolute
  | succ fuel ih =>
      rw [ancestors.go] at member
      rcases List.mem_cons.mp member with rfl | further
      · exact absolute
      · rcases parent?_cases absolute with ⟨-, none_above⟩ | ⟨above, _, parent, higher, -⟩
        · rw [none_above] at further
          cases further
        · rw [parent] at further
          exact ih higher further

theorem isAbsolute_of_mem_ancestors {p q : Path} (absolute : p.isAbsolute = true)
    (member : q ∈ p.ancestors) : q.isAbsolute = true :=
  isAbsolute_of_mem_go absolute member

theorem length_components_le {p : Path} (absolute : p.isAbsolute = true) :
    p.components.length ≤ p.length + 1 := by
  have pieces := length_pieceComponents_le p.toList
  rw [components_of_isAbsolute absolute, List.length_cons, ← String.length_toList]
  omega

/-- The longest beginning of some components that is good, if there is any. -/
structure IsLongest (good : List Component → Prop) (cs longest : List Component) : Prop where
  begins : longest <+: cs
  isGood : good longest
  covers : ∀ front, front ≠ [] → front <+: cs → good front → front <+: longest

/-- A search for the longest good beginning of some components found this path, or nothing. -/
def FindsLongest (good : List Component → Prop) (cs : List Component) : Option Path → Prop
  | some p => p.isAbsolute = true ∧ IsLongest good cs p.components
  | none => ∀ front, front ≠ [] → front <+: cs → ¬ good front

namespace FindsLongest

variable {good : List Component → Prop}

theorem nothing : FindsLongest good [] none := by
  intro front nonempty begins
  exact absurd (List.prefix_nil.mp begins) nonempty

theorem whole {p : Path} (absolute : p.isAbsolute = true) (isGood : good p.components) :
    FindsLongest good p.components (some p) :=
  ⟨absolute, List.prefix_refl _, isGood, fun _ _ begins _ => begins⟩

theorem concat {cs : List Component} {c : Component} {found : Option Path}
    (above : FindsLongest good cs found) (bad : ¬ good (cs ++ [c])) :
    FindsLongest good (cs ++ [c]) found := by
  cases found with
  | none =>
      intro front nonempty begins isGood
      rcases List.prefix_concat_iff.mp begins with rfl | earlier
      · exact bad isGood
      · exact above front nonempty earlier isGood
  | some p =>
      obtain ⟨absolute, longest⟩ := above
      refine ⟨absolute, ?_⟩
      constructor
      · exact longest.begins.trans (List.prefix_append _ _)
      · exact longest.isGood
      · intro front nonempty begins isGood
        rcases List.prefix_concat_iff.mp begins with rfl | earlier
        · exact absurd isGood bad
        · exact longest.covers front nonempty earlier isGood

theorem root {p : Path} (alone : p.components = [.root]) (bad : ¬ good p.components) :
    FindsLongest good p.components none := by
  rw [alone] at bad ⊢
  exact nothing.concat bad

theorem cons {marked : Path → Bool} {p : Path} {above : List Path} (absolute : p.isAbsolute = true)
    (here : marked p = true ↔ good p.components)
    (later : ¬ good p.components → FindsLongest good p.components (above.find? marked)) :
    FindsLongest good p.components ((p :: above).find? marked) := by
  by_cases found : marked p = true
  · rw [List.find?_cons_of_pos found]
    exact whole absolute (here.mp found)
  · rw [List.find?_cons_of_neg found]
    rw [here] at found
    exact later found

end FindsLongest

theorem find?_ancestors_go {marked : Path → Bool} {good : List Component → Prop} {fuel : Nat}
    {p : Path} (absolute : p.isAbsolute = true) (enough : p.components.length ≤ fuel + 1)
    (known : ∀ q : Path, q.isAbsolute = true → q.components <+: p.components →
      (marked q = true ↔ good q.components)) :
    FindsLongest good p.components ((ancestors.go p fuel).find? marked) := by
  -- Each parent has one component less, so the fuel lasts up to the root.
  induction fuel generalizing p with
  | zero =>
      rw [ancestors.go]
      apply FindsLongest.cons absolute (known p absolute (List.prefix_refl _))
      intro bad
      rcases parent?_cases absolute with ⟨alone, -⟩ | ⟨q, c, -, above, split⟩
      · exact .root alone bad
      · rw [split, components_of_isAbsolute above] at enough
        simp at enough
  | succ fuel ih =>
      rw [ancestors.go]
      apply FindsLongest.cons absolute (known p absolute (List.prefix_refl _))
      intro bad
      rcases parent?_cases absolute with ⟨alone, none_above⟩ | ⟨q, c, parent, above, split⟩
      · rw [none_above]
        exact .root alone bad
      · have begins : q.components <+: p.components := split ▸ List.prefix_append _ _
        rw [split] at bad
        rw [parent, split]
        apply FindsLongest.concat _ bad
        apply ih above
        · rw [split, List.length_append, List.length_singleton] at enough
          omega
        · intro r further earlier
          exact known r further (earlier.trans begins)

/-- The first of the ancestors of a path that is marked has the longest good beginning of its
components. -/
theorem find?_ancestors {marked : Path → Bool} {good : List Component → Prop} {p : Path}
    (absolute : p.isAbsolute = true)
    (known : ∀ q : Path, q.isAbsolute = true → q.components <+: p.components →
      (marked q = true ↔ good q.components)) :
    FindsLongest good p.components (p.ancestors.find? marked) :=
  find?_ancestors_go absolute (length_components_le absolute) known

end Path

end LintGate
