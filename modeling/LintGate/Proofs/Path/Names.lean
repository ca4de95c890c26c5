import LintGate.FileTree.Walk
import LintGate.Proofs.Path.Segments

/-!
# Names in paths

`Path.IsName` says what can stand between two slashes as the name of an entry. The last name of a
path does not depend on where the path is taken from, and a location is read back from its path.
-/

namespace LintGate

namespace Path

/-- A text that a path can hold as the name of an entry. -/
structure IsName (name : String) : Prop where
  nonempty : name ≠ ""
  noSlash : '/' ∉ name.toList
  notHere : name ≠ "."
  notUp : name ≠ ".."

theorem Component.ofSegment?_eq_none_iff {segment : String} :
    ofSegment? segment = none ↔ segment = "." := by
  unfold ofSegment?
  split
  · simpa
  · split <;> simpa

theorem Component.ofSegment?_eq_name_iff {segment name : String} :
    ofSegment? segment = some (.name name) ↔
      segment = name ∧ segment ≠ "." ∧ segment ≠ ".." := by
  unfold ofSegment?
  split
  case isTrue dot => simp [dot]
  case isFalse other =>
    split
    case isTrue dots => simp [dots]
    case isFalse further => simp [other, further]

theorem Component.ofSegment?_eq_up_iff {segment : String} :
    ofSegment? segment = some .up ↔ segment = ".." := by
  unfold ofSegment?
  split
  case isTrue dot => simp [dot]
  case isFalse =>
    split
    case isTrue dots => simp [dots]
    case isFalse further => simp [further]

theorem Component.eq_of_ofSegment?_eq_some {a b : String} {c : Component}
    (first : ofSegment? a = some c) (second : ofSegment? b = some c) : a = b := by
  cases c with
  | name n =>
      obtain ⟨rfl, -⟩ := ofSegment?_eq_name_iff.mp first
      exact (ofSegment?_eq_name_iff.mp second).1.symm
  | up => exact (ofSegment?_eq_up_iff.mp first).trans (ofSegment?_eq_up_iff.mp second).symm
  | root | here =>
      unfold ofSegment? at first
      split at first
      · cases first
      · split at first <;> cases first

theorem filterMap_ofSegment?_eq_nil_iff {ss : List String} :
    ss.filterMap Component.ofSegment? = [] ↔ ∀ segment ∈ ss, segment = "." := by
  simp only [List.filterMap_eq_nil_iff, Component.ofSegment?_eq_none_iff]

/-- Segments with the same components as others begin with dots and the first of these that is no
dot. -/
theorem exists_dots_of_filterMap_eq {segment : String} {ss rest : List String}
    (notHere : segment ≠ ".") (same : ss.filterMap Component.ofSegment? =
      (segment :: rest).filterMap Component.ofSegment?) :
    ∃ dots more, ss = dots ++ segment :: more ∧ (∀ dot ∈ dots, dot = ".") ∧
      more.filterMap Component.ofSegment? = rest.filterMap Component.ofSegment? := by
  cases first : Component.ofSegment? segment with
  | none => exact absurd (Component.ofSegment?_eq_none_iff.mp first) notHere
  | some c =>
      rw [List.filterMap_cons_some first] at same
      obtain ⟨dots, other, more, rfl, dots_none, found, later⟩ := List.filterMap_eq_cons_iff.mp same
      cases Component.eq_of_ofSegment?_eq_some first found
      have all_dots := filterMap_ofSegment?_eq_nil_iff.mp (List.filterMap_eq_nil_iff.mpr dots_none)
      exact ⟨dots, more, rfl, all_dots, later⟩

theorem IsName.ofSegment?_eq {name : String} (isName : IsName name) :
    Component.ofSegment? name = some (.name name) :=
  Component.ofSegment?_eq_name_iff.mpr ⟨rfl, isName.notHere, isName.notUp⟩

instance (name : String) : Decidable (IsName name) :=
  decidable_of_iff (name ≠ "" ∧ '/' ∉ name.toList ∧ name ≠ "." ∧ name ≠ "..")
    ⟨fun ⟨nonempty, noSlash, notHere, notUp⟩ => ⟨nonempty, noSlash, notHere, notUp⟩,
      fun isName => ⟨isName.nonempty, isName.noSlash, isName.notHere, isName.notUp⟩⟩

namespace IsName

variable {name : String} (isName : IsName name)

include isName

theorem isAbsolute_eq : Path.isAbsolute name = false := by
  rw [Bool.eq_false_iff]
  intro absolute
  rw [isAbsolute, beq_iff_eq] at absolute
  exact isName.noSlash (List.mem_of_head? absolute)

theorem segments_eq : segments name = [name] := by
  rw [segments, Text.pieces_of_not_mem isName.noSlash]
  simp [isName.nonempty]

theorem steps_eq : FileTree.steps name = [name] := by
  have noSlash : name.toList.getLast? ≠ some '/' := by
    intro last
    exact isName.noSlash (List.mem_of_getLast? last)
  rw [Path.steps_eq, isName.segments_eq, if_neg noSlash, List.append_nil]

end IsName

theorem opening_of_absolute {p : Path} (absolute : p.isAbsolute = true) :
    opening p.toList = [.root] := by
  rw [isAbsolute, beq_iff_eq, List.head?_eq_some_iff] at absolute
  obtain ⟨rest, shape⟩ := absolute
  rw [shape]
  rfl

theorem opening_of_relative {p : Path} (relative : p.isAbsolute = false) :
    opening p.toList = [] ∨ opening p.toList = [.here] := by
  unfold opening
  split
  case h_1 rest shape => simp [isAbsolute, shape] at relative
  case h_2 => exact .inr rfl
  case h_3 => exact .inr rfl
  case h_4 => exact .inl rfl

theorem name_not_mem_opening {name : String} {cs : List Char} :
    Component.name name ∉ opening cs := by
  unfold opening
  split <;> simp

theorem name_mem_components_iff {p : Path} {name : String} :
    .name name ∈ p.components ↔ name ∈ p.segments ∧ name ≠ "." ∧ name ≠ ".." := by
  rw [components_eq, List.mem_append, List.mem_filterMap]
  constructor
  · rintro (opened | ⟨segment, member, same⟩)
    · exact absurd opened name_not_mem_opening
    · obtain ⟨rfl, others⟩ := Component.ofSegment?_eq_name_iff.mp same
      exact ⟨member, others⟩
  · rintro ⟨member, others⟩
    exact .inr ⟨name, member, Component.ofSegment?_eq_name_iff.mpr ⟨rfl, others⟩⟩

theorem isName_of_name_mem_components {p : Path} {name : String}
    (member : .name name ∈ p.components) : IsName name := by
  obtain ⟨segment, notHere, notUp⟩ := name_mem_components_iff.mp member
  exact ⟨(mem_segments_iff.mp segment).1, slash_not_mem_segment segment, notHere, notUp⟩

theorem mem_names_iff {p : Path} {name : String} : name ∈ p.names ↔ .name name ∈ p.components := by
  rw [names, List.mem_filterMap]
  constructor
  · rintro ⟨component, member, same⟩
    cases component with
    | name text =>
        cases same
        exact member
    | root | here | up => cases same
  · intro member
    exact ⟨.name name, member, rfl⟩

theorem isName_of_mem_names {p : Path} {name : String} (member : name ∈ p.names) : IsName name :=
  isName_of_name_mem_components (mem_names_iff.mp member)

theorem fileName?_eq_some_iff {p : Path} {name : String} :
    p.fileName? = some name ↔ ∃ above, p.components = above ++ [.name name] := by
  rw [fileName?, Option.bind_eq_some_iff]
  constructor
  · rintro ⟨component, last, same⟩
    cases component with
    | name text =>
        cases same
        exact List.getLast?_eq_some_iff.mp last
    | root | here | up => cases same
  · rintro ⟨above, shape⟩
    exact ⟨.name name, List.getLast?_eq_some_iff.mpr ⟨above, shape⟩, rfl⟩

theorem isName_of_fileName? {p : Path} {name : String} (named : p.fileName? = some name) :
    IsName name := by
  obtain ⟨above, shape⟩ := fileName?_eq_some_iff.mp named
  exact isName_of_name_mem_components (p := p) (by simp [shape])

/-- The names of the directories above a file are those of its path but the last. -/
theorem names_eq_of_fileName? {p : Path} {name : String} (named : p.fileName? = some name) :
    p.names = p.components.dropLast.filterMap Component.name? ++ [name] := by
  obtain ⟨above, shape⟩ := fileName?_eq_some_iff.mp named
  rw [names, shape, List.dropLast_concat, List.filterMap_append]
  rfl

/-- The name of a file is the last of its segments that is not a dot. -/
theorem exists_segments_eq_of_fileName? {p : Path} {name : String}
    (named : p.fileName? = some name) :
    ∃ front back, p.segments = front ++ name :: back ∧ (∀ segment ∈ back, segment = ".") ∧
      p.components.dropLast = opening p.toList ++ front.filterMap Component.ofSegment? := by
  obtain ⟨above, shape⟩ := fileName?_eq_some_iff.mp named
  rw [components_eq] at shape
  -- An opening holds no name, so the last component comes from a segment.
  rcases List.eq_nil_or_concat (p.segments.filterMap Component.ofSegment?) with none_left | found
  case inl =>
    rw [none_left, List.append_nil] at shape
    have member : .name name ∈ opening p.toList := by simp [shape]
    exact absurd member name_not_mem_opening
  obtain ⟨before, last, filtered⟩ := found
  rw [filtered, List.concat_eq_append, ← List.append_assoc] at shape
  obtain ⟨_, same⟩ := List.append_inj_right' shape rfl
  obtain ⟨front, rest, split, front_eq, rest_eq⟩ := List.filterMap_eq_append_iff.mp
    (filtered.trans (List.concat_eq_append ..))
  obtain ⟨dots, segment, back, rest_split, dots_none, found, back_none⟩ :=
    List.filterMap_eq_cons_iff.mp rest_eq
  obtain ⟨rfl, -⟩ := Component.ofSegment?_eq_name_iff.mp found
  refine ⟨front ++ dots, back, ?_, ?_, ?_⟩
  · rw [split, rest_split, List.append_assoc]
  · exact filterMap_ofSegment?_eq_nil_iff.mp back_none
  · rw [components_eq, filtered, List.concat_eq_append, ← List.append_assoc, List.dropLast_concat,
      List.filterMap_append, front_eq, List.filterMap_eq_nil_iff.mpr dots_none, List.append_nil]

/-- A path from within another names the same file. -/
theorem fileName?_join {root p : Path} {name : String} (named : p.fileName? = some name) :
    (root.join p).fileName? = some name := by
  by_cases stays : p.isAbsolute = true ∨ root = ""
  case pos =>
    have same : root.join p = p := by
      rcases stays with absolute | empty
      · simp [join, absolute]
      · simp [join, empty]
    rwa [same]
  case neg =>
    rw [not_or, Bool.not_eq_true] at stays
    obtain ⟨front, back, segments, dots, -⟩ := exists_segments_eq_of_fileName? named
    have isName : IsName name := isName_of_fileName? named
    have no_more : back.filterMap Component.ofSegment? = [] :=
      filterMap_ofSegment?_eq_nil_iff.mpr dots
    apply fileName?_eq_some_iff.mpr
    refine ⟨opening (root.join p).toList ++
      (root.segments ++ front).filterMap Component.ofSegment?, ?_⟩
    rw [components_eq, segments_join stays.1 stays.2, segments, ← List.append_assoc,
      List.filterMap_append, List.filterMap_cons_some isName.ofSegment?_eq, no_more,
      List.append_assoc]

theorem shownName?_join {root p : Path} {shown : String} (named : p.shownName? = some shown) :
    (root.join p).shownName? = some shown := by
  obtain ⟨name, named, same⟩ := shownName?_eq_some_iff.mp named
  exact shownName?_eq_some_iff.mpr ⟨name, fileName?_join named, same⟩

/-! ## Paths of locations -/

theorem toList_intercalate_slash (l : List String) :
    (String.intercalate "/" l).toList = Text.joined ['/'] (l.map String.toList) := by
  induction l with
  | nil => rfl
  | cons name l ih =>
      cases l with
      | nil => simp [Text.joined]
      | cons next l =>
          rw [String.intercalate_cons_cons, String.toList_append, String.toList_append, ih]
          rfl

theorem pieces_joined_names {names : List String} (nonempty : names ≠ [])
    (isName : ∀ name ∈ names, IsName name) :
    Text.pieces '/' (Text.joined ['/'] (names.map String.toList)) = names.map String.toList := by
  apply Text.pieces_joined
  · simpa using nonempty
  · intro part member
    obtain ⟨name, inside, rfl⟩ := List.mem_map.mp member
    exact (isName name inside).noSlash

theorem segments_relativePath {l : Location} (nonempty : l ≠ [])
    (isName : ∀ name ∈ l, IsName name) : segments (Location.relativePath l) = l := by
  have all_kept : (l.map String.toList).filter (!·.isEmpty) = l.map String.toList := by
    rw [List.filter_eq_self]
    intro piece member
    obtain ⟨name, inside, rfl⟩ := List.mem_map.mp member
    simpa using (isName name inside).nonempty
  rw [segments, Location.relativePath, toList_intercalate_slash,
    pieces_joined_names nonempty isName, all_kept, List.map_map]
  have same : String.ofList ∘ String.toList = id := funext fun _ => String.ofList_toList
  rw [same, List.map_id]

/-- The last name of a location is the name of the file at its path. -/
theorem fileName?_relativePath {l : Location} {name : String} (isName : ∀ other ∈ l, IsName other)
    (last : l.getLast? = some name) : (Location.relativePath l).fileName? = some name := by
  obtain ⟨above, rfl⟩ := List.getLast?_eq_some_iff.mp last
  have named : IsName name := isName name (by simp)
  rw [fileName?_eq_some_iff, components_eq, segments_relativePath (by simp) isName,
    List.filterMap_append, List.filterMap_cons_some named.ofSegment?_eq, ← List.append_assoc]
  exact ⟨_, rfl⟩

/-- The path of a location ends with a character of its last name. -/
theorem getLast?_relativePath {l : Location} (nonempty : l ≠ [])
    (isName : ∀ name ∈ l, IsName name) :
    ∃ last, (Location.relativePath l).toList.getLast? = some last ∧ last ≠ '/' := by
  rw [Location.relativePath, toList_intercalate_slash]
  induction l with
  | nil => exact absurd rfl nonempty
  | cons name l ih =>
      rw [List.forall_mem_cons] at isName
      cases l with
      | nil =>
          have some_chars : name.toList ≠ [] := by simpa using isName.1.nonempty
          refine ⟨_, List.getLast?_eq_some_getLast some_chars, ?_⟩
          intro slash
          exact isName.1.noSlash (slash ▸ List.getLast_mem some_chars)
      | cons next l =>
          obtain ⟨last, ends, other⟩ := ih (List.cons_ne_nil _ _) isName.2
          have split : Text.joined ['/'] ((name :: next :: l).map String.toList) =
              name.toList ++ ['/'] ++ Text.joined ['/'] ((next :: l).map String.toList) := rfl
          refine ⟨last, ?_, other⟩
          rw [split, List.getLast?_append, ends, Option.some_or]

/-- The path of a location leads from the root along its names. -/
theorem steps_absolutePath {l : Location} (nonempty : l ≠ [])
    (isName : ∀ name ∈ l, IsName name) : FileTree.steps (FileTree.absolutePath l) = l := by
  have shape : FileTree.absolutePath l = "" ++ "/" ++ Location.relativePath l := rfl
  obtain ⟨last, ends, other⟩ := getLast?_relativePath nonempty isName
  have whole : (FileTree.absolutePath l).toList.getLast? = some last := by
    rw [shape, String.toList_append, List.getLast?_append, ends, Option.some_or]
  have noSlash : (some last : Option Char) ≠ some '/' := fun same => other (Option.some.inj same)
  have opening : segments "" = [] := by decide
  rw [steps_eq, whole, if_neg noSlash, List.append_nil, shape, segments_append_slash,
    opening, List.nil_append, segments_relativePath nonempty isName]

end Path

end LintGate
