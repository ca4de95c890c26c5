import LintGate.Proofs.Glob.Literal
import LintGate.Proofs.Path.Names
import LintGate.Selection

/-!
# Rules for directories by name

A rule that consists of an ASCII name and a slash excludes the files below every directory of that
name.
The rules for the directories that are never looked into are of this kind, so they agree with what
a walk skips.
-/

namespace LintGate

/-- The name of an entry in ASCII. Its bytes are those of no other name. -/
structure IsAsciiName (name : String) : Prop extends Path.IsName name where
  ascii : ∀ c ∈ name.toList, c ≠ Text.escape ∧ c.toNat < 0x80

namespace IgnoreRule

/-- The rule for all directories of a name. -/
def forDirectory (name : String) : IgnoreRule where
  glob := Glob.anywhere name.toList
  directoriesOnly := true

theorem forDirectory_appliesTo_file (name : String) (path : Text.Bytes) :
    (forDirectory name).appliesTo false path = false := rfl

/-- The rule for a name applies to a directory exactly when that is its name. -/
theorem forDirectory_appliesTo_iff {name : String} (named : IsAsciiName name)
    {names : List String} (isName : ∀ other ∈ names, Path.IsName other) :
    (forDirectory name).appliesTo true (IgnoreRules.pathBytes names) = true ↔
      names.getLast? = some name := by
  have nonempty : name.toList ≠ [] := by simpa using named.nonempty
  have unfolded : (forDirectory name).appliesTo true (IgnoreRules.pathBytes names) =
      (Glob.anywhere name.toList).accepts (IgnoreRules.pathBytes names) := rfl
  rw [unfolded, Glob.accepts_anywhere_iff nonempty, IgnoreRules.pathBytes,
    Glob.encodeChars_mem_ends_iff named.noSlash named.ascii]
  by_cases root : names = []
  · subst root
    constructor
    · intro same
      have none_left : [] = name.toList := by simpa [Text.joined, Text.pieces] using same
      exact absurd none_left.symm nonempty
    · intro same
      cases same
  · rw [Path.pieces_joined_names root isName, List.getLast?_map]
    constructor
    · intro same
      obtain ⟨last, found, equal⟩ := Option.map_eq_some_iff.mp same
      rw [found, String.toList_inj.mp equal]
    · intro same
      rw [same]
      rfl

end IgnoreRule

namespace IgnoreRules

/-- The rules for the directories of some names. -/
def forDirectories (names : List String) : IgnoreRules :=
  names.map IgnoreRule.forDirectory

theorem verdict_forDirectories_file (skipped : List String) (path : Text.Bytes) :
    (forDirectories skipped).verdict false path = none := by
  rw [verdict, Option.map_eq_none_iff, List.find?_eq_none]
  intro rule member
  rw [List.mem_reverse] at member
  obtain ⟨name, -, rfl⟩ := List.mem_map.mp member
  simp [IgnoreRule.forDirectory_appliesTo_file]

/-- These rules exclude the directories of their names and take nothing back. -/
theorem verdict_forDirectories_iff {skipped names : List String} {v : Bool}
    (skippedName : ∀ name ∈ skipped, IsAsciiName name)
    (isName : ∀ name ∈ names, Path.IsName name) :
    (forDirectories skipped).verdict true (pathBytes names) = some v ↔
      v = true ∧ ∃ name ∈ skipped, names.getLast? = some name := by
  rw [verdict, Option.map_eq_some_iff]
  constructor
  · rintro ⟨rule, found, rfl⟩
    have member := List.mem_of_find?_eq_some found
    have applies := List.find?_some found
    rw [List.mem_reverse] at member
    obtain ⟨name, inside, rfl⟩ := List.mem_map.mp member
    exact ⟨rfl, name, inside,
      (IgnoreRule.forDirectory_appliesTo_iff (skippedName name inside) isName).mp applies⟩
  · rintro ⟨rfl, name, inside, last⟩
    have applies : ∃ rule ∈ (forDirectories skipped).reverse,
        rule.appliesTo true (pathBytes names) = true := by
      refine ⟨IgnoreRule.forDirectory name, ?_, ?_⟩
      · rw [List.mem_reverse]
        exact List.mem_map_of_mem inside
      · exact (IgnoreRule.forDirectory_appliesTo_iff (skippedName name inside) isName).mpr last
    obtain ⟨rule, found⟩ := Option.isSome_iff_exists.mp (List.find?_isSome.mpr applies)
    have member := List.mem_of_find?_eq_some found
    rw [List.mem_reverse] at member
    obtain ⟨other, -, rfl⟩ := List.mem_map.mp member
    exact ⟨_, found, rfl⟩

theorem nearestVerdict_forDirectories_iff {skipped : List String} {above : List (List String)}
    (skippedName : ∀ name ∈ skipped, IsAsciiName name)
    (isName : ∀ names ∈ above, ∀ name ∈ names, Path.IsName name) :
    ((forDirectories skipped).nearestVerdict above).getD false = true ↔
      ∃ names ∈ above, ∃ name ∈ skipped, names.getLast? = some name := by
  induction above with
  | nil => simp [nearestVerdict]
  | cons names above ih =>
      rw [List.forall_mem_cons] at isName
      have decided (v : Bool) := verdict_forDirectories_iff (v := v) skippedName isName.1
      rw [nearestVerdict]
      cases found : (forDirectories skipped).verdict true (pathBytes names) with
      | some v =>
          obtain ⟨rfl, here⟩ := (decided v).mp found
          simp [here]
      | none =>
          have elsewhere : ¬ ∃ name ∈ skipped, names.getLast? = some name := by
            intro here
            rw [(decided true).mpr ⟨rfl, here⟩] at found
            cases found
          simp only [ih isName.2, List.mem_cons, exists_eq_or_imp, or_iff_right elsewhere]

theorem mem_parents_iff {names above : List String} :
    above ∈ parents names ↔ ∃ n < names.length, above = names.take n := by
  simp [parents, eq_comm]

/-- The directories above a file are named by all of its names but the last. -/
theorem exists_parent_getLast?_iff {names : List String} {dir : String} :
    (∃ above ∈ parents names, above.getLast? = some dir) ↔ dir ∈ names.dropLast := by
  constructor
  · rintro ⟨above, member, last⟩
    obtain ⟨n, shorter, rfl⟩ := mem_parents_iff.mp member
    have inside := List.mem_of_getLast? last
    have same : names.take n = names.dropLast.take n := by
      rw [List.dropLast_eq_take, List.take_take, Nat.min_eq_left (by omega)]
    rw [same] at inside
    exact List.mem_of_mem_take inside
  · intro member
    obtain ⟨front, back, split⟩ := List.append_of_mem member
    have long : front.length + 1 < names.length := by
      have lengths := congrArg List.length split
      rw [List.length_dropLast, List.length_append, List.length_cons] at lengths
      omega
    refine ⟨names.take (front.length + 1), mem_parents_iff.mpr ⟨_, long, rfl⟩, ?_⟩
    have same : names.take (front.length + 1) = names.dropLast.take (front.length + 1) := by
      rw [List.dropLast_eq_take, List.take_take, Nat.min_eq_left (by omega)]
    rw [same, split, List.take_append, List.take_of_length_le (by omega)]
    simp

/-- Rules for directories exclude the files below a directory of one of the names. -/
theorem excludes_forDirectories_iff {skipped : List String}
    (skippedName : ∀ name ∈ skipped, IsAsciiName name) {p : Path} :
    (forDirectories skipped).excludes p = true ↔ ∃ dir ∈ p.names.dropLast, dir ∈ skipped := by
  rw [excludes, excludesNames]
  split
  case isTrue none_left =>
    rw [List.isEmpty_iff.mp none_left]
    simp
  case isFalse =>
    have isName : ∀ above ∈ parents p.names, ∀ name ∈ above, Path.IsName name := by
      intro above member name inside
      obtain ⟨n, -, rfl⟩ := mem_parents_iff.mp member
      exact Path.isName_of_mem_names (List.mem_of_mem_take inside)
    rw [verdict_forDirectories_file]
    dsimp only
    rw [nearestVerdict_forDirectories_iff skippedName isName]
    constructor
    · rintro ⟨above, member, name, inside, last⟩
      exact ⟨name, exists_parent_getLast?_iff.mp ⟨above, member, last⟩, inside⟩
    · rintro ⟨dir, member, inside⟩
      obtain ⟨above, higher, last⟩ := exists_parent_getLast?_iff.mpr member
      exact ⟨above, higher, dir, inside, last⟩

end IgnoreRules

/-! ## Directories that are never looked into -/

theorem skippedDirRules_eq : skippedDirRules = IgnoreRules.forDirectories skippedDirs := rfl

theorem isAsciiName_of_mem_skippedDirs : ∀ name ∈ skippedDirs, IsAsciiName name := by
  -- Asked as a test, for with all of Mathlib a claim on all characters is decided by trying each
  -- one.
  have checked : ∀ name ∈ skippedDirs, name ≠ "" ∧ '/' ∉ name.toList ∧ name ≠ "." ∧ name ≠ ".." ∧
      (name.toList.all fun c => c ≠ Text.escape && c.toNat < 0x80) = true := by decide
  intro name member
  obtain ⟨nonempty, noSlash, notHere, notUp, ascii⟩ := checked name member
  refine ⟨⟨nonempty, noSlash, notHere, notUp⟩, fun c inside => ?_⟩
  simpa using List.all_eq_true.mp ascii c inside

/-- The files below skipped directories are excluded, and no others. -/
theorem skippedDirRules_excludes_iff {p : Path} :
    skippedDirRules.excludes p = true ↔ ∃ dir ∈ p.names.dropLast, dir ∈ skippedDirs := by
  rw [skippedDirRules_eq]
  exact IgnoreRules.excludes_forDirectories_iff isAsciiName_of_mem_skippedDirs

end LintGate
