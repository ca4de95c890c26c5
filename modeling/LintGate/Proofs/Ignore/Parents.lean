import LintGate.Ignore
import Mathlib.Data.Nat.Find

/-!
# Excluded directories

Of a file and the directories above it, the nearest that any rule applies to decides. A file below
an excluded directory is therefore excluded unless something nearer to it is taken back, and nothing
between that and the file is excluded again.
-/

namespace LintGate

namespace IgnoreRules

variable {rules : IgnoreRules} {names : List String}

/-! ## The rule that decides -/

/-- The rule applies to the path, and none of the later ones does. -/
def DecidedBy (rules : IgnoreRules) (isDirectory : Bool) (path : Text.Bytes) (rule : IgnoreRule) :
    Prop :=
  ∃ earlier later, rules = earlier ++ rule :: later ∧ rule.appliesTo isDirectory path = true ∧
    ∀ other ∈ later, other.appliesTo isDirectory path = false

theorem verdict_eq_some_iff {isDirectory : Bool} {path : Text.Bytes} {v : Bool} :
    rules.verdict isDirectory path = some v ↔
      ∃ rule, rules.DecidedBy isDirectory path rule ∧ rule.negated = !v := by
  rw [verdict, Option.map_eq_some_iff]
  constructor
  · rintro ⟨rule, found, rfl⟩
    obtain ⟨applies, later, earlier, split, others⟩ := List.find?_eq_some_iff_append.mp found
    refine ⟨rule, ⟨earlier.reverse, later.reverse, ?_, applies, ?_⟩, by simp⟩
    · simpa using congrArg List.reverse split
    · simpa using others
  · rintro ⟨rule, ⟨earlier, later, rfl, applies, others⟩, negated⟩
    refine ⟨rule, ?_, by simp [negated]⟩
    apply List.find?_eq_some_iff_append.mpr
    exact ⟨applies, later.reverse, earlier.reverse, by simp, by simpa using others⟩

/-! ## The file and what is above it -/

/-- The verdict on the first names of a path: all of them name the file, and fewer a directory
above it. -/
def verdictAt (rules : IgnoreRules) (names : List String) (n : Nat) : Option Bool :=
  rules.verdict (n < names.length) (pathBytes (names.take n))

/-- The last rule that applies to the first names of a path excludes what they name. -/
def ExcludesAt (rules : IgnoreRules) (names : List String) (n : Nat) : Prop :=
  ∃ rule, rules.DecidedBy (n < names.length) (pathBytes (names.take n)) rule ∧ rule.negated = false

/-- The last rule that applies to the first names of a path takes exclusions back. -/
def TakesBackAt (rules : IgnoreRules) (names : List String) (n : Nat) : Prop :=
  ∃ rule, rules.DecidedBy (n < names.length) (pathBytes (names.take n)) rule ∧ rule.negated = true

theorem verdictAt_eq_true_iff {n : Nat} :
    rules.verdictAt names n = some true ↔ rules.ExcludesAt names n :=
  verdict_eq_some_iff

theorem verdictAt_eq_false_iff {n : Nat} :
    rules.verdictAt names n = some false ↔ rules.TakesBackAt names n :=
  verdict_eq_some_iff

/-- The verdict of the greatest number of names below a bound that has one. -/
theorem nearestVerdict_eq_some_iff {bound : Nat} (inside : bound ≤ names.length) {v : Bool} :
    rules.nearestVerdict ((List.range bound).reverse.map names.take) = some v ↔
      ∃ n < bound, rules.verdictAt names n = some v ∧
        ∀ m < bound, n < m → rules.verdictAt names m = none := by
  induction bound with
  | zero => simp [nearestVerdict]
  | succ bound ih =>
      have here : rules.verdict true (pathBytes (names.take bound)) =
          rules.verdictAt names bound := by
        rw [verdictAt, decide_eq_true (Nat.lt_of_succ_le inside)]
      rw [List.range_succ, List.reverse_append, List.reverse_singleton, List.singleton_append,
        List.map_cons, nearestVerdict, here]
      cases found : rules.verdictAt names bound with
      | some w =>
          constructor
          · intro same
            refine ⟨bound, Nat.lt_succ_self _, found.trans same, ?_⟩
            intro m below above
            omega
          · rintro ⟨n, below, its, others⟩
            rcases Nat.lt_succ_iff_lt_or_eq.mp below with less | rfl
            · rw [others bound (Nat.lt_succ_self _) less] at found
              cases found
            · exact found.symm.trans its
      | none =>
          dsimp only
          rw [ih (Nat.le_of_succ_le inside)]
          constructor
          · rintro ⟨n, below, its, others⟩
            refine ⟨n, Nat.lt_succ_of_lt below, its, ?_⟩
            intro m bounded above
            rcases Nat.lt_succ_iff_lt_or_eq.mp bounded with less | rfl
            · exact others m less above
            · exact found
          · rintro ⟨n, below, its, others⟩
            rcases Nat.lt_succ_iff_lt_or_eq.mp below with less | rfl
            · exact ⟨n, less, its, fun m bounded => others m (Nat.lt_succ_of_lt bounded)⟩
            · rw [its] at found
              cases found

/-- A file is excluded when the nearest of itself and the directories above it that any rule applies
to is. -/
theorem excludesNames_iff (nonempty : names ≠ []) :
    rules.excludesNames names = true ↔
      ∃ n ≤ names.length, rules.verdictAt names n = some true ∧
        ∀ m ≤ names.length, n < m → rules.verdictAt names m = none := by
  have file : rules.verdict false (pathBytes names) = rules.verdictAt names names.length := by
    rw [verdictAt, decide_eq_false (Nat.lt_irrefl _), List.take_length]
  have some_names : names.isEmpty = false := by simpa using nonempty
  rw [excludesNames, some_names, if_neg Bool.false_ne_true, file]
  cases found : rules.verdictAt names names.length with
  | some v =>
      constructor
      · rintro rfl
        exact ⟨names.length, Nat.le_refl _, found, fun m bounded above => by omega⟩
      · rintro ⟨n, below, its, others⟩
        rcases Nat.lt_or_eq_of_le below with less | rfl
        · rw [others _ (Nat.le_refl _) less] at found
          cases found
        · rw [its] at found
          exact (Option.some_inj.mp found).symm
  | none =>
      have nearest : (rules.nearestVerdict (parents names)).getD false = true ↔
          rules.nearestVerdict (parents names) = some true := by
        cases rules.nearestVerdict (parents names) <;> simp
      rw [nearest, parents, nearestVerdict_eq_some_iff (Nat.le_refl _)]
      constructor
      · rintro ⟨n, below, its, others⟩
        refine ⟨n, Nat.le_of_lt below, its, ?_⟩
        intro m bounded above
        rcases Nat.lt_or_eq_of_le bounded with less | rfl
        · exact others m less above
        · exact found
      · rintro ⟨n, below, its, others⟩
        rcases Nat.lt_or_eq_of_le below with less | rfl
        · exact ⟨n, less, its, fun m bounded => others m (Nat.le_of_lt bounded)⟩
        · rw [its] at found
          cases found

/-- Something has a verdict, so there is a nearest with one. -/
theorem exists_nearest {n : Nat} (inside : n ≤ names.length)
    (decided : rules.verdictAt names n ≠ none) :
    ∃ k ≤ names.length, n ≤ k ∧ rules.verdictAt names k ≠ none ∧
      ∀ m ≤ names.length, k < m → rules.verdictAt names m = none := by
  classical
  refine ⟨Nat.findGreatest (fun k => rules.verdictAt names k ≠ none) names.length,
    Nat.findGreatest_le _, Nat.le_findGreatest inside decided,
    Nat.findGreatest_spec (P := fun k => rules.verdictAt names k ≠ none) inside decided, ?_⟩
  intro m bounded above
  exact Classical.not_not.mp (Nat.findGreatest_is_greatest above bounded)

theorem excludesNames_iff_of_excludesAt {n : Nat} (above : n < names.length)
    (excluded : rules.ExcludesAt names n) :
    rules.excludesNames names = true ↔
      ∀ m ≤ names.length, n < m → rules.TakesBackAt names m →
        ∃ k ≤ names.length, m < k ∧ rules.ExcludesAt names k := by
  have verdict := verdictAt_eq_true_iff.mpr excluded
  rw [excludesNames_iff (List.ne_nil_of_length_pos (Nat.zero_lt_of_lt above))]
  constructor
  · rintro ⟨k, inside, its, others⟩ m bounded - takesBack
    rw [← verdictAt_eq_false_iff] at takesBack
    rcases Nat.lt_trichotomy m k with less | rfl | greater
    · exact ⟨k, inside, less, verdictAt_eq_true_iff.mp its⟩
    · rw [its] at takesBack
      cases takesBack
    · rw [others m bounded greater] at takesBack
      cases takesBack
  · -- The nearest of those with a verdict cannot be taken back: nothing is excluded beyond it.
    intro coversAgain
    obtain ⟨k, inside, further, decided, others⟩ :=
      exists_nearest (Nat.le_of_lt above) (by rw [verdict]; simp)
    refine ⟨k, inside, ?_, others⟩
    cases its : rules.verdictAt names k with
    | none => exact absurd its decided
    | some v =>
        cases v with
        | true => rfl
        | false =>
            have beyond : n < k := by
              rcases Nat.lt_or_eq_of_le further with less | rfl
              · exact less
              · rw [verdict] at its
                cases its
            obtain ⟨nearer, bounded, less, again⟩ :=
              coversAgain k inside beyond (verdictAt_eq_false_iff.mp its)
            rw [← verdictAt_eq_true_iff, others nearer bounded less] at again
            cases again

/-- Without rules that take back, nothing is taken back. -/
theorem not_takesBackAt {n : Nat} (plain : ∀ rule ∈ rules, rule.negated = false) :
    ¬ rules.TakesBackAt names n := by
  rintro ⟨rule, ⟨earlier, later, rfl, -⟩, negated⟩
  rw [plain rule (by simp)] at negated
  cases negated

/-- A file below an excluded directory is excluded exactly when everything between the two that is
taken back has something excluded between itself and the file, or the file is excluded itself. So it
is wherever no rule takes anything back. -/
theorem excludes_iff_of_excluded_directory {rules : IgnoreRules} {path : Path} {n : Nat}
    (above : n < path.names.length) (excluded : rules.ExcludesAt path.names n) :
    (rules.excludes path = true ↔
      ∀ m ≤ path.names.length, n < m → rules.TakesBackAt path.names m →
        ∃ k ≤ path.names.length, m < k ∧ rules.ExcludesAt path.names k) ∧
    ((∀ rule ∈ rules, rule.negated = false) → rules.excludes path = true) := by
  have covered := excludesNames_iff_of_excludesAt above excluded
  refine ⟨covered, fun plain => covered.mpr ?_⟩
  intro m _ _ takesBack
  exact absurd takesBack (not_takesBackAt plain)

section TakenBack

/-- A rule takes back one file below an excluded directory. -/
def keepingRules : IgnoreRules :=
  ofLines ["vendor/", "!vendor/keep.go"]

/-- A directory is excluded by the last rule that applies to it, and yet a file in it is not. -/
theorem excludes_keeps_file_of_excluded_directory :
    Path.names "vendor/keep.go" = ["vendor", "keep.go"] ∧
      keepingRules.ExcludesAt ["vendor", "keep.go"] 1 ∧
      keepingRules.excludes "vendor/keep.go" = false := by
  have directory : keepingRules.verdictAt ["vendor", "keep.go"] 1 = some true := by
    decide +kernel
  exact ⟨by decide +kernel, verdictAt_eq_true_iff.mp directory, by decide +kernel⟩

/-- A directory below an excluded one is taken back, and some of its files are excluded again. -/
def nestedRules : IgnoreRules :=
  ofLines ["vendor/", "!vendor/lib/", "*.gen.go"]

theorem excludes_again_below_excluded_directory :
    1 < (Path.names "vendor/lib/a.gen.go").length ∧
      nestedRules.ExcludesAt (Path.names "vendor/lib/a.gen.go") 1 ∧
      nestedRules.TakesBackAt (Path.names "vendor/lib/a.gen.go") 2 ∧
      nestedRules.excludes "vendor/lib/a.gen.go" = true ∧
      nestedRules.ExcludesAt (Path.names "vendor/lib/a.go") 1 ∧
      nestedRules.excludes "vendor/lib/a.go" = false := by
  have directory : nestedRules.ExcludesAt (Path.names "vendor/lib/a.gen.go") 1 :=
    verdictAt_eq_true_iff.mp (by decide +kernel)
  have takenBack : nestedRules.TakesBackAt (Path.names "vendor/lib/a.gen.go") 2 :=
    verdictAt_eq_false_iff.mp (by decide +kernel)
  have file : nestedRules.ExcludesAt (Path.names "vendor/lib/a.gen.go") 3 :=
    verdictAt_eq_true_iff.mp (by decide +kernel)
  have directory' : nestedRules.ExcludesAt (Path.names "vendor/lib/a.go") 1 :=
    verdictAt_eq_true_iff.mp (by decide +kernel)
  have takenBack' : nestedRules.TakesBackAt (Path.names "vendor/lib/a.go") 2 :=
    verdictAt_eq_false_iff.mp (by decide +kernel)
  have names : (Path.names "vendor/lib/a.gen.go").length = 3 := by decide +kernel
  have names' : (Path.names "vendor/lib/a.go").length = 3 := by decide +kernel
  have above : 1 < (Path.names "vendor/lib/a.gen.go").length := by omega
  have above' : 1 < (Path.names "vendor/lib/a.go").length := by omega
  refine ⟨above, directory, takenBack, ?_, directory', ?_⟩
  · refine (excludes_iff_of_excluded_directory above directory).1.mpr ?_
    intro m bounded _ its
    rcases Nat.lt_or_eq_of_le bounded with less | rfl
    · exact ⟨3, by omega, by omega, file⟩
    · rw [names, ← verdictAt_eq_false_iff, verdictAt_eq_true_iff.mpr file] at its
      cases its
  · rw [Bool.eq_false_iff, ne_eq, (excludes_iff_of_excluded_directory above' directory').1]
    intro again
    obtain ⟨k, bounded, less, its⟩ := again 2 (by omega) (by omega) takenBack'
    have last : k = 3 := by omega
    have silent : nestedRules.verdictAt (Path.names "vendor/lib/a.go") 3 = none := by
      decide +kernel
    rw [last, ← verdictAt_eq_true_iff, silent] at its
    cases its

end TakenBack

end IgnoreRules

end LintGate
