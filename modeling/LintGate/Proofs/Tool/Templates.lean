import LintGate.Tool.Catalog
import Mathlib.Data.List.Induction
import Mathlib.Data.List.Nodup

/-!
# Arguments by version

A table of arguments is keyed by thresholds. `ByVersion.choose` takes the entry with the greatest
threshold that the installed version reaches, of equal thresholds the last, so the order of the
table does not matter when its thresholds are distinct.
-/

namespace LintGate

namespace ByVersion

variable {table other : List ByVersion} {major : Nat} {e : ByVersion}

theorem best?_concat (major : Nat) (table : List ByVersion) (e : ByVersion) :
    best? major (table ++ [e]) =
      if e.minMajor ≤ major && ((best? major table).all fun b => b.minMajor ≤ e.minMajor) then
        some e
      else best? major table := by
  rw [best?, List.foldl_append]
  rfl

theorem best?_eq_none_iff : best? major table = none ↔ ∀ e ∈ table, major < e.minMajor := by
  induction table using List.reverseRecOn with
  | nil => simp [best?]
  | append_singleton table e ih =>
      rw [best?_concat, List.forall_mem_append, List.forall_mem_singleton, ← ih]
      split
      case isTrue reached =>
        simp only [Bool.and_eq_true, decide_eq_true_eq] at reached
        simp [Nat.not_lt_of_le reached.1]
      case isFalse missed =>
        constructor
        · intro nothing
          rw [nothing] at missed
          exact ⟨nothing, by simpa using missed⟩
        · exact And.left

/-- The best entry is reached, and no entry that is reached has a greater threshold. -/
theorem best?_eq_some (found : best? major table = some e) :
    e ∈ table ∧ e.minMajor ≤ major ∧
      ∀ other ∈ table, other.minMajor ≤ major → other.minMajor ≤ e.minMajor := by
  induction table using List.reverseRecOn generalizing e with
  | nil => cases found
  | append_singleton table last ih =>
      rw [best?_concat] at found
      simp only [List.mem_append, List.mem_singleton, or_imp, forall_and, forall_eq]
      split at found
      case isTrue reached =>
        cases found
        simp only [Bool.and_eq_true, decide_eq_true_eq] at reached
        refine ⟨.inr rfl, reached.1, ?_, fun _ => Nat.le_refl _⟩
        intro other member fits
        cases before : best? major table with
        | none => exact absurd fits (Nat.not_le_of_lt (best?_eq_none_iff.mp before other member))
        | some b =>
            obtain ⟨-, -, greatest⟩ := ih before
            have above : b.minMajor ≤ last.minMajor := by simpa [before] using reached.2
            exact Nat.le_trans (greatest other member fits) above
      case isFalse missed =>
        obtain ⟨member, fits, greatest⟩ := ih found
        refine ⟨.inl member, fits, greatest, ?_⟩
        intro last_fits
        simp only [found, Option.all_some, Bool.and_eq_true, decide_eq_true_eq] at missed
        omega

theorem best?_perm (same : table.Perm other) (distinct : (table.map minMajor).Nodup) :
    best? major table = best? major other := by
  cases first : best? major table with
  | none =>
      rw [eq_comm, best?_eq_none_iff]
      intro e member
      exact best?_eq_none_iff.mp first e (same.mem_iff.mpr member)
  | some e =>
      obtain ⟨member, fits, greatest⟩ := best?_eq_some first
      cases second : best? major other with
      | none =>
          have missed := best?_eq_none_iff.mp second e (same.mem_iff.mp member)
          exact absurd fits (Nat.not_le_of_lt missed)
      | some d =>
          obtain ⟨member', fits', greatest'⟩ := best?_eq_some second
          have equal : e.minMajor = d.minMajor := Nat.le_antisymm
            (greatest' e (same.mem_iff.mp member) fits)
            (greatest d (same.mem_iff.mpr member') fits')
          rw [List.inj_on_of_nodup_map distinct member (same.mem_iff.mpr member') equal]

/-- What a table offers to an installed major version, if that is known. -/
inductive Offers (base : List String) (table : List ByVersion) :
    Option Nat → List String → Prop where
  | unknown : Offers base table none base
  | below {major : Nat} (missed : ∀ e ∈ table, major < e.minMajor) :
      Offers base table (some major) base
  | entry {major : Nat} {e : ByVersion} (member : e ∈ table) (reached : e.minMajor ≤ major)
      (greatest : ∀ other ∈ table, other.minMajor ≤ major → other.minMajor ≤ e.minMajor) :
      Offers base table (some major) e.args

theorem offers_choose (base : List String) (table : List ByVersion) (major : Option Nat) :
    Offers base table major (choose base table major) := by
  cases major with
  | none => exact .unknown
  | some major =>
      rw [choose, Option.bind_some]
      split
      case h_1 e found =>
        obtain ⟨member, reached, greatest⟩ := best?_eq_some found
        exact .entry member reached greatest
      case h_2 nothing => exact .below (best?_eq_none_iff.mp nothing)

theorem choose_perm (same : table.Perm other) (distinct : (table.map minMajor).Nodup)
    (base : List String) (major : Option Nat) :
    choose base table major = choose base other major := by
  cases major with
  | none => rfl
  | some major => rw [choose, choose, Option.bind_some, Option.bind_some, best?_perm same distinct]

end ByVersion

namespace Tool

theorem needsVersion_eq_false_iff {tool : Tool} : tool.needsVersion = false ↔
    tool.versioned = [] ∧ ∀ rule ∈ tool.recovery, rule.versioned = [] := by
  rw [needsVersion, Bool.or_eq_false_iff, Bool.not_eq_false', List.isEmpty_iff]
  cases tool.recovery <;> simp

/-- A tool that is not asked for its version is called alike in all versions. -/
theorem checkArgs_eq {tool : Tool} (unasked : tool.needsVersion = false) (major : Option Nat) :
    tool.checkArgs major = tool.check := by
  rw [checkArgs, (needsVersion_eq_false_iff.mp unasked).1, ByVersion.choose_nil]

theorem argsFor_eq {tool : Tool} (unasked : tool.needsVersion = false) {rule : RecoveryRule}
    (own : rule ∈ tool.recovery) (major : Option Nat) : rule.argsFor major = rule.overrideArgs := by
  rw [RecoveryRule.argsFor, (needsVersion_eq_false_iff.mp unasked).2 rule own,
    ByVersion.choose_nil]

end Tool

end LintGate
