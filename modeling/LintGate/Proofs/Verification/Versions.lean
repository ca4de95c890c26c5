import LintGate.Proofs.Process.History
import LintGate.Proofs.Tool.Templates
import LintGate.Tool.Resolver
import LintGate.Verification

/-!
# Versions and invocations

Only the arguments of a tool depend on its version, and they are looked up in its tables. A tool
without tables is not asked for its version, and what is done with it is the same in all versions.
-/

namespace LintGate

namespace Stage

/-- The same stage with another version of its tool installed. -/
def withVersion (s : Stage) (version : Option Version) : Stage :=
  { s with tool := { s.tool with version } }

variable {s : Stage} (version : Option Version)

theorem repair_withVersion (invs : List Invocation) :
    (s.withVersion version).repair invs = s.repair invs := by
  induction invs with
  | nil => rfl
  | cons inv invs ih =>
      rw [repair, repair, ih]
      rfl

section Unasked

variable (unasked : s.tool.tool.needsVersion = false)

include unasked

theorem checkArgs_withVersion : (s.withVersion version).checkArgs = s.checkArgs := by
  have same : (s.withVersion version).tool.tool.checkArgs (s.withVersion version).tool.major =
      s.tool.tool.checkArgs s.tool.major :=
    (Tool.checkArgs_eq unasked _).trans (Tool.checkArgs_eq unasked _).symm
  rw [checkArgs, checkArgs, same]
  rfl

theorem overrideArgs_withVersion : (s.withVersion version).overrideArgs = s.overrideArgs := by
  have same (rule : RecoveryRule) (own : rule ∈ s.tool.tool.recovery) :
      rule.argsFor (s.withVersion version).tool.major = rule.argsFor s.tool.major :=
    (Tool.argsFor_eq unasked own _).trans (Tool.argsFor_eq unasked own _).symm
  rw [overrideArgs, overrideArgs]
  exact congrArg (Option.getD · []) (Option.map_congr same)

theorem stillConfigError_withVersion (output : String) :
    (s.withVersion version).stillConfigError output = s.stillConfigError output := by
  unfold stillConfigError
  rw [overrideArgs_withVersion version unasked]

theorem recoveryInvocations_withVersion :
    (s.withVersion version).recoveryInvocations = s.recoveryInvocations := by
  rw [recoveryInvocations, recoveryInvocations, checkArgs_withVersion version unasked,
    overrideArgs_withVersion version unasked]
  rfl

theorem checkWithout_withVersion (invs : List Invocation) (tally : Tally) :
    (s.withVersion version).checkWithout invs tally = s.checkWithout invs tally := by
  induction invs generalizing tally with
  | nil => rfl
  | cons inv invs ih =>
      simp only [checkWithout, ih, stillConfigError_withVersion version unasked]
      rfl

theorem checkWith_withVersion (invs : List Invocation) (tally : Tally) :
    (s.withVersion version).checkWith invs tally = s.checkWith invs tally := by
  induction invs generalizing tally with
  | nil => rfl
  | cons inv invs ih =>
      simp only [checkWith, ih, recoveryInvocations_withVersion version unasked,
        checkWithout_withVersion version unasked]
      rfl

theorem verify_withVersion (withoutConfig : Bool) :
    (s.withVersion version).verify withoutConfig = s.verify withoutConfig := by
  simp only [verify, checkWith_withVersion version unasked,
    checkWithout_withVersion version unasked, recoveryInvocations_withVersion version unasked,
    checkArgs_withVersion version unasked]
  rfl

theorem perform_withVersion : (s.withVersion version).perform = s.perform := by
  simp only [perform, verify_withVersion version unasked, repair_withVersion version,
    overrideArgs_withVersion version unasked]
  rfl

end Unasked

end Stage

theorem Binding.verify_eq_of_needsVersion {tool : Tool} (unasked : tool.needsVersion = false)
    (role : Role) (candidates : List String) (program : Path) (version other : Option Version)
    (files : List Path) (options : StageOptions) :
    (⟨role, candidates, some ⟨tool, program, version⟩⟩ : Binding).verify files options =
      (⟨role, candidates, some ⟨tool, program, other⟩⟩ : Binding).verify files options := by
  let s : Stage := ⟨⟨tool, program, other⟩, role, files, options⟩
  have same : (s.withVersion version).perform = s.perform := s.perform_withVersion version unasked
  exact congrArg (fun job => if files.isEmpty then Job.done Verified.clean else job) same

/-- A tool that was found has been asked for its version when its arguments depend on that, and not
otherwise. -/
theorem Resolver.history_eq_nil_iff {r : Resolver} {tool : Tool} {history : History}
    {installed : InstalledTool} (ends : (r.findTool tool).EndsWith history (some installed)) :
    history = [] ↔ tool.needsVersion = false := by
  obtain ⟨t, ends⟩ := Job.look_endsWith_iff.mp ends
  split at ends
  case h_1 => cases ends
  case h_2 =>
    split at ends
    case isTrue needed =>
      obtain ⟨outcome, later, rfl, -⟩ := Job.run_endsWith_iff.mp ends
      simp [needed]
    case isFalse unasked =>
      obtain ⟨rfl, -⟩ := Job.done_endsWith_iff.mp ends
      simpa using unasked

/-- A tool is checked, and does without its configuration, with the arguments that its tables offer
to the installed version, in whatever order they stand there. A tool that is not asked for its
version has no tables, and its role is carried out alike in all versions. -/
theorem Tool.arguments_follow_version (tool : Tool) (rule : RecoveryRule) :
    ((∀ major, ByVersion.Offers tool.check tool.versioned major (tool.checkArgs major)) ∧
      ∀ major, ByVersion.Offers rule.overrideArgs rule.versioned major (rule.argsFor major)) ∧
    ((∀ table, tool.versioned.Perm table → (tool.versioned.map ByVersion.minMajor).Nodup →
        ∀ major, ({ tool with versioned := table } : Tool).checkArgs major = tool.checkArgs major) ∧
      ∀ table, rule.versioned.Perm table → (rule.versioned.map ByVersion.minMajor).Nodup →
        ∀ major, ({ rule with versioned := table } : RecoveryRule).argsFor major =
          rule.argsFor major) ∧
    (∀ (r : Resolver) history installed, (r.findTool tool).EndsWith history (some installed) →
      (history = [] ↔ tool.needsVersion = false)) ∧
    (tool.needsVersion = false →
      ∀ role candidates program version other files options,
        (⟨role, candidates, some ⟨tool, program, version⟩⟩ : Binding).verify files options =
          (⟨role, candidates, some ⟨tool, program, other⟩⟩ : Binding).verify files options) := by
  refine ⟨⟨ByVersion.offers_choose _ _, ByVersion.offers_choose _ _⟩, ⟨?_, ?_⟩, ?_, ?_⟩
  · intro table same distinct major
    exact (ByVersion.choose_perm same distinct tool.check major).symm
  · intro table same distinct major
    exact (ByVersion.choose_perm same distinct rule.overrideArgs major).symm
  · intro r history installed ends
    exact Resolver.history_eq_nil_iff ends
  · exact Binding.verify_eq_of_needsVersion

/-- A linter whose arguments have changed three times, listed in no order. -/
def restlessLinter : Tool :=
  { Tool.eslint with
    versioned := [⟨4, ["--four"]⟩, ⟨9, ["--nine"]⟩, ⟨2, ["--two"]⟩] }

def linterTree : FileTree :=
  ⟨.dir [("bin", .dir [("eslint", .file (Text.encode "#!/bin/sh\n") 0o755)])], []⟩

theorem Tool.arguments_follow_version_of_linters :
    restlessLinter.checkArgs (some 8) = ["--four"] ∧
      restlessLinter.versioned.Perm [⟨2, ["--two"]⟩, ⟨4, ["--four"]⟩, ⟨9, ["--nine"]⟩] ∧
      (restlessLinter.versioned.map ByVersion.minMajor).Nodup ∧
      ({ restlessLinter with
          versioned := [⟨2, ["--two"]⟩, ⟨4, ["--four"]⟩, ⟨9, ["--nine"]⟩] } : Tool).checkArgs
            (some 8) =
        restlessLinter.checkArgs (some 8) ∧
      (∃ history installed, ((⟨"/bin", "/"⟩ : Resolver).findTool restlessLinter).EndsWith history
        (some installed) ∧ history ≠ []) ∧
      Tool.ruff.needsVersion = false ∧
      (⟨.linter, ["ruff"], some ⟨Tool.ruff, "/bin/ruff", some ⟨0, 4, 1⟩⟩⟩ : Binding).verify ["a.py"]
          ⟨"/", "python", none, true, ["F401"]⟩ =
        (⟨.linter, ["ruff"], some ⟨Tool.ruff, "/bin/ruff", none⟩⟩ : Binding).verify ["a.py"]
          ⟨"/", "python", none, true, ["F401"]⟩ := by
  obtain ⟨⟨offers, -⟩, ⟨in_any_order, -⟩, asked, -⟩ :=
    Tool.arguments_follow_version restlessLinter RecoveryRule.eslint
  obtain ⟨-, -, -, alike⟩ := Tool.arguments_follow_version Tool.ruff RecoveryRule.ruff
  have reordered : restlessLinter.versioned.Perm
      [⟨2, ["--two"]⟩, ⟨4, ["--four"]⟩, ⟨9, ["--nine"]⟩] := by decide
  have distinct : (restlessLinter.versioned.map ByVersion.minMajor).Nodup := by decide
  have unasked : Tool.ruff.needsVersion = false := by decide
  refine ⟨?_, reordered, distinct, in_any_order _ reordered distinct _, ?_, unasked,
    alike unasked _ _ _ _ _ _ _⟩
  · have served := offers (some 8)
    generalize restlessLinter.checkArgs (some 8) = args at served
    cases served with
    | below missed => exact absurd (missed ⟨4, ["--four"]⟩ (by decide)) (by decide)
    | entry member reached greatest =>
        have atLeast := greatest ⟨4, ["--four"]⟩ (by decide) (by decide)
        rcases List.mem_cons.mp member with rfl | member
        · rfl
        · rcases List.mem_pair.mp member with rfl | rfl
          · exact absurd reached (by decide)
          · exact absurd atLeast (by decide)
  · let r : Resolver := ⟨"/bin", "/"⟩
    have there : r.programs? linterTree restlessLinter = some ("/bin/eslint", "/bin/eslint") := by
      decide +kernel
    have ends : (r.findTool restlessLinter).EndsWith
        [(r.versionLaunch "/bin/eslint", .exited (some 0) "v8.57.0")]
        (some ⟨restlessLinter, "/bin/eslint", some ⟨8, 57, 0⟩⟩) := by
      refine Job.look_endsWith_iff.mpr ⟨linterTree, ?_⟩
      rw [there]
      have read : Resolver.versionFrom (.exited (some 0) "v8.57.0") = some ⟨8, 57, 0⟩ := by decide
      exact read ▸ .run (.done _)
    refine ⟨_, _, ends, ?_⟩
    rw [Ne, asked r _ _ ends]
    decide

end LintGate
