import LintGate.Proofs.Verification.Tallies

/-!
# Recovery from unreadable configuration

A check whose text is taken for a failure to load the configuration is not reported; others are run
in its place. `Binding.verify_failed_iff_of_report` says when a violation that the check did report
is still seen.
-/

namespace LintGate

namespace Stage

variable {s : Stage}

/-- The tool ran to its end and found violations: its exit code is neither 0 nor one of those that
mean that it could not do its work. -/
def Reports (s : Stage) (a : Attempt) : Prop :=
  ∃ code output, a.outcome = .exited (some code) output ∧ code ≠ 0 ∧
    code ∉ s.tool.tool.failureCodes

/-- Once a stage checks with the configuration, none of its repairs has failed. -/
theorem Performs.repairs_pass {attempts : List Attempt} {v : Verified}
    (performs : s.Performs attempts v) {check : Attempt} (member : check ∈ attempts)
    (checking : check.mode = .check) :
    ∀ a ∈ attempts, a.mode = .repair ∨ a.mode = .repairWithout → s.Passes a := by
  cases performs with
  | unrepaired _ checks =>
      intro a inside repairing
      have mode := checks.mode_eq a inside
      rcases repairing with same | same <;> simp [same] at mode
  | repaired _ repairs checks =>
      intro a inside repairing
      rcases List.mem_append.mp inside with fixed | checked
      · exact (repairs.failed_iff (.inl rfl)).mp (by simp) a fixed
      · have mode := checks.mode_eq a checked
        rcases repairing with same | same <;> simp [same] at mode
  | repairFailed _ repairs =>
      have mode := repairs.mode_eq check member
      simp [checking] at mode
  | retryFailed _ repairs retries =>
      rcases List.mem_append.mp member with fixed | retried
      · have mode := repairs.mode_eq check fixed
        simp [checking] at mode
      · have mode := retries.mode_eq check retried
        simp [checking] at mode
  | bypassed _ repairs retries _ checks =>
      rcases List.mem_append.mp member with fixed | later
      · have mode := repairs.mode_eq check fixed
        simp [checking] at mode
      · rcases List.mem_append.mp later with retried | checked
        · have mode := retries.mode_eq check retried
          simp [checking] at mode
        · have mode := checks.mode_eq check checked
          simp [checking] at mode

/-- A stage that checks with the configuration is clean exactly when each such check is clean or
taken for a failure to load the configuration, and each check without it is clean. -/
theorem Performs.eq_clean_iff_of_check {attempts : List Attempt} {v : Verified}
    (performs : s.Performs attempts v) {check : Attempt} (member : check ∈ attempts)
    (checking : check.mode = .check) :
    v = .clean ↔
      (∀ a ∈ attempts, a.mode = .check → s.evaluation a = .clean ∨ s.failsToLoad a = true) ∧
        ∀ a ∈ attempts, a.mode = .checkWithout → s.evaluation a = .clean := by
  rw [performs.eq_clean_iff]
  constructor
  · intro passes
    constructor
    · intro a inside mode
      simpa [Passes, mode] using passes a inside
    · intro a inside mode
      simpa [Passes, mode] using passes a inside
  · rintro ⟨checks, retries⟩ a inside
    cases mode : a.mode with
    | repair => exact performs.repairs_pass member checking a inside (.inl mode)
    | repairWithout => exact performs.repairs_pass member checking a inside (.inr mode)
    | check => simpa [Passes, mode] using checks a inside mode
    | checkWithout => simpa [Passes, mode] using retries a inside mode

theorem Performs.failed_iff_of_check {attempts : List Attempt} {v : Verified}
    (performs : s.Performs attempts v) {check : Attempt} (member : check ∈ attempts)
    (checking : check.mode = .check) :
    (∃ findings, v = .failed findings) ↔
      (∃ a ∈ attempts, a.mode = .check ∧ s.evaluation a ≠ .clean ∧ s.failsToLoad a = false) ∨
        ∃ a ∈ attempts, a.mode = .checkWithout ∧ s.evaluation a ≠ .clean := by
  have failed : (∃ findings, v = .failed findings) ↔ v ≠ .clean := by
    cases v <;> simp
  rw [failed, ne_eq, performs.eq_clean_iff_of_check member checking,
    Classical.not_and_iff_not_or_not]
  simp only [Classical.not_forall, not_or, Bool.not_eq_true, exists_prop]

end Stage

/-- When a check with the configuration reported a violation, its binding fails exactly when one of
these checks is neither clean nor taken for a failure to load the configuration, or a check that
does without the configuration is not clean. -/
theorem Binding.verify_failed_iff_of_report {b : Binding} {tool : InstalledTool}
    {files : List Path} {options : StageOptions} {history : History} {v : Verified}
    (installed : b.installed = some tool) (nonempty : files ≠ [])
    (ends : (b.verify files options).EndsWith history v) :
    let s : Stage := ⟨tool, b.role, files, options⟩
    ∃ attempts, s.Performs attempts v ∧ history = attempts.map s.entry ∧
      ((∃ a ∈ attempts, a.mode = .check ∧ s.Reports a) →
        ((∃ findings, v = .failed findings) ↔
          (∃ a ∈ attempts, a.mode = .check ∧ s.evaluation a ≠ .clean ∧
            s.failsToLoad a = false) ∨
          ∃ a ∈ attempts, a.mode = .checkWithout ∧ s.evaluation a ≠ .clean)) := by
  intro s
  rw [Binding.verify_endsWith_iff installed nonempty] at ends
  obtain ⟨attempts, performs, same⟩ := Stage.perform_endsWith_iff.mp ends
  refine ⟨attempts, performs, same, ?_⟩
  rintro ⟨a, member, checking, _⟩
  exact performs.failed_iff_of_check member checking

/-! ## A violation that quotes the wording of a failure -/

section Quotation

/-- A linter on one file. -/
def quotingStage : Stage where
  tool := ⟨.ruff, "/bin/ruff", none⟩
  role := .linter
  files := ["a.py"]
  options := { root := "/w", profile := "python" }

def quotingBinding : Binding :=
  ⟨.linter, ["ruff"], some quotingStage.tool⟩

/-- The linter reports a line of the file, which quotes how the linter itself complains. -/
def quotingReport : Stage.Attempt where
  mode := .check
  slot := 0
  invocation := ⟨"/bin/ruff", ["check", "--quiet", "--no-fix", "a.py"]⟩
  outcome := .exited (some 1) "T201 print found: print('failed to parse setup.toml')"

/-- Without the configuration that asks for it, the rule is not checked. -/
def quotingRetry : Stage.Attempt where
  mode := .checkWithout
  slot := 0
  invocation := ⟨"/bin/ruff", ["check", "--quiet", "--no-fix", "--isolated", "a.py"]⟩
  outcome := .exited (some 0) ""

theorem quotingStage_performs : quotingStage.Performs [quotingReport, quotingRetry] .clean := by
  have checks : quotingStage.checkInvocations = [quotingReport.invocation] := by decide
  have retries : quotingStage.recoveryInvocations = [quotingRetry.invocation] := by decide
  have taken : quotingStage.evaluate quotingReport.invocation
      (.exited (some 1) "T201 print found: print('failed to parse setup.toml')") =
      .configError "T201 print found: print('failed to parse setup.toml')" := by decide
  have clean : quotingStage.evaluate quotingRetry.invocation (.exited (some 0) "") = .clean := by
    decide
  have retrying : quotingStage.ChecksWithout 0 quotingStage.recoveryInvocations {}
      [quotingRetry] {} true := by
    rw [retries]
    refine .next (by simp [clean]) ?_
    rw [clean]
    exact .finished 1 {}
  have noRepair : quotingStage.fixArgs? = none := rfl
  have checking : quotingStage.ChecksWith 0 quotingStage.checkInvocations {}
      [quotingReport, quotingRetry] {} := by
    rw [checks]
    exact .recovered taken retrying (.finished 1 {})
  rw [← Stage.verdict_eq_clean_iff.mpr (Eq.refl ({} : Tally))]
  exact .unrepaired noRepair checking

theorem quotingBinding_endsWith :
    (quotingBinding.verify quotingStage.files quotingStage.options).EndsWith
      ([quotingReport, quotingRetry].map quotingStage.entry) .clean := by
  rw [Binding.verify_endsWith_iff rfl (by decide)]
  exact Stage.perform_endsWith_iff.mpr ⟨_, quotingStage_performs, rfl⟩

/-- A linter reports a violation in a check with the configuration, and its binding is clean. -/
theorem Binding.verify_discards_report :
    quotingBinding.installed = some quotingStage.tool ∧
      (quotingBinding.verify quotingStage.files quotingStage.options).EndsWith
        ([quotingReport, quotingRetry].map quotingStage.entry) .clean ∧
      quotingReport.mode = .check ∧ quotingStage.Reports quotingReport :=
  ⟨rfl, quotingBinding_endsWith, rfl, 1, _, rfl, by decide, by decide⟩

theorem Binding.verify_failed_iff_of_quoting_report :
    quotingBinding.installed = some quotingStage.tool ∧ quotingStage.files ≠ [] ∧
      (quotingBinding.verify quotingStage.files quotingStage.options).EndsWith
        ([quotingReport, quotingRetry].map quotingStage.entry) .clean ∧
      ∃ attempts, quotingStage.Performs attempts .clean ∧
        [quotingReport, quotingRetry].map quotingStage.entry = attempts.map quotingStage.entry ∧
        ((∃ a ∈ attempts, a.mode = .check ∧ quotingStage.Reports a) →
          ((∃ findings, Verified.clean = .failed findings) ↔
            (∃ a ∈ attempts, a.mode = .check ∧ quotingStage.evaluation a ≠ .clean ∧
              quotingStage.failsToLoad a = false) ∨
            ∃ a ∈ attempts, a.mode = .checkWithout ∧ quotingStage.evaluation a ≠ .clean)) :=
  ⟨rfl, by decide, quotingBinding_endsWith,
    Binding.verify_failed_iff_of_report (b := quotingBinding) rfl (by decide)
      quotingBinding_endsWith⟩

end Quotation

end LintGate
