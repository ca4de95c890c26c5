import LintGate.Proofs.Verification.Attempts

/-!
# What attempts contribute to a report

`Stage.Passes` says when an attempt leaves its stage nothing to report. A stage is clean exactly
when all its attempts pass, and the violations that it reports are those of its checks, in order.
-/

namespace LintGate

namespace Stage

variable {s : Stage}

/-- The outcome is taken for a failure to load the configuration. -/
def failsToLoad (s : Stage) (a : Attempt) : Bool :=
  match a.outcome with
  | .exited (some code) output => code ≠ 0 && s.showsConfigError output
  | _ => false

/-- The violations that a check found. -/
def violation? (s : Stage) (a : Attempt) : Option String :=
  match s.evaluation a with
  | .violation text => some text
  | _ => none

/-- The attempt leaves nothing to report. A check with the configuration passes too when it could
not load the configuration, since others are run in its place. -/
def Passes (s : Stage) (a : Attempt) : Prop :=
  match a.mode with
  | .repair | .repairWithout =>
      ∀ message, s.repairResult? a.invocation a.outcome ≠ some (.failed message)
  | .check => s.evaluation a = .clean ∨ s.failsToLoad a = true
  | .checkWithout => s.evaluation a = .clean

theorem failsToLoad_iff {a : Attempt} :
    s.failsToLoad a = true ↔ ∃ output, s.evaluation a = .configError output := by
  obtain ⟨mode, slot, inv, outcome⟩ := a
  cases outcome with
  | exited code output =>
      cases code with
      | none => simp [failsToLoad, evaluation, evaluate]
      | some code =>
          by_cases zero : code = 0
          · subst zero
            simp only [failsToLoad, evaluation, evaluate, if_true]
            split <;> simp
          · by_cases shown : s.showsConfigError output = true
            · simp [failsToLoad, evaluation, evaluate, zero, shown]
            · simp only [failsToLoad, evaluation, evaluate, zero, shown, Bool.and_false,
                Bool.false_eq_true, if_false, false_iff, not_exists]
              intro text
              split
              · simp
              · split <;> simp
  | timedOut after output => simp [failsToLoad, evaluation, evaluate]
  | failedToStart message => simp [failsToLoad, evaluation, evaluate]

/-- A repair that ends its pass could not load the configuration, or the pass fails. -/
theorem repairResult?_cases {mode : Mode} {slot : Nat} {inv : Invocation} {outcome : Outcome}
    {result : Repair} (stops : s.repairResult? inv outcome = some result) :
    result = .configError ∧ s.failsToLoad ⟨mode, slot, inv, outcome⟩ = true ∨
      (∃ message, result = .failed message) ∧
        s.failsToLoad ⟨mode, slot, inv, outcome⟩ = false ∧
        ∀ code output, outcome ≠ .exited code output := by
  cases outcome with
  | exited code output =>
      cases code with
      | none => cases stops
      | some code =>
          rw [repairResult?] at stops
          split at stops
          case isTrue shown =>
            cases stops
            exact .inl ⟨rfl, shown⟩
          case isFalse => cases stops
  | timedOut | failedToStart =>
      cases stops
      exact .inr ⟨⟨_, rfl⟩, rfl, by simp⟩

/-! ## Modes and slots -/

theorem Repairs.mode_eq {mode : Mode} {slot : Nat} {invs : List Invocation}
    {attempts : List Attempt} {result : Repair}
    (repairs : Repairs s mode slot invs attempts result) :
    ∀ a ∈ attempts, a.mode = mode := by
  induction repairs with
  | finished => simp
  | stopped => simp
  | next _ _ ih => simpa using ih

theorem ChecksWithout.mode_eq {slot : Nat} {invs : List Invocation} {t last : Tally}
    {attempts : List Attempt} {goesOn : Bool}
    (checks : ChecksWithout s slot invs t attempts last goesOn) :
    ∀ a ∈ attempts, a.mode = .checkWithout := by
  induction checks with
  | finished => simp
  | timedOut => simp
  | next _ _ ih => simpa using ih

theorem ChecksWith.mode_eq {slot : Nat} {invs : List Invocation} {t last : Tally}
    {attempts : List Attempt} (checks : ChecksWith s slot invs t attempts last) :
    ∀ a ∈ attempts, a.mode = .check ∨ a.mode = .checkWithout := by
  induction checks with
  | finished => simp
  | timedOut => simp
  | next _ _ _ ih => simpa using ih
  | recovered _ retries _ ih =>
      intro a member
      rcases List.mem_cons.mp member with rfl | later
      · exact .inl rfl
      · rcases List.mem_append.mp later with retried | onward
        · exact .inr (retries.mode_eq a retried)
        · exact ih a onward
  | abandoned _ retries =>
      intro a member
      rcases List.mem_cons.mp member with rfl | later
      · exact .inl rfl
      · exact .inr (retries.mode_eq a later)

/-- How many invocations there are depends on the targets alone. -/
theorem length_invocations (s : Stage) (mode extra mode' extra' : List String) :
    (s.invocations mode extra).length = (s.invocations mode' extra').length := by
  simp [invocations]

/-- Checks come after repairs. Those that do without the configuration from the start come after
repairs that did so too. -/
theorem Performs.exists_phases {attempts : List Attempt} {v : Verified}
    (performs : s.Performs attempts v) :
    ∃ repairs checks, attempts = repairs ++ checks ∧
      (∀ a ∈ repairs, a.mode = .repair ∨ a.mode = .repairWithout) ∧
      ((checks = [] ∧ ∃ message, v = .failed [s.failure message]) ∨
        (∀ a ∈ repairs, a.mode = .repair) ∧
          (∃ t, ChecksWith s 0 s.checkInvocations {} checks t ∧ v = s.verdict t) ∨
        (∃ r ∈ repairs, r.mode = .repairWithout) ∧
          ∃ t goesOn, ChecksWithout s 0 s.recoveryInvocations {} checks t goesOn ∧
            v = s.verdict t) := by
  cases performs with
  | @unrepaired attempts t _ checks =>
      exact ⟨[], attempts, rfl, by simp, .inr (.inl ⟨by simp, t, checks, rfl⟩)⟩
  | @repaired _ repairs attempts t _ repairing checks =>
      refine ⟨repairs, attempts, rfl, ?_, .inr (.inl ⟨repairing.mode_eq, t, checks, rfl⟩)⟩
      exact fun a member => .inl (repairing.mode_eq a member)
  | @repairFailed _ repairs _ _ repairing =>
      refine ⟨attempts, [], (List.append_nil _).symm, ?_, .inl ⟨rfl, _, rfl⟩⟩
      exact fun a member => .inl (repairing.mode_eq a member)
  | @retryFailed _ repairs retries _ _ repairing retrying =>
      refine ⟨repairs ++ retries, [], (List.append_nil _).symm, ?_, .inl ⟨rfl, _, rfl⟩⟩
      intro a member
      rcases List.mem_append.mp member with first | second
      · exact .inl (repairing.mode_eq a first)
      · exact .inr (retrying.mode_eq a second)
  | @bypassed fix repairs retries attempts _ t goesOn _ repairing retrying _ checks =>
      have nonempty : retries ≠ [] := by
        intro none_left
        subst none_left
        have lengths := s.length_invocations fix [] fix s.overrideArgs
        generalize s.invocations fix [] = first at repairing lengths
        generalize s.invocations fix s.overrideArgs = second at retrying lengths
        cases retrying
        cases repairing with
        | stopped | next => simp at lengths
      obtain ⟨r, member⟩ := List.exists_mem_of_ne_nil retries nonempty
      refine ⟨repairs ++ retries, attempts, (List.append_assoc _ _ _).symm, ?_, .inr (.inr
        ⟨⟨r, List.mem_append_right _ member, retrying.mode_eq r member⟩, t, goesOn, checks, rfl⟩)⟩
      intro a inside
      rcases List.mem_append.mp inside with first | second
      · exact .inl (repairing.mode_eq a first)
      · exact .inr (retrying.mode_eq a second)

/-! ## Empty tallies -/

theorem tallied_eq_empty_iff {t : Tally} {e : Evaluation} :
    s.tallied t e = {} ↔ t = {} ∧ e = .clean := by
  cases e <;> simp [tallied, Tally.addViolation, Tally.addFailure]

theorem addFailure_ne_empty (t : Tally) (message : String) : t.addFailure message ≠ {} := by
  simp [Tally.addFailure]

theorem ChecksWithout.eq_empty_iff {slot : Nat} {invs : List Invocation} {t last : Tally}
    {attempts : List Attempt} {goesOn : Bool}
    (checks : ChecksWithout s slot invs t attempts last goesOn) :
    last = {} ↔ t = {} ∧ ∀ a ∈ attempts, s.Passes a := by
  induction checks with
  | finished => simp
  | timedOut found => simp [addFailure_ne_empty, Passes, evaluation, found]
  | next _ _ ih =>
      rw [ih, tallied_eq_empty_iff, List.forall_mem_cons, and_assoc]
      rfl

theorem ChecksWith.eq_empty_iff {slot : Nat} {invs : List Invocation} {t last : Tally}
    {attempts : List Attempt} (checks : ChecksWith s slot invs t attempts last) :
    last = {} ↔ t = {} ∧ ∀ a ∈ attempts, s.Passes a := by
  induction checks with
  | finished => simp
  | timedOut found =>
      simp [addFailure_ne_empty, Passes, failsToLoad_iff, evaluation, found]
  | next _ loaded _ ih =>
      rw [ih, tallied_eq_empty_iff, List.forall_mem_cons, and_assoc]
      simp [Passes, failsToLoad_iff, evaluation, loaded]
  | recovered found retries _ ih =>
      rw [ih, retries.eq_empty_iff, List.forall_mem_cons, List.forall_mem_append, and_assoc]
      simp [Passes, failsToLoad_iff, evaluation, found]
  | abandoned found retries =>
      rw [retries.eq_empty_iff, List.forall_mem_cons]
      simp [Passes, failsToLoad_iff, evaluation, found]

theorem verdict_eq_clean_iff {t : Tally} : s.verdict t = .clean ↔ t = {} := by
  obtain ⟨violations, failures⟩ := t
  cases violations <;> cases failures <;> simp [verdict, findingsOf]

/-! ## Verdicts -/

theorem Repairs.failed_iff {mode : Mode} {slot : Nat} {invs : List Invocation}
    {attempts : List Attempt} {result : Repair}
    (repairs : Repairs s mode slot invs attempts result)
    (repairing : mode = .repair ∨ mode = .repairWithout) :
    (∀ message, result ≠ .failed message) ↔ ∀ a ∈ attempts, s.Passes a := by
  induction repairs with
  | finished => simp
  | stopped found => rcases repairing with rfl | rfl <;> simp [Passes, found]
  | next found _ ih =>
      rw [ih, List.forall_mem_cons]
      rcases repairing with rfl | rfl <;> simp [Passes, found]

/-- A stage is clean exactly when each of its attempts passes. -/
theorem Performs.eq_clean_iff {attempts : List Attempt} {v : Verified}
    (performs : s.Performs attempts v) : v = .clean ↔ ∀ a ∈ attempts, s.Passes a := by
  cases performs with
  | unrepaired _ checks =>
      rw [verdict_eq_clean_iff, checks.eq_empty_iff]
      simp
  | repaired _ repairs checks =>
      rw [verdict_eq_clean_iff, checks.eq_empty_iff, List.forall_mem_append,
        ← repairs.failed_iff (.inl rfl)]
      simp
  | repairFailed _ repairs =>
      rw [← repairs.failed_iff (.inl rfl)]
      simp
  | retryFailed _ _ retries =>
      rw [List.forall_mem_append, ← retries.failed_iff (.inr rfl)]
      simp
  | bypassed _ repairs retries notFailed checks =>
      rw [verdict_eq_clean_iff, checks.eq_empty_iff, List.forall_mem_append,
        List.forall_mem_append, ← repairs.failed_iff (.inl rfl), ← retries.failed_iff (.inr rfl)]
      simp [notFailed]

end Stage

end LintGate
