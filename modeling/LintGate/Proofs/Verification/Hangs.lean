import LintGate.Proofs.Verification.Retries

/-!
# Hanging programs

A program that does not end in its time is the last one that its stage starts: no repair, check or
retry comes after it. The stage then fails, and a failure of the tool stands last in its report.
-/

namespace LintGate

/-- The program was stopped because its time was over. -/
def Outcome.isTimeout : Outcome → Bool
  | .timedOut .. => true
  | _ => false

namespace Job

variable {α : Type} {job : Job α} {front back : History} {launch : Launch} {answer : α}

/-- Wherever a job runs a program, the program may end otherwise, and the job goes on from there. -/
theorem EndsWith.exists_of_other_outcome {outcome : Outcome}
    (ends : job.EndsWith (front ++ (launch, outcome) :: back) answer) (other : Outcome) :
    ∃ later result, job.EndsWith (front ++ (launch, other) :: later) result := by
  induction job generalizing front with
  | done a =>
      obtain ⟨none_left, -⟩ := done_endsWith_iff.mp ends
      simp at none_left
  | run started next ih =>
      obtain ⟨first, later, split, rest⟩ := run_endsWith_iff.mp ends
      cases front with
      | nil =>
          cases split
          obtain ⟨history, result, ends⟩ := exists_endsWith (next other)
          exact ⟨history, result, .run ends⟩
      | cons entry front =>
          cases split
          obtain ⟨later, result, ends⟩ := ih first rest
          exact ⟨later, result, .run ends⟩
  | look next ih =>
      obtain ⟨tree, rest⟩ := look_endsWith_iff.mp ends
      obtain ⟨later, result, ends⟩ := ih tree rest
      exact ⟨later, result, .look ends⟩

end Job

namespace Stage

variable {s : Stage} {slot : Nat} {invs : List Invocation} {attempts : List Attempt}

def Attempt.hangs (a : Attempt) : Bool :=
  a.outcome.isTimeout

/-- Whatever is attempted after an attempt shows that it came to its end. -/
def EndsAtHang (attempts : List Attempt) : Prop :=
  attempts.Pairwise fun a _ => a.hangs = false

theorem evaluate_eq_timedOut_iff {inv : Invocation} {outcome : Outcome} :
    (∃ message, s.evaluate inv outcome = .timedOut message) ↔ outcome.isTimeout = true := by
  cases outcome with
  | timedOut after output => simp [evaluate, Outcome.isTimeout]
  | failedToStart message => simp [evaluate, Outcome.isTimeout]
  | exited code output =>
      cases code with
      | none => simp [evaluate, Outcome.isTimeout]
      | some code =>
          simp only [evaluate, Outcome.isTimeout, Bool.false_eq_true, iff_false, not_exists]
          intro message
          split
          · split <;> simp
          · split
            · simp
            · split
              · simp
              · split <;> simp

theorem isTimeout_eq_false {inv : Invocation} {outcome : Outcome}
    (inTime : ∀ message, s.evaluate inv outcome ≠ .timedOut message) :
    outcome.isTimeout = false := by
  rw [Bool.eq_false_iff]
  intro late
  obtain ⟨message, found⟩ := evaluate_eq_timedOut_iff.mpr late
  exact inTime message found

theorem isTimeout_eq_false_of_configError {inv : Invocation} {outcome : Outcome} {output : String}
    (found : s.evaluate inv outcome = .configError output) : outcome.isTimeout = false := by
  have inTime : ∀ message, s.evaluate inv outcome ≠ .timedOut message := by simp [found]
  exact isTimeout_eq_false inTime

/-! ## Repairs -/

theorem Repairs.endsAtHang {mode : Mode} {result : Repair}
    (repairs : Repairs s mode slot invs attempts result) : EndsAtHang attempts := by
  induction repairs with
  | finished => exact .nil
  | stopped => exact List.pairwise_singleton _ _
  | @next slot inv rest outcome attempts result goesOn _ ih =>
      apply List.pairwise_cons.mpr
      refine ⟨fun _ _ => ?_, ih⟩
      cases outcome with
      | timedOut after output => simp [repairResult?] at goesOn
      | exited | failedToStart => rfl

theorem Repairs.exists_failed_of_hang {mode : Mode} {result : Repair}
    (repairs : Repairs s mode slot invs attempts result) {a : Attempt} (member : a ∈ attempts)
    (hangs : a.hangs = true) : ∃ message, result = .failed message := by
  induction repairs with
  | finished => simp at member
  | @stopped slot inv rest outcome result found =>
      rw [List.mem_singleton.mp member] at hangs
      cases outcome with
      | timedOut after output =>
          simp only [repairResult?, Option.some.injEq] at found
          exact ⟨_, found.symm⟩
      | exited | failedToStart => simp [Attempt.hangs, Outcome.isTimeout] at hangs
  | @next slot inv rest outcome attempts result goesOn _ ih =>
      rcases List.mem_cons.mp member with first | later
      · rw [first] at hangs
        cases outcome with
        | timedOut after output => simp [repairResult?] at goesOn
        | exited | failedToStart => simp [Attempt.hangs, Outcome.isTimeout] at hangs
      · exact ih later

/-! ## Checks -/

theorem ChecksWithout.endsAtHang {t last : Tally} {goesOn : Bool}
    (checks : ChecksWithout s slot invs t attempts last goesOn) : EndsAtHang attempts := by
  induction checks with
  | finished => exact .nil
  | timedOut => exact List.pairwise_singleton _ _
  | next inTime _ ih => exact List.pairwise_cons.mpr ⟨fun _ _ => isTimeout_eq_false inTime, ih⟩

/-- A pass with a hang does not let the stage go on, and leaves a failure. -/
theorem ChecksWithout.stops_of_hang {t last : Tally} {goesOn : Bool}
    (checks : ChecksWithout s slot invs t attempts last goesOn) {a : Attempt}
    (member : a ∈ attempts) (hangs : a.hangs = true) : goesOn = false ∧ last.failures ≠ [] := by
  induction checks with
  | finished => simp at member
  | timedOut => simp [Tally.addFailure]
  | next inTime _ ih =>
      rcases List.mem_cons.mp member with first | later
      · rw [first, Attempt.hangs, isTimeout_eq_false inTime] at hangs
        contradiction
      · exact ih later

theorem ChecksWith.endsAtHang {t last : Tally} (checks : ChecksWith s slot invs t attempts last) :
    EndsAtHang attempts := by
  induction checks with
  | finished => exact .nil
  | timedOut => exact List.pairwise_singleton _ _
  | next inTime _ _ ih => exact List.pairwise_cons.mpr ⟨fun _ _ => isTimeout_eq_false inTime, ih⟩
  | recovered found retries _ ih =>
      apply List.pairwise_cons.mpr
      refine ⟨fun _ _ => isTimeout_eq_false_of_configError found, ?_⟩
      apply List.pairwise_append.mpr
      refine ⟨retries.endsAtHang, ih, ?_⟩
      intro a member _ _
      -- A retry that hangs would have ended the stage.
      rw [← Bool.not_eq_true]
      intro hangs
      exact absurd (retries.stops_of_hang member hangs).1 (by simp)
  | abandoned found retries =>
      apply List.pairwise_cons.mpr
      exact ⟨fun _ _ => isTimeout_eq_false_of_configError found, retries.endsAtHang⟩

theorem ChecksWith.failures_ne_nil_of_hang {t last : Tally}
    (checks : ChecksWith s slot invs t attempts last) {a : Attempt} (member : a ∈ attempts)
    (hangs : a.hangs = true) : last.failures ≠ [] := by
  induction checks with
  | finished => simp at member
  | timedOut => simp [Tally.addFailure]
  | next inTime _ _ ih =>
      rcases List.mem_cons.mp member with first | later
      · rw [first, Attempt.hangs, isTimeout_eq_false inTime] at hangs
        contradiction
      · exact ih later
  | recovered found retries _ ih =>
      rcases List.mem_cons.mp member with first | later
      · rw [first, Attempt.hangs, isTimeout_eq_false_of_configError found] at hangs
        contradiction
      · rcases List.mem_append.mp later with retried | onward
        · exact absurd (retries.stops_of_hang retried hangs).1 (by simp)
        · exact ih onward
  | abandoned found retries =>
      rcases List.mem_cons.mp member with first | later
      · rw [first, Attempt.hangs, isTimeout_eq_false_of_configError found] at hangs
        contradiction
      · exact (retries.stops_of_hang later hangs).2

/-! ## The whole stage -/

theorem endsAtHang_append {front back : List Attempt} (early : ∀ a ∈ front, a.hangs = false)
    (late : EndsAtHang back) : EndsAtHang (front ++ back) := by
  apply List.pairwise_append.mpr
  refine ⟨?_, late, fun a member _ _ => early a member⟩
  exact List.pairwise_of_forall_mem_list fun a member _ _ => early a member

theorem Repairs.inTime_of_not_failed {mode : Mode} {result : Repair}
    (repairs : Repairs s mode slot invs attempts result)
    (notFailed : ∀ message, result ≠ .failed message) : ∀ a ∈ attempts, a.hangs = false := by
  intro a member
  rw [← Bool.not_eq_true]
  intro hangs
  obtain ⟨message, failed⟩ := repairs.exists_failed_of_hang member hangs
  exact notFailed message failed

theorem Performs.endsAtHang {v : Verified} (performs : s.Performs attempts v) :
    EndsAtHang attempts := by
  cases performs with
  | unrepaired _ checks => exact checks.endsAtHang
  | repaired _ repairs checks =>
      exact endsAtHang_append (repairs.inTime_of_not_failed (by simp)) checks.endsAtHang
  | repairFailed _ repairs => exact repairs.endsAtHang
  | retryFailed _ repairs retries =>
      exact endsAtHang_append (repairs.inTime_of_not_failed (by simp)) retries.endsAtHang
  | bypassed _ repairs retries notFailed checks =>
      apply endsAtHang_append (repairs.inTime_of_not_failed (by simp))
      exact endsAtHang_append (retries.inTime_of_not_failed notFailed) checks.endsAtHang

/-- A tally with failures is reported with a failure of the tool at the end. -/
theorem exists_verdict_eq_failed {t : Tally} (failures : t.failures ≠ []) :
    ∃ findings message, s.verdict t = .failed (findings ++ [s.failure message]) := by
  have some_failures : t.failures.isEmpty = false := by simpa using failures
  have shape : ∃ findings message, s.findingsOf t = findings ++ [s.failure message] := by
    rw [findingsOf, some_failures]
    exact ⟨_, _, rfl⟩
  obtain ⟨findings, message, shape⟩ := shape
  exact ⟨findings, message, by simp [verdict, shape]⟩

theorem Performs.exists_failure_of_hang {v : Verified} (performs : s.Performs attempts v)
    {a : Attempt} (member : a ∈ attempts) (hangs : a.hangs = true) :
    ∃ findings message, v = .failed (findings ++ [s.failure message]) := by
  cases performs with
  | unrepaired _ checks =>
      exact exists_verdict_eq_failed (checks.failures_ne_nil_of_hang member hangs)
  | repaired _ repairs checks =>
      rcases List.mem_append.mp member with fixed | checked
      · have inTime := repairs.inTime_of_not_failed (by simp) a fixed
        simp [hangs] at inTime
      · exact exists_verdict_eq_failed (checks.failures_ne_nil_of_hang checked hangs)
  | repairFailed => exact ⟨[], _, rfl⟩
  | retryFailed => exact ⟨[], _, rfl⟩
  | bypassed _ repairs retries notFailed checks =>
      rcases List.mem_append.mp member with fixed | later
      · have inTime := repairs.inTime_of_not_failed (by simp) a fixed
        simp [hangs] at inTime
      · rcases List.mem_append.mp later with retried | checked
        · have inTime := retries.inTime_of_not_failed notFailed a retried
          simp [hangs] at inTime
        · exact exists_verdict_eq_failed (checks.stops_of_hang checked hangs).2

end Stage

theorem countP_le_one_of_pairwise {α : Type} {p : α → Bool} {xs : List α}
    (last : xs.Pairwise fun x _ => p x = false) : xs.countP p ≤ 1 := by
  induction xs with
  | nil => simp
  | cons x xs ih =>
      obtain ⟨first, rest⟩ := List.pairwise_cons.mp last
      cases xs with
      | nil => exact List.countP_le_length
      | cons y ys =>
          rw [List.countP_cons, first y List.mem_cons_self]
          exact ih rest

/-- A binding either starts nothing, or makes the attempts of a stage. -/
theorem Binding.eq_nil_or_performs {b : Binding} {files : List Path} {options : StageOptions}
    {history : History} {v : Verified} (ends : (b.verify files options).EndsWith history v) :
    history = [] ∨ ∃ tool attempts, (⟨tool, b.role, files, options⟩ : Stage).Performs attempts v ∧
      history = attempts.map (⟨tool, b.role, files, options⟩ : Stage).entry := by
  rw [Binding.verify] at ends
  split at ends
  · exact .inl (Job.done_endsWith_iff.mp ends).1
  · split at ends
    · exact .inl (Job.done_endsWith_iff.mp ends).1
    · obtain ⟨attempts, performs, same⟩ := Stage.perform_endsWith_iff.mp ends
      exact .inr ⟨_, attempts, performs, same⟩

theorem Binding.pairwise_inTime {b : Binding} {files : List Path} {options : StageOptions}
    {history : History} {v : Verified} (ends : (b.verify files options).EndsWith history v) :
    history.Pairwise fun entry _ => entry.2.isTimeout = false := by
  rcases eq_nil_or_performs ends with nothing | ⟨tool, attempts, performs, same⟩
  · rw [nothing]
    exact .nil
  · rw [same]
    exact List.pairwise_map.mpr performs.endsAtHang

theorem Binding.exists_failure_of_hang {b : Binding} {files : List Path} {options : StageOptions}
    {history : History} {v : Verified} (ends : (b.verify files options).EndsWith history v)
    {entry : Launch × Outcome} (member : entry ∈ history) (hangs : entry.2.isTimeout = true) :
    ∃ findings failure, v = .failed (findings ++ [failure]) ∧ failure.category = .toolFailure ∧
      failure.role = b.role ∧ failure.profile = options.profile := by
  rcases eq_nil_or_performs ends with nothing | ⟨tool, attempts, performs, same⟩
  · simp [nothing] at member
  · rw [same] at member
    obtain ⟨a, inside, rfl⟩ := List.mem_map.mp member
    obtain ⟨findings, message, failed⟩ := performs.exists_failure_of_hang inside hangs
    exact ⟨findings, _, failed, rfl, rfl, rfl⟩

/-- At most one program of a binding hangs, and it is the last one that is started. The binding then
fails with a failure of its tool behind all other findings. Wherever a program is started it may
hang, and nothing is started after it. -/
theorem Binding.verify_stops_at_hang {b : Binding} {files : List Path} {options : StageOptions}
    {history : History} {v : Verified} (ends : (b.verify files options).EndsWith history v) :
    history.countP (·.2.isTimeout) ≤ 1 ∧
      ∀ front launch outcome back, history = front ++ (launch, outcome) :: back →
        (outcome.isTimeout = true → back = [] ∧
          ∃ findings failure, v = .failed (findings ++ [failure]) ∧
            failure.category = .toolFailure ∧ failure.role = b.role ∧
            failure.profile = options.profile) ∧
        ∀ seconds output, ∃ other,
          (b.verify files options).EndsWith (front ++ [(launch, .timedOut seconds output)])
            other := by
  have last_of_hang {history back : History} {v : Verified} {front : History} {launch : Launch}
      {outcome : Outcome} (ends : (b.verify files options).EndsWith history v)
      (split : history = front ++ (launch, outcome) :: back) (hangs : outcome.isTimeout = true) :
      back = [] := by
    have ordered := pairwise_inTime ends
    rw [split, List.pairwise_append, List.pairwise_cons] at ordered
    apply List.eq_nil_iff_forall_not_mem.mpr
    intro entry member
    have inTime := ordered.2.1.1 entry member
    simp [hangs] at inTime
  refine ⟨countP_le_one_of_pairwise (pairwise_inTime ends), ?_⟩
  intro front launch outcome back split
  constructor
  · intro hangs
    have member : (launch, outcome) ∈ history := by simp [split]
    exact ⟨last_of_hang ends split hangs, exists_failure_of_hang ends member hangs⟩
  · intro seconds output
    rw [split] at ends
    obtain ⟨later, other, instead⟩ := ends.exists_of_other_outcome (.timedOut seconds output)
    have nothing := last_of_hang instead rfl rfl
    rw [nothing] at instead
    exact ⟨other, instead⟩

section Parts

/-- A retry of one part that does not come to its end. -/
def hangingRetry (slot : Nat) (files : List Path) : Stage.Attempt :=
  { splitRetry slot files with outcome := .timedOut 120 "" }

def hangingMessage : String :=
  let retry := splitInvocation splitStage.overrideArgs (splitStage.files.drop 200)
  s!"timed out after 120s: {retry.display}"

/-- The first part cannot load the configuration. Its retry finds a violation and the retry of the
second part hangs, so the second part is not checked with the configuration any more. -/
def hangingAttempts : List Stage.Attempt :=
  splitCheck 0 (splitStage.files.take 200) ::
    [splitRetry 0 (splitStage.files.take 200), hangingRetry 1 (splitStage.files.drop 200)]

theorem splitStage_performs_hanging :
    splitStage.Performs hangingAttempts (splitStage.verdict ⟨["E1"], [hangingMessage]⟩) := by
  have retrying : splitStage.ChecksWithout 0 splitStage.recoveryInvocations {}
      [splitRetry 0 (splitStage.files.take 200), hangingRetry 1 (splitStage.files.drop 200)]
      ⟨["E1"], [hangingMessage]⟩ false := by
    rw [Stage.recoveryInvocations, splitStage_invocations_eq]
    refine .next (by simp [splitStage_violated]) ?_
    rw [splitStage_violated]
    exact .timedOut rfl
  have checking : splitStage.ChecksWith 0 splitStage.checkInvocations {} hangingAttempts
      ⟨["E1"], [hangingMessage]⟩ := by
    rw [Stage.checkInvocations, splitStage_invocations_eq]
    exact .abandoned (splitStage_unloaded _) retrying
  exact .unrepaired rfl checking

theorem splitBinding_endsWith_hanging :
    (splitBinding.verify splitStage.files splitStage.options).EndsWith
      (hangingAttempts.map splitStage.entry)
      (splitStage.verdict ⟨["E1"], [hangingMessage]⟩) := by
  rw [Binding.verify_endsWith_iff rfl (by simp [splitStage])]
  exact Stage.perform_endsWith_iff.mpr ⟨_, splitStage_performs_hanging, rfl⟩

theorem Binding.verify_stops_at_hanging_retry :
    (splitBinding.verify splitStage.files splitStage.options).EndsWith
        (hangingAttempts.map splitStage.entry)
        (splitStage.verdict ⟨["E1"], [hangingMessage]⟩) ∧
      (hangingAttempts.map splitStage.entry).countP (·.2.isTimeout) ≤ 1 ∧
      ∀ front launch outcome back,
        hangingAttempts.map splitStage.entry = front ++ (launch, outcome) :: back →
        (outcome.isTimeout = true → back = [] ∧
          ∃ findings failure,
            splitStage.verdict ⟨["E1"], [hangingMessage]⟩ = .failed (findings ++ [failure]) ∧
            failure.category = .toolFailure ∧ failure.role = splitBinding.role ∧
            failure.profile = splitStage.options.profile) ∧
        ∀ seconds output, ∃ other,
          (splitBinding.verify splitStage.files splitStage.options).EndsWith
            (front ++ [(launch, .timedOut seconds output)]) other :=
  ⟨splitBinding_endsWith_hanging, Binding.verify_stops_at_hang splitBinding_endsWith_hanging⟩

end Parts

end LintGate
