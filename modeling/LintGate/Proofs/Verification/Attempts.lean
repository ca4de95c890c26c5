import LintGate.Proofs.Process.History
import LintGate.Verification

/-!
# Attempts of a stage

An attempt is one run of a program by a stage, with what it was run for and with the place of its
invocation among those of the same kind. `Stage.Performs` describes which attempts a stage makes and
what it reports, in terms of outcomes only. The equivalences below say that these are exactly the
histories of the job that the stage carries out.
-/

namespace LintGate

namespace Stage

/-- What an invocation is run for. -/
inductive Mode where
  | repair
  /-- A repair that does without the configuration. -/
  | repairWithout
  | check
  /-- A check that does without the configuration. -/
  | checkWithout
deriving DecidableEq, Repr

structure Attempt where
  mode : Mode
  /-- The place of the invocation among those of its mode. -/
  slot : Nat
  invocation : Invocation
  outcome : Outcome
deriving DecidableEq, Repr

/-- What a history holds of an attempt. -/
def entry (s : Stage) (a : Attempt) : Launch × Outcome :=
  (s.launch a.invocation, a.outcome)

/-- What an attempt comes to when it is a check. -/
def evaluation (s : Stage) (a : Attempt) : Evaluation :=
  s.evaluate a.invocation a.outcome

/-- The tally after a check that has no other invocations run in its place. -/
def tallied (s : Stage) (t : Tally) : Evaluation → Tally
  | .clean => t
  | .violation text => t.addViolation text
  | .configError output => t.addFailure (s.stillConfigError output)
  | .broken message => t.addFailure message
  | .timedOut message => t.addFailure message

/-- A pass of repairs over invocations, the first of which has the given slot. -/
inductive Repairs (s : Stage) (mode : Mode) :
    Nat → List Invocation → List Attempt → Repair → Prop where
  | finished (slot : Nat) : Repairs s mode slot [] [] .finished
  | stopped {slot : Nat} {inv : Invocation} {rest : List Invocation} {outcome : Outcome}
      {result : Repair} :
      s.repairResult? inv outcome = some result →
      Repairs s mode slot (inv :: rest) [⟨mode, slot, inv, outcome⟩] result
  | next {slot : Nat} {inv : Invocation} {rest : List Invocation} {outcome : Outcome}
      {attempts : List Attempt} {result : Repair} :
      s.repairResult? inv outcome = none →
      Repairs s mode (slot + 1) rest attempts result →
      Repairs s mode slot (inv :: rest) (⟨mode, slot, inv, outcome⟩ :: attempts) result

/-- A pass of checks that do without the configuration. At its end stands whether the role may go
on. -/
inductive ChecksWithout (s : Stage) :
    Nat → List Invocation → Tally → List Attempt → Tally → Bool → Prop where
  | finished (slot : Nat) (t : Tally) : ChecksWithout s slot [] t [] t true
  | timedOut {slot : Nat} {inv : Invocation} {rest : List Invocation} {t : Tally}
      {outcome : Outcome} {message : String} :
      s.evaluate inv outcome = .timedOut message →
      ChecksWithout s slot (inv :: rest) t [⟨.checkWithout, slot, inv, outcome⟩]
        (t.addFailure message) false
  | next {slot : Nat} {inv : Invocation} {rest : List Invocation} {t last : Tally}
      {outcome : Outcome} {attempts : List Attempt} {goesOn : Bool} :
      (∀ message, s.evaluate inv outcome ≠ .timedOut message) →
      ChecksWithout s (slot + 1) rest (s.tallied t (s.evaluate inv outcome)) attempts last goesOn →
      ChecksWithout s slot (inv :: rest) t (⟨.checkWithout, slot, inv, outcome⟩ :: attempts)
        last goesOn

/-- A pass of checks with the configuration. Where one of them could not load it, a pass without
the configuration takes its place. -/
inductive ChecksWith (s : Stage) :
    Nat → List Invocation → Tally → List Attempt → Tally → Prop where
  | finished (slot : Nat) (t : Tally) : ChecksWith s slot [] t [] t
  | timedOut {slot : Nat} {inv : Invocation} {rest : List Invocation} {t : Tally}
      {outcome : Outcome} {message : String} :
      s.evaluate inv outcome = .timedOut message →
      ChecksWith s slot (inv :: rest) t [⟨.check, slot, inv, outcome⟩] (t.addFailure message)
  | next {slot : Nat} {inv : Invocation} {rest : List Invocation} {t last : Tally}
      {outcome : Outcome} {attempts : List Attempt} :
      (∀ message, s.evaluate inv outcome ≠ .timedOut message) →
      (∀ output, s.evaluate inv outcome ≠ .configError output) →
      ChecksWith s (slot + 1) rest (s.tallied t (s.evaluate inv outcome)) attempts last →
      ChecksWith s slot (inv :: rest) t (⟨.check, slot, inv, outcome⟩ :: attempts) last
  | recovered {slot : Nat} {inv : Invocation} {rest : List Invocation} {t middle last : Tally}
      {outcome : Outcome} {output : String} {retries attempts : List Attempt} :
      s.evaluate inv outcome = .configError output →
      ChecksWithout s 0 s.recoveryInvocations t retries middle true →
      ChecksWith s (slot + 1) rest middle attempts last →
      ChecksWith s slot (inv :: rest) t
        (⟨.check, slot, inv, outcome⟩ :: (retries ++ attempts)) last
  | abandoned {slot : Nat} {inv : Invocation} {rest : List Invocation} {t last : Tally}
      {outcome : Outcome} {output : String} {retries : List Attempt} :
      s.evaluate inv outcome = .configError output →
      ChecksWithout s 0 s.recoveryInvocations t retries last false →
      ChecksWith s slot (inv :: rest) t (⟨.check, slot, inv, outcome⟩ :: retries) last

/-- The checks of a stage with the configuration. -/
def checkInvocations (s : Stage) : List Invocation :=
  s.invocations s.checkArgs []

/-- The attempts of a stage and its report. -/
inductive Performs (s : Stage) : List Attempt → Verified → Prop where
  | unrepaired {attempts : List Attempt} {t : Tally} :
      s.fixArgs? = none →
      ChecksWith s 0 s.checkInvocations {} attempts t →
      Performs s attempts (s.verdict t)
  | repaired {fix : List String} {repairs attempts : List Attempt} {t : Tally} :
      s.fixArgs? = some fix →
      Repairs s .repair 0 (s.invocations fix []) repairs .finished →
      ChecksWith s 0 s.checkInvocations {} attempts t →
      Performs s (repairs ++ attempts) (s.verdict t)
  | repairFailed {fix : List String} {repairs : List Attempt} {message : String} :
      s.fixArgs? = some fix →
      Repairs s .repair 0 (s.invocations fix []) repairs (.failed message) →
      Performs s repairs (.failed [s.failure message])
  | retryFailed {fix : List String} {repairs retries : List Attempt} {message : String} :
      s.fixArgs? = some fix →
      Repairs s .repair 0 (s.invocations fix []) repairs .configError →
      Repairs s .repairWithout 0 (s.invocations fix s.overrideArgs) retries (.failed message) →
      Performs s (repairs ++ retries) (.failed [s.failure message])
  | bypassed {fix : List String} {repairs retries attempts : List Attempt} {result : Repair}
      {t : Tally} {goesOn : Bool} :
      s.fixArgs? = some fix →
      Repairs s .repair 0 (s.invocations fix []) repairs .configError →
      Repairs s .repairWithout 0 (s.invocations fix s.overrideArgs) retries result →
      (∀ message, result ≠ .failed message) →
      ChecksWithout s 0 s.recoveryInvocations {} attempts t goesOn →
      Performs s (repairs ++ (retries ++ attempts)) (s.verdict t)

/-! ## Agreement with the job of a stage -/

theorem repair_endsWith_iff {s : Stage} (mode : Mode) (slot : Nat) {invs : List Invocation}
    {history : History} {result : Repair} :
    (s.repair invs).EndsWith history result ↔
      ∃ attempts, Repairs s mode slot invs attempts result ∧ history = attempts.map s.entry := by
  constructor
  · intro ends
    induction invs generalizing slot history with
    | nil =>
        obtain ⟨rfl, rfl⟩ := Job.done_endsWith_iff.mp ends
        exact ⟨[], .finished slot, rfl⟩
    | cons inv rest ih =>
        obtain ⟨outcome, later, rfl, laterEnds⟩ := Job.run_endsWith_iff.mp ends
        cases stops : s.repairResult? inv outcome with
        | some early =>
            rw [stops] at laterEnds
            obtain ⟨rfl, rfl⟩ := Job.done_endsWith_iff.mp laterEnds
            exact ⟨_, .stopped stops, rfl⟩
        | none =>
            rw [stops] at laterEnds
            obtain ⟨attempts, repairs, rfl⟩ := ih (slot + 1) laterEnds
            exact ⟨_, .next stops repairs, rfl⟩
  · rintro ⟨attempts, repairs, rfl⟩
    induction repairs with
    | finished => exact .done _
    | stopped stops =>
        refine .run ?_
        rw [stops]
        exact .done _
    | next stops _ ih =>
        refine .run ?_
        rw [stops]
        exact ih

theorem checkWithout_endsWith_iff {s : Stage} (slot : Nat) {invs : List Invocation}
    {t last : Tally} {history : History} {goesOn : Bool} :
    (s.checkWithout invs t).EndsWith history (last, goesOn) ↔
      ∃ attempts, ChecksWithout s slot invs t attempts last goesOn ∧
        history = attempts.map s.entry := by
  constructor
  · intro ends
    induction invs generalizing slot t history with
    | nil =>
        obtain ⟨rfl, same⟩ := Job.done_endsWith_iff.mp ends
        cases same
        exact ⟨[], .finished slot _, rfl⟩
    | cons inv rest ih =>
        obtain ⟨outcome, later, rfl, laterEnds⟩ := Job.run_endsWith_iff.mp ends
        cases found : s.evaluate inv outcome with
        | timedOut message =>
            rw [found] at laterEnds
            obtain ⟨rfl, same⟩ := Job.done_endsWith_iff.mp laterEnds
            cases same
            exact ⟨_, .timedOut found, rfl⟩
        | clean | violation | configError | broken =>
            rw [found] at laterEnds
            obtain ⟨attempts, checks, rfl⟩ := ih (slot + 1) laterEnds
            refine ⟨_, .next ?_ ?_, rfl⟩
            · simp [found]
            · rw [found]
              exact checks
  · rintro ⟨attempts, checks, rfl⟩
    induction checks with
    | finished => exact .done _
    | timedOut found =>
        refine .run ?_
        rw [found]
        exact .done _
    | @next slot inv rest t last outcome attempts goesOn inTime _ ih =>
        refine .run ?_
        cases found : s.evaluate inv outcome with
        | timedOut message => exact absurd found (inTime message)
        | clean | violation | configError | broken =>
            rw [found] at ih
            exact ih

theorem checkWith_endsWith_iff {s : Stage} (slot : Nat) {invs : List Invocation}
    {t last : Tally} {history : History} :
    (s.checkWith invs t).EndsWith history last ↔
      ∃ attempts, ChecksWith s slot invs t attempts last ∧ history = attempts.map s.entry := by
  constructor
  · intro ends
    induction invs generalizing slot t history with
    | nil =>
        obtain ⟨rfl, rfl⟩ := Job.done_endsWith_iff.mp ends
        exact ⟨[], .finished slot _, rfl⟩
    | cons inv rest ih =>
        obtain ⟨outcome, later, rfl, laterEnds⟩ := Job.run_endsWith_iff.mp ends
        cases found : s.evaluate inv outcome with
        | timedOut message =>
            rw [found] at laterEnds
            obtain ⟨rfl, rfl⟩ := Job.done_endsWith_iff.mp laterEnds
            exact ⟨_, .timedOut found, rfl⟩
        | configError output =>
            rw [found] at laterEnds
            obtain ⟨first, second, ⟨middle, goesOn⟩, rfl, recovery, onward⟩ :=
              Job.andThen_endsWith_iff.mp laterEnds
            obtain ⟨retries, checks, rfl⟩ := (checkWithout_endsWith_iff 0).mp recovery
            cases goesOn with
            | true =>
                obtain ⟨attempts, rest, rfl⟩ := ih (slot + 1) onward
                exact ⟨_, .recovered found checks rest, by simp [entry]⟩
            | false =>
                obtain ⟨rfl, rfl⟩ := Job.done_endsWith_iff.mp onward
                exact ⟨_, .abandoned found checks, by simp [entry]⟩
        | clean | violation | broken =>
            rw [found] at laterEnds
            obtain ⟨attempts, checks, rfl⟩ := ih (slot + 1) laterEnds
            refine ⟨_, .next ?_ ?_ ?_, rfl⟩
            · simp [found]
            · simp [found]
            · rw [found]
              exact checks
  · rintro ⟨attempts, checks, rfl⟩
    induction checks with
    | finished => exact .done _
    | timedOut found =>
        refine .run ?_
        rw [found]
        exact .done _
    | @next slot inv rest t last outcome attempts inTime loaded _ ih =>
        refine .run ?_
        cases found : s.evaluate inv outcome with
        | timedOut message => exact absurd found (inTime message)
        | configError output => exact absurd found (loaded output)
        | clean | violation | broken =>
            rw [found] at ih
            exact ih
    | recovered found checks _ ih =>
        refine .run ?_
        rw [found, List.map_append]
        exact ((checkWithout_endsWith_iff 0).mpr ⟨_, checks, rfl⟩).andThen ih
    | abandoned found checks =>
        refine .run ?_
        rw [found, ← List.append_nil (List.map _ _)]
        exact ((checkWithout_endsWith_iff 0).mpr ⟨_, checks, rfl⟩).andThen (.done _)

theorem verify_true_endsWith_iff {s : Stage} {history : History} {v : Verified} :
    (s.verify true).EndsWith history v ↔
      ∃ attempts t goesOn, ChecksWithout s 0 s.recoveryInvocations {} attempts t goesOn ∧
        history = attempts.map s.entry ∧ v = s.verdict t := by
  constructor
  · intro ends
    obtain ⟨first, second, ⟨t, goesOn⟩, rfl, pass, reports⟩ := Job.andThen_endsWith_iff.mp ends
    obtain ⟨attempts, checks, rfl⟩ := (checkWithout_endsWith_iff 0).mp pass
    obtain ⟨rfl, rfl⟩ := Job.done_endsWith_iff.mp reports
    exact ⟨attempts, t, goesOn, checks, List.append_nil _, rfl⟩
  · rintro ⟨attempts, t, goesOn, checks, rfl, rfl⟩
    exact Job.andThen_endsWith_iff.mpr ⟨_, [], (t, goesOn), (List.append_nil _).symm,
      (checkWithout_endsWith_iff 0).mpr ⟨attempts, checks, rfl⟩, .done _⟩

theorem verify_false_endsWith_iff {s : Stage} {history : History} {v : Verified} :
    (s.verify false).EndsWith history v ↔
      ∃ attempts t, ChecksWith s 0 s.checkInvocations {} attempts t ∧
        history = attempts.map s.entry ∧ v = s.verdict t := by
  constructor
  · intro ends
    obtain ⟨first, second, t, rfl, pass, reports⟩ := Job.andThen_endsWith_iff.mp ends
    obtain ⟨attempts, checks, rfl⟩ := (checkWith_endsWith_iff 0).mp pass
    obtain ⟨rfl, rfl⟩ := Job.done_endsWith_iff.mp reports
    exact ⟨attempts, t, checks, List.append_nil _, rfl⟩
  · rintro ⟨attempts, t, checks, rfl, rfl⟩
    exact Job.andThen_endsWith_iff.mpr ⟨_, [], t, (List.append_nil _).symm,
      (checkWith_endsWith_iff 0).mpr ⟨attempts, checks, rfl⟩, .done _⟩

/-- The job of a stage makes exactly the attempts that are described, whatever their outcomes. -/
theorem perform_endsWith_iff {s : Stage} {history : History} {v : Verified} :
    s.perform.EndsWith history v ↔
      ∃ attempts, s.Performs attempts v ∧ history = attempts.map s.entry := by
  cases fixes : s.fixArgs? with
  | none =>
      have same : s.perform = s.verify false := by simp [perform, fixes]
      rw [same, verify_false_endsWith_iff]
      constructor
      · rintro ⟨attempts, t, checks, rfl, rfl⟩
        exact ⟨attempts, .unrepaired fixes checks, rfl⟩
      · rintro ⟨attempts, performs, rfl⟩
        cases performs with
        | unrepaired _ checks => exact ⟨_, _, checks, rfl, rfl⟩
        | repaired found | repairFailed found | retryFailed found | bypassed found =>
            simp [fixes] at found
  | some fix =>
      simp only [perform, fixes, Job.andThen_endsWith_iff]
      constructor
      · rintro ⟨first, second, result, rfl, repairs, onward⟩
        obtain ⟨fixing, repairing, rfl⟩ := (repair_endsWith_iff .repair 0).mp repairs
        cases result with
        | finished =>
            obtain ⟨attempts, t, checks, rfl, rfl⟩ := verify_false_endsWith_iff.mp onward
            exact ⟨_, .repaired fixes repairing checks, by simp⟩
        | failed message =>
            obtain ⟨rfl, rfl⟩ := Job.done_endsWith_iff.mp onward
            exact ⟨_, .repairFailed fixes repairing, by simp⟩
        | configError =>
            obtain ⟨first, second, result, rfl, retries, onward⟩ :=
              Job.andThen_endsWith_iff.mp onward
            obtain ⟨retries, retrying, rfl⟩ := (repair_endsWith_iff .repairWithout 0).mp retries
            cases result with
            | failed message =>
                obtain ⟨rfl, rfl⟩ := Job.done_endsWith_iff.mp onward
                exact ⟨_, .retryFailed fixes repairing retrying, by simp⟩
            | finished | configError =>
                obtain ⟨attempts, t, goesOn, checks, rfl, rfl⟩ :=
                  verify_true_endsWith_iff.mp onward
                exact ⟨_, .bypassed fixes repairing retrying (by simp) checks, by simp⟩
      · rintro ⟨attempts, performs, rfl⟩
        cases performs with
        | unrepaired found => simp [fixes] at found
        | @repaired found repairs attempts t fixes' repairing checks =>
            cases fixes.symm.trans fixes'
            have onward := verify_false_endsWith_iff.mpr ⟨_, _, checks, rfl, rfl⟩
            exact ⟨_, _, .finished, List.map_append,
              (repair_endsWith_iff .repair 0).mpr ⟨_, repairing, rfl⟩, onward⟩
        | @repairFailed found repairs message fixes' repairing =>
            cases fixes.symm.trans fixes'
            exact ⟨_, [], .failed message, (List.append_nil _).symm,
              (repair_endsWith_iff .repair 0).mpr ⟨_, repairing, rfl⟩, .done _⟩
        | @retryFailed found repairs retries message fixes' repairing retrying =>
            cases fixes.symm.trans fixes'
            have again := (repair_endsWith_iff .repairWithout 0).mpr ⟨_, retrying, rfl⟩
            refine ⟨_, _, .configError, List.map_append,
              (repair_endsWith_iff .repair 0).mpr ⟨_, repairing, rfl⟩, ?_⟩
            exact Job.andThen_endsWith_iff.mpr
              ⟨_, [], .failed message, (List.append_nil _).symm, again, .done _⟩
        | @bypassed found repairs retries attempts result t goesOn fixes' repairing retrying
            bypasses checks =>
            cases fixes.symm.trans fixes'
            have again := (repair_endsWith_iff .repairWithout 0).mpr ⟨_, retrying, rfl⟩
            have onward := verify_true_endsWith_iff.mpr ⟨_, _, _, checks, rfl, rfl⟩
            refine ⟨_, _, .configError, List.map_append,
              (repair_endsWith_iff .repair 0).mpr ⟨_, repairing, rfl⟩, ?_⟩
            refine Job.andThen_endsWith_iff.mpr ⟨_, _, result, List.map_append, again, ?_⟩
            cases result with
            | failed message => exact absurd rfl (bypasses message)
            | finished | configError => exact onward

end Stage

/-- A binding with a tool and with files is carried out as a stage. -/
theorem Binding.verify_endsWith_iff {b : Binding} {tool : InstalledTool} {files : List Path}
    {options : StageOptions} {history : History} {v : Verified}
    (installed : b.installed = some tool) (nonempty : files ≠ []) :
    (b.verify files options).EndsWith history v ↔
      (⟨tool, b.role, files, options⟩ : Stage).perform.EndsWith history v := by
  simp [Binding.verify, installed, nonempty]

end LintGate
