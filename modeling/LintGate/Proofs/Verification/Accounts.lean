import LintGate.Proofs.Verification.Hangs

/-!
# Accounts of a binding

A binding reports at most one finding about violations and, behind it, at most one about failures of
its tool. When its programs could load their configuration, a repair that does not come to its end
is all that is reported. Otherwise the checks decide: what they print is put together in the order
of the invocations, up to the first check that hangs.
-/

namespace LintGate

/-- The program has not come to an end by itself. -/
def Outcome.isUnfinished : Outcome → Bool
  | .exited .. => false
  | .timedOut .. | .failedToStart _ => true

namespace Stage

variable {s : Stage} {slot : Nat} {invs : List Invocation} {attempts : List Attempt}
  {t last : Tally} {v : Verified}

/-! ## Reports -/

def violationFinding (s : Stage) (text : String) : Finding :=
  ⟨s.tool.name, s.options.profile, s.role,
    if s.role = .formatter then .formattingNeeded else .lintViolation, text⟩

/-- The report of a text about violations and of one about failures. -/
def reported (s : Stage) : Option String → Option String → Verified
  | none, none => .clean
  | some violations, none => .failed [s.violationFinding violations]
  | none, some failures => .failed [s.failure failures]
  | some violations, some failures => .failed [s.violationFinding violations, s.failure failures]

/-- Some texts as one, each on lines of its own. -/
def joined? (texts : List String) : Option String :=
  if texts = [] then none else some ("\n".intercalate texts)

theorem joined?_eq_none_iff {texts : List String} : joined? texts = none ↔ texts = [] := by
  simp [joined?]

theorem reported_eq_clean_iff {violations failures : Option String} :
    s.reported violations failures = .clean ↔ violations = none ∧ failures = none := by
  cases violations <;> cases failures <;> simp [reported]

theorem verdict_eq_reported (t : Tally) :
    s.verdict t = s.reported (joined? t.violations) (joined? t.failures) := by
  have category : Category.violationOf s.role =
      if s.role = .formatter then .formattingNeeded else .lintViolation := by
    cases s.role <;> rfl
  obtain ⟨violations, failures⟩ := t
  rw [verdict, findingsOf, category]
  cases violations <;> cases failures <;> rfl

theorem Performs.exists_reported (performs : s.Performs attempts v) :
    ∃ violations failures, v = s.reported violations failures := by
  obtain ⟨_, _, -, -, ended⟩ := performs.exists_phases
  rcases ended with ⟨-, message, rfl⟩ | ⟨-, t, -, rfl⟩ | ⟨-, t, _, -, rfl⟩
  · exact ⟨none, some message, rfl⟩
  · exact ⟨_, _, verdict_eq_reported t⟩
  · exact ⟨_, _, verdict_eq_reported t⟩

/-! ## What outcomes say -/

/-- What a check has to complain about. A check that says nothing is reported by its exit code. -/
def complaint? (s : Stage) (a : Attempt) : Option String :=
  match a.outcome with
  | .exited (some code) output =>
    if code = 0 then
      if s.tool.tool.failsOnOutput = true ∧ Text.allBlank output = false then some output else none
    else if code ∈ s.tool.tool.failureCodes then none
    else if Text.allBlank output = true then
      some s!"{a.invocation.display} exited with code {code}"
    else some output
  | _ => none

/-- Why a check could not do its work. -/
def breakdown? (s : Stage) (a : Attempt) : Option String :=
  match a.outcome with
  | .failedToStart message => some s!"failed to start {a.invocation.display}: {message}"
  | .timedOut after output =>
    some (s!"timed out after {after}s: {a.invocation.display}"
      ++ if output = "" then "" else "\n" ++ output)
  | .exited none output => some s!"terminated by signal: {a.invocation.display}\n{output}"
  | .exited (some code) output =>
    if code ≠ 0 ∧ code ∈ s.tool.tool.failureCodes then
      some s!"{a.invocation.display} exited with code {code}\n{output}"
    else none

/-- Why a pass of repairs cannot go on after a repair. -/
def repairFailure? (a : Attempt) : Option String :=
  match a.outcome with
  | .timedOut after output =>
    some s!"fix pass timed out after {after}s: {a.invocation.display}\n{output}"
  | .failedToStart message => some s!"failed to start {a.invocation.display}: {message}"
  | .exited .. => none

/-- The check has found nothing. -/
def Content (s : Stage) (a : Attempt) : Prop :=
  ∃ output, a.outcome = .exited (some 0) output ∧
    (s.tool.tool.failsOnOutput = true → Text.allBlank output = true)

theorem repairFailure?_eq_none_iff {a : Attempt} :
    repairFailure? a = none ↔ a.outcome.isUnfinished = false := by
  rw [repairFailure?]
  cases a.outcome <;> simp [Outcome.isUnfinished]

theorem content_iff {a : Attempt} :
    s.Content a ↔ s.complaint? a = none ∧ s.breakdown? a = none := by
  rw [Content, complaint?, breakdown?]
  cases a.outcome with
  | timedOut | failedToStart => simp
  | exited code output =>
      cases code with
      | none => simp
      | some code =>
          by_cases zero : code = 0
          · simp [zero]
          · by_cases fails : code ∈ s.tool.tool.failureCodes
            · simp [zero, fails]
            · simp only [zero, fails, if_false, Outcome.exited.injEq, Option.some.injEq, false_and,
                exists_false, false_iff, not_and]
              intro silent
              split at silent <;> cases silent

/-- A check that could load its configuration adds what its outcome says. -/
theorem tallied_eq {a : Attempt} (loaded : s.failsToLoad a = false) :
    s.tallied t (s.evaluation a) =
      ⟨t.violations ++ (s.complaint? a).toList, t.failures ++ (s.breakdown? a).toList⟩ := by
  obtain ⟨mode, slot, inv, outcome⟩ := a
  rw [evaluation, complaint?, breakdown?]
  cases outcome with
  | timedOut after output => simp [evaluate, tallied, Tally.addFailure]
  | failedToStart message => simp [evaluate, tallied, Tally.addFailure]
  | exited code output =>
      cases code with
      | none => simp [evaluate, tallied, Tally.addFailure]
      | some code =>
          dsimp only
          rw [evaluate]
          by_cases zero : code = 0
          · by_cases prints : s.tool.tool.failsOnOutput = true ∧ Text.allBlank output = false
            · simp [zero, prints.1, prints.2, tallied, Tally.addViolation]
            · have silent : (s.tool.tool.failsOnOutput && !Text.allBlank output) = false := by
                simpa using prints
              simp [zero, prints, silent, tallied]
          · have hidden : s.showsConfigError output = false := by
              simpa [failsToLoad, zero] using loaded
            by_cases fails : code ∈ s.tool.tool.failureCodes
            · simp [zero, hidden, fails, tallied, Tally.addFailure]
            · by_cases blank : Text.allBlank output = true
              · simp [zero, hidden, fails, blank, tallied, Tally.addViolation]
              · simp [zero, hidden, fails, blank, tallied, Tally.addViolation]

/-! ## Passes -/

theorem Repairs.invocations_begin {mode : Mode} {result : Repair}
    (repairs : Repairs s mode slot invs attempts result) :
    attempts.map (·.invocation) <+: invs := by
  induction repairs with
  | finished => exact List.prefix_rfl
  | stopped => simp
  | next _ _ ih => exact (List.prefix_cons_inj _).mpr ih

theorem Repairs.invocations_eq {mode : Mode}
    (repairs : Repairs s mode slot invs attempts .finished) :
    attempts.map (·.invocation) = invs := by
  generalize ended : Repair.finished = result at repairs
  induction repairs with
  | finished => rfl
  | @stopped _ inv _ outcome _ stops =>
      cases ended
      cases outcome with
      | exited code output => cases code <;> simp [repairResult?] at stops
      | timedOut | failedToStart => simp [repairResult?] at stops
  | next _ _ ih => rw [List.map_cons, ih ended]

theorem Repairs.finished_of_not_failed {result : Repair}
    (repairs : Repairs s .repair slot invs attempts result)
    (notFailed : ∀ message, result ≠ .failed message) :
    ∀ a ∈ attempts, a.outcome.isUnfinished = false := by
  intro a member
  have passes := (repairs.failed_iff (.inl rfl)).mp notFailed a member
  have mode := repairs.mode_eq a member
  obtain ⟨mode, slot, inv, outcome⟩ := a
  dsimp only at mode
  subst mode
  cases outcome with
  | exited => rfl
  | timedOut | failedToStart => simp [Passes, repairResult?] at passes

/-- A pass of repairs fails with its last repair. -/
theorem Repairs.exists_last_of_failed {mode : Mode} {message : String}
    (repairs : Repairs s mode slot invs attempts (.failed message)) :
    ∃ front a, attempts = front ++ [a] ∧ (∀ b ∈ front, b.outcome.isUnfinished = false) ∧
      repairFailure? a = some message := by
  generalize ended : Repair.failed message = result at repairs
  induction repairs with
  | finished => cases ended
  | @stopped _ _ _ outcome _ stops =>
      cases ended
      refine ⟨[], _, rfl, by simp, ?_⟩
      cases outcome with
      | exited code output => cases code <;> simp [repairResult?] at stops
      | timedOut | failedToStart =>
          cases stops
          rfl
  | @next _ _ _ outcome _ _ goesOn _ ih =>
      obtain ⟨front, a, rfl, finished, fails⟩ := ih ended
      refine ⟨_ :: front, a, rfl, ?_, fails⟩
      rw [List.forall_mem_cons]
      refine ⟨?_, finished⟩
      cases outcome with
      | exited => rfl
      | timedOut | failedToStart => cases goesOn

theorem Repairs.exists_failsToLoad {mode : Mode}
    (repairs : Repairs s mode slot invs attempts .configError) :
    ∃ a ∈ attempts, s.failsToLoad a = true := by
  generalize ended : Repair.configError = result at repairs
  induction repairs with
  | finished => cases ended
  | stopped stops =>
      cases ended
      rcases repairResult?_cases stops with ⟨-, fails⟩ | ⟨⟨message, other⟩, -⟩
      · exact ⟨_, List.mem_cons_self, fails⟩
      · cases other
  | next _ _ ih =>
      obtain ⟨a, member, fails⟩ := ih ended
      exact ⟨a, List.mem_cons_of_mem _ member, fails⟩

/-- Checks are made in order, and where none of them hangs all of them are made. -/
theorem ChecksWith.invocations_begin (checks : ChecksWith s slot invs t attempts last)
    (loaded : ∀ a ∈ attempts, s.failsToLoad a = false) :
    attempts.map (·.invocation) <+: invs ∧
      ((∀ a ∈ attempts, a.hangs = false) → attempts.map (·.invocation) = invs) := by
  induction checks with
  | finished => simp
  | timedOut found =>
      have hangs := evaluate_eq_timedOut_iff.mp ⟨_, found⟩
      refine ⟨by simp, fun inTime => ?_⟩
      cases hangs.symm.trans (inTime _ List.mem_cons_self)
  | next _ _ _ ih =>
      rw [List.forall_mem_cons] at loaded
      obtain ⟨begins, whole⟩ := ih loaded.2
      refine ⟨(List.prefix_cons_inj _).mpr begins, fun inTime => ?_⟩
      rw [List.map_cons, whole (List.forall_mem_cons.mp inTime).2]
  | recovered found | abandoned found =>
      have shows := loaded _ List.mem_cons_self
      rw [← Bool.not_eq_true, failsToLoad_iff] at shows
      exact absurd ⟨_, found⟩ shows

theorem ChecksWith.eq_tally (checks : ChecksWith s slot invs t attempts last)
    (loaded : ∀ a ∈ attempts, s.failsToLoad a = false) :
    last = ⟨t.violations ++ attempts.filterMap s.complaint?,
      t.failures ++ attempts.filterMap s.breakdown?⟩ := by
  have adds (a : Attempt) (texts : List String) (text? : Attempt → Option String)
      (attempts : List Attempt) : texts ++ (text? a).toList ++ attempts.filterMap text? =
        texts ++ (a :: attempts).filterMap text? := by
    rw [List.append_assoc, List.filterMap_cons]
    cases text? a <;> rfl
  induction checks with
  | finished => simp
  | @timedOut slot inv rest t outcome message found =>
      rw [List.forall_mem_singleton] at loaded
      have added := tallied_eq (t := t) loaded
      rw [evaluation, found] at added
      rw [← adds, ← adds, List.filterMap_nil, List.filterMap_nil, List.append_nil, List.append_nil]
      exact added
  | @next slot inv rest t last outcome attempts _ _ _ ih =>
      rw [List.forall_mem_cons] at loaded
      have added := tallied_eq (t := t) loaded.1
      rw [evaluation] at added
      rw [ih loaded.2, added, adds, adds]
  | recovered found | abandoned found =>
      have shows := loaded _ List.mem_cons_self
      rw [← Bool.not_eq_true, failsToLoad_iff] at shows
      exact absurd ⟨_, found⟩ shows

/-! ## The whole stage -/

/-- The invocations of the repairs with the configuration. -/
def repairInvocations (s : Stage) : List Invocation :=
  (s.fixArgs?.map fun fix => s.invocations fix []).getD []

/-- How a stage came to its report by some repairs and then some checks, all of which could load the
configuration. -/
structure Accounts (s : Stage) (repairs checks : List Attempt) (v : Verified) : Prop where
  repairsInOrder : repairs.map (·.invocation) <+: s.repairInvocations
  checksInOrder : checks.map (·.invocation) <+: s.checkInvocations
  clean_iff : v = .clean ↔
    (∀ a ∈ repairs, a.outcome.isUnfinished = false) ∧ ∀ a ∈ checks, s.Content a
  /-- A repair that does not come to its end is the last attempt. -/
  repairFailed : ∀ a ∈ repairs, a.outcome.isUnfinished = true →
    ∃ front message, repairs = front ++ [a] ∧ checks = [] ∧ repairFailure? a = some message ∧
      v = s.reported none (some message)
  allRepaired : (∀ a ∈ repairs, a.outcome.isUnfinished = false) →
    repairs.map (·.invocation) = s.repairInvocations
  /-- A check that hangs is the last attempt, and without one all checks are made. -/
  endsAtHang : EndsAtHang checks
  allChecked : (∀ a ∈ repairs, a.outcome.isUnfinished = false) →
    (∀ a ∈ checks, a.outcome.isTimeout = false) →
      checks.map (·.invocation) = s.checkInvocations
  checked : (∀ a ∈ repairs, a.outcome.isUnfinished = false) →
    v = s.reported (joined? (checks.filterMap s.complaint?))
      (joined? (checks.filterMap s.breakdown?))

theorem reported_eq_clean_iff_content {checks : List Attempt} :
    s.reported (joined? (checks.filterMap s.complaint?))
      (joined? (checks.filterMap s.breakdown?)) = .clean ↔ ∀ a ∈ checks, s.Content a := by
  rw [reported_eq_clean_iff, joined?_eq_none_iff, joined?_eq_none_iff, List.filterMap_eq_nil_iff,
    List.filterMap_eq_nil_iff]
  simp only [content_iff]
  exact ⟨fun ⟨no_complaint, no_breakdown⟩ a member =>
      ⟨no_complaint a member, no_breakdown a member⟩,
    fun content => ⟨fun a member => (content a member).1, fun a member => (content a member).2⟩⟩

theorem ChecksWith.accounts {repairs checks : List Attempt}
    (checking : ChecksWith s 0 s.checkInvocations {} checks t)
    (loaded : ∀ a ∈ checks, s.failsToLoad a = false)
    (repaired : repairs.map (·.invocation) = s.repairInvocations)
    (finished : ∀ a ∈ repairs, a.outcome.isUnfinished = false) :
    s.Accounts repairs checks (s.verdict t) := by
  have report : s.verdict t = s.reported (joined? (checks.filterMap s.complaint?))
      (joined? (checks.filterMap s.breakdown?)) := by
    rw [verdict_eq_reported, checking.eq_tally loaded, List.nil_append, List.nil_append]
  obtain ⟨begins, whole⟩ := checking.invocations_begin loaded
  refine ⟨?_, begins, ?_, ?_, fun _ => repaired, checking.endsAtHang, fun _ => whole,
    fun _ => report⟩
  · exact repaired ▸ List.prefix_rfl
  · rw [report, reported_eq_clean_iff_content]
    exact ⟨fun content => ⟨finished, content⟩, fun both => both.2⟩
  · intro a member unfinished
    cases unfinished.symm.trans (finished a member)

theorem Performs.exists_accounts (performs : s.Performs attempts v)
    (loaded : ∀ a ∈ attempts, s.failsToLoad a = false) :
    ∃ repairs checks, attempts = repairs ++ checks ∧ s.Accounts repairs checks v := by
  have repairs_of {fix : List String} (fixes : s.fixArgs? = some fix) :
      s.invocations fix [] = s.repairInvocations := by
    rw [repairInvocations, fixes]
    rfl
  cases performs with
  | unrepaired unfixed checking =>
      refine ⟨[], attempts, rfl, checking.accounts loaded ?_ (by simp)⟩
      rw [repairInvocations, unfixed]
      rfl
  | @repaired _ repairs checks _ fixes repairing checking =>
      rw [List.forall_mem_append] at loaded
      refine ⟨repairs, checks, rfl, checking.accounts loaded.2 ?_ ?_⟩
      · rw [repairing.invocations_eq, repairs_of fixes]
      · exact repairing.finished_of_not_failed (by simp)
  | @repairFailed _ _ message fixes repairing =>
      obtain ⟨front, a, rfl, finished, fails⟩ := repairing.exists_last_of_failed
      have unfinished : a.outcome.isUnfinished = true := by
        rw [← Bool.not_eq_false, ← repairFailure?_eq_none_iff, fails]
        exact Option.some_ne_none _
      have not_all : ¬ ∀ b ∈ front ++ [a], b.outcome.isUnfinished = false := fun all =>
        Bool.noConfusion (unfinished.symm.trans (all a (by simp)))
      refine ⟨front ++ [a], [], (List.append_nil _).symm, ?_, List.nil_prefix, ?_, ?_, ?_, .nil,
        ?_, ?_⟩
      · rw [← repairs_of fixes]
        exact repairing.invocations_begin
      · exact ⟨fun clean => Verified.noConfusion clean, fun both => absurd both.1 not_all⟩
      · intro b member stops
        rcases List.mem_append.mp member with early | here
        · cases stops.symm.trans (finished b early)
        · rw [List.mem_singleton.mp here]
          exact ⟨front, message, rfl, rfl, fails, rfl⟩
      · exact fun all => absurd all not_all
      · exact fun all => absurd all not_all
      · exact fun all => absurd all not_all
  | retryFailed _ repairing | bypassed _ repairing =>
      obtain ⟨a, member, fails⟩ := repairing.exists_failsToLoad
      cases fails.symm.trans (loaded a (List.mem_append_left _ member))

end Stage

theorem Stage.loaded_of_history {s : Stage} {attempts : List Stage.Attempt}
    (hidden : ∀ launch code output,
      (launch, Outcome.exited (some code) output) ∈ attempts.map s.entry →
        code = 0 ∨ s.showsConfigError output = false) :
    ∀ a ∈ attempts, s.failsToLoad a = false := by
  rintro ⟨mode, slot, inv, outcome⟩ member
  cases outcome with
  | timedOut | failedToStart => rfl
  | exited code output =>
      cases code with
      | none => rfl
      | some code =>
          have entered := List.mem_map_of_mem (f := s.entry) member
          rcases hidden _ code output entered with zero | silent
          · simp [failsToLoad, zero]
          · simp [failsToLoad, silent]

/-- However its programs end, a binding with a tool and with files is clean, or fails with one
finding about violations, one about failures, or both in this order. When no program shows a failure
to load the configuration, the outcomes of the repairs and the checks account for the report. -/
theorem Binding.verify_accounts {b : Binding} {tool : InstalledTool} {files : List Path}
    {options : StageOptions} (installed : b.installed = some tool) (nonempty : files ≠ []) :
    let s : Stage := ⟨tool, b.role, files, options⟩
    (∀ (σ : Type) (host : Job.Host σ) (m : σ), ∃ history,
      (b.verify files options).EndsWith history ((b.verify files options).perform host m).1) ∧
    ∀ history v, (b.verify files options).EndsWith history v →
      (∃ violations failures, v = s.reported violations failures) ∧
      ((∀ launch code output, (launch, Outcome.exited (some code) output) ∈ history →
          code = 0 ∨ s.showsConfigError output = false) →
        ∃ repairs checks, history = (repairs ++ checks).map s.entry ∧
          s.Accounts repairs checks v) := by
  intro s
  refine ⟨fun _ host => Job.exists_history_of_perform host _, fun history v ends => ?_⟩
  rw [Binding.verify_endsWith_iff installed nonempty] at ends
  obtain ⟨attempts, performs, rfl⟩ := Stage.perform_endsWith_iff.mp ends
  refine ⟨performs.exists_reported, fun hidden => ?_⟩
  obtain ⟨repairs, checks, rfl, accounts⟩ :=
    performs.exists_accounts (Stage.loaded_of_history hidden)
  exact ⟨repairs, checks, rfl, accounts⟩

section Example

/-- A formatter that is given one file at a time, and five files. -/
def moduleStage : Stage where
  tool := ⟨.terraformFmt, "/bin/terraform", none⟩
  role := .formatter
  files := ["a.tf", "b.tf", "c.tf", "d.tf", "e.tf"]
  options := { root := "/w", profile := "terraform" }

def moduleBinding : Binding :=
  ⟨.formatter, ["terraform-fmt"], some moduleStage.tool⟩

def moduleEntry (args : List String) (outcome : Outcome) : Launch × Outcome :=
  (moduleStage.launch ⟨"/bin/terraform", args⟩, outcome)

/-- All files are repaired. Behind a content check there is one that finds fault, one that is killed
and one that hangs, so the last file is not checked. -/
def moduleHistory : History :=
  [moduleEntry ["fmt", "a.tf"] (.exited (some 0) ""),
    moduleEntry ["fmt", "b.tf"] (.exited (some 2) "unclosed block"),
    moduleEntry ["fmt", "c.tf"] (.exited (some 0) ""),
    moduleEntry ["fmt", "d.tf"] (.exited none ""),
    moduleEntry ["fmt", "e.tf"] (.exited (some 0) "e.tf"),
    moduleEntry ["fmt", "-check", "-diff", "a.tf"] (.exited (some 0) ""),
    moduleEntry ["fmt", "-check", "-diff", "b.tf"] (.exited (some 2) "unclosed block"),
    moduleEntry ["fmt", "-check", "-diff", "c.tf"] (.exited none ""),
    moduleEntry ["fmt", "-check", "-diff", "d.tf"] (.timedOut 120 "")]

def moduleReport : Verified :=
  .failed [
    ⟨"terraform-fmt", "terraform", .formatter, .formattingNeeded, "unclosed block"⟩,
    ⟨"terraform-fmt", "terraform", .formatter, .toolFailure,
      "terminated by signal: terraform fmt -check -diff c.tf\n\n" ++
        "timed out after 120s: terraform fmt -check -diff d.tf"⟩]

theorem moduleBinding_endsWith :
    (moduleBinding.verify moduleStage.files moduleStage.options).EndsWith moduleHistory
      moduleReport := by
  have checked : moduleReport = moduleStage.verdict ⟨["unclosed block"],
      ["terminated by signal: terraform fmt -check -diff c.tf\n",
        "timed out after 120s: terraform fmt -check -diff d.tf"]⟩ := by decide +kernel
  rw [checked]
  exact .run (.run (.run (.run (.run (.run (.run (.run (.run (.done _)))))))))

theorem Binding.verify_accounts_mixed :
    moduleBinding.installed = some moduleStage.tool ∧ moduleStage.files ≠ [] ∧
      (moduleBinding.verify moduleStage.files moduleStage.options).EndsWith moduleHistory
        moduleReport ∧
      ∃ repairs checks, moduleHistory = (repairs ++ checks).map moduleStage.entry ∧
        moduleStage.Accounts repairs checks moduleReport := by
  have installed : moduleBinding.installed = some moduleStage.tool := rfl
  have nonempty : moduleStage.files ≠ [] := by decide
  obtain ⟨-, accounts⟩ := @Binding.verify_accounts moduleBinding _ _ moduleStage.options installed
    nonempty
  refine ⟨installed, nonempty, moduleBinding_endsWith, ?_⟩
  -- The tool has no rule for failures to load a configuration.
  exact (accounts _ _ moduleBinding_endsWith).2 fun _ _ _ _ => .inr rfl

end Example

end LintGate
