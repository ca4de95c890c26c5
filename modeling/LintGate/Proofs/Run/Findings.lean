import LintGate.Proofs.Process.Capture
import LintGate.Proofs.Run.CustomChecks
import LintGate.Proofs.Verification.Accounts
import LintGate.Report.Structured

/-!
# Well-formed findings

Whatever the programs of a run do, each finding of its verdict shows something, names a profile of
the verdict or the profile for all languages, and is of a category that fits its role. The stages of
the tools pass over blank text, the checks from the settings over empty text only; both come to the
same because output is captured.
-/

namespace LintGate

/-- A finding tells of a failure, or of the kind of violation that its role finds, and does so with
a text that shows something. -/
structure Finding.Tells (f : Finding) : Prop where
  shows : Text.allBlank f.output = false
  category : f.category = .toolFailure ∨ f.category = Category.violationOf f.role

/-! ## Findings of tools -/

/-- All texts of a tally show something. -/
structure Tally.Shows (t : Tally) : Prop where
  violations : ∀ text ∈ t.violations, Text.allBlank text = false
  failures : ∀ message ∈ t.failures, Text.allBlank message = false

/-- The text that is kept of an evaluation shows something. -/
def Evaluation.Shows : Evaluation → Prop
  | .clean | .configError _ => True
  | .violation text => Text.allBlank text = false
  | .broken message => Text.allBlank message = false
  | .timedOut message => Text.allBlank message = false

namespace Tally.Shows

variable {t : Tally} {text : String}

theorem empty : Tally.Shows {} where
  violations := by simp
  failures := by simp

theorem addViolation (earlier : t.Shows) (shows : Text.allBlank text = false) :
    (t.addViolation text).Shows where
  violations := List.forall_mem_append.mpr ⟨earlier.violations, List.forall_mem_singleton.mpr shows⟩
  failures := earlier.failures

theorem addFailure (earlier : t.Shows) (shows : Text.allBlank text = false) :
    (t.addFailure text).Shows where
  violations := earlier.violations
  failures := List.forall_mem_append.mpr ⟨earlier.failures, List.forall_mem_singleton.mpr shows⟩

end Tally.Shows

/-! A message shows something when it has words of its own, whatever stands between them. -/

namespace Text

theorem allBlank_failedToStart (name message : String) :
    allBlank s!"failed to start {name}: {message}" = false := by
  have words : allBlank "failed to start " = false := by decide
  simp only [allBlank_append, toString, words, Bool.false_and]

theorem allBlank_terminated (name output : String) :
    allBlank s!"terminated by signal: {name}\n{output}" = false := by
  have words : allBlank "terminated by signal: " = false := by decide
  simp only [allBlank_append, toString, words, Bool.false_and]

theorem allBlank_timedOut (after : Nat) (name : String) :
    allBlank s!"timed out after {after}s: {name}" = false := by
  have words : allBlank "timed out after " = false := by decide
  simp only [allBlank_append, toString, words, Bool.false_and]

theorem allBlank_exitedWith (name : String) (code : Nat) :
    allBlank s!"{name} exited with code {code}" = false := by
  have words : allBlank " exited with code " = false := by decide
  simp only [allBlank_append, toString, words, Bool.and_false, Bool.false_and]

end Text

namespace Stage

variable {s : Stage} {slot : Nat} {invs : List Invocation} {attempts : List Attempt}
  {t last : Tally} {f : Finding}

theorem allBlank_stillConfigError (s : Stage) (output : String) :
    Text.allBlank (s.stillConfigError output) = false := by
  have spelled : s.stillConfigError output = "configuration could not be loaded, even with "
      ++ " ".intercalate s.overrideArgs ++ ":\n" ++ output := rfl
  have words : Text.allBlank "configuration could not be loaded, even with " = false := by
    decide +kernel
  rw [spelled]
  simp only [Text.allBlank_append, words, Bool.false_and]

theorem evaluate_shows (s : Stage) (inv : Invocation) (outcome : Outcome) :
    (s.evaluate inv outcome).Shows := by
  cases outcome with
  | failedToStart message => exact Text.allBlank_failedToStart _ message
  | timedOut after output =>
      rw [evaluate, Evaluation.Shows, Text.allBlank_append, Text.allBlank_timedOut]
      rfl
  | exited code output =>
      cases code with
      | none => exact Text.allBlank_terminated _ output
      | some code =>
          rw [evaluate]
          split
          · split
            case isTrue prints =>
              rw [Bool.and_eq_true, Bool.not_eq_true'] at prints
              exact prints.2
            case isFalse => trivial
          · split
            · trivial
            · split
              · rw [Evaluation.Shows, Text.allBlank_append, Text.allBlank_append,
                  Text.allBlank_exitedWith]
                rfl
              · split
                case isTrue => exact Text.allBlank_exitedWith _ code
                case isFalse prints => exact Bool.eq_false_of_not_eq_true prints

theorem tallied_shows {e : Evaluation} (earlier : t.Shows) (shows : e.Shows) :
    (s.tallied t e).Shows := by
  cases e with
  | clean => exact earlier
  | violation => exact earlier.addViolation shows
  | configError output => exact earlier.addFailure (s.allBlank_stillConfigError output)
  | broken | timedOut => exact earlier.addFailure shows

theorem ChecksWithout.shows {goesOn : Bool}
    (checks : ChecksWithout s slot invs t attempts last goesOn) (earlier : t.Shows) :
    last.Shows := by
  induction checks with
  | finished => exact earlier
  | @timedOut _ inv _ _ outcome _ found =>
      have shows := s.evaluate_shows inv outcome
      rw [found] at shows
      exact earlier.addFailure shows
  | next _ _ ih => exact ih (tallied_shows earlier (s.evaluate_shows _ _))

theorem ChecksWith.shows (checks : ChecksWith s slot invs t attempts last) (earlier : t.Shows) :
    last.Shows := by
  induction checks with
  | finished => exact earlier
  | @timedOut _ inv _ _ outcome _ found =>
      have shows := s.evaluate_shows inv outcome
      rw [found] at shows
      exact earlier.addFailure shows
  | next _ _ _ ih => exact ih (tallied_shows earlier (s.evaluate_shows _ _))
  | recovered _ retrying _ ih => exact ih (retrying.shows earlier)
  | abandoned _ retrying => exact retrying.shows earlier

theorem Repairs.shows {mode : Mode} {message : String}
    (repairs : Repairs s mode slot invs attempts (.failed message)) :
    Text.allBlank message = false := by
  obtain ⟨_, ⟨_, _, _, outcome⟩, -, -, fails⟩ := repairs.exists_last_of_failed
  cases outcome with
  | exited => cases fails
  | timedOut after output =>
      cases fails
      have words : Text.allBlank "fix pass timed out after " = false := by decide
      simp only [Text.allBlank_append, toString, words, Bool.false_and]
  | failedToStart =>
      cases fails
      exact Text.allBlank_failedToStart _ _

theorem failure_tells {message : String} (shows : Text.allBlank message = false) :
    (s.failure message).Tells :=
  ⟨shows, .inl rfl⟩

theorem tells_of_mem_verdict (shows : t.Shows) (member : f ∈ (s.verdict t).findings) : f.Tells := by
  have found : f ∈ s.findingsOf t := by
    rw [verdict] at member
    split at member
    · cases member
    · exact member
  rw [findingsOf] at found
  rcases List.mem_append.mp found with violation | failure
  · split at violation
    case isTrue => cases violation
    case isFalse some_text =>
      rw [List.mem_singleton.mp violation]
      exact ⟨Text.allBlank_joined (by simpa using some_text) shows.violations, .inr rfl⟩
  · split at failure
    case isTrue => cases failure
    case isFalse some_text =>
      rw [List.mem_singleton.mp failure]
      exact failure_tells (Text.allBlank_joined (by simpa using some_text) shows.failures)

theorem Performs.tells {v : Verified} (performs : s.Performs attempts v) (member : f ∈ v.findings) :
    f.Tells := by
  cases performs with
  | unrepaired _ checks => exact tells_of_mem_verdict (checks.shows .empty) member
  | repaired _ _ checks => exact tells_of_mem_verdict (checks.shows .empty) member
  | repairFailed _ repairs =>
      rw [List.mem_singleton.mp member]
      exact failure_tells repairs.shows
  | retryFailed _ _ retries =>
      rw [List.mem_singleton.mp member]
      exact failure_tells retries.shows
  | bypassed _ _ _ _ checks => exact tells_of_mem_verdict (checks.shows .empty) member

end Stage

theorem Binding.tells_of_verify {b : Binding} {files : List Path} {options : StageOptions}
    {history : History} {v : Verified} {f : Finding}
    (ends : (b.verify files options).EndsWith history v) (member : f ∈ v.findings) : f.Tells := by
  rw [verify] at ends
  split at ends
  case h_1 =>
    cases ends
    cases member
  case h_2 tool =>
    split at ends
    case isTrue =>
      cases ends
      cases member
    case isFalse =>
      obtain ⟨attempts, performs, -⟩ := Stage.perform_endsWith_iff.mp ends
      exact performs.tells member

/-! ## Findings of checks -/

theorem CustomCheck.shows_of_judge {inv : Invocation} {outcome : Outcome} {category : Category}
    {text : String} (captured : outcome.Captured)
    (judged : judge inv outcome = some (category, text)) :
    Text.allBlank text = false ∧ (category = .toolFailure ∨ category = .lintViolation) := by
  cases outcome with
  | failedToStart message =>
      cases judged
      exact ⟨Text.allBlank_failedToStart _ message, .inl rfl⟩
  | timedOut after =>
      cases judged
      exact ⟨Text.allBlank_timedOut after _, .inl rfl⟩
  | exited code output =>
      cases code with
      | none =>
          cases judged
          exact ⟨Text.allBlank_terminated _ output, .inl rfl⟩
      | some code =>
          rw [judge] at judged
          split at judged
          · cases judged
          · split at judged
            case isTrue =>
              cases judged
              exact ⟨Text.allBlank_exitedWith _ code, .inr rfl⟩
            case isFalse printed =>
              cases judged
              exact ⟨captured.shows (by simpa using printed), .inr rfl⟩

theorem CustomCheck.tells_of_perform {check : CustomCheck} {root : Path} {profile : String}
    {files : List Path} {thresholds : Thresholds} {history : History} {f : Finding}
    (ends : (check.perform root profile files thresholds).EndsWith history (some f))
    (captured : history.Captured) : f.Tells := by
  rw [perform, performWithin] at ends
  split at ends
  case h_1 => cases ends
  case h_2 inv command =>
    obtain ⟨outcome, _, rfl, answers⟩ := Job.run_endsWith_iff.mp ends
    obtain ⟨-, found⟩ := Job.done_endsWith_iff.mp answers
    obtain ⟨⟨category, text⟩, judged, rfl⟩ := Option.map_eq_some_iff.mp found.symm
    obtain ⟨shows, fits⟩ := shows_of_judge (captured _ List.mem_cons_self) judged
    exact ⟨shows, fits⟩

theorem Check.allBlank_of_sizeLine? {limitKb size : Nat} {file : Path} {line : String}
    (reported : sizeLine? limitKb file size = some line) : Text.allBlank line = false := by
  rw [sizeLine?] at reported
  split at reported
  · cases reported
    have words : Text.allBlank " KB (limit " = false := by decide
    simp only [Text.allBlank_append, toString, words, Bool.and_false, Bool.false_and]
  · cases reported

namespace Settings

variable {s : Settings} {l : Language} {files : List Path} {history : History} {f : Finding}

theorem tells_of_checks {profile : String} {checks : List CustomCheck}
    {found : List (Option Finding)}
    (ends : (Job.each (fun c => c.perform s.root profile files s.thresholds) checks).EndsWith
      history found)
    (captured : history.Captured) (member : f ∈ found.filterMap id) : f.Tells := by
  obtain ⟨answer, inside, same⟩ := List.mem_filterMap.mp member
  obtain rfl : answer = some f := same
  obtain ⟨check, -, own, ends, part⟩ := Job.exists_part_of_mem_each ends inside
  exact CustomCheck.tells_of_perform ends fun entry told => captured entry (part.subset told)

theorem tells_of_performSizeCheck
    (ends : (s.performSizeCheck l files).EndsWith history (some f)) : f.Tells := by
  rw [performSizeCheck] at ends
  split at ends
  case h_1 => cases ends
  case h_2 limit =>
    obtain ⟨_, _, lines, -, looked, ends⟩ := Job.andThen_endsWith_iff.mp ends
    obtain ⟨-, found⟩ := Job.done_endsWith_iff.mp ends
    have show_all : ∀ line ∈ lines.filterMap id, Text.allBlank line = false := by
      intro line member
      obtain ⟨answer, inside, same⟩ := List.mem_filterMap.mp member
      obtain rfl : answer = some line := same
      obtain ⟨file, -, own, ends⟩ := Job.exists_history_of_mem_each looked inside
      obtain ⟨t, ends⟩ := Job.look_endsWith_iff.mp ends
      obtain ⟨-, seen⟩ := Job.done_endsWith_iff.mp ends
      obtain ⟨size, -, reported⟩ := Option.bind_eq_some_iff.mp seen.symm
      exact Check.allBlank_of_sizeLine? reported
    rw [Check.sizeFinding?] at found
    split at found
    case isTrue => cases found
    case isFalse some_line =>
      cases found
      exact ⟨Text.allBlank_joined (by simpa using some_line) show_all, .inr rfl⟩

theorem tells_of_performChecks {found : List Finding}
    (ends : (s.performChecks l files).EndsWith history found) (captured : history.Captured)
    (member : f ∈ found) : f.Tells := by
  rw [performChecks] at ends
  split at ends
  · cases ends
    cases member
  · obtain ⟨sizes, _, size, rfl, sized, ends⟩ := Job.andThen_endsWith_iff.mp ends
    obtain ⟨checks, _, others, rfl, checked, ends⟩ := Job.andThen_endsWith_iff.mp ends
    obtain ⟨rfl, rfl⟩ := Job.done_endsWith_iff.mp ends
    rw [History.captured_append_iff, History.captured_append_iff] at captured
    rcases List.mem_append.mp member with large | other
    · obtain rfl := Option.mem_toList.mp large
      exact tells_of_performSizeCheck sized
    · exact tells_of_checks checked captured.2.1 other

theorem tells_of_performGlobalChecks {found : List Finding}
    (ends : (s.performGlobalChecks files).EndsWith history found) (captured : history.Captured)
    (member : f ∈ found) : f.Tells := by
  obtain ⟨checks, _, answers, rfl, checked, ends⟩ := Job.andThen_endsWith_iff.mp ends
  obtain ⟨rfl, rfl⟩ := Job.done_endsWith_iff.mp ends
  rw [History.captured_append_iff] at captured
  exact tells_of_checks checked captured.1 member

end Settings

/-! ## Findings of a run -/

/-- What a reader of a verdict can rely on for a finding: it blocks, it shows something, its profile
is one that was looked at or the one for all languages, and its category fits its role. -/
structure Finding.WellFormed (v : Verdict) (f : Finding) : Prop where
  blocks : v.exitCode = 2 ∧ (Report.findingJson f).field? "blocking" = some (.bool true)
  shows : ∃ c ∈ f.output.toList, Text.isBlank c = false
  listed : f.profile = Settings.globalProfile ∨ ∃ p ∈ v.profiles, f.profile = p.profile
  category : match f.role with
    | .formatter => f.category = .formattingNeeded ∨ f.category = .toolFailure
    | .linter | .check => f.category = .lintViolation ∨ f.category = .toolFailure

theorem Finding.Tells.wellFormed {v : Verdict} {f : Finding} (tells : f.Tells)
    (member : f ∈ v.findings)
    (listed : f.profile = Settings.globalProfile ∨ ∃ p ∈ v.profiles, f.profile = p.profile) :
    f.WellFormed v where
  blocks := by
    have some_finding : v.isClean = false := by
      rw [Verdict.isClean, List.isEmpty_eq_false_iff]
      exact List.ne_nil_of_mem member
    rw [Verdict.exitCode, some_finding]
    exact ⟨rfl, rfl⟩
  shows := Text.allBlank_eq_false_iff.mp tells.shows
  listed := listed
  category := by
    obtain ⟨tool, profile, role, category, output⟩ := f
    cases role <;> exact tells.category.symm

/-- All findings of the verdict are well formed. -/
def Verdict.WellFormed (v : Verdict) : Prop :=
  ∀ f ∈ v.findings, f.WellFormed v

namespace RunContext

variable {c : RunContext} {history : History}

theorem tells_of_performLanguage {l : Language} {r : LanguageResult} {f : Finding}
    (ends : (c.performLanguage l).EndsWith history r) (captured : history.Captured)
    (found : f ∈ r.findings) : f.Tells := by
  obtain ⟨stage, inside, among⟩ := LanguageResult.mem_findings_iff.mp found
  obtain ⟨_, files, -, cases⟩ := performLanguage_endsWith_cases ends
  rcases cases with ⟨-, -, rfl⟩ |
    ⟨-, _, _, _, _, formatter, linter, formatted, linted, checked, -, formats, lints, checks, rfl,
      rfl⟩
  · cases inside
  · simp only [History.captured_append_iff] at captured
    simp only [List.mem_cons, List.not_mem_nil, or_false] at inside
    rcases inside with rfl | rfl | rfl
    · exact Binding.tells_of_verify formats among
    · exact Binding.tells_of_verify lints among
    · exact Settings.tells_of_performChecks checks captured.2.2.2.2 among

theorem tells_of_closingChecks {results : List LanguageResult} {closing : List Finding}
    {f : Finding} (ends : (c.closingChecks results).EndsWith history closing)
    (captured : history.Captured) (member : f ∈ closing) : f.Tells := by
  rw [closingChecks] at ends
  split at ends
  · cases ends
    cases member
  · exact Settings.tells_of_performGlobalChecks ends captured member

variable {languages : List Language} {results : List LanguageResult} {work closing : History}
  {verdict : Verdict}

theorem wellFormed_of_endTogether
    (together : Job.EndTogether (languages.map c.performLanguage) work results)
    (ends : (c.conclude results).EndsWith closing verdict) (captured : (work ++ closing).Captured) :
    verdict.WellFormed := by
  rw [History.captured_append_iff] at captured
  rw [conclude_eq c (stagesDistinct_of_endTogether together)] at ends
  obtain ⟨last, _, global, rfl, checks, ends⟩ := Job.andThen_endsWith_iff.mp ends
  obtain ⟨rfl, rfl⟩ := Job.done_endsWith_iff.mp ends
  rw [List.append_nil] at captured
  intro f member
  rcases List.mem_append.mp member with ofLanguage | ofAll
  · obtain ⟨r, inside, found⟩ := List.mem_flatMap.mp ofLanguage
    obtain ⟨l, -, own, looks, part⟩ := together.exists_part_of_mem inside
    have about := isAbout_of_performLanguage looks
    have tells : f.Tells :=
      tells_of_performLanguage looks (fun entry told => captured.1 entry (part.subset told)) found
    refine tells.wellFormed member (.inr ⟨r.summary, List.mem_map_of_mem inside, ?_⟩)
    rw [about.findings f found, about.summary]
  · have tells := tells_of_closingChecks checks captured.2 ofAll
    exact tells.wellFormed member (.inl (profile_of_closingChecks checks ofAll))

theorem captured_of_ran (ran : Machine.host.Ran history) : history.Captured := by
  intro entry member
  obtain ⟨m, ended⟩ := ran entry member
  rw [ended]
  exact m.run_captured entry.1

/-- Whatever is captured of the programs of a run, and whatever it sees of the files, all findings
of its verdict are well formed, be its languages looked at side by side or one after another. On a
machine everything is captured. -/
theorem verdict_wellFormed (c : RunContext) (languages : List Language) :
    (∀ results work closing verdict,
      Job.EndTogether (languages.map c.performLanguage) work results →
      (c.conclude results).EndsWith closing verdict → (work ++ closing).Captured →
      verdict.WellFormed) ∧
    (∀ history verdict, (c.perform languages).EndsWith history verdict → history.Captured →
      verdict.WellFormed) ∧
    (∀ (m last : Machine) (results : List LanguageResult),
      Job.Interleaves Machine.host (languages.map c.performLanguage) m (results.map .done) last →
      ((c.conclude results).perform Machine.host last).1.WellFormed) ∧
    ∀ m : Machine, ((c.perform languages).perform Machine.host m).1.WellFormed := by
  have sequential : ∀ history verdict, (c.perform languages).EndsWith history verdict →
      history.Captured → verdict.WellFormed := by
    intro history verdict ends captured
    obtain ⟨work, closing, results, rfl, looks, concludes⟩ := Job.andThen_endsWith_iff.mp ends
    exact wellFormed_of_endTogether (Job.endTogether_of_each looks) concludes captured
  refine ⟨fun _ _ _ _ => wellFormed_of_endTogether, sequential, ?_, ?_⟩
  · intro m last results interleaved
    obtain ⟨work, together, ran⟩ := interleaved.exists_ran
    obtain ⟨closing, concludes, closed⟩ :=
      Job.exists_ran_of_perform Machine.host (c.conclude results) last
    exact wellFormed_of_endTogether together concludes
      (History.captured_append_iff.mpr ⟨captured_of_ran ran, captured_of_ran closed⟩)
  · intro m
    obtain ⟨history, ends, ran⟩ := Job.exists_ran_of_perform Machine.host (c.perform languages) m
    exact sequential history _ ends (captured_of_ran ran)

section Example

/-- A machine on which every program prints to its errors and finds fault. -/
def faultyHost : Job.Host Unit where
  tree := fun _ => aliasTree
  run := fun s _ => (.exited (some 1) (Capture.collect [⟨.errors, Text.encode "E\n"⟩]), s)

theorem captured_of_faultyHost {history : History} (ran : faultyHost.Ran history) :
    history.Captured := by
  intro entry member
  obtain ⟨_, ended⟩ := ran entry member
  rw [ended]
  exact ⟨_, rfl⟩

/-- The check of a language and the one for all languages report what they printed. On a machine
without programs the findings are well formed too. -/
theorem verdict_wellFormed_of_faults :
    ∃ results work closing verdict,
      Job.EndTogether ([.javascript].map aliasContext.performLanguage) work results ∧
      (aliasContext.conclude results).EndsWith closing verdict ∧
      (aliasContext.perform [.javascript]).EndsWith (work ++ closing) verdict ∧
      (work ++ closing).Captured ∧ verdict.WellFormed ∧
      verdict.findings = [⟨"t", "javascript", .check, .lintViolation, "E"⟩,
        ⟨"a", "custom", .check, .lintViolation, "E"⟩] ∧
      ∃ last others, Job.Interleaves Machine.host ([.javascript].map aliasContext.performLanguage)
          { tree := aliasTree } (others.map .done) last ∧
        ((aliasContext.conclude others).perform Machine.host last).1.WellFormed := by
  obtain ⟨work, looks, worked⟩ :=
    Job.exists_ran_of_perform faultyHost (Job.each aliasContext.performLanguage [.javascript]) ()
  obtain ⟨closing, concludes, closed⟩ := Job.exists_ran_of_perform faultyHost
    (aliasContext.conclude
      ((Job.each aliasContext.performLanguage [.javascript]).perform faultyHost ()).1) ()
  obtain ⟨others, last, interleaved⟩ := Job.exists_interleaves_done Machine.host
    ([.javascript].map aliasContext.performLanguage) { tree := aliasTree }
  have together := Job.endTogether_of_each looks
  have captured : (work ++ closing).Captured :=
    History.captured_append_iff.mpr ⟨captured_of_faultyHost worked, captured_of_faultyHost closed⟩
  obtain ⟨together_wellFormed, -, sideBySide_wellFormed, -⟩ :=
    verdict_wellFormed aliasContext [.javascript]
  refine ⟨_, work, closing, _, together, concludes, looks.andThen concludes, captured,
    together_wellFormed _ _ _ _ together concludes captured, ?_, last, others, interleaved,
    sideBySide_wellFormed _ _ _ interleaved⟩
  rw [conclude_eq aliasContext (stagesDistinct_of_endTogether together)]
  decide +kernel

end Example

end RunContext

end LintGate
