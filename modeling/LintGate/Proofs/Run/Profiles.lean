import LintGate.Proofs.Run.Report
import LintGate.Proofs.Verification.Tallies

/-!
# Findings and their profiles

Each finding of a language carries the name of the language, and each finding of a check for all
languages carries a name that no language has.
-/

namespace LintGate

theorem Language.id_ne_globalProfile (l : Language) : l.id ≠ Settings.globalProfile := by
  cases l <;> decide

theorem Language.eq_of_id {l other : Language} (same : l.id = other.id) : l = other := by
  have found := l.ofExactId?_id
  rw [same, other.ofExactId?_id] at found
  exact (Option.some.inj found).symm

namespace Stage

variable {s : Stage} {f : Finding}

theorem profile_of_mem_findingsOf {t : Tally} (member : f ∈ s.findingsOf t) :
    f.profile = s.options.profile := by
  rw [findingsOf] at member
  rcases List.mem_append.mp member with violation | failure
  · split at violation
    · cases violation
    · rw [List.mem_singleton.mp violation]
  · split at failure
    · cases failure
    · rw [List.mem_singleton.mp failure]
      rfl

theorem profile_of_mem_verdict {t : Tally} (member : f ∈ (s.verdict t).findings) :
    f.profile = s.options.profile := by
  rw [verdict] at member
  split at member
  · cases member
  · exact profile_of_mem_findingsOf member

theorem Performs.profile_eq {attempts : List Attempt} {v : Verified}
    (performs : s.Performs attempts v) (member : f ∈ v.findings) :
    f.profile = s.options.profile := by
  obtain ⟨_, _, -, -, ended⟩ := performs.exists_phases
  rcases ended with ⟨-, message, rfl⟩ | ⟨-, t, -, rfl⟩ | ⟨-, t, _, -, rfl⟩
  · rw [List.mem_singleton.mp member]
    rfl
  · exact profile_of_mem_verdict member
  · exact profile_of_mem_verdict member

end Stage

theorem Binding.profile_of_verify {b : Binding} {files : List Path} {options : StageOptions}
    {history : History} {v : Verified} {f : Finding}
    (ends : (b.verify files options).EndsWith history v) (member : f ∈ v.findings) :
    f.profile = options.profile := by
  rw [verify] at ends
  split at ends
  case h_1 =>
    cases ends
    cases member
  case h_2 tool =>
    split at ends
    case isTrue =>
      cases ends
      cases member
    case isFalse =>
      obtain ⟨attempts, performs, -⟩ := Stage.perform_endsWith_iff.mp ends
      exact performs.profile_eq member

theorem CustomCheck.profile_of_perform {check : CustomCheck} {root : Path} {profile : String}
    {files : List Path} {thresholds : Thresholds} {history : History} {f : Finding}
    (ends : (check.perform root profile files thresholds).EndsWith history (some f)) :
    f.profile = profile := by
  rw [perform, performWithin] at ends
  split at ends
  case h_1 => cases ends
  case h_2 inv command =>
    obtain ⟨outcome, _, -, ends⟩ := Job.run_endsWith_iff.mp ends
    obtain ⟨-, found⟩ := Job.done_endsWith_iff.mp ends
    obtain ⟨judged, -, rfl⟩ := Option.map_eq_some_iff.mp found.symm
    rfl

namespace Settings

variable {s : Settings} {l : Language} {files : List Path} {history : History} {f : Finding}

theorem profile_of_checks {profile : String} {checks : List CustomCheck}
    {found : List (Option Finding)}
    (ends : (Job.each (fun c => c.perform s.root profile files s.thresholds) checks).EndsWith
      history found)
    (member : f ∈ found.filterMap id) : f.profile = profile := by
  obtain ⟨answer, inside, same⟩ := List.mem_filterMap.mp member
  obtain rfl : answer = some f := same
  obtain ⟨check, -, own, ends⟩ := Job.exists_history_of_mem_each ends inside
  exact CustomCheck.profile_of_perform ends

theorem profile_of_performSizeCheck
    (ends : (s.performSizeCheck l files).EndsWith history (some f)) : f.profile = l.id := by
  rw [performSizeCheck] at ends
  split at ends
  case h_1 => cases ends
  case h_2 limit =>
    obtain ⟨_, _, lines, -, -, ends⟩ := Job.andThen_endsWith_iff.mp ends
    obtain ⟨-, found⟩ := Job.done_endsWith_iff.mp ends
    rw [Check.sizeFinding?] at found
    split at found
    · cases found
    · cases found
      rfl

theorem profile_of_performChecks {found : List Finding}
    (ends : (s.performChecks l files).EndsWith history found) (member : f ∈ found) :
    f.profile = l.id := by
  rw [performChecks] at ends
  split at ends
  · cases ends
    cases member
  · obtain ⟨_, _, size, -, sized, ends⟩ := Job.andThen_endsWith_iff.mp ends
    obtain ⟨_, _, others, -, checked, ends⟩ := Job.andThen_endsWith_iff.mp ends
    obtain ⟨-, rfl⟩ := Job.done_endsWith_iff.mp ends
    rcases List.mem_append.mp member with large | other
    · obtain rfl := Option.mem_toList.mp large
      exact profile_of_performSizeCheck sized
    · exact profile_of_checks checked other

theorem profile_of_performGlobalChecks {found : List Finding}
    (ends : (s.performGlobalChecks files).EndsWith history found) (member : f ∈ found) :
    f.profile = globalProfile := by
  obtain ⟨_, _, answers, -, checked, ends⟩ := Job.andThen_endsWith_iff.mp ends
  obtain ⟨-, rfl⟩ := Job.done_endsWith_iff.mp ends
  exact profile_of_checks checked member

end Settings

/-- What the result holds is about the language. -/
structure LanguageResult.IsAbout (l : Language) (r : LanguageResult) : Prop where
  summary : r.summary.profile = l.id
  findings : ∀ f ∈ r.findings, f.profile = l.id

namespace RunContext

variable {c : RunContext} {history : History}

theorem isAbout_of_performLanguage {l : Language} {r : LanguageResult}
    (ends : (c.performLanguage l).EndsWith history r) : r.IsAbout l where
  summary := profile_of_performLanguage ends
  findings := by
    intro f member
    obtain ⟨stage, inside, among⟩ := LanguageResult.mem_findings_iff.mp member
    obtain ⟨_, files, -, cases⟩ := performLanguage_endsWith_cases ends
    rcases cases with ⟨-, -, rfl⟩ |
      ⟨-, _, _, _, _, formatter, linter, formatted, linted, checked, -, formats, lints, checks, -,
        rfl⟩
    · cases inside
    · simp only [List.mem_cons, List.not_mem_nil, or_false] at inside
      rcases inside with rfl | rfl | rfl
      · exact Binding.profile_of_verify formats among
      · exact Binding.profile_of_verify lints among
      · exact Settings.profile_of_performChecks checks among

theorem profile_of_closingChecks {results : List LanguageResult} {closing : List Finding}
    {f : Finding} (ends : (c.closingChecks results).EndsWith history closing)
    (member : f ∈ closing) : f.profile = Settings.globalProfile := by
  rw [closingChecks] at ends
  split at ends
  · cases ends
    cases member
  · exact Settings.profile_of_performGlobalChecks ends member

end RunContext

end LintGate
