import LintGate.Proofs.Ledger
import LintGate.Proofs.Process.Together
import LintGate.Run

/-!
# Report of a run

The report of a run holds the findings of each language in the order of its stages, language after
language, and those of the checks for all languages behind them. It leaves nothing out and adds
nothing, so the exit code tells whether any stage or check found something.
-/

namespace LintGate

open Ledger (Recording)

namespace LanguageResult

/-- The findings of one stage of the language, in the order in which it found them. -/
def found (r : LanguageResult) (role : Role) : List Finding :=
  (r.stages.filter fun stage => stage.1 = role).flatMap (·.2)

/-- The findings of the language in the order of the stages. -/
def findings (r : LanguageResult) : List Finding :=
  r.found .formatter ++ r.found .linter ++ r.found .check

/-- No stage of the language is carried out twice. -/
def StagesDistinct (r : LanguageResult) : Prop :=
  (r.stages.map (·.1)).Nodup

theorem mem_found_iff {r : LanguageResult} {role : Role} {f : Finding} :
    f ∈ r.found role ↔ ∃ fs, (role, fs) ∈ r.stages ∧ f ∈ fs := by
  rw [found, List.mem_flatMap]
  constructor
  · intro inside
    obtain ⟨stage, member, among⟩ := inside
    obtain ⟨member, same⟩ := List.mem_filter.mp member
    rw [decide_eq_true_eq] at same
    exact ⟨stage.2, same ▸ member, among⟩
  · intro inside
    obtain ⟨fs, member, among⟩ := inside
    exact ⟨(role, fs), List.mem_filter.mpr ⟨member, by simp⟩, among⟩

theorem mem_findings_iff {r : LanguageResult} {f : Finding} :
    f ∈ r.findings ↔ ∃ stage ∈ r.stages, f ∈ stage.2 := by
  simp only [findings, List.mem_append, mem_found_iff]
  constructor
  · intro inside
    rcases inside with (inside | inside) | inside
    · exact ⟨_, inside.choose_spec⟩
    · exact ⟨_, inside.choose_spec⟩
    · exact ⟨_, inside.choose_spec⟩
  · intro inside
    obtain ⟨⟨role, fs⟩, member, among⟩ := inside
    cases role with
    | formatter => exact .inl (.inl ⟨fs, member, among⟩)
    | linter => exact .inl (.inr ⟨fs, member, among⟩)
    | check => exact .inr ⟨fs, member, among⟩

theorem findings_eq_nil_iff {r : LanguageResult} :
    r.findings = [] ↔ ∀ stage ∈ r.stages, stage.2 = [] := by
  simp only [List.eq_nil_iff_forall_not_mem, mem_findings_iff, not_exists, not_and]
  constructor
  · intro nothing stage member f
    exact nothing f stage member
  · intro nothing f stage member
    exact nothing stage member f

/-- What the language has recorded when it has a place. -/
def recordings (place : Nat) (r : LanguageResult) : List Recording :=
  r.stages.map fun stage => ⟨place, stage.1, stage.2⟩

/-- The same in the order of the stages. -/
def recordingsInOrder (place : Nat) (r : LanguageResult) : List Recording :=
  [⟨place, .formatter, r.found .formatter⟩, ⟨place, .linter, r.found .linter⟩,
    ⟨place, .check, r.found .check⟩]

theorem found_cons (summary : ProfileSummary) (files : List Path) (stage : Role × List Finding)
    (stages : List (Role × List Finding)) (role : Role) :
    found ⟨summary, files, stage :: stages⟩ role =
      (if stage.1 = role then stage.2 else []) ++ found ⟨summary, files, stages⟩ role := by
  by_cases same : stage.1 = role
  · simp [found, same]
  · simp [found, same]

theorem found_eq_nil {r : LanguageResult} {role : Role} (absent : role ∉ r.stages.map (·.1)) :
    r.found role = [] := by
  rw [found, List.flatMap_eq_nil_iff]
  intro stage member
  obtain ⟨member, same⟩ := List.mem_filter.mp member
  exact absurd (List.mem_map.mpr ⟨stage, member, by simpa using same⟩) absent

/-- The stages may have been carried out in any order. -/
theorem entries_perm_inOrder {r : LanguageResult} (distinct : r.StagesDistinct) (place : Nat) :
    ((r.recordings place).flatMap Recording.entries).Perm
      ((r.recordingsInOrder place).flatMap Recording.entries) := by
  obtain ⟨summary, files, stages⟩ := r
  induction stages with
  | nil => exact .refl _
  | cons stage stages ih =>
      obtain ⟨role, fs⟩ := stage
      obtain ⟨absent, rest⟩ := List.nodup_cons.mp distinct
      have none_later : found ⟨summary, files, stages⟩ role = [] := found_eq_nil absent
      have none_recorded (place : Nat) (role : Role) :
          Recording.entries ⟨place, role, []⟩ = [] := rfl
      have first : (recordings place ⟨summary, files, (role, fs) :: stages⟩).flatMap
          Recording.entries = Recording.entries ⟨place, role, fs⟩ ++
            (recordings place ⟨summary, files, stages⟩).flatMap Recording.entries := rfl
      rw [first]
      -- The stage moves to the place of its role, where no later stage has found anything.
      apply ((ih rest).append_left _).trans
      simp only [recordingsInOrder, List.flatMap_cons, List.flatMap_nil, List.append_nil,
        found_cons]
      cases role with
      | formatter =>
          rw [none_later, none_recorded]
          simp
      | linter =>
          rw [none_later, none_recorded]
          simpa using List.perm_append_comm_assoc _ _ _
      | check =>
          rw [none_later, none_recorded]
          simp only [if_false, if_true, List.nil_append, List.append_nil, reduceCtorEq]
          apply List.perm_append_comm.trans
          rw [List.append_assoc]

/-- Behind the recordings of a place come those of later places. -/
theorem pairwise_recordingsInOrder (place : Nat) (r : LanguageResult) :
    (r.recordingsInOrder place).Pairwise Recording.Before := by
  simp [recordingsInOrder, Recording.Before, Role.rank]

end LanguageResult

namespace RunContext

open LanguageResult (recordings recordingsInOrder)

/-- What all languages have recorded in the order of the stages, counting languages from a place. -/
def recordingsFrom (place : Nat) : List LanguageResult → List Recording
  | [] => []
  | r :: rest => r.recordingsInOrder place ++ recordingsFrom (place + 1) rest

theorem entries_recordStages (place : Nat) (results : List LanguageResult) (ledger : Ledger)
    (distinct : ∀ r ∈ results, r.StagesDistinct) :
    (recordStages place results ledger).entries.Perm
      (ledger.entries ++ (recordingsFrom place results).flatMap Recording.entries) := by
  induction results generalizing place ledger with
  | nil => simp [recordStages, recordingsFrom]
  | cons r rest ih =>
      rw [List.forall_mem_cons] at distinct
      have recorded : (r.stages.foldl (fun ledger stage => ledger.record place stage.1 stage.2)
          ledger).entries = ledger.entries ++ (r.recordings place).flatMap Recording.entries := by
        rw [← Ledger.entries_foldl_record, recordings, List.foldl_map]
      rw [recordStages]
      apply (ih (place + 1) _ distinct.2).trans
      rw [recorded, recordingsFrom, List.flatMap_append, List.append_assoc]
      apply List.Perm.append_left
      exact (LanguageResult.entries_perm_inOrder distinct.1 place).append_right _

theorem language_of_mem_recordingsFrom {place : Nat} {results : List LanguageResult}
    {recording : Recording} (member : recording ∈ recordingsFrom place results) :
    place ≤ recording.language ∧ recording.language < place + results.length := by
  induction results generalizing place with
  | nil => simp [recordingsFrom] at member
  | cons r rest ih =>
      rw [recordingsFrom] at member
      rcases List.mem_append.mp member with here | later
      · have same : recording.language = place := by
          simp only [recordingsInOrder, List.mem_cons, List.not_mem_nil, or_false] at here
          rcases here with rfl | rfl | rfl <;> rfl
        rw [List.length_cons]
        omega
      · have further := ih later
        rw [List.length_cons]
        omega

theorem pairwise_recordingsFrom (place : Nat) (results : List LanguageResult) :
    (recordingsFrom place results).Pairwise Recording.Before := by
  induction results generalizing place with
  | nil => exact .nil
  | cons r rest ih =>
      apply List.pairwise_append.mpr
      refine ⟨r.pairwise_recordingsInOrder place, ih (place + 1), ?_⟩
      intro early inFirst late inSecond
      have alone : early ∈ recordingsFrom place [r] := by simpa [recordingsFrom] using inFirst
      have first := language_of_mem_recordingsFrom alone
      have second := language_of_mem_recordingsFrom inSecond
      rw [List.length_singleton] at first
      exact .inl (by omega)

theorem findings_recordingsFrom (place : Nat) (results : List LanguageResult) :
    (recordingsFrom place results).flatMap (·.findings) =
      results.flatMap LanguageResult.findings := by
  induction results generalizing place with
  | nil => rfl
  | cons r rest ih =>
      rw [recordingsFrom, List.flatMap_append, ih, List.flatMap_cons]
      simp [recordingsInOrder, LanguageResult.findings]

/-- The checks for all languages, which follow when some file was selected. -/
def closingChecks (c : RunContext) (results : List LanguageResult) : Job (List Finding) :=
  if (allFiles results).isEmpty then .done []
  else c.settings.performGlobalChecks (allFiles results)

/-- What the languages recorded is reported language by language, and what the closing checks found
behind it. -/
theorem sorted_recordStages {results : List LanguageResult}
    (distinct : ∀ r ∈ results, r.StagesDistinct) (closing : List Finding) :
    ((recordStages 0 results .empty).record results.length .check closing).sorted =
      results.flatMap LanguageResult.findings ++ closing := by
  have last :
      (recordingsFrom 0 results ++ [(⟨results.length, .check, closing⟩ : Recording)]).flatMap
        (·.findings) = results.flatMap LanguageResult.findings ++ closing := by
    rw [List.flatMap_append, findings_recordingsFrom]
    simp
  rw [← last]
  apply Ledger.sorted_eq_flatMap
  · rw [List.flatMap_append, Ledger.record]
    apply List.Perm.append
    · exact entries_recordStages 0 results .empty distinct
    · simp [Recording.entries]
  · apply List.pairwise_append.mpr
    refine ⟨pairwise_recordingsFrom 0 results, List.pairwise_singleton _ _, ?_⟩
    intro early inFirst late inLast
    have first := language_of_mem_recordingsFrom inFirst
    rw [List.mem_singleton.mp inLast]
    exact .inl (by dsimp only; omega)

theorem conclude_eq (c : RunContext) {results : List LanguageResult}
    (distinct : ∀ r ∈ results, r.StagesDistinct) :
    c.conclude results = (c.closingChecks results).andThen fun closing =>
      .done ⟨results.map (·.summary), results.flatMap LanguageResult.findings ++ closing⟩ := by
  have nothing (ledger : Ledger) (place : Nat) : ledger.record place .check [] = ledger := by
    simp [Ledger.record, Ledger.placed]
  rw [conclude, closingChecks]
  split
  · rw [Job.andThen, ← sorted_recordStages distinct [], nothing]
  · simp only [sorted_recordStages distinct]

/-! ## The result of a language -/

/-- What the look at a language comes to: nothing but its name when it has no files, and else what
its stages found, one after another. -/
theorem performLanguage_endsWith_cases {c : RunContext} {l : Language} {history : History}
    {r : LanguageResult} (ends : (c.performLanguage l).EndsWith history r) :
    ∃ selected files, (c.selecting l).EndsWith selected files ∧
      ((files = [] ∧ history = selected ∧ r = { summary := ⟨l.id, 0, none, none⟩ }) ∨
        files ≠ [] ∧ ∃ bound formats lints checks formatter linter formatted linted checked,
          (c.bindings l).EndsWith bound (formatter, linter) ∧
          (formatter.verify files (c.stageOptions l)).EndsWith formats formatted ∧
          (linter.verify files (c.stageOptions l)).EndsWith lints linted ∧
          (c.settings.performChecks l files).EndsWith checks checked ∧
          history = selected ++ (bound ++ (formats ++ (lints ++ checks))) ∧
          r = {
            summary := ⟨l.id, files.length, formatter.installed.map (·.name),
              linter.installed.map (·.name)⟩
            files
            stages := [(.formatter, formatted.findings), (.linter, linted.findings),
              (.check, checked)] }) := by
  obtain ⟨selected, rest, files, rfl, selects, ends⟩ := Job.andThen_endsWith_iff.mp ends
  refine ⟨selected, files, selects, ?_⟩
  split at ends
  case isTrue empty =>
    obtain ⟨rfl, rfl⟩ := Job.done_endsWith_iff.mp ends
    exact .inl ⟨by simpa using empty, List.append_nil _, rfl⟩
  case isFalse nonempty =>
    obtain ⟨bound, _, ⟨formatter, linter⟩, rfl, binds, ends⟩ := Job.andThen_endsWith_iff.mp ends
    obtain ⟨formats, _, formatted, rfl, formatting, ends⟩ := Job.andThen_endsWith_iff.mp ends
    obtain ⟨lints, _, linted, rfl, linting, ends⟩ := Job.andThen_endsWith_iff.mp ends
    obtain ⟨checks, _, checked, rfl, checking, ends⟩ := Job.andThen_endsWith_iff.mp ends
    obtain ⟨rfl, rfl⟩ := Job.done_endsWith_iff.mp ends
    refine .inr ⟨by simpa using nonempty, bound, formats, lints, checks, formatter, linter,
      formatted, linted, checked, binds, formatting, linting, checking, ?_, rfl⟩
    rw [List.append_nil]

theorem stagesDistinct_of_performLanguage {c : RunContext} {l : Language} {history : History}
    {r : LanguageResult} (ends : (c.performLanguage l).EndsWith history r) : r.StagesDistinct := by
  obtain ⟨_, files, -, cases⟩ := performLanguage_endsWith_cases ends
  rcases cases with ⟨-, -, rfl⟩ | ⟨-, _, _, _, _, _, _, _, _, _, -, -, -, -, -, rfl⟩
  · exact .nil
  · simp [LanguageResult.StagesDistinct]

theorem stagesDistinct_of_endTogether {c : RunContext} {languages : List Language}
    {history : History} {results : List LanguageResult}
    (together : Job.EndTogether (languages.map c.performLanguage) history results) :
    ∀ r ∈ results, r.StagesDistinct := by
  intro r member
  obtain ⟨l, -, own, looked, -⟩ := together.exists_part_of_mem member
  exact stagesDistinct_of_performLanguage looked

theorem profile_of_performLanguage {c : RunContext} {l : Language} {history : History}
    {r : LanguageResult} (ends : (c.performLanguage l).EndsWith history r) :
    r.summary.profile = l.id := by
  obtain ⟨_, files, -, cases⟩ := performLanguage_endsWith_cases ends
  rcases cases with ⟨-, -, rfl⟩ | ⟨-, _, _, _, _, _, _, _, _, _, -, -, -, -, -, rfl⟩
  · rfl
  · rfl

/-- Each language has its result, in the order of the languages. -/
theorem profiles_of_each {c : RunContext} {languages : List Language} {history : History}
    {results : List LanguageResult}
    (ends : (Job.each c.performLanguage languages).EndsWith history results) :
    results.map (·.summary.profile) = languages.map Language.id := by
  induction languages generalizing history results with
  | nil =>
      obtain ⟨-, rfl⟩ := Job.done_endsWith_iff.mp ends
      rfl
  | cons l languages ih =>
      obtain ⟨own, _, r, rfl, first, ends⟩ := Job.andThen_endsWith_iff.mp ends
      obtain ⟨_, _, rest, rfl, later, ends⟩ := Job.andThen_endsWith_iff.mp ends
      obtain ⟨-, rfl⟩ := Job.done_endsWith_iff.mp ends
      rw [List.map_cons, List.map_cons, profile_of_performLanguage first, ih later]

/-! ## The verdict -/

theorem flatMap_findings_append_eq_nil_iff {results : List LanguageResult}
    {closing : List Finding} :
    results.flatMap LanguageResult.findings ++ closing = [] ↔
      (∀ r ∈ results, ∀ stage ∈ r.stages, stage.2 = []) ∧ closing = [] := by
  rw [List.append_eq_nil_iff, List.flatMap_eq_nil_iff]
  simp only [LanguageResult.findings_eq_nil_iff]

/-- The verdict on some results holds the findings of their stages, language by language and stage
by stage, then those of the closing checks, and its exit code is 0 when there are none at all and
else 2. A run concludes from one result for each of its languages, in their order and each with
distinct stages. What distinct stages record is reported alike in whatever order it is recorded. -/
theorem conclude_reports_all {σ : Type} (c : RunContext) (host : Job.Host σ) :
    (∀ (results : List LanguageResult) (s : σ), (∀ r ∈ results, r.StagesDistinct) →
      ∃ closing, closing = ((c.closingChecks results).perform host s).1 ∧
        ((c.conclude results).perform host s).1.profiles = results.map (·.summary) ∧
        ((c.conclude results).perform host s).1.findings =
          results.flatMap (fun r => r.found .formatter ++ r.found .linter ++ r.found .check) ++
            closing ∧
        ((c.conclude results).perform host s).1.exitCode =
          if (∀ r ∈ results, ∀ stage ∈ r.stages, stage.2 = []) ∧ closing = [] then 0 else 2) ∧
    (∀ (languages : List Language) (s : σ), ∃ (results : List LanguageResult) (last : σ),
      (Job.each c.performLanguage languages).perform host s = (results, last) ∧
        (c.perform languages).perform host s = (c.conclude results).perform host last ∧
        results.map (·.summary.profile) = languages.map Language.id ∧
        ∀ r ∈ results, r.StagesDistinct) ∧
    ∀ recordings others : List Recording, recordings.Perm others →
      (recordings.map fun r => (r.language, r.role)).Nodup →
      (Ledger.ofRecordings recordings).sorted = (Ledger.ofRecordings others).sorted := by
  refine ⟨?_, ?_, ?_⟩
  · intro results s distinct
    refine ⟨_, rfl, ?_⟩
    rw [conclude_eq c distinct, Job.perform_andThen, Job.perform_done]
    refine ⟨rfl, rfl, ?_⟩
    rw [Verdict.exitCode, Verdict.isClean]
    simp only [List.isEmpty_iff, flatMap_findings_append_eq_nil_iff]
  · intro languages s
    refine ⟨_, _, rfl, Job.perform_andThen host _ _ s, ?_⟩
    obtain ⟨history, ends⟩ :=
      Job.exists_history_of_perform host (Job.each c.performLanguage languages) s
    refine ⟨profiles_of_each ends, ?_⟩
    intro r member
    obtain ⟨l, -, own, looked⟩ := Job.exists_history_of_mem_each ends member
    exact stagesDistinct_of_performLanguage looked
  · intro recordings others perm distinct
    exact Ledger.sorted_ofRecordings_perm perm distinct

section Example

/-- A run with one check for all languages. -/
def auditContext : RunContext where
  settings := { root := "/w", checks := [⟨"audit", ["audit"], [], true, 120⟩] }
  ignored := []
  candidates := ⟨.fullScan, []⟩
  resolver := ⟨"", "/w"⟩

/-- A machine on which every program finds fault. -/
def complainingHost : Job.Host Unit where
  tree := fun _ => {}
  run := fun s _ => (.exited (some 1) "E", s)

def goFinding (role : Role) (category : Category) : Finding :=
  ⟨"tool", "go", role, category, "E"⟩

def pythonFinding : Finding :=
  ⟨"ruff", "python", .linter, .lintViolation, "E"⟩

/-- The linter of the first language came to its end before the formatter. -/
def mixedResults : List LanguageResult :=
  [⟨⟨"go", 1, some "gofmt", some "go-vet"⟩, ["b.go"],
      [(.linter, [goFinding .linter .lintViolation, goFinding .linter .toolFailure]),
        (.formatter, [goFinding .formatter .formattingNeeded])]⟩,
    ⟨⟨"python", 1, none, some "ruff"⟩, ["a.py"], [(.formatter, []), (.linter, [pythonFinding])]⟩]

def earlyRecordings : List Recording :=
  [⟨1, .linter, [pythonFinding]⟩, ⟨0, .formatter, [goFinding .formatter .formattingNeeded]⟩]

theorem conclude_reports_mixed :
    (∀ r ∈ mixedResults, r.StagesDistinct) ∧
      ((auditContext.conclude mixedResults).perform complainingHost ()).1.findings =
        [goFinding .formatter .formattingNeeded, goFinding .linter .lintViolation,
          goFinding .linter .toolFailure, pythonFinding,
          ⟨"audit", "custom", .check, .lintViolation, "E"⟩] ∧
      ((auditContext.conclude mixedResults).perform complainingHost ()).1.exitCode = 2 ∧
      earlyRecordings.Perm earlyRecordings.reverse ∧
      (earlyRecordings.map fun r => (r.language, r.role)).Nodup ∧
      (Ledger.ofRecordings earlyRecordings).sorted =
        (Ledger.ofRecordings earlyRecordings.reverse).sorted := by
  have distinct : ∀ r ∈ mixedResults, r.StagesDistinct := by
    simp [mixedResults, LanguageResult.StagesDistinct]
  have perm : earlyRecordings.Perm earlyRecordings.reverse := (List.reverse_perm _).symm
  have stages : (earlyRecordings.map fun r => (r.language, r.role)).Nodup := by decide
  obtain ⟨reports, -, recorded⟩ := conclude_reports_all auditContext complainingHost
  obtain ⟨closing, closes, -, findings, exitCode⟩ := reports mixedResults () distinct
  have found : closing = [⟨"audit", "custom", .check, .lintViolation, "E"⟩] := closes.trans rfl
  refine ⟨distinct, findings.trans ?_, exitCode.trans ?_, perm, stages, recorded _ _ perm stages⟩
  · rw [found]
    rfl
  · rw [found]
    rfl

end Example

end RunContext

end LintGate
