import LintGate.Proofs.Run.CustomChecks
import LintGate.Proofs.Verification.Phases

/-!
# The order of what a run starts

A run takes the languages that were detected and not switched off, one after another. For a language
with files it asks tools for their versions, lets the formatter repair and then check, lets the
linter check, and carries out the checks of the language. The checks for all languages come last. It
starts nothing else, and without files it starts nothing at all.
-/

namespace LintGate

/-! ## Tools that are asked and found -/

namespace Resolver

variable {r : Resolver} {candidates : List String} {history : History} {launch : Launch}

/-- A candidate that is there is asked for its version, since its arguments depend on it. -/
def AsksVersion (r : Resolver) (candidates : List String) (launch : Launch) : Prop :=
  ∃ name ∈ candidates, ∃ tool t binary program, Tool.ofName? name = some tool ∧
    r.programs? t tool = some (binary, program) ∧ tool.needsVersion = true ∧
    launch = r.versionLaunch binary

/-- The tool is a candidate that is there. -/
def FindsAmong (r : Resolver) (candidates : List String) (installed : InstalledTool) : Prop :=
  ∃ name ∈ candidates, Tool.ofName? name = some installed.tool ∧
    ∃ t binary, r.programs? t installed.tool = some (binary, installed.program)

theorem AsksVersion.mono {others : List String} (asks : r.AsksVersion candidates launch)
    (among : candidates ⊆ others) : r.AsksVersion others launch := by
  obtain ⟨name, member, rest⟩ := asks
  exact ⟨name, among member, rest⟩

theorem FindsAmong.mono {others : List String} {installed : InstalledTool}
    (finds : r.FindsAmong candidates installed) (among : candidates ⊆ others) :
    r.FindsAmong others installed := by
  obtain ⟨name, member, rest⟩ := finds
  exact ⟨name, among member, rest⟩

theorem findTool_endsWith_cases {tool : Tool} {found : Option InstalledTool}
    (ends : (r.findTool tool).EndsWith history found) :
    (history = [] ∧ found = none) ∨
      ∃ t binary program version, r.programs? t tool = some (binary, program) ∧
        found = some ⟨tool, program, version⟩ ∧
        ∀ entry ∈ history, tool.needsVersion = true ∧ entry.1 = r.versionLaunch binary := by
  obtain ⟨t, ends⟩ := Job.look_endsWith_iff.mp ends
  split at ends
  case h_1 => exact .inl (Job.done_endsWith_iff.mp ends)
  case h_2 binary program there =>
    refine .inr ⟨t, binary, program, ?_⟩
    split at ends
    case isTrue needed =>
      obtain ⟨outcome, _, rfl, answers⟩ := Job.run_endsWith_iff.mp ends
      obtain ⟨rfl, rfl⟩ := Job.done_endsWith_iff.mp answers
      exact ⟨_, there, rfl, by simpa using needed⟩
    case isFalse =>
      obtain ⟨rfl, rfl⟩ := Job.done_endsWith_iff.mp ends
      exact ⟨_, there, rfl, by simp⟩

theorem asks_of_findFirst {found : Option InstalledTool}
    (ends : (r.findFirst candidates).EndsWith history found) :
    (∀ entry ∈ history, r.AsksVersion candidates entry.1) ∧
      ∀ installed, found = some installed → r.FindsAmong candidates installed := by
  induction candidates generalizing history with
  | nil =>
      obtain ⟨rfl, rfl⟩ := Job.done_endsWith_iff.mp ends
      simp
  | cons name candidates ih =>
      have further {history : History}
          (ends : (r.findFirst candidates).EndsWith history found) :
          (∀ entry ∈ history, r.AsksVersion (name :: candidates) entry.1) ∧
            ∀ installed, found = some installed → r.FindsAmong (name :: candidates) installed :=
        ⟨fun entry member => ((ih ends).1 entry member).mono (List.subset_cons_self _ _),
          fun installed found => ((ih ends).2 installed found).mono (List.subset_cons_self _ _)⟩
      rw [findFirst] at ends
      split at ends
      case h_1 => exact further ends
      case h_2 tool known =>
        obtain ⟨first, later, answer, rfl, looked, ends⟩ := Job.andThen_endsWith_iff.mp ends
        rcases findTool_endsWith_cases looked with ⟨rfl, rfl⟩ |
          ⟨t, binary, program, version, there, rfl, asked⟩
        · exact further ends
        · obtain ⟨rfl, rfl⟩ := Job.done_endsWith_iff.mp ends
          rw [List.append_nil]
          refine ⟨fun entry member => ?_, ?_⟩
          · obtain ⟨needed, same⟩ := asked entry member
            exact ⟨name, List.mem_cons_self, tool, t, binary, program, known, there, needed, same⟩
          · rintro _ ⟨⟩
            exact ⟨name, List.mem_cons_self, known, t, binary, there⟩

end Resolver

/-! ## Tools at work -/

/-- A tool is called with some arguments on the files of its stage, with or without those that make
it do without its configuration. -/
def Stage.Calls (s : Stage) (args : List String) (launch : Launch) : Prop :=
  ∃ extra inv, (extra = [] ∨ extra = s.overrideArgs) ∧ inv ∈ s.invocations args extra ∧
    launch = s.launch inv

theorem Stage.CalledWith.calls {s : Stage} {args : List String} {a : Stage.Attempt}
    (called : s.CalledWith args (s.extraArgs a.mode) a) : s.Calls args (s.launch a.invocation) := by
  obtain ⟨targets, inside, program, given⟩ := called
  refine ⟨s.extraArgs a.mode, a.invocation, ?_, List.mem_map.mpr ⟨targets, inside, ?_⟩, rfl⟩
  · cases a.mode with
    | repair | check => exact .inl rfl
    | repairWithout | checkWithout => exact .inr rfl
  · obtain ⟨mode, slot, ⟨itsProgram, itsArgs⟩, outcome⟩ := a
    dsimp only at program given
    subst program given
    rfl

/-- A binding repairs before it checks, and calls its tool for nothing else. -/
theorem Binding.exists_calls_of_verify {b : Binding} {files : List Path} {options : StageOptions}
    {history : History} {v : Verified} (ends : (b.verify files options).EndsWith history v) :
    ∃ repairs checks, history = repairs ++ checks ∧
      (∀ entry ∈ repairs, ∃ tool fix, b.installed = some tool ∧ b.role = .formatter ∧
        tool.tool.fix = some fix ∧ (⟨tool, b.role, files, options⟩ : Stage).Calls fix entry.1) ∧
      ∀ entry ∈ checks, ∃ tool, b.installed = some tool ∧
        let s : Stage := ⟨tool, b.role, files, options⟩
        s.Calls s.checkArgs entry.1 := by
  rw [Binding.verify] at ends
  split at ends
  case h_1 =>
    obtain ⟨rfl, -⟩ := Job.done_endsWith_iff.mp ends
    exact ⟨[], [], rfl, by simp, by simp⟩
  case h_2 tool installed =>
    split at ends
    · obtain ⟨rfl, -⟩ := Job.done_endsWith_iff.mp ends
      exact ⟨[], [], rfl, by simp, by simp⟩
    · obtain ⟨attempts, performs, rfl⟩ := Stage.perform_endsWith_iff.mp ends
      have called := performs.callsForMode
      obtain ⟨repairs, checks, rfl, repairing, checking⟩ := performs.exists_repairs_checks
      rw [List.forall_mem_append] at called
      refine ⟨_, _, List.map_append, ?_, ?_⟩
      · rw [List.forall_mem_map]
        intro a member
        have its := called.1 a member
        rw [Stage.CallsForMode, if_pos (repairing a member)] at its
        obtain ⟨fix, fixes, its⟩ := its
        obtain ⟨role, fix_eq⟩ := Stage.fixArgs?_eq_some_iff.mp fixes
        exact ⟨tool, fix, installed, role, fix_eq, its.calls⟩
      · rw [List.forall_mem_map]
        intro a member
        have its := called.2 a member
        rw [Stage.CallsForMode, checking a member, if_neg Bool.false_ne_true] at its
        exact ⟨tool, installed, its.calls⟩

/-! ## Checks from the settings -/

namespace Settings

variable {s : Settings} {l : Language} {files : List Path} {history : History} {profile : String}

theorem exists_runBy_of_each {checks : List CustomCheck} {found : List (Option Finding)}
    (ends : (Job.each (fun c => c.perform s.root profile files s.thresholds) checks).EndsWith
      history found) :
    ∀ entry ∈ history, ∃ check ∈ checks, check.RunBy s profile files entry.1 := by
  intro entry member
  obtain ⟨check, inside, own, answer, outcome, ends, here⟩ :=
    Job.exists_mayRun_of_each ⟨history, found, entry.2, ends, member⟩
  refine ⟨check, inside, ?_⟩
  by_cases command : check.command = []
  · rw [CustomCheck.perform, CustomCheck.performWithin, CustomCheck.invocation?, command] at ends
    obtain ⟨rfl, -⟩ := Job.done_endsWith_iff.mp ends
    cases here
  · obtain ⟨launch, _, rfl, runBy⟩ := CustomCheck.exists_runBy_of_perform command ends
    cases List.mem_singleton.mp here
    exact runBy

theorem exists_runBy_of_performChecks {found : List Finding}
    (ends : (s.performChecks l files).EndsWith history found) :
    ∀ entry ∈ history, ∃ check ∈ s.checksOf l, check.RunBy s l.id files entry.1 := by
  rw [performChecks] at ends
  split at ends
  · obtain ⟨rfl, -⟩ := Job.done_endsWith_iff.mp ends
    simp
  · obtain ⟨sizes, _, size, rfl, sized, ends⟩ := Job.andThen_endsWith_iff.mp ends
    obtain ⟨own, _, answers, rfl, each, ends⟩ := Job.andThen_endsWith_iff.mp ends
    obtain ⟨rfl, -⟩ := Job.done_endsWith_iff.mp ends
    rw [sized.eq_nil fun launch => not_mayRun_performSizeCheck, List.nil_append, List.append_nil]
    exact exists_runBy_of_each each

end Settings

/-! ## One language -/

/-- What the look at a language selects and then starts, kind by kind. -/
structure LanguageTrace where
  files : List Path
  versions : History
  repairs : History
  checks : History
  lints : History
  customs : History

namespace LanguageTrace

/-- Version queries come first, then the repairs and the checks of the formatter, the checks of the
linter, and the checks from the settings. -/
def inOrder (trace : LanguageTrace) : History :=
  trace.versions ++ (trace.repairs ++ (trace.checks ++ (trace.lints ++ trace.customs)))

/-- The result tells of the selected files, and finds nothing where there are none. -/
structure Yields (trace : LanguageTrace) (r : LanguageResult) : Prop where
  files : r.files = trace.files
  count : r.summary.files = trace.files.length
  silent : trace.files = [] → r.findings = []

end LanguageTrace

namespace RunContext

variable {c : RunContext} {l : Language} {languages : List Language} {history : History}

/-- A tool that was found among the candidates of a role works on the files of a language. -/
structure IsStage (c : RunContext) (l : Language) (candidates : List String) (role : Role)
    (files : List Path) (s : Stage) : Prop where
  found : c.resolver.FindsAmong candidates s.tool
  role : s.role = role
  files : s.files = files
  options : s.options = c.stageOptions l

/-- There is a cause for everything that is started in the look at a language. -/
structure Justifies (c : RunContext) (l : Language) (trace : LanguageTrace) : Prop where
  selects : (c.selecting l).EndsWith [] trace.files
  some_file : trace.inOrder ≠ [] → trace.files ≠ []
  versions : ∀ entry ∈ trace.versions,
    c.resolver.AsksVersion ((c.candidateOrders l).1 ++ (c.candidateOrders l).2) entry.1
  repairs : ∀ entry ∈ trace.repairs, ∃ s fix,
    c.IsStage l (c.candidateOrders l).1 .formatter trace.files s ∧
      s.tool.tool.fix = some fix ∧ s.Calls fix entry.1
  checks : ∀ entry ∈ trace.checks, ∃ s,
    c.IsStage l (c.candidateOrders l).1 .formatter trace.files s ∧ s.Calls s.checkArgs entry.1
  lints : ∀ entry ∈ trace.lints, ∃ s,
    c.IsStage l (c.candidateOrders l).2 .linter trace.files s ∧ s.Calls s.checkArgs entry.1
  customs : ∀ entry ∈ trace.customs, ∃ check ∈ c.settings.checks, l ∈ check.languages ∧
    check.RunBy c.settings l.id trace.files entry.1

theorem asks_of_bind {r : Resolver} {role : Role} {candidates : List String} {b : Binding}
    (ends : (r.bind role candidates).EndsWith history b) :
    b.role = role ∧ (∀ entry ∈ history, r.AsksVersion candidates entry.1) ∧
      ∀ tool, b.installed = some tool → r.FindsAmong candidates tool := by
  obtain ⟨asked, _, found, rfl, looked, ends⟩ := Job.andThen_endsWith_iff.mp ends
  obtain ⟨rfl, rfl⟩ := Job.done_endsWith_iff.mp ends
  rw [List.append_nil]
  exact ⟨rfl, Resolver.asks_of_findFirst looked⟩

theorem exists_trace_of_performLanguage {r : LanguageResult}
    (ends : (c.performLanguage l).EndsWith history r) :
    ∃ trace, history = LanguageTrace.inOrder trace ∧ c.Justifies l trace ∧ trace.Yields r := by
  obtain ⟨selected, files, selects, cases⟩ := performLanguage_endsWith_cases ends
  obtain rfl := selects.eq_nil fun launch => not_mayRun_selecting
  rcases cases with ⟨rfl, rfl, rfl⟩ |
    ⟨nonempty, bound, formats, lints, customs, formatter, linter, formatted, linted, checked, binds,
      formatting, linting, checking, rfl, rfl⟩
  · refine ⟨⟨[], [], [], [], [], []⟩, rfl, ⟨selects, ?_, ?_, ?_, ?_, ?_, ?_⟩, rfl, rfl, ?_⟩
    all_goals simp [LanguageTrace.inOrder, LanguageResult.findings, LanguageResult.found]
  · obtain ⟨first, _, _, rfl, bound_first, binds⟩ := Job.andThen_endsWith_iff.mp binds
    obtain ⟨second, _, _, rfl, bound_second, binds⟩ := Job.andThen_endsWith_iff.mp binds
    obtain ⟨rfl, same⟩ := Job.done_endsWith_iff.mp binds
    obtain ⟨rfl, rfl⟩ := Prod.mk.injEq .. ▸ same
    obtain ⟨formatter_role, asked_first, found_first⟩ := asks_of_bind bound_first
    obtain ⟨linter_role, asked_second, found_second⟩ := asks_of_bind bound_second
    obtain ⟨repairs, checks, rfl, repaired, verified⟩ := Binding.exists_calls_of_verify formatting
    obtain ⟨none_repaired, lints, rfl, linter_repaired, lint_verified⟩ :=
      Binding.exists_calls_of_verify linting
    -- Only a formatter repairs.
    obtain rfl : none_repaired = [] := by
      apply List.eq_nil_iff_forall_not_mem.mpr
      intro entry member
      obtain ⟨_, _, -, role, -⟩ := linter_repaired entry member
      cases linter_role.symm.trans role
    refine ⟨⟨files, first ++ second, repairs, checks, lints, customs⟩, ?_,
      ⟨selects, fun _ => nonempty, ?_, ?_, ?_, ?_, ?_⟩, rfl, rfl,
      fun empty => absurd empty nonempty⟩
    · simp [LanguageTrace.inOrder]
    · intro entry member
      rcases List.mem_append.mp member with early | late
      · exact (asked_first entry early).mono (List.subset_append_left _ _)
      · exact (asked_second entry late).mono (List.subset_append_right _ _)
    · intro entry member
      obtain ⟨tool, fix, installed, -, fix_eq, calls⟩ := repaired entry member
      exact ⟨_, fix, ⟨found_first tool installed, formatter_role, rfl, rfl⟩, fix_eq, calls⟩
    · intro entry member
      obtain ⟨tool, installed, calls⟩ := verified entry member
      exact ⟨_, ⟨found_first tool installed, formatter_role, rfl, rfl⟩, calls⟩
    · intro entry member
      obtain ⟨tool, installed, calls⟩ := lint_verified entry member
      exact ⟨_, ⟨found_second tool installed, linter_role, rfl, rfl⟩, calls⟩
    · intro entry member
      obtain ⟨check, inside, runBy⟩ := Settings.exists_runBy_of_performChecks checking entry member
      obtain ⟨listed, named⟩ := List.mem_filter.mp inside
      exact ⟨check, listed, by simpa using named, runBy⟩

/-! ## All languages -/

theorem exists_traces_of_each {results : List LanguageResult}
    (ends : (Job.each c.performLanguage languages).EndsWith history results) :
    ∃ traces, history = traces.flatMap LanguageTrace.inOrder ∧
      List.Forall₂ c.Justifies languages traces ∧
      List.Forall₂ LanguageTrace.Yields traces results := by
  induction languages generalizing history results with
  | nil =>
      obtain ⟨rfl, rfl⟩ := Job.done_endsWith_iff.mp ends
      exact ⟨[], rfl, .nil, .nil⟩
  | cons l languages ih =>
      obtain ⟨own, _, r, rfl, looked, ends⟩ := Job.andThen_endsWith_iff.mp ends
      obtain ⟨later, _, rest, rfl, others, ends⟩ := Job.andThen_endsWith_iff.mp ends
      obtain ⟨rfl, rfl⟩ := Job.done_endsWith_iff.mp ends
      obtain ⟨trace, rfl, justified, yields⟩ := exists_trace_of_performLanguage looked
      obtain ⟨traces, rfl, all_justified, all_yield⟩ := ih others
      refine ⟨trace :: traces, ?_, .cons justified all_justified, .cons yields all_yield⟩
      rw [List.append_nil, List.flatMap_cons]

theorem exists_yields_of_mem {traces : List LanguageTrace} {results : List LanguageResult}
    {r : LanguageResult} (yields : List.Forall₂ LanguageTrace.Yields traces results)
    (member : r ∈ results) : ∃ trace ∈ traces, trace.Yields r := by
  induction yields with
  | nil => cases member
  | @cons trace _ traces _ first _ ih =>
      rcases List.mem_cons.mp member with rfl | later
      · exact ⟨trace, List.mem_cons_self, first⟩
      · obtain ⟨other, inside, its⟩ := ih later
        exact ⟨other, List.mem_cons_of_mem _ inside, its⟩

theorem flatMap_inOrder_eq_nil {traces : List LanguageTrace}
    (justified : List.Forall₂ c.Justifies languages traces)
    (empty : ∀ trace ∈ traces, trace.files = []) : traces.flatMap LanguageTrace.inOrder = [] := by
  induction justified with
  | nil => rfl
  | cons first _ ih =>
      rw [List.forall_mem_cons] at empty
      rw [List.flatMap_cons, ih empty.2, List.append_nil]
      by_contra started
      exact first.some_file started empty.1

/-! ## The whole run -/

variable {results : List LanguageResult}

theorem allFiles_eq_nil (empty : ∀ r ∈ results, r.files = []) : allFiles results = [] := by
  rw [allFiles, List.flatMap_eq_nil_iff.mpr empty]
  rfl

/-- Last come the checks for all languages, if any file was selected. -/
theorem exists_runBy_of_closingChecks {found : List Finding}
    (ends : (c.closingChecks results).EndsWith history found) :
    (∀ entry ∈ history, ∃ check ∈ c.settings.checks, check.languages = [] ∧
      check.RunBy c.settings Settings.globalProfile (allFiles results) entry.1) ∧
    (allFiles results = [] → history = [] ∧ found = []) := by
  rw [closingChecks] at ends
  split at ends
  case isTrue =>
    obtain ⟨rfl, rfl⟩ := Job.done_endsWith_iff.mp ends
    exact ⟨by simp, fun _ => ⟨rfl, rfl⟩⟩
  case isFalse some_file =>
    obtain ⟨own, _, answers, rfl, each, ends⟩ := Job.andThen_endsWith_iff.mp ends
    obtain ⟨rfl, rfl⟩ := Job.done_endsWith_iff.mp ends
    rw [List.append_nil]
    refine ⟨fun entry member => ?_, fun empty => absurd (by simp [empty]) some_file⟩
    obtain ⟨check, inside, runBy⟩ := Settings.exists_runBy_of_each each entry member
    obtain ⟨listed, unnamed⟩ := List.mem_filter.mp inside
    exact ⟨check, listed, by simpa using unnamed, runBy⟩

/-- What a run starts, in order. The traces are those of the languages, and the verdict rests on the
results. -/
structure StartsInOrder (c : RunContext) (languages : List Language) (traces : List LanguageTrace)
    (results : List LanguageResult) (closing : History) (history : History) (verdict : Verdict) :
    Prop where
  history_eq : history = traces.flatMap LanguageTrace.inOrder ++ closing
  justified : List.Forall₂ c.Justifies languages traces
  yields : List.Forall₂ LanguageTrace.Yields traces results
  profiles : verdict.profiles = results.map (·.summary)
  /-- Last come the checks for all languages. -/
  ofAll : ∀ entry ∈ closing, ∃ check ∈ c.settings.checks, check.languages = [] ∧
    check.RunBy c.settings Settings.globalProfile (allFiles results) entry.1
  some_file : closing ≠ [] → ∃ trace ∈ traces, trace.files ≠ []
  /-- Without files nothing is started, and the verdict is clean. -/
  without_files : (∀ trace ∈ traces, trace.files = []) →
    history = [] ∧ verdict.findings = [] ∧ verdict.exitCode = 0

theorem startsInOrder_of_perform {verdict : Verdict}
    (ends : (c.perform languages).EndsWith history verdict) :
    ∃ traces results closing, c.StartsInOrder languages traces results closing history verdict := by
  obtain ⟨work, _, results, rfl, looks, concludes⟩ := Job.andThen_endsWith_iff.mp ends
  obtain ⟨traces, rfl, justified, yields⟩ := exists_traces_of_each looks
  have distinct := stagesDistinct_of_endTogether (Job.endTogether_of_each looks)
  rw [conclude_eq c distinct] at concludes
  obtain ⟨closing, _, found, rfl, closes, answers⟩ := Job.andThen_endsWith_iff.mp concludes
  obtain ⟨rfl, rfl⟩ := Job.done_endsWith_iff.mp answers
  obtain ⟨ofAll, without_files⟩ := exists_runBy_of_closingChecks closes
  have nothing (empty : ∀ trace ∈ traces, trace.files = []) : closing = [] ∧ found = [] := by
    apply without_files
    apply allFiles_eq_nil
    intro r member
    obtain ⟨trace, inside, its⟩ := exists_yields_of_mem yields member
    rw [its.files, empty trace inside]
  refine ⟨traces, results, closing, by rw [List.append_nil], justified, yields, rfl, ofAll, ?_, ?_⟩
  · intro started
    by_contra no_file
    exact started (nothing (by simpa using no_file)).1
  · intro empty
    obtain ⟨rfl, rfl⟩ := nothing empty
    have silent : results.flatMap LanguageResult.findings = [] := by
      apply List.flatMap_eq_nil_iff.mpr
      intro r member
      obtain ⟨trace, inside, its⟩ := exists_yields_of_mem yields member
      exact its.silent (empty trace inside)
    rw [Verdict.exitCode_eq_zero_iff, flatMap_inOrder_eq_nil justified empty, silent]
    exact ⟨rfl, rfl, rfl⟩

/-- The languages of a run are detected and not switched off, in the order of detection. -/
theorem sublist_of_languages {t : FileTree} (found : c.languages t = .ok languages) :
    ∃ files, t.walk c.settings.root (some c.settings.detectDepth) = .ok files ∧
      languages.Sublist (TreeIndex.ofPaths files).languages ∧
      ∀ l ∈ languages, (c.settings.language l).enabled = true := by
  rw [RunContext.languages, FileTree.detect] at found
  cases walked : t.walk c.settings.root (some c.settings.detectDepth) with
  | error fault =>
      rw [walked] at found
      cases found
  | ok files =>
      rw [walked] at found
      cases found
      exact ⟨files, rfl, List.filter_sublist, fun l member => (List.mem_filter.mp member).2⟩

/-- Whatever the programs of a run do and whatever it sees of the files, each of them is started for
a language that was detected, that is not switched off and that has files, or is a check for all
languages; the languages come in the order of detection and their programs in the order of the
stages. Without files nothing is started, and the run is clean. -/
theorem perform_starts_in_order {t : FileTree} {verdict : Verdict}
    (found : c.languages t = .ok languages)
    (ends : (c.perform languages).EndsWith history verdict) :
    (∃ files, t.walk c.settings.root (some c.settings.detectDepth) = .ok files ∧
      languages.Sublist (TreeIndex.ofPaths files).languages ∧
      ∀ l ∈ languages, (c.settings.language l).enabled = true) ∧
    ∃ traces results closing, c.StartsInOrder languages traces results closing history verdict :=
  ⟨sublist_of_languages found, startsInOrder_of_perform ends⟩

section Example

def serviceEntries : List (String × Node) :=
  [("a.go", .file [] Node.plainMode), ("b.py", .file [] Node.plainMode)]

/-- A formatter and a linter for one of two languages are installed. -/
def serviceTree : FileTree where
  root := .dir [("bin", .dir [("gofmt", .program "gofmt"), ("golangci-lint", .program "lint")]),
    ("w", .dir serviceEntries)]

/-- A run for which only the file of one language is a candidate. -/
def serviceContext : RunContext where
  settings := {
    root := "/w"
    checks := [⟨"audit", ["audit"], [], false, 120⟩, ⟨"vet", ["vet"], [.go], true, 120⟩] }
  ignored := []
  candidates := ⟨.fullScan, ["a.go"]⟩
  resolver := ⟨"/bin", "/w"⟩

/-- A machine on which nothing changes and every program is content. -/
def serviceHost : Job.Host Unit where
  tree := fun _ => serviceTree
  run := fun s _ => (.exited (some 0) "", s)

theorem languages_serviceContext : serviceContext.languages serviceTree = .ok [.go, .python] := by
  have walked : serviceTree.walk "/w" (some 3) = .ok ["a.go", "b.py"] := by
    have there : serviceTree.resolve "/w" = .ok (.present ["w"] (.dir serviceEntries)) := rfl
    have below :
        (Node.dir serviceEntries).filesBelow (serviceTree.hasFile "/w") (some 3) [] =
          [["a.go"], ["b.py"]] := by
      simp [serviceEntries, Node.filesBelow, Node.filesAmong]
    exact FileTree.walk_eq_of_sorted there (by decide) below (by decide)
  have root : serviceContext.settings.root = "/w" := rfl
  have depth : serviceContext.settings.detectDepth = 3 := rfl
  rw [RunContext.languages, FileTree.detect, root, depth, walked]
  decide +kernel

/-- One language has a file. It is looked at stage by stage, and the other one starts nothing. -/
theorem perform_starts_in_order_of_service :
    ∃ history verdict traces results closing,
      serviceContext.languages serviceTree = .ok [.go, .python] ∧
      (serviceContext.perform [.go, .python]).EndsWith history verdict ∧
      serviceContext.StartsInOrder [.go, .python] traces results closing history verdict ∧
      history.map (·.1.invocation) = [
        ⟨"/bin/golangci-lint", ["--version"]⟩,
        ⟨"/bin/gofmt", ["-w", "a.go"]⟩,
        ⟨"/bin/gofmt", ["-l", "a.go"]⟩,
        ⟨"/bin/golangci-lint", ["run", "--fast", "."]⟩,
        ⟨"vet", ["a.go"]⟩,
        ⟨"audit", []⟩] := by
  obtain ⟨history, ends, notes⟩ :=
    Job.endsWith_of_noting serviceHost (serviceContext.perform [.go, .python]) ((), [])
  obtain ⟨-, traces, results, closing, inOrder⟩ :=
    perform_starts_in_order languages_serviceContext ends
  refine ⟨history, _, traces, results, closing, languages_serviceContext, ends, inOrder, ?_⟩
  rw [List.nil_append] at notes
  rw [← notes]
  decide +kernel

end Example

end RunContext

end LintGate
