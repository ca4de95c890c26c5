import LintGate.Proofs.Process.Together
import LintGate.Proofs.Run.Launches
import LintGate.Proofs.Run.Profiles
import LintGate.Proofs.Run.SideBySide
import LintGate.Proofs.Settings.Checks

/-!
# Checks that a run carries out

A run starts each check of the settings once for every language that the check names and that has
files, on the files of that language. A check that names no language is started once, after all
languages, on the files of all of them. This holds however the work on the languages is interleaved,
since a check learns from its environment for whom it is started.
-/

namespace LintGate

/-! ## Programs that are told a profile -/

/-- The profile that a program is told, if it is told one. Only checks are. -/
def Launch.profile? (launch : Launch) : Option String :=
  launch.environment.lookup "SMART_LINT_PROFILE"

/-- The programs of a history that are told a profile, in order. -/
def History.toldOf (profile : String) (history : History) : List Launch :=
  (history.filter fun entry => entry.1.profile? = some profile).map (·.1)

namespace History

variable {profile : String} {history : History}

theorem toldOf_append (profile : String) (first second : History) :
    toldOf profile (first ++ second) = toldOf profile first ++ toldOf profile second := by
  rw [toldOf, List.filter_append, List.map_append, toldOf, toldOf]

theorem toldOf_eq_nil (others : ∀ entry ∈ history, entry.1.profile? ≠ some profile) :
    history.toldOf profile = [] := by
  rw [toldOf, List.filter_eq_nil_iff.mpr (by simpa using others), List.map_nil]

theorem toldOf_eq_map (all : ∀ entry ∈ history, entry.1.profile? = some profile) :
    history.toldOf profile = history.map (·.1) := by
  rw [toldOf, List.filter_eq_self.mpr (by simpa using all)]

end History

/-- The program that is started is that of the check, on some files. -/
structure CustomCheck.RunBy (check : CustomCheck) (s : Settings) (profile : String)
    (files : List Path) (launch : Launch) : Prop where
  invocation : ∃ program args, check.command = program :: args ∧
    launch.invocation = ⟨programAt s.root program,
      args ++ if check.passFiles then files.map Path.asArgument else []⟩
  directory : launch.directory = s.root
  environment : launch.environment = environment s.root profile s.thresholds
  timeoutMs : launch.timeoutMs = check.timeoutSeconds * 1000

namespace CustomCheck

variable {s : Settings} {profile : String} {files : List Path} {launch : Launch}
  {check : CustomCheck} {checks : List CustomCheck} {history : History}

theorem RunBy.profile?_eq (runBy : check.RunBy s profile files launch) :
    launch.profile? = some profile := by
  rw [Launch.profile?, runBy.environment, CustomCheck.environment, List.append_assoc,
    List.append_assoc]
  rfl

theorem exists_runBy_of_perform {answer : Option Finding} (some_command : check.command ≠ [])
    (ends : (check.perform s.root profile files s.thresholds).EndsWith history answer) :
    ∃ launch outcome, history = [(launch, outcome)] ∧ check.RunBy s profile files launch := by
  obtain ⟨program, args, command⟩ := List.exists_cons_of_ne_nil some_command
  rw [perform, performWithin, invocation?, command] at ends
  obtain ⟨outcome, later, rfl, onward⟩ := Job.run_endsWith_iff.mp ends
  obtain ⟨rfl, -⟩ := Job.done_endsWith_iff.mp onward
  exact ⟨_, outcome, rfl, ⟨program, args, command, rfl⟩, rfl, rfl, rfl⟩

theorem runBy_of_each {found : List (Option Finding)}
    (commands : ∀ check ∈ checks, check.command ≠ [])
    (ends : (Job.each (fun c => c.perform s.root profile files s.thresholds) checks).EndsWith
      history found) :
    List.Forall₂ (fun check launch => check.RunBy s profile files launch) checks
      (history.map (·.1)) := by
  induction checks generalizing history found with
  | nil =>
      obtain ⟨rfl, -⟩ := Job.done_endsWith_iff.mp ends
      exact .nil
  | cons check checks ih =>
      rw [List.forall_mem_cons] at commands
      obtain ⟨own, _, answer, rfl, first, ends⟩ := Job.andThen_endsWith_iff.mp ends
      obtain ⟨later, _, answers, rfl, others, ends⟩ := Job.andThen_endsWith_iff.mp ends
      obtain ⟨rfl, -⟩ := Job.done_endsWith_iff.mp ends
      obtain ⟨launch, outcome, rfl, runBy⟩ := exists_runBy_of_perform commands.1 first
      rw [List.append_nil]
      exact .cons runBy (ih commands.2 others)

end CustomCheck

/-- The programs are the checks, one for one and in order. -/
def Settings.RunsChecks (s : Settings) (profile : String) (checks : List CustomCheck)
    (files : List Path) (launches : List Launch) : Prop :=
  List.Forall₂ (fun check launch => check.RunBy s profile files launch) checks launches

theorem Settings.RunsChecks.profile?_eq {s : Settings} {profile : String}
    {checks : List CustomCheck} {files : List Path} {history : History}
    (runs : s.RunsChecks profile checks files (history.map (·.1))) :
    ∀ entry ∈ history, entry.1.profile? = some profile := by
  induction history generalizing checks with
  | nil => simp
  | cons entry history ih =>
      cases runs with
      | cons first rest =>
          rw [List.forall_mem_cons]
          exact ⟨first.profile?_eq, ih rest⟩

theorem Job.EndsWith.eq_nil {α : Type} {job : Job α} {history : History} {answer : α}
    (ends : job.EndsWith history answer) (silent : ∀ launch, ¬ job.MayRun launch) :
    history = [] := by
  apply List.eq_nil_iff_forall_not_mem.mpr
  intro entry member
  exact silent entry.1 ⟨history, answer, entry.2, ends, member⟩

theorem Job.sublist_of_keep {α : Type} {f : α → Job Bool} {xs kept : List α} {history : History}
    (ends : (keep f xs).EndsWith history kept) : kept.Sublist xs := by
  induction xs generalizing history kept with
  | nil =>
      obtain ⟨-, rfl⟩ := done_endsWith_iff.mp ends
      exact .slnil
  | cons x xs ih =>
      obtain ⟨own, _, yes, rfl, -, ends⟩ := andThen_endsWith_iff.mp ends
      obtain ⟨_, _, more, rfl, later, ends⟩ := andThen_endsWith_iff.mp ends
      obtain ⟨-, rfl⟩ := done_endsWith_iff.mp ends
      cases yes with
      | true => exact (ih later).cons_cons x
      | false => exact (ih later).cons x

/-! ## Programs of tools -/

theorem Resolver.profile?_of_bind {r : Resolver} {role : Role} {candidates : List String}
    {launch : Launch} (runs : (r.bind role candidates).MayRun launch) : launch.profile? = none := by
  rcases Job.mayRun_of_andThen runs with asked | ⟨_, found, _, runs⟩
  · obtain ⟨tool, binary, program, -, rfl⟩ := eq_versionLaunch_of_findFirst asked
    rfl
  · exact absurd runs Job.not_mayRun_done

theorem Binding.profile?_of_verify {b : Binding} {files : List Path} {options : StageOptions}
    {launch : Launch} (runs : (b.verify files options).MayRun launch) : launch.profile? = none := by
  rw [verify] at runs
  split at runs
  case h_1 => exact absurd runs Job.not_mayRun_done
  case h_2 tool installed =>
    split at runs
    · exact absurd runs Job.not_mayRun_done
    · obtain ⟨inv, rfl⟩ := Stage.exists_invocation_of_mayRun runs
      rfl

theorem Settings.not_mayRun_performSizeCheck {s : Settings} {l : Language} {files : List Path}
    {launch : Launch} : ¬ (s.performSizeCheck l files).MayRun launch := by
  intro sizes
  rw [performSizeCheck] at sizes
  split at sizes
  · exact Job.not_mayRun_done sizes
  · rcases Job.mayRun_of_andThen sizes with seen | ⟨_, lines, _, sizes⟩
    · obtain ⟨file, -, seen⟩ := Job.exists_mayRun_of_each seen
      exact Job.not_mayRun_seen seen
    · exact Job.not_mayRun_done sizes

namespace RunContext

variable {c : RunContext} {l : Language} {r : LanguageResult} {results : List LanguageResult}
  {languages : List Language} {history work closing : History} {verdict : Verdict}

theorem profile?_of_bindings {launch : Launch} (runs : (c.bindings l).MayRun launch) :
    launch.profile? = none := by
  rcases Job.mayRun_of_andThen runs with first | ⟨_, formatter, _, runs⟩
  · exact Resolver.profile?_of_bind first
  · rcases Job.mayRun_of_andThen runs with second | ⟨_, linter, _, runs⟩
    · exact Resolver.profile?_of_bind second
    · exact absurd runs Job.not_mayRun_done

theorem settings_of_prepare {t : FileTree} {settings : Settings} {resolver : Resolver}
    (prepared : prepare t settings resolver = .ok c) : c.settings = settings := by
  rw [prepare] at prepared
  cases found : t.candidates settings.root with
  | error fault =>
      rw [found] at prepared
      cases prepared
  | ok candidates =>
      rw [found] at prepared
      cases prepared
      rfl

/-! ## The checks of a language -/

variable (commands : ∀ check ∈ c.settings.checks, check.command ≠ [])

include commands

/-- The look at a language runs tools first, and then the checks of the language if it has files. -/
theorem exists_checks_of_performLanguage (ends : (c.performLanguage l).EndsWith history r) :
    ∃ tools checks, history = tools ++ checks ∧ (∀ entry ∈ tools, entry.1.profile? = none) ∧
      (c.selecting l).EndsWith [] r.files ∧
      c.settings.RunsChecks l.id (if r.files = [] then [] else c.settings.checksOf l) r.files
        (checks.map (·.1)) := by
  have silent {α : Type} {job : Job α} {history : History} {answer : α}
      (ends : job.EndsWith history answer)
      (tools : ∀ launch, job.MayRun launch → launch.profile? = none) :
      ∀ entry ∈ history, entry.1.profile? = none := fun entry member =>
    tools entry.1 ⟨history, answer, entry.2, ends, member⟩
  obtain ⟨selected, files, selects, cases⟩ := performLanguage_endsWith_cases ends
  obtain rfl := selects.eq_nil fun launch => not_mayRun_selecting
  rcases cases with ⟨rfl, rfl, rfl⟩ |
    ⟨nonempty, bound, formats, lints, checks, formatter, linter, formatted, linted, checked, binds,
      formatting, linting, checking, rfl, rfl⟩
  · exact ⟨[], [], rfl, by simp, selects, .nil⟩
  · refine ⟨bound ++ (formats ++ lints), checks, by simp, ?_, selects, ?_⟩
    · rw [List.forall_mem_append, List.forall_mem_append]
      exact ⟨silent binds fun _ => profile?_of_bindings,
        silent formatting fun _ => Binding.profile?_of_verify,
        silent linting fun _ => Binding.profile?_of_verify⟩
    · rw [if_neg nonempty]
      rw [Settings.performChecks, if_neg (by simpa using nonempty)] at checking
      obtain ⟨sizes, _, size, rfl, sized, checking⟩ := Job.andThen_endsWith_iff.mp checking
      obtain ⟨own, _, found, rfl, each, checking⟩ := Job.andThen_endsWith_iff.mp checking
      obtain ⟨rfl, -⟩ := Job.done_endsWith_iff.mp checking
      rw [sized.eq_nil fun launch => Settings.not_mayRun_performSizeCheck, List.nil_append,
        List.append_nil]
      exact CustomCheck.runBy_of_each
        (fun check member => commands check (List.mem_of_mem_filter member)) each

theorem toldOf_of_performLanguage (ends : (c.performLanguage l).EndsWith history r) :
    (c.selecting l).EndsWith [] r.files ∧
      c.settings.RunsChecks l.id (if r.files = [] then [] else c.settings.checksOf l) r.files
        (history.toldOf l.id) := by
  obtain ⟨tools, checks, rfl, silent, selects, runs⟩ :=
    exists_checks_of_performLanguage commands ends
  refine ⟨selects, ?_⟩
  rw [History.toldOf_append,
    History.toldOf_eq_nil fun entry member => by simp [silent entry member],
    History.toldOf_eq_map runs.profile?_eq]
  exact runs

theorem profile?_of_performLanguage {launch : Launch}
    (runs : (c.performLanguage l).MayRun launch) :
    launch.profile? = none ∨ launch.profile? = some l.id := by
  obtain ⟨history, r, outcome, ends, member⟩ := runs
  obtain ⟨tools, checks, rfl, silent, -, runs⟩ := exists_checks_of_performLanguage commands ends
  rcases List.mem_append.mp member with tool | check
  · exact .inl (silent _ tool)
  · exact .inr (runs.profile?_eq _ check)

/-! ## The checks of a run -/

/-- What follows the languages are the checks for all of them, if there are files. -/
theorem runsChecks_of_conclude (ends : (c.conclude results).EndsWith closing verdict) :
    c.settings.RunsChecks Settings.globalProfile
      (if allFiles results = [] then [] else c.settings.globalChecks) (allFiles results)
      (closing.map (·.1)) := by
  rw [conclude] at ends
  split at ends
  case isTrue empty =>
    obtain ⟨rfl, -⟩ := Job.done_endsWith_iff.mp ends
    rw [if_pos (by simpa using empty)]
    exact .nil
  case isFalse nonempty =>
    rw [if_neg (by simpa using nonempty)]
    obtain ⟨own, _, found, rfl, checks, ends⟩ := Job.andThen_endsWith_iff.mp ends
    obtain ⟨rfl, -⟩ := Job.done_endsWith_iff.mp ends
    obtain ⟨own, _, answers, rfl, each, ends⟩ := Job.andThen_endsWith_iff.mp checks
    obtain ⟨rfl, -⟩ := Job.done_endsWith_iff.mp ends
    rw [List.append_nil, List.append_nil]
    exact CustomCheck.runBy_of_each
      (fun check member => commands check (List.mem_of_mem_filter member)) each

omit commands in
theorem allFiles_of_sorted {candidates : List Path}
    (sorted : candidates.Pairwise (Path.before · ·))
    (selected : ∀ r ∈ results, ∀ file ∈ r.files, file ∈ candidates) :
    (allFiles results).Pairwise (Path.before · ·) ∧
      ∀ file, file ∈ allFiles results ↔ ∃ r ∈ results, file ∈ r.files := by
  have once (p q : Path) (first : p ∈ candidates) (second : q ∈ candidates) :
      p.same q = true → p = q := Path.eq_of_same sorted first second
  refine ⟨Path.pairwise_foldl_insertSorted .nil _, fun file => ?_⟩
  rw [allFiles, Path.mem_foldl_insertSorted_iff once ?_ (by simp), List.mem_flatMap]
  · simp
  · intro file member
    obtain ⟨r, inside, among⟩ := List.mem_flatMap.mp member
    exact selected r inside file among

/-- What a run starts for its checks. Some languages end together with a history and results, and
the rest of the run has a history of its own. -/
structure RunsChecksOnce (c : RunContext) (languages : List Language)
    (results : List LanguageResult) (work closing : History) : Prop where
  /-- A language with files starts each of its checks once, on the files that it selected. -/
  ofLanguages : List.Forall₂ (fun l r => (c.selecting l).EndsWith [] r.files ∧
    c.settings.RunsChecks l.id
      (if r.files = [] then [] else c.settings.checks.filter (·.languages.contains l)) r.files
      ((work ++ closing).toldOf l.id)) languages results
  /-- No program is started as a check of another profile. -/
  told : ∀ entry ∈ work ++ closing, ∀ profile, entry.1.profile? = some profile →
    profile = Settings.globalProfile ∨ ∃ l ∈ languages, profile = l.id
  union_sorted : (allFiles results).Pairwise (Path.before · ·)
  mem_union : ∀ file, file ∈ allFiles results ↔ ∃ r ∈ results, file ∈ r.files
  /-- Each check for all languages is started once, and nothing else is started at last. -/
  ofAll : c.settings.RunsChecks Settings.globalProfile
    (if allFiles results = [] then [] else c.settings.checks.filter (·.languages.isEmpty))
    (allFiles results) (closing.map (·.1))
  ofAll_last : work.toldOf Settings.globalProfile = []

theorem aloneWith_profile (distinct : languages.Nodup) {i : Nat} (found : languages[i]? = some l) :
    Job.AloneWith (fun launch => decide (launch.profile? = some l.id))
      (languages.map c.performLanguage) i := by
  intro k job launch elsewhere there runs
  rw [List.getElem?_map, Option.map_eq_some_iff] at there
  obtain ⟨other, there, rfl⟩ := there
  have differs : other ≠ l := by
    rintro rfl
    exact elsewhere ((List.getElem?_inj (List.getElem?_eq_some_iff.mp there).1 distinct).mp
      (there.trans found.symm))
  rcases profile?_of_performLanguage commands runs with silent | told
  · simp [silent]
  · have others : other.id ≠ l.id := fun same => differs (Language.eq_of_id same)
    simp [told, others]

/-- What a language starts for its checks in a run is what it starts for them on its own. -/
theorem toldOf_of_endTogether (distinct : languages.Nodup)
    (together : Job.EndTogether (languages.map c.performLanguage) work results)
    (ends : (c.conclude results).EndsWith closing verdict) {i : Nat}
    (found : languages[i]? = some l) :
    ∃ r, results[i]? = some r ∧ (c.selecting l).EndsWith [] r.files ∧
      c.settings.RunsChecks l.id (if r.files = [] then [] else c.settings.checksOf l) r.files
        ((work ++ closing).toldOf l.id) := by
  have job : (languages.map c.performLanguage)[i]? = some (c.performLanguage l) := by
    rw [List.getElem?_map, found, Option.map_some]
  obtain ⟨own, r, there, looks, same⟩ :=
    together.exists_own job (aloneWith_profile commands distinct found)
  obtain ⟨selects, runs⟩ := toldOf_of_performLanguage commands looks
  -- What is started at last is told the profile of no language.
  have others : closing.toldOf l.id = [] := by
    apply History.toldOf_eq_nil
    intro entry member told
    have last := (runsChecks_of_conclude commands ends).profile?_eq entry member
    exact l.id_ne_globalProfile (Option.some.inj (told.symm.trans last))
  refine ⟨r, there, selects, ?_⟩
  rw [History.toldOf_append, others, List.append_nil, History.toldOf, same]
  exact runs

theorem exists_language_of_told
    (together : Job.EndTogether (languages.map c.performLanguage) work results)
    {entry : Launch × Outcome} (member : entry ∈ work) {profile : String}
    (told : entry.1.profile? = some profile) : ∃ l ∈ languages, profile = l.id := by
  obtain ⟨job, inside, runs⟩ := together.exists_mayRun member
  obtain ⟨l, among, rfl⟩ := List.mem_map.mp inside
  rcases profile?_of_performLanguage commands runs with silent | its
  · cases told.symm.trans silent
  · exact ⟨l, among, Option.some.inj (told.symm.trans its)⟩

theorem runsChecksOnce (distinct : languages.Nodup)
    (sorted : c.candidates.paths.Pairwise (Path.before · ·))
    (together : Job.EndTogether (languages.map c.performLanguage) work results)
    (ends : (c.conclude results).EndsWith closing verdict) :
    c.RunsChecksOnce languages results work closing := by
  have last := runsChecks_of_conclude commands ends
  have lengths : languages.length = results.length := by
    rw [together.length_eq, List.length_map]
  have own : List.Forall₂ (fun l r => (c.selecting l).EndsWith [] r.files ∧
      c.settings.RunsChecks l.id (if r.files = [] then [] else c.settings.checksOf l) r.files
        ((work ++ closing).toldOf l.id)) languages results := by
    refine List.forall₂_iff_get.mpr ⟨lengths, fun i inside inside' => ?_⟩
    obtain ⟨r, there, runs⟩ :=
      toldOf_of_endTogether commands distinct together ends (List.getElem?_eq_getElem inside)
    rw [List.getElem?_eq_getElem inside'] at there
    cases there
    exact runs
  have selected : ∀ r ∈ results, ∀ file ∈ r.files, file ∈ c.candidates.paths := by
    intro r member file among
    obtain ⟨i, inside, rfl⟩ := List.getElem_of_mem member
    have looked := (List.forall₂_iff_get.mp own).2 i (lengths ▸ inside) inside
    exact (Job.sublist_of_keep looked.1).subset among
  obtain ⟨union_sorted, mem_union⟩ := allFiles_of_sorted sorted selected
  refine ⟨own, ?_, union_sorted, mem_union, last, ?_⟩
  · intro entry member profile told
    rcases List.mem_append.mp member with early | late
    · exact .inr (exists_language_of_told commands together early told)
    · exact .inl (Option.some.inj (told.symm.trans (last.profile?_eq entry late)))
  · apply History.toldOf_eq_nil
    intro entry member told
    obtain ⟨l, -, same⟩ := exists_language_of_told commands together member told
    exact l.id_ne_globalProfile same.symm

end RunContext

/-- Settings are found exactly when each listed check has a command and names known languages, and
then all checks are kept in order, none without a command. A run starts each check once for every
language that the check names and that has files, and a check that names none once for all. Taking
one language after another, or steps of them in any order, is such a run. -/
theorem Settings.checks_run_once {t : FileTree} {ov : Overrides} {cwd : Path} :
    (∀ found, t.loadSettings (t.findRoot (absoluteStart ov.startDir cwd)) = .ok found →
      ((∃ settings, find t ov cwd = .ok settings) ↔ ∀ check ∈ (givenBy found).checks, check.Valid) ∧
      ∀ settings, find t ov cwd = .ok settings →
        List.Forall₂ (fun given kept => given.KeptAs (givenBy found).timeoutSeconds kept)
          (givenBy found).checks settings.checks) ∧
    ∀ settings, find t ov cwd = .ok settings →
      (∀ check ∈ settings.checks, ∀ root files, check.invocation? root files ≠ none) ∧
      ∀ u v resolver c languages, RunContext.prepare u settings resolver = .ok c →
        c.languages v = .ok languages →
        (∀ results work closing verdict,
          Job.EndTogether (languages.map c.performLanguage) work results →
          (c.conclude results).EndsWith closing verdict →
          c.RunsChecksOnce languages results work closing) ∧
        (∀ history verdict, (c.perform languages).EndsWith history verdict →
          ∃ results work closing, history = work ++ closing ∧
            Job.EndTogether (languages.map c.performLanguage) work results ∧
            (c.conclude results).EndsWith closing verdict) ∧
        ∀ (σ : Type) (host : Job.Host σ) (s last : σ) (results : List LanguageResult),
          Job.Interleaves host (languages.map c.performLanguage) s (results.map .done) last →
          ∃ work, Job.EndTogether (languages.map c.performLanguage) work results := by
  constructor
  · intro found loads
    have found_iff (settings : Settings) : find t ov cwd = .ok settings ↔
        complete ov (t.findRoot (absoluteStart ov.startDir cwd)) found = .ok settings := by
      rw [find_eq_ok_iff]
      simp only [loads, Except.ok.injEq, exists_eq_left']
    simp only [found_iff]
    exact ⟨exists_complete_iff, fun settings completes =>
      (checks_of_complete completes).imp fun _ _ both => both.2⟩
  · intro settings finds
    obtain ⟨found, -, completes⟩ := find_eq_ok_iff.mp finds
    have commands : ∀ check ∈ settings.checks, check.command ≠ [] :=
      fun _ => command_ne_nil_of_complete completes
    refine ⟨?_, ?_⟩
    · intro check member root files
      obtain ⟨program, args, command⟩ := List.exists_cons_of_ne_nil (commands check member)
      simp [CustomCheck.invocation?, command]
    · intro u v resolver c languages prepared detected
      have same := RunContext.settings_of_prepare prepared
      refine ⟨?_, ?_, ?_⟩
      · intro results work closing verdict together ends
        exact RunContext.runsChecksOnce (same ▸ commands) (RunContext.nodup_of_languages detected)
          (RunContext.pairwise_of_prepare prepared) together ends
      · intro history verdict ends
        obtain ⟨work, closing, results, rfl, looks, concludes⟩ := Job.andThen_endsWith_iff.mp ends
        exact ⟨results, work, closing, rfl, Job.endTogether_of_each looks, concludes⟩
      · intro σ host s last results interleaved
        exact interleaved.exists_endTogether

section Example

/-- Two checks, of which one names the same language three times. -/
def aliasSettingsText : String :=
  "[[checks]]\nname=\"t\"\ncommand=[\"./t\"]\nlanguages=[\"js\",\"TS\",\"js\"]\n" ++
    "[[checks]]\nname=\"a\"\ncommand=[\"a\",\"-q\"]\n"

def aliasEntries : List (String × Node) :=
  [(".smart-lint.toml", .file (Text.encode aliasSettingsText) 0o644), ("a.js", .file [] 0o644)]

def aliasTree : FileTree where
  root := .dir [("w", .dir aliasEntries)]

def aliasSettings : Settings where
  root := "/w"
  file := some "/w/.smart-lint.toml"
  checks := [
    ⟨"t", ["./t"], [.javascript, .javascript, .javascript], true, 120⟩,
    ⟨"a", ["a", "-q"], [], true, 120⟩]

def aliasContext : RunContext where
  settings := aliasSettings
  ignored := []
  candidates := ⟨.fullScan, [".smart-lint.toml", "a.js"]⟩
  resolver := ⟨"", "/w"⟩

theorem find_aliasTree : Settings.find aliasTree {} "/w" = .ok aliasSettings :=
  Settings.find_eq_of_toOption (by decide +kernel)

theorem walk_aliasTree {levels : Option Nat} (small : ∀ d ∈ levels, d < maxDepth) :
    aliasTree.walk "/w" levels = .ok [".smart-lint.toml", "a.js"] := by
  have there : aliasTree.resolve "/w" = .ok (.present ["w"] (.dir aliasEntries)) := rfl
  have below : (Node.dir aliasEntries).filesBelow (aliasTree.hasFile "/w") levels [] =
      [[".smart-lint.toml"], ["a.js"]] := by
    simp [aliasEntries, Node.filesBelow, Node.filesAmong]
  exact FileTree.walk_eq_of_sorted there small below (by decide)

theorem prepare_aliasTree :
    RunContext.prepare aliasTree aliasSettings ⟨"", "/w"⟩ = .ok aliasContext := by
  have candidates : aliasTree.candidates aliasSettings.root =
      .ok ⟨.fullScan, [".smart-lint.toml", "a.js"]⟩ :=
    FileTree.candidates_eq_of_walk rfl (walk_aliasTree (by simp)) (by decide)
  rw [RunContext.prepare, candidates]
  rfl

theorem languages_aliasContext : aliasContext.languages aliasTree = .ok [.javascript] := by
  have root : aliasContext.settings.root = "/w" := rfl
  have small : ∀ d ∈ some aliasContext.settings.detectDepth, d < maxDepth := by decide
  rw [RunContext.languages, FileTree.detect, root, walk_aliasTree small]
  decide +kernel

/-- A machine on which nothing changes and every program is content. It notes what it runs. -/
def notingHost : Job.Host History where
  tree := fun _ => aliasTree
  run := fun noted launch =>
    (.exited (some 0) "", noted ++ [(launch, .exited (some 0) "")])

theorem endsWith_notingHost {α : Type} (job : Job α) (noted : History) :
    ∃ history, job.EndsWith history (job.perform notingHost noted).1 ∧
      (job.perform notingHost noted).2 = noted ++ history := by
  induction job generalizing noted with
  | done answer => exact ⟨[], .done answer, (List.append_nil _).symm⟩
  | run launch next ih =>
      obtain ⟨history, ends, notes⟩ := ih (.exited (some 0) "")
        (noted ++ [(launch, .exited (some 0) "")])
      refine ⟨_, .run ends, ?_⟩
      rw [Job.perform_run]
      exact notes.trans (List.append_assoc _ _ _)
  | look next ih =>
      obtain ⟨history, ends, notes⟩ := ih aliasTree noted
      exact ⟨history, .look ends, notes⟩

/-- A check that names a language thrice is started once, and the one that names none at last. -/
theorem Settings.checks_run_once_for_aliases :
    ∃ found work closing results verdict,
      aliasTree.loadSettings (aliasTree.findRoot (absoluteStart none "/w")) = .ok found ∧
      (∀ check ∈ (givenBy found).checks, check.Valid) ∧
      find aliasTree {} "/w" = .ok aliasSettings ∧
      RunContext.prepare aliasTree aliasSettings ⟨"", "/w"⟩ = .ok aliasContext ∧
      aliasContext.languages aliasTree = .ok [.javascript] ∧
      Job.EndTogether ([.javascript].map aliasContext.performLanguage) work results ∧
      (aliasContext.conclude results).EndsWith closing verdict ∧
      aliasContext.RunsChecksOnce [.javascript] results work closing ∧
      work.map (·.1.invocation) = [⟨"/w/./t", ["a.js"]⟩] ∧
      closing.map (·.1.invocation) = [⟨"a", ["-q", "a.js"]⟩] := by
  obtain ⟨work, looks, works⟩ :=
    endsWith_notingHost (Job.each aliasContext.performLanguage [.javascript]) []
  obtain ⟨closing, concludes, closes⟩ := endsWith_notingHost (aliasContext.conclude
    ((Job.each aliasContext.performLanguage [.javascript]).perform notingHost []).1) []
  obtain ⟨found, loads, -⟩ := find_eq_ok_iff.mp find_aliasTree
  have together := Job.endTogether_of_each looks
  have whole := @checks_run_once aliasTree {} "/w"
  have once := whole.1 found loads
  have runs := (whole.2 aliasSettings find_aliasTree).2 aliasTree aliasTree _ aliasContext
    [.javascript] prepare_aliasTree languages_aliasContext
  refine ⟨found, work, closing, _, _, loads, once.1.mp ⟨_, find_aliasTree⟩, find_aliasTree,
    prepare_aliasTree, languages_aliasContext, together, concludes,
    runs.1 _ _ _ _ together concludes, ?_, ?_⟩
  · rw [List.nil_append] at works
    rw [← works]
    decide +kernel
  · rw [List.nil_append] at closes
    rw [← closes]
    decide +kernel

end Example

end LintGate
