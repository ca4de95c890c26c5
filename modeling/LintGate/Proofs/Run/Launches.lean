import LintGate.Proofs.Tool.Programs
import LintGate.Proofs.Verification.Attempts
import LintGate.Run

/-!
# What the look at a language starts

The look at a language starts tools that were found on the search path, to ask for their version or
to let them work on the files, and the checks that the settings name for the language. It starts
nothing else.
-/

namespace LintGate

namespace Resolver

variable {r : Resolver} {tool : Tool} {history : History} {installed : InstalledTool}
  {launch : Launch}

theorem finds_of_findTool (known : ∃ name, Tool.ofName? name = some tool)
    (ends : (r.findTool tool).EndsWith history (some installed)) :
    ∃ binary, r.Finds installed.tool binary installed.program := by
  obtain ⟨t, ends⟩ := Job.look_endsWith_iff.mp ends
  split at ends
  case h_1 => cases ends
  case h_2 binary program found =>
    split at ends
    · obtain ⟨_, _, -, ends⟩ := Job.run_endsWith_iff.mp ends
      cases ends
      exact ⟨binary, known, t, found⟩
    · cases ends
      exact ⟨binary, known, t, found⟩

theorem eq_versionLaunch_of_findTool (known : ∃ name, Tool.ofName? name = some tool)
    (runs : (r.findTool tool).MayRun launch) :
    ∃ binary program, r.Finds tool binary program ∧ launch = r.versionLaunch binary := by
  obtain ⟨t, runs⟩ := Job.exists_mayRun_of_look runs
  split at runs
  case h_1 => exact absurd runs Job.not_mayRun_done
  case h_2 binary program found =>
    split at runs
    · rcases Job.eq_or_mayRun_of_run runs with rfl | ⟨_, runs⟩
      · exact ⟨binary, program, ⟨known, t, found⟩, rfl⟩
      · exact absurd runs Job.not_mayRun_done
    · exact absurd runs Job.not_mayRun_done

/-- Whatever is bound to a role was found. -/
theorem finds_of_findFirst {candidates : List String}
    (ends : (r.findFirst candidates).EndsWith history (some installed)) :
    ∃ binary, r.Finds installed.tool binary installed.program := by
  induction candidates generalizing history with
  | nil => cases ends
  | cons name more ih =>
      rw [findFirst] at ends
      split at ends
      case h_1 => exact ih ends
      case h_2 tool known =>
        obtain ⟨_, _, found, -, first, ends⟩ := Job.andThen_endsWith_iff.mp ends
        cases found with
        | none => exact ih ends
        | some other =>
            cases ends
            exact finds_of_findTool ⟨name, known⟩ first

theorem eq_versionLaunch_of_findFirst {candidates : List String}
    (runs : (r.findFirst candidates).MayRun launch) :
    ∃ tool binary program, r.Finds tool binary program ∧ launch = r.versionLaunch binary := by
  induction candidates with
  | nil => exact absurd runs Job.not_mayRun_done
  | cons name more ih =>
      rw [findFirst] at runs
      split at runs
      case h_1 => exact ih runs
      case h_2 tool known =>
        rcases Job.mayRun_of_andThen runs with asked | ⟨_, found, _, runs⟩
        · exact ⟨tool, eq_versionLaunch_of_findTool ⟨name, known⟩ asked⟩
        · cases found with
          | none => exact ih runs
          | some other => exact absurd runs Job.not_mayRun_done

end Resolver

theorem Stage.exists_invocation_of_mayRun {s : Stage} {launch : Launch}
    (runs : s.perform.MayRun launch) : ∃ inv, launch = s.launch inv := by
  obtain ⟨history, verified, outcome, ends, member⟩ := runs
  obtain ⟨attempts, -, rfl⟩ := s.perform_endsWith_iff.mp ends
  obtain ⟨attempt, -, same⟩ := List.mem_map.mp member
  exact ⟨attempt.invocation, (congrArg Prod.fst same).symm⟩

namespace RunContext

/-- What a program is started for in the look at a language. -/
inductive StartedFor (c : RunContext) (l : Language) : Launch → Prop where
  | version {tool : Tool} {binary program : Path} :
      c.resolver.Finds tool binary program → StartedFor c l (c.resolver.versionLaunch binary)
  | tool {s : Stage} {binary : Path} (inv : Invocation) :
      c.resolver.Finds s.tool.tool binary s.tool.program → s.options = c.stageOptions l →
      StartedFor c l (s.launch inv)
  | check {check : CustomCheck} {files : List Path} {inv : Invocation} {launch : Launch} :
      check ∈ c.settings.checksOf l → check.invocation? c.settings.root files = some inv →
      launch.invocation = inv → StartedFor c l launch

variable {c : RunContext} {l : Language} {launch : Launch}

theorem not_mayRun_selecting : ¬ (c.selecting l).MayRun launch := by
  intro runs
  obtain ⟨file, -, runs⟩ := Job.exists_mayRun_of_keep runs
  rw [keeps] at runs
  split at runs
  · obtain ⟨t, runs⟩ := Job.exists_mayRun_of_look runs
    split at runs
    · exact Job.not_mayRun_seen runs
    · exact Job.not_mayRun_done runs
  · exact Job.not_mayRun_done runs

theorem startedFor_of_bindings (runs : (c.bindings l).MayRun launch) : c.StartedFor l launch := by
  have bound {role : Role} {candidates : List String}
      (runs : (c.resolver.bind role candidates).MayRun launch) : c.StartedFor l launch := by
    rcases Job.mayRun_of_andThen runs with asked | ⟨_, found, _, runs⟩
    · obtain ⟨tool, binary, program, found, rfl⟩ := Resolver.eq_versionLaunch_of_findFirst asked
      exact .version found
    · exact absurd runs Job.not_mayRun_done
  rcases Job.mayRun_of_andThen runs with first | ⟨_, formatter, _, runs⟩
  · exact bound first
  · rcases Job.mayRun_of_andThen runs with second | ⟨_, linter, _, runs⟩
    · exact bound second
    · exact absurd runs Job.not_mayRun_done

/-- A binding of the language names a tool that was found. -/
theorem finds_of_bindings {history : History} {bound : Binding × Binding}
    (ends : (c.bindings l).EndsWith history bound) {b : Binding}
    (either : b = bound.1 ∨ b = bound.2)
    {tool : InstalledTool} (installed : b.installed = some tool) :
    ∃ binary, c.resolver.Finds tool.tool binary tool.program := by
  have found {role : Role} {candidates : List String} {history : History} {b : Binding}
      (ends : (c.resolver.bind role candidates).EndsWith history b)
      (installed : b.installed = some tool) :
      ∃ binary, c.resolver.Finds tool.tool binary tool.program := by
    obtain ⟨_, _, found, -, first, ends⟩ := Job.andThen_endsWith_iff.mp ends
    cases ends
    cases installed
    exact Resolver.finds_of_findFirst first
  obtain ⟨_, _, formatter, -, first, ends⟩ := Job.andThen_endsWith_iff.mp ends
  obtain ⟨_, _, linter, -, second, ends⟩ := Job.andThen_endsWith_iff.mp ends
  cases ends
  rcases either with rfl | rfl
  · exact found first installed
  · exact found second installed

theorem startedFor_of_verify {b : Binding} {files : List Path}
    (found : ∀ tool, b.installed = some tool →
      ∃ binary, c.resolver.Finds tool.tool binary tool.program)
    (runs : (b.verify files (c.stageOptions l)).MayRun launch) : c.StartedFor l launch := by
  rw [Binding.verify] at runs
  split at runs
  case h_1 => exact absurd runs Job.not_mayRun_done
  case h_2 tool installed =>
    split at runs
    · exact absurd runs Job.not_mayRun_done
    · obtain ⟨inv, rfl⟩ := Stage.exists_invocation_of_mayRun runs
      obtain ⟨binary, finds⟩ := found tool installed
      exact .tool inv finds rfl

theorem startedFor_of_performChecks {files : List Path}
    (runs : (c.settings.performChecks l files).MayRun launch) : c.StartedFor l launch := by
  rw [Settings.performChecks] at runs
  split at runs
  · exact absurd runs Job.not_mayRun_done
  rcases Job.mayRun_of_andThen runs with sizes | ⟨_, size, _, runs⟩
  · rw [Settings.performSizeCheck] at sizes
    split at sizes
    · exact absurd sizes Job.not_mayRun_done
    · rcases Job.mayRun_of_andThen sizes with seen | ⟨_, lines, _, sizes⟩
      · obtain ⟨file, -, seen⟩ := Job.exists_mayRun_of_each seen
        exact absurd seen Job.not_mayRun_seen
      · exact absurd sizes Job.not_mayRun_done
  · rcases Job.mayRun_of_andThen runs with checks | ⟨_, found, _, runs⟩
    · obtain ⟨check, member, runs⟩ := Job.exists_mayRun_of_each checks
      rw [CustomCheck.perform, CustomCheck.performWithin] at runs
      split at runs
      case h_1 => exact absurd runs Job.not_mayRun_done
      case h_2 inv command =>
        rcases Job.eq_or_mayRun_of_run runs with rfl | ⟨_, runs⟩
        · exact .check member command rfl
        · exact absurd runs Job.not_mayRun_done
    · exact absurd runs Job.not_mayRun_done

/-- The look at a language starts nothing but its tools and its checks. -/
theorem startedFor_of_mayRun (runs : (c.performLanguage l).MayRun launch) :
    c.StartedFor l launch := by
  rcases Job.mayRun_of_andThen runs with selecting | ⟨_, files, _, runs⟩
  · exact absurd selecting not_mayRun_selecting
  split at runs
  · exact absurd runs Job.not_mayRun_done
  rcases Job.mayRun_of_andThen runs with binds | ⟨_, bound, found, runs⟩
  · exact startedFor_of_bindings binds
  rcases Job.mayRun_of_andThen runs with formats | ⟨_, formatted, _, runs⟩
  · exact startedFor_of_verify (fun _ => finds_of_bindings found (.inl rfl)) formats
  rcases Job.mayRun_of_andThen runs with lints | ⟨_, linted, _, runs⟩
  · exact startedFor_of_verify (fun _ => finds_of_bindings found (.inr rfl)) lints
  rcases Job.mayRun_of_andThen runs with checks | ⟨_, checked, _, runs⟩
  · exact startedFor_of_performChecks checks
  · exact absurd runs Job.not_mayRun_done

end RunContext

end LintGate
