import LintGate.Proofs.Tool.Preference
import LintGate.Proofs.Verification.RepairReach
import LintGate.Run

/-!
# Formatters of a run

Every default formatter of a language can repair. A preference may name any tool of the catalog,
though, and one that only checks is bound as a formatter when it is installed. Its complaints are
then reported as formatting that is needed, and nothing was repaired before.
-/

namespace LintGate

theorem Language.fix_ne_none_of_default {l : Language} {tool : Tool}
    (default : tool ∈ l.profile.formatters.filterMap Tool.ofName?) : tool.fix ≠ none := by
  have checked : ∀ l ∈ Language.all, ∀ tool ∈ l.profile.formatters.filterMap Tool.ofName?,
      tool.fix ≠ none := by decide
  exact checked l (Language.mem_all l) tool default

/-- A candidate is a default, or it is the preferred tool. -/
theorem mem_candidateOrder {defaults : List String} {preferred : Option String} {name : String}
    (member : name ∈ candidateOrder defaults preferred) :
    name ∈ defaults ∨
      ∃ tool, Tool.ofName? (Text.trim (preferred.getD "")) = some tool ∧ name = tool.name := by
  unfold candidateOrder at member
  dsimp only at member
  split at member
  · exact .inl member
  · split at member
    · cases member
    · split at member
      case h_1 tool known =>
        rcases List.mem_cons.mp member with same | other
        · exact .inr ⟨tool, known, same⟩
        · exact .inl (List.mem_of_mem_filter other)
      case h_2 => exact .inl member

namespace Resolver

variable {r : Resolver} {t : FileTree}

theorem role_bind (r : Resolver) (role : Role) (names : List String) {σ : Type} (host : Job.Host σ)
    (s : σ) : ((r.bind role names).perform host s).1.role = role := by
  rw [bind, Job.perform_andThen, Job.perform_done]

theorem default_or_preferred_of_firstInstalled? {defaults : List String}
    {preferred : Option String} {tool : Tool}
    (first : r.firstInstalled? t (candidateOrder defaults preferred) = some tool) :
    tool ∈ defaults.filterMap Tool.ofName? ∨
      Tool.ofName? (Text.trim (preferred.getD "")) = some tool := by
  obtain ⟨name, member, known⟩ := List.mem_filterMap.mp (List.mem_of_find?_eq_some first)
  rcases mem_candidateOrder member with default | ⟨wished, wish, rfl⟩
  · exact .inl (List.mem_filterMap.mpr ⟨name, default, known⟩)
  · have named : Tool.ofName? wished.name = some wished := by
      rw [Tool.name_of_ofName? wish]
      exact wish
    cases named.symm.trans known
    exact .inr wish

/-- Where all defaults can repair, a tool that only checks is bound exactly when it is preferred and
installed. -/
theorem fix_eq_none_iff_of_firstInstalled? {defaults : List String} {preferred : Option String}
    {tool : Tool} (repairing : ∀ tool ∈ defaults.filterMap Tool.ofName?, tool.fix ≠ none)
    (first : r.firstInstalled? t (candidateOrder defaults preferred) = some tool) :
    tool.fix = none ↔ ∃ checker, Tool.ofName? (Text.trim (preferred.getD "")) = some checker ∧
      checker.fix = none ∧ r.isInstalled t checker = true := by
  constructor
  · intro checks
    rcases default_or_preferred_of_firstInstalled? first with default | wish
    · exact absurd checks (repairing tool default)
    · exact ⟨tool, wish, checks, List.find?_some first⟩
  · rintro ⟨checker, wish, checks, installed⟩
    cases preferred with
    | none => exact absurd rfl (Tool.binds_of_ofName? wish).1
    | some preference =>
        have preferredFirst :
            r.firstInstalled? t (candidateOrder defaults (some preference)) = some checker :=
          firstInstalled?_candidateOrder_of_installed wish installed
        cases preferredFirst.symm.trans first
        exact checks

end Resolver

namespace RunContext

theorem fst_perform_bindings (c : RunContext) (l : Language) {σ : Type} (host : Job.Host σ)
    (s : σ) :
    ((c.bindings l).perform host s).1.1 =
      ((c.resolver.bind .formatter
        (candidateOrder l.profile.formatters (c.settings.language l).formatter)).perform
          host s).1 := by
  simp only [bindings, candidateOrders, Job.perform_andThen, Job.perform_done]

/-- The formatter of a language cannot repair exactly when the settings prefer a tool that only
checks and that is installed. Whatever it reports as formatting that is needed comes from its
checks; the files of a check were given to a repair before, unless the tool cannot repair, or
neither pass of repairs could load the configuration for files that stand before them. -/
theorem formatter_repairs_before_checks (c : RunContext) (l : Language) {σ : Type}
    (host : Job.Host σ) (state : σ) {tool : InstalledTool}
    (bound : ((c.bindings l).perform host state).1.1.installed = some tool) {files : List Path}
    (nonempty : files ≠ []) {options : StageOptions} {history : History} {v : Verified}
    (ends : (((c.bindings l).perform host state).1.1.verify files options).EndsWith history v) :
    let wish := Text.trim ((c.settings.language l).formatter.getD "")
    let s : Stage := ⟨tool, .formatter, files, options⟩
    (tool.tool.fix = none ↔ ∃ checker, Tool.ofName? wish = some checker ∧ checker.fix = none ∧
      c.resolver.isInstalled (host.tree state) checker = true) ∧
    ∃ attempts, s.Performs attempts v ∧ history = attempts.map s.entry ∧
      (∀ a ∈ attempts, s.InPlace a) ∧
      (∀ f ∈ v.findings, f.category = .formattingNeeded →
        f.output = "\n".intercalate ((Stage.checksOf attempts).filterMap s.violation?)) ∧
      ∀ before a after, attempts = before ++ a :: after → a.isRepair = false →
        (Stage.RepairedAmong before a ↔ tool.tool.fix ≠ none ∧
          ¬ (s.CutOff .repair attempts a ∧ s.CutOff .repairWithout attempts a)) := by
  intro wish s
  rw [fst_perform_bindings] at bound ends
  have defaults : ∀ tool ∈ l.profile.formatters.filterMap Tool.ofName?, tool.fix ≠ none :=
    fun _ => Language.fix_ne_none_of_default
  have first : c.resolver.firstInstalled? (host.tree state)
      (candidateOrder l.profile.formatters (c.settings.language l).formatter) =
        some tool.tool := by
    rw [← Resolver.map_tool_bind .formatter, bound, Option.map_some]
  refine ⟨Resolver.fix_eq_none_iff_of_firstInstalled? defaults first, ?_⟩
  exact Binding.verify_repairs_before_checks bound (c.resolver.role_bind _ _ host state) nonempty
    ends

section Shell

/-- The settings name a linter as the formatter. -/
def shellContext : RunContext where
  settings := { root := "/w", languages := [(.shell, { formatter := some "shellcheck" })] }
  ignored := []
  candidates := ⟨.fullScan, ["a.sh"]⟩
  resolver := ⟨"/bin", "/w"⟩

/-- A machine with some programs, each of which complains and leaves the files as they are. -/
def shellHost (programs : List String) : Job.Host Unit where
  tree := fun _ =>
    { root := .dir [("bin", .dir (programs.map fun name => (name, .file [] Node.programMode)))] }
  run := fun s _ => (.exited (some 1) "a.sh:1:1: needless", s)

def shellFormatter (programs : List String) : Binding :=
  ((shellContext.bindings .shell).perform (shellHost programs) ()).1.1

def shellRun (programs : List String) : Verified × Unit × History :=
  ((shellFormatter programs).verify ["a.sh"] (shellContext.stageOptions .shell)).perform
    (shellHost programs).noting ((), [])

theorem shellFormatter_endsWith (programs : List String) :
    ((shellFormatter programs).verify ["a.sh"] (shellContext.stageOptions .shell)).EndsWith
      (shellRun programs).2.2 (shellRun programs).1 := by
  obtain ⟨history, ends, notes⟩ := Job.endsWith_of_noting (shellHost programs)
    ((shellFormatter programs).verify ["a.sh"] (shellContext.stageOptions .shell)) ((), [])
  rw [shellRun, notes, List.nil_append]
  exact ends

def shellReport (tool : String) : Verified :=
  .failed [⟨tool, "shell", .formatter, .formattingNeeded, "a.sh:1:1: needless"⟩]

/-- The linter is bound as the formatter, and reports formatting that is needed although it repaired
nothing. -/
theorem formatter_complains_unrepaired :
    let programs := ["shellcheck", "shfmt"]
    ∃ tool history, (shellFormatter programs).installed = some tool ∧ tool.tool.fix = none ∧
      ((shellFormatter programs).verify ["a.sh"] (shellContext.stageOptions .shell)).EndsWith
        history (shellReport "shellcheck") ∧
      history.map (·.1.invocation) =
        [⟨"/bin/shellcheck", ["--format", "gcc", "a.sh"]⟩] := by
  intro programs
  have bound : (shellFormatter programs).installed =
      some ⟨.shellcheck, "/bin/shellcheck", none⟩ := by decide +kernel
  have report : (shellRun programs).1 = shellReport "shellcheck" := by decide +kernel
  have ends := shellFormatter_endsWith programs
  rw [report] at ends
  exact ⟨_, _, bound, rfl, ends, by decide +kernel⟩

/-- Where the linter is missing, the first default is bound, and what it complains about was given
to a repair before. -/
theorem formatter_repairs_before_checks_of_shfmt :
    let programs := ["shfmt"]
    ∃ tool history attempts, (shellFormatter programs).installed = some tool ∧ ["a.sh"] ≠ [] ∧
      ((shellFormatter programs).verify ["a.sh"] (shellContext.stageOptions .shell)).EndsWith
        history (shellReport "shfmt") ∧
      tool.tool.fix ≠ none ∧
      history.map (·.1.invocation) =
        [⟨"/bin/shfmt", ["-w", "a.sh"]⟩, ⟨"/bin/shfmt", ["-d", "a.sh"]⟩] ∧
      history = attempts.map
        (Stage.entry ⟨tool, .formatter, ["a.sh"], shellContext.stageOptions .shell⟩) ∧
      ∀ before a after, attempts = before ++ a :: after → a.isRepair = false →
        Stage.RepairedAmong before a := by
  intro programs
  have bound : (shellFormatter programs).installed = some ⟨.shfmt, "/bin/shfmt", none⟩ := by
    decide +kernel
  have report : (shellRun programs).1 = shellReport "shfmt" := by decide +kernel
  have ends := shellFormatter_endsWith programs
  rw [report] at ends
  have nonempty : ["a.sh"] ≠ [] := by decide
  obtain ⟨checks_only, attempts, -, same, -, -, repaired⟩ := by
    unfold shellFormatter at bound ends
    exact formatter_repairs_before_checks shellContext .shell (shellHost programs) () bound
      nonempty ends
  have missing : shellContext.resolver.isInstalled ((shellHost programs).tree ()) .shellcheck =
      false := by decide +kernel
  have wish : Tool.ofName? (Text.trim ((shellContext.settings.language .shell).formatter.getD "")) =
      some .shellcheck := by decide
  have repairs : Tool.shfmt.fix ≠ none := by
    rw [ne_eq, checks_only]
    rintro ⟨checker, named, -, installed⟩
    cases wish.symm.trans named
    rw [missing] at installed
    cases installed
  refine ⟨_, _, attempts, bound, nonempty, ends, repairs, by decide +kernel, same, ?_⟩
  intro before a after cut checking
  rw [repaired before a after cut checking]
  refine ⟨repairs, ?_⟩
  rintro ⟨⟨r, -, -, fails, -⟩, -⟩
  obtain ⟨rule, found, -⟩ := Stage.exists_rule_of_failsToLoad fails
  cases found

end Shell

end RunContext

end LintGate
