import LintGate.Tool.Resolver
import Mathlib.Data.List.Nodup

/-!
# Preferred tools and their fallbacks

A preference for a tool moves it to the front of the candidates, and `none` takes all of them away.
Of the candidates the first installed one is bound, so a preference that is not installed changes
nothing.
-/

namespace LintGate

/-! ## Names of tools -/

namespace Tool

theorem name_of_ofName? {name : String} {tool : Tool} (known : ofName? name = some tool) :
    tool.name = name := by
  have named := List.find?_some known
  simpa using named

/-- A name of the catalog is not empty, and is not the one that stands for no tool. -/
theorem binds_of_ofName? {name : String} {tool : Tool} (known : ofName? name = some tool) :
    name ≠ "" ∧ Text.sameIgnoringCase name noTool = false := by
  have checked : ∀ tool ∈ catalog,
      tool.name ≠ "" ∧ Text.sameIgnoringCase tool.name noTool = false := by decide
  rw [← name_of_ofName? known]
  exact checked tool (List.mem_of_find?_eq_some known)

end Tool

/-! ## Candidates -/

section Candidates

variable {defaults : List String} {preference : String}

theorem candidateOrder_none : candidateOrder defaults none = defaults := by
  have blank : Text.trim ((none : Option String).getD "") = "" := by decide
  rw [candidateOrder, blank]
  rfl

theorem candidateOrder_of_noTool
    (unbinds : Text.sameIgnoringCase (Text.trim preference) noTool = true) :
    candidateOrder defaults (some preference) = [] := by
  have some_text : Text.trim preference ≠ "" := by
    intro empty
    rw [empty] at unbinds
    cases unbinds
  simp [candidateOrder, some_text, unbinds]

theorem candidateOrder_of_known {tool : Tool}
    (known : Tool.ofName? (Text.trim preference) = some tool) :
    candidateOrder defaults (some preference) =
      tool.name :: defaults.filter (· ≠ tool.name) := by
  obtain ⟨some_text, binds⟩ := Tool.binds_of_ofName? known
  simp [candidateOrder, some_text, binds, known]

theorem candidateOrder_of_unknown
    (binds : Text.sameIgnoringCase (Text.trim preference) noTool = false)
    (unknown : Tool.ofName? (Text.trim preference) = none) :
    candidateOrder defaults (some preference) = defaults := by
  simp [candidateOrder, binds, unknown]

/-- A list without repetitions that has a given name at its front, if there is one, and behind it
the other names of a list as they stand there. -/
structure MovesToFront (front : Option String) (names order : List String) : Prop where
  nodup : order.Nodup
  perm : order.Perm (front.elim names fun name => names.insert name)
  inOrder : ∃ others, order = front.toList ++ others ∧ others.Sublist names

theorem movesToFront_cons (distinct : defaults.Nodup) (name : String) :
    MovesToFront (some name) defaults (name :: defaults.filter (· ≠ name)) where
  nodup := by
    rw [List.nodup_cons]
    exact ⟨by simp, distinct.filter _⟩
  perm := by
    have others_eq : defaults.filter (· ≠ name) = defaults.erase name := by
      rw [distinct.erase_eq_filter]
      apply List.filter_congr
      intro other _
      by_cases same : other = name <;> simp [same]
    rw [others_eq, Option.elim_some]
    by_cases member : name ∈ defaults
    · rw [List.insert_of_mem member]
      exact (List.perm_cons_erase member).symm
    · rw [List.insert_of_not_mem member, List.erase_of_not_mem member]
  inOrder := ⟨_, rfl, List.filter_sublist⟩

theorem movesToFront_candidateOrder (distinct : defaults.Nodup)
    (binds : Text.sameIgnoringCase (Text.trim preference) noTool = false) :
    MovesToFront ((Tool.ofName? (Text.trim preference)).map (·.name)) defaults
      (candidateOrder defaults (some preference)) := by
  cases known : Tool.ofName? (Text.trim preference) with
  | none =>
      rw [candidateOrder_of_unknown binds known]
      exact ⟨distinct, .refl _, defaults, rfl, .refl _⟩
  | some tool =>
      rw [candidateOrder_of_known known]
      exact movesToFront_cons distinct tool.name

end Candidates

/-! ## Installed tools -/

namespace Resolver

variable {r : Resolver} {t : FileTree} {σ : Type} {host : Job.Host σ} {s : σ}

/-- A tool is installed when its binary is found, and its launcher too if it has one. -/
def isInstalled (r : Resolver) (t : FileTree) (tool : Tool) : Bool :=
  (t.findProgram? r.searchPath r.root tool.binary).isSome &&
    tool.launcher.all fun l => (t.findProgram? r.searchPath r.root l.program).isSome

/-- The first of some names that stands for an installed tool. -/
def firstInstalled? (r : Resolver) (t : FileTree) (names : List String) : Option Tool :=
  (names.filterMap Tool.ofName?).find? (r.isInstalled t)

theorem isSome_programs? (r : Resolver) (t : FileTree) (tool : Tool) :
    (r.programs? t tool).isSome = r.isInstalled t tool := by
  rw [programs?, isInstalled]
  cases t.findProgram? r.searchPath r.root tool.binary with
  | none => rfl
  | some binary => cases tool.launcher <;> simp

theorem perform_findTool_of_missing {tool : Tool}
    (missing : r.isInstalled (host.tree s) tool = false) :
    (r.findTool tool).perform host s = (none, s) := by
  rw [← isSome_programs?, Option.isSome_eq_false_iff, Option.isNone_iff_eq_none] at missing
  rw [findTool, Job.perform_look, missing]
  rfl

theorem map_tool_findTool_of_installed {tool : Tool}
    (installed : r.isInstalled (host.tree s) tool = true) :
    ((r.findTool tool).perform host s).1.map (·.tool) = some tool := by
  rw [← isSome_programs?] at installed
  obtain ⟨⟨binary, program⟩, found⟩ := Option.isSome_iff_exists.mp installed
  rw [findTool, Job.perform_look, found]
  dsimp only
  split
  · rfl
  · rfl

theorem firstInstalled?_cons_of_unknown {name : String} {names : List String}
    (unknown : Tool.ofName? name = none) :
    r.firstInstalled? t (name :: names) = r.firstInstalled? t names := by
  rw [firstInstalled?, List.filterMap_cons_none unknown, firstInstalled?]

theorem firstInstalled?_cons_of_missing {name : String} {names : List String} {tool : Tool}
    (known : Tool.ofName? name = some tool) (missing : r.isInstalled t tool = false) :
    r.firstInstalled? t (name :: names) = r.firstInstalled? t names := by
  rw [firstInstalled?, List.filterMap_cons_some known, List.find?_cons, missing, firstInstalled?]

theorem firstInstalled?_cons_of_installed {name : String} {names : List String} {tool : Tool}
    (known : Tool.ofName? name = some tool) (installed : r.isInstalled t tool = true) :
    r.firstInstalled? t (name :: names) = some tool := by
  rw [firstInstalled?, List.filterMap_cons_some known, List.find?_cons, installed]

/-- Candidates before the first installed one are looked for and leave nothing behind. -/
theorem perform_findFirst (names : List String) :
    (r.findFirst names).perform host s =
      match r.firstInstalled? (host.tree s) names with
      | none => (none, s)
      | some tool => (r.findTool tool).perform host s := by
  induction names with
  | nil => rfl
  | cons name names ih =>
      rw [findFirst]
      cases known : Tool.ofName? name with
      | none => rw [firstInstalled?_cons_of_unknown known, ih]
      | some tool =>
          dsimp only
          rw [Job.perform_andThen]
          cases installed : r.isInstalled (host.tree s) tool with
          | false =>
              rw [firstInstalled?_cons_of_missing known installed,
                perform_findTool_of_missing installed]
              exact ih
          | true =>
              rw [firstInstalled?_cons_of_installed known installed]
              obtain ⟨found, bound, -⟩ :=
                Option.map_eq_some_iff.mp (map_tool_findTool_of_installed installed)
              rw [bound]
              exact Prod.ext bound.symm rfl

/-- What is bound depends on the first installed candidate alone. -/
theorem installed_bind (role : Role) (names : List String) :
    ((r.bind role names).perform host s).1.installed =
      (r.firstInstalled? (host.tree s) names).bind fun tool =>
        ((r.findTool tool).perform host s).1 := by
  rw [bind, Job.perform_andThen, Job.perform_done, perform_findFirst]
  cases r.firstInstalled? (host.tree s) names <;> rfl

theorem map_tool_bind (role : Role) (names : List String) :
    ((r.bind role names).perform host s).1.installed.map (·.tool) =
      r.firstInstalled? (host.tree s) names := by
  rw [installed_bind]
  cases first : r.firstInstalled? (host.tree s) names with
  | none => rfl
  | some tool => exact map_tool_findTool_of_installed (List.find?_some first)

/-- A tool that is not installed may be left out of the candidates. -/
theorem firstInstalled?_filter {tool : Tool} (missing : r.isInstalled t tool = false)
    (known : Tool.ofName? tool.name = some tool) (names : List String) :
    r.firstInstalled? t (names.filter (· ≠ tool.name)) = r.firstInstalled? t names := by
  induction names with
  | nil => rfl
  | cons name names ih =>
      by_cases same : name = tool.name
      · subst same
        rw [firstInstalled?_cons_of_missing known missing, List.filter_cons_of_neg (by simp), ih]
      · rw [List.filter_cons_of_pos (by simpa using same)]
        cases other : Tool.ofName? name with
        | none =>
            rw [firstInstalled?_cons_of_unknown other, firstInstalled?_cons_of_unknown other, ih]
        | some first =>
            cases installed : r.isInstalled t first with
            | false =>
                rw [firstInstalled?_cons_of_missing other installed,
                  firstInstalled?_cons_of_missing other installed, ih]
            | true =>
                rw [firstInstalled?_cons_of_installed other installed,
                  firstInstalled?_cons_of_installed other installed]

theorem firstInstalled?_candidateOrder_of_installed {defaults : List String} {preference : String}
    {tool : Tool} (known : Tool.ofName? (Text.trim preference) = some tool)
    (installed : r.isInstalled t tool = true) :
    r.firstInstalled? t (candidateOrder defaults (some preference)) = some tool := by
  have named : Tool.ofName? tool.name = some tool := by rwa [Tool.name_of_ofName? known]
  rw [candidateOrder_of_known known, firstInstalled?_cons_of_installed named installed]

/-- A preference that is not installed changes nothing. -/
theorem firstInstalled?_candidateOrder_of_missing {defaults : List String} {preference : String}
    (binds : Text.sameIgnoringCase (Text.trim preference) noTool = false)
    (missing : ∀ tool, Tool.ofName? (Text.trim preference) = some tool →
      r.isInstalled t tool = false) :
    r.firstInstalled? t (candidateOrder defaults (some preference)) =
      r.firstInstalled? t defaults := by
  cases known : Tool.ofName? (Text.trim preference) with
  | none => rw [candidateOrder_of_unknown binds known]
  | some tool =>
      have named : Tool.ofName? tool.name = some tool := by rwa [Tool.name_of_ofName? known]
      rw [candidateOrder_of_known known, firstInstalled?_cons_of_missing named (missing tool known),
        firstInstalled?_filter (missing tool known) named]

/-- The preferred tool is bound if it is installed. Any other preference binds what is bound without
one, the first installed default, save that `none` binds nothing. -/
theorem bind_follows_preference (r : Resolver) (role : Role) {defaults : List String}
    (distinct : defaults.Nodup) (preference : String) {σ : Type} (host : Job.Host σ) (s : σ) :
    let wish := Text.trim preference
    let order := candidateOrder defaults (some preference)
    let bound := fun names => ((r.bind role names).perform host s).1.installed
    (Text.sameIgnoringCase wish noTool = true → bound order = none) ∧
    (∀ tool, Tool.ofName? wish = some tool → r.isInstalled (host.tree s) tool = true →
      (bound order).map (·.tool) = some tool) ∧
    (Text.sameIgnoringCase wish noTool = false →
      (∀ tool, Tool.ofName? wish = some tool → r.isInstalled (host.tree s) tool = false) →
      bound order = bound (candidateOrder defaults none)) ∧
    (bound (candidateOrder defaults none)).map (·.tool) =
      (defaults.filterMap Tool.ofName?).find? (r.isInstalled (host.tree s)) ∧
    (Text.sameIgnoringCase wish noTool = false →
      MovesToFront ((Tool.ofName? wish).map (·.name)) defaults order) := by
  intro wish order bound
  refine ⟨?_, ?_, ?_, ?_, movesToFront_candidateOrder distinct⟩
  · intro unbinds
    have none_left : order = [] := candidateOrder_of_noTool unbinds
    rw [none_left]
    rfl
  · intro tool known installed
    have first : r.firstInstalled? (host.tree s) order = some tool :=
      firstInstalled?_candidateOrder_of_installed known installed
    rw [map_tool_bind, first]
  · intro binds missing
    have first : r.firstInstalled? (host.tree s) order =
        r.firstInstalled? (host.tree s) defaults :=
      firstInstalled?_candidateOrder_of_missing binds missing
    dsimp only [bound]
    rw [installed_bind, installed_bind, candidateOrder_none, first]
  · dsimp only [bound]
    rw [map_tool_bind, candidateOrder_none, firstInstalled?]

section HalfInstalled

/-- The driver of a linter is there, but not the program that launches it. -/
def halfInstalledTree : FileTree where
  root := .dir [("bin", .dir [("black", .file [] Node.programMode),
    ("cargo-clippy", .file [] Node.programMode), ("ruff", .file [] Node.programMode)])]

def halfInstalledHost : Job.Host Unit where
  tree := fun _ => halfInstalledTree
  run := fun s _ => (.exited (some 0) "", s)

theorem bind_follows_preference_half_installed :
    let r : Resolver := ⟨"/bin", "/w"⟩
    let bound := fun preference =>
      ((r.bind .formatter (candidateOrder ["ruff-format", "black"] preference)).perform
        halfInstalledHost ()).1.installed
    ["ruff-format", "black"].Nodup ∧
      r.isInstalled halfInstalledTree .black = true ∧
      r.isInstalled halfInstalledTree .clippy = false ∧
      bound (some "None") = none ∧
      (bound (some " black ")).map (·.tool) = some .black ∧
      bound (some "clippy") = bound none ∧
      (bound none).map (·.tool) = some .ruffFormat ∧
      MovesToFront (some "clippy") ["ruff-format", "black"]
        (candidateOrder ["ruff-format", "black"] (some "clippy")) := by
  intro r bound
  have distinct : ["ruff-format", "black"].Nodup := by decide
  have black_there : r.isInstalled halfInstalledTree .black = true := by decide +kernel
  have clippy_missing : r.isInstalled halfInstalledTree .clippy = false := by decide +kernel
  have clippy_known : Tool.ofName? (Text.trim "clippy") = some .clippy := by decide
  obtain ⟨unbinds, -⟩ :=
    bind_follows_preference r .formatter distinct "None" halfInstalledHost ()
  obtain ⟨-, prefers, -⟩ :=
    bind_follows_preference r .formatter distinct " black " halfInstalledHost ()
  obtain ⟨-, -, fallsBack, first, moves⟩ :=
    bind_follows_preference r .formatter distinct "clippy" halfInstalledHost ()
  have missing : ∀ tool, Tool.ofName? (Text.trim "clippy") = some tool →
      r.isInstalled halfInstalledTree tool = false := by
    intro tool known
    cases clippy_known.symm.trans known
    exact clippy_missing
  have first_there : (["ruff-format", "black"].filterMap Tool.ofName?).find?
      (r.isInstalled halfInstalledTree) = some .ruffFormat := by decide +kernel
  exact ⟨distinct, black_there, clippy_missing, unbinds (by decide),
    prefers .black (by decide) black_there, fallsBack (by decide) missing,
    first.trans first_there, moves (by decide)⟩

end HalfInstalled

end Resolver

end LintGate
