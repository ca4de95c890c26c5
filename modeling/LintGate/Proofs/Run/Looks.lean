import LintGate.Proofs.FileTree.View
import LintGate.Proofs.Process.Interleaving
import LintGate.Proofs.Selection
import LintGate.Proofs.Tool.Programs
import LintGate.Run

/-!
# What the look at a language sees

The look at a language asks about the files that the language claims and about the places where its
tools may be installed. No language claims the name of a tool, so nothing that it asks about can
belong to another language.
-/

namespace LintGate

/-! ## What belongs to a language -/

namespace Language

/-- No other of these languages claims the path. -/
def MaySee (languages : List Language) (l : Language) (p : Path) : Prop :=
  ∀ other ∈ languages, other ≠ l → other.profile.claimsPath p = false

/-- The trees differ at most where another of these languages claims the path. -/
def SeesSame (languages : List Language) (l : Language) (t u : FileTree) : Prop :=
  ∀ p, l.MaySee languages p → FileTree.SameAt p t u

variable {languages : List Language} {l : Language}

theorem seesSame_equivalence (languages : List Language) (l : Language) :
    Equivalence (l.SeesSame languages) where
  refl := fun t p _ => .refl p t
  symm := fun same p maySee => (same p maySee).symm
  trans := fun first second p maySee => (first p maySee).trans (second p maySee)

theorem maySee_of_claimsPath {p : Path} (claimed : l.profile.claimsPath p = true) :
    l.MaySee languages p := by
  intro other _ differs
  rw [Bool.eq_false_iff]
  intro claimed'
  obtain ⟨name, named, claims⟩ := Profile.claimsPath_iff.mp claimed
  obtain ⟨name', named', claims'⟩ := Profile.claimsPath_iff.mp claimed'
  cases named.symm.trans named'
  exact differs (Language.eq_of_claims claims' claims)

theorem maySee_of_fileName? {p : Path} {name : String} (named : p.fileName? = some name)
    (unclaimed : ∀ other : Language, other.profile.claims (Text.lossy name) = false) :
    l.MaySee languages p := by
  intro other _ _
  rw [Profile.claimsPath, Path.shownName?, named]
  exact unclaimed other

/-- The trees are the same where the language claims the path. -/
def ClaimsSame (l : Language) (t u : FileTree) : Prop :=
  ∀ p, l.profile.claimsPath p = true → FileTree.SameAt p t u

/-- A file that the language claims is the same wherever it is taken from. -/
theorem ClaimsSame.join {root file : Path} {t u : FileTree} (same : l.ClaimsSame t u)
    (claimed : l.profile.claimsPath file = true) : FileTree.SameAt (root.join file) t u := by
  obtain ⟨name, named, claims⟩ := Profile.claimsPath_iff.mp claimed
  apply same
  exact Profile.claimsPath_iff.mpr ⟨name, Path.shownName?_join named, claims⟩

end Language

/-- The trees are the same at all paths that end with one of these names. -/
def FileTree.SameNamed (names : List String) (t u : FileTree) : Prop :=
  ∀ {name p}, name ∈ names → Path.fileName? p = some name → SameAt p t u

theorem FileTree.SameNamed.subset {names fewer : List String} {t u : FileTree}
    (same : SameNamed names t u) (among : ∀ name ∈ fewer, name ∈ names) : SameNamed fewer t u :=
  fun member named => same (among _ member) named

/-! ## Jobs that start programs only -/

section Stage

variable {same : FileTree → FileTree → Prop} (s : Stage)

theorem Stage.repair_looksOnly (invocations : List Invocation) :
    (s.repair invocations).LooksOnly same := by
  induction invocations with
  | nil => exact .done _
  | cons inv rest ih =>
      refine .run fun outcome => ?_
      split
      · exact .done _
      · exact ih

theorem Stage.checkWithout_looksOnly (invocations : List Invocation) (tally : Tally) :
    (s.checkWithout invocations tally).LooksOnly same := by
  induction invocations generalizing tally with
  | nil => exact .done _
  | cons inv rest ih =>
      refine .run fun outcome => ?_
      cases s.evaluate inv outcome with
      | timedOut message => exact .done _
      | clean | violation | configError | broken => exact ih _

theorem Stage.checkWith_looksOnly (invocations : List Invocation) (tally : Tally) :
    (s.checkWith invocations tally).LooksOnly same := by
  induction invocations generalizing tally with
  | nil => exact .done _
  | cons inv rest ih =>
      refine .run fun outcome => ?_
      cases s.evaluate inv outcome with
      | timedOut message => exact .done _
      | configError output =>
          refine (s.checkWithout_looksOnly _ _).andThen fun _ ended _ => ?_
          obtain ⟨tally, goesOn⟩ := ended
          cases goesOn with
          | true => exact ih _
          | false => exact .done _
      | clean | violation | broken => exact ih _

theorem Stage.verify_looksOnly (withoutConfig : Bool) :
    (s.verify withoutConfig).LooksOnly same := by
  rw [Stage.verify]
  split
  · exact (s.checkWithout_looksOnly _ _).andThen fun _ _ _ => .done _
  · exact (s.checkWith_looksOnly _ _).andThen fun _ _ _ => .done _

theorem Stage.perform_looksOnly : s.perform.LooksOnly same := by
  rw [Stage.perform]
  split
  · exact s.verify_looksOnly false
  · refine (s.repair_looksOnly _).andThen fun _ first _ => ?_
    cases first with
    | finished => exact s.verify_looksOnly false
    | failed message => exact .done _
    | configError =>
        refine (s.repair_looksOnly _).andThen fun _ second _ => ?_
        cases second with
        | failed message => exact .done _
        | finished | configError => exact s.verify_looksOnly true

theorem Binding.verify_looksOnly (b : Binding) (files : List Path) (options : StageOptions) :
    (b.verify files options).LooksOnly same := by
  rw [Binding.verify]
  split
  · exact .done _
  · split
    · exact .done _
    · exact Stage.perform_looksOnly _

theorem CustomCheck.perform_looksOnly (check : CustomCheck) (root : Path) (profile : String)
    (files : List Path) (thresholds : Thresholds) :
    (check.perform root profile files thresholds).LooksOnly same := by
  rw [CustomCheck.perform, CustomCheck.performWithin]
  split
  · exact .done _
  · exact .run fun outcome => .done _

end Stage

/-! ## Jobs that look at files -/

section Files

variable {l : Language}

theorem FileTree.findProgram?_eq {names : List String} {program searchPath : String} {root : Path}
    {t u : FileTree} (plain : Path.components program = [.name program]) (member : program ∈ names)
    (same : SameNamed names t u) :
    t.findProgram? searchPath root program = u.findProgram? searchPath root program := by
  rw [findProgram?, findProgram?, ← List.head?_filter, ← List.head?_filter]
  congr 1
  apply List.filter_congr
  intro place among
  apply SameAt.isProgram_eq
  exact same member (fileName?_of_mem_programPlaces plain among)

theorem Resolver.programs?_eq (r : Resolver) {name : String} {tool : Tool} {t u : FileTree}
    (known : Tool.ofName? name = some tool) (same : FileTree.SameNamed tool.programNames t u) :
    r.programs? t tool = r.programs? u tool := by
  have found {program : String} (member : program ∈ tool.programNames) :
      t.findProgram? r.searchPath r.root program = u.findProgram? r.searchPath r.root program :=
    FileTree.findProgram?_eq (Tool.programNames_unclaimed known member).1 member same
  rw [programs?, programs?, found List.mem_cons_self]
  congr 1
  funext binary
  cases launcher : tool.launcher with
  | none => rfl
  | some launcher =>
      dsimp only
      rw [found (by simp [Tool.programNames, launcher])]

theorem Resolver.findTool_looksOnly (r : Resolver) {name : String} {tool : Tool}
    (known : Tool.ofName? name = some tool) :
    (r.findTool tool).LooksOnly (FileTree.SameNamed tool.programNames) := by
  apply Job.LooksOnly.look
  · intro t u same
    rw [r.programs?_eq known same]
  · intro t
    split
    · exact .done _
    · split
      · exact .run fun outcome => .done _
      · exact .done _

theorem Resolver.findFirst_looksOnly (r : Resolver) (candidates : List String) :
    (r.findFirst candidates).LooksOnly (FileTree.SameNamed (Tool.programsOf candidates)) := by
  induction candidates with
  | nil => exact .done _
  | cons name more ih =>
      have later : (r.findFirst more).LooksOnly
          (FileTree.SameNamed (Tool.programsOf (name :: more))) := by
        apply ih.mono
        intro t u same
        apply same.subset
        intro program member
        obtain ⟨other, among, ofTool⟩ := Tool.mem_programsOf.mp member
        exact Tool.mem_programsOf.mpr ⟨other, List.mem_cons_of_mem _ among, ofTool⟩
      rw [findFirst]
      split
      case h_1 => exact later
      case h_2 tool known =>
        have first : (r.findTool tool).LooksOnly
            (FileTree.SameNamed (Tool.programsOf (name :: more))) := by
          apply (r.findTool_looksOnly known).mono
          intro t u same
          apply same.subset
          intro program member
          exact Tool.mem_programsOf.mpr ⟨name, List.mem_cons_self, tool, known, member⟩
        refine first.andThen fun _ found _ => ?_
        cases found with
        | none => exact later
        | some installed => exact .done _

theorem Settings.performSizeCheck_looksOnly (s : Settings) {files : List Path}
    (claimed : ∀ file ∈ files, l.profile.claimsPath file = true) :
    (s.performSizeCheck l files).LooksOnly l.ClaimsSame := by
  rw [performSizeCheck]
  split
  · exact .done _
  · refine Job.LooksOnly.andThen (.each fun file member => .seen ?_) fun _ _ _ => .done _
    intro t u same
    have shown : FileTree.SameAt (s.root.join file) t u := same.join (claimed file member)
    rw [shown.sizeIn_eq]

namespace RunContext

variable (c : RunContext)

theorem keeps_looksOnly (file : Path) : (c.keeps l file).LooksOnly l.ClaimsSame := by
  rw [keeps]
  split
  case isFalse => exact .done _
  case isTrue wanted =>
    have claimed : l.profile.claimsPath file = true := (Bool.and_eq_true_iff.mp wanted).1
    apply Job.LooksOnly.look
    · intro t u same
      rw [(same.join claimed).isFile_eq]
    · intro t
      split
      · refine .seen fun t u same => ?_
        rw [(same.join claimed).optsOut_eq]
      · exact .done _

/-- The names of the programs of the tools that may serve the language. -/
def toolPrograms (l : Language) : List String :=
  Tool.programsOf ((c.candidateOrders l).1 ++ (c.candidateOrders l).2)

/-- The look at a language asks about this path only if the language claims it or if it has the name
of a program of a tool. -/
def AsksAbout (l : Language) (p : Path) : Prop :=
  l.profile.claimsPath p = true ∨ ∃ name ∈ c.toolPrograms l, p.fileName? = some name

/-- Whatever the look at a language asks about is the same. -/
def AsksSame (l : Language) (t u : FileTree) : Prop :=
  ∀ p, c.AsksAbout l p → FileTree.SameAt p t u

variable {c}

theorem AsksSame.claimsSame {t u : FileTree} (same : c.AsksSame l t u) : l.ClaimsSame t u :=
  fun p claimed => same p (.inl claimed)

theorem AsksSame.sameNamed {t u : FileTree} {names : List String} (same : c.AsksSame l t u)
    (among : ∀ name ∈ names, name ∈ c.toolPrograms l) : FileTree.SameNamed names t u :=
  fun member named => same _ (.inr ⟨_, among _ member, named⟩)

/-- What the look at a language asks about, no other language claims. -/
theorem maySee_of_asksAbout {languages : List Language} {p : Path} (asked : c.AsksAbout l p) :
    l.MaySee languages p := by
  rcases asked with claimed | ⟨program, member, named⟩
  · exact Language.maySee_of_claimsPath claimed
  · obtain ⟨name, _, tool, known, ofTool⟩ := Tool.mem_programsOf.mp member
    exact Language.maySee_of_fileName? named (Tool.programNames_unclaimed known ofTool).2

variable (c)

theorem selecting_looksOnly : (c.selecting l).LooksOnly (c.AsksSame l) :=
  .keep fun file _ => (c.keeps_looksOnly file).mono fun _ _ same => same.claimsSame

theorem bindings_looksOnly : (c.bindings l).LooksOnly (c.AsksSame l) := by
  have bound (role : Role) {candidates : List String}
      (among : ∀ name ∈ Tool.programsOf candidates, name ∈ c.toolPrograms l) :
      (c.resolver.bind role candidates).LooksOnly (c.AsksSame l) := by
    refine Job.LooksOnly.andThen ?_ fun _ _ _ => .done _
    exact (c.resolver.findFirst_looksOnly candidates).mono fun _ _ same => same.sameNamed among
  refine (bound .formatter ?_).andThen fun _ formatter _ => ?_
  · intro name member
    exact Tool.mem_programsOf_append.mpr (.inl member)
  · refine (bound .linter ?_).andThen fun _ linter _ => .done _
    intro name member
    exact Tool.mem_programsOf_append.mpr (.inr member)

/-- A file that a language keeps is one that it claims. -/
theorem claimsPath_of_keeps {file : Path} {history : History}
    (ends : (c.keeps l file).EndsWith history true) : l.profile.claimsPath file = true := by
  rw [keeps] at ends
  split at ends
  case isTrue wanted => exact (Bool.and_eq_true_iff.mp wanted).1
  case isFalse => cases ends

theorem performStages_looksOnly {files : List Path}
    (claimed : ∀ file ∈ files, l.profile.claimsPath file = true) :
    (c.performStages l files).LooksOnly (c.AsksSame l) := by
  refine c.bindings_looksOnly.andThen fun _ bound _ => ?_
  refine (bound.1.verify_looksOnly files (c.stageOptions l)).andThen fun _ formatted _ => ?_
  refine (bound.2.verify_looksOnly files (c.stageOptions l)).andThen fun _ linted _ => ?_
  have checks : (c.settings.performChecks l files).LooksOnly (c.AsksSame l) := by
    rw [Settings.performChecks]
    split
    · exact .done _
    · have sizes := (c.settings.performSizeCheck_looksOnly claimed).mono
        fun t u (same : c.AsksSame l t u) => same.claimsSame
      refine sizes.andThen fun _ size _ => ?_
      refine Job.LooksOnly.andThen (.each fun check _ => ?_) fun _ found _ => .done _
      exact check.perform_looksOnly _ _ _ _
  exact checks.andThen fun _ checked _ => .done _

/-- The look at a language asks about nothing but its own files and the programs of its tools. -/
theorem performLanguage_asksOnly (l : Language) :
    (c.performLanguage l).LooksOnly (c.AsksSame l) := by
  refine c.selecting_looksOnly.andThen fun _ files ends => ?_
  split
  · exact .done _
  · apply c.performStages_looksOnly
    intro file member
    obtain ⟨_, kept⟩ := Job.exists_history_of_mem_keep ends member
    exact c.claimsPath_of_keeps kept

/-- The look at a language depends on files of other languages in no way. -/
theorem performLanguage_looksOnly {languages : List Language} (l : Language) :
    (c.performLanguage l).LooksOnly (l.SeesSame languages) := by
  apply (c.performLanguage_asksOnly l).mono
  intro t u same p asked
  exact same p (maySee_of_asksAbout asked)

end RunContext

end Files

end LintGate
