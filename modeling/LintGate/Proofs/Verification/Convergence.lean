import LintGate.Proofs.FileTree.Rewriting
import LintGate.Proofs.Verification.Phases
import LintGate.Proofs.Verification.Targets

/-!
# Convergence of formatting

A formatter that changes no file a second time leaves nothing to a second look at the same files:
the tree stays as the first look left it, and the verdict is the same. The tree may not let the
formatter load its configuration; both looks then do without it, or both cannot do anything. The
verdict is clean when the checks find fault only with files that a repair would change.
-/

namespace LintGate

/-! ## Jobs that change nothing -/

/-- Where no program that a job may run changes anything, the job does not either. -/
theorem Job.perform_snd_eq {α σ : Type} {h : Host σ} {state : σ} {job : Job α}
    (still : ∀ launch, job.MayRun launch → (h.run state launch).2 = state) :
    (job.perform h state).2 = state := by
  induction job with
  | done answer => rfl
  | run launch next ih =>
      rw [perform_run, still launch (mayRun_run launch next)]
      exact ih _ fun other runs => still other runs.run
  | look next ih =>
      rw [perform_look]
      exact ih _ fun other runs => still other runs.look

namespace Stage

variable {s : Stage}

def call (s : Stage) (mode extra targets : List String) : Launch :=
  s.launch (s.tool.baseInvocation.withArgs (mode ++ extra ++ targets))

def targets (s : Stage) : List (List String) :=
  targetLists s.tool.tool.targets s.files

/-- The extra arguments that a call may have. -/
def extras (s : Stage) : List (List String) :=
  [[], s.overrideArgs]

theorem nil_mem_extras (s : Stage) : [] ∈ s.extras :=
  List.mem_cons_self

theorem overrideArgs_mem_extras (s : Stage) : s.overrideArgs ∈ s.extras :=
  List.mem_cons_of_mem _ List.mem_cons_self

theorem exists_call_of_mem {args extra : List String} {inv : Invocation}
    (member : inv ∈ s.invocations args extra) :
    ∃ targets ∈ s.targets, s.launch inv = s.call args extra targets := by
  obtain ⟨targets, inside, rfl⟩ := List.mem_map.mp member
  exact ⟨targets, inside, rfl⟩

theorem extraArgs_mem_extras (s : Stage) (mode : Mode) : s.extraArgs mode ∈ s.extras := by
  cases mode with
  | repair | check => exact s.nil_mem_extras
  | repairWithout | checkWithout => exact s.overrideArgs_mem_extras

theorem exists_call_of_verify {withoutConfig : Bool} {launch : Launch}
    (runs : (s.verify withoutConfig).MayRun launch) :
    ∃ extra ∈ s.extras, ∃ targets ∈ s.targets, launch = s.call s.checkArgs extra targets := by
  obtain ⟨history, v, outcome, ends, member⟩ := runs
  have called {a : Attempt} (inPlace : s.InPlace a) (checking : a.isRepair = false) :
      ∃ extra ∈ s.extras, ∃ targets ∈ s.targets,
        s.launch a.invocation = s.call s.checkArgs extra targets := by
    obtain ⟨targets, there, same⟩ := inPlace
    refine ⟨_, s.extraArgs_mem_extras a.mode, targets, List.mem_of_getElem? there, ?_⟩
    rw [same, modeArgs_of_isCheck checking, call]
  cases withoutConfig with
  | true =>
      obtain ⟨attempts, t, goesOn, checks, rfl, -⟩ := verify_true_endsWith_iff.mp ends
      obtain ⟨a, among, same⟩ := List.mem_map.mp member
      cases same
      exact called (checks.inPlace a among) (isRepair_eq_false (.inr (checks.mode_eq a among)))
  | false =>
      obtain ⟨attempts, t, checks, rfl, -⟩ := verify_false_endsWith_iff.mp ends
      obtain ⟨a, among, same⟩ := List.mem_map.mp member
      cases same
      exact called (checks.inPlace List.drop_zero a among)
        (isRepair_eq_false (checks.mode_eq a among))

/-! ## The files of a stage -/

theorem flatten_targets
    (onFiles : s.tool.tool.targets = .files ∨ s.tool.tool.targets = .eachFile) :
    s.targets.flatten = s.files.map Path.asArgument := by
  rw [targets]
  rcases onFiles with together | apart
  · rw [together, targetLists, ← List.map_flatten, flatten_chunks (by decide) (Nat.le_refl _)]
  · rw [apart, targetLists, ← List.flatMap_def, ← List.map_eq_flatMap]

end Stage

/-! ## Formatters -/

/-- What a formatter makes of the files of a tree. -/
structure Formatter where
  /-- Whether the configuration of the project can be loaded. -/
  loads : FileTree → Bool
  configured : FileTree.Rewriting
  /-- What it makes of files without the configuration. -/
  unconfigured : FileTree.Rewriting

namespace Formatter

/-- A call without extra arguments has to load the configuration. -/
def works (f : Formatter) (extra : List String) (t : FileTree) : Bool :=
  f.loads t || !extra.isEmpty

def rewriting (f : Formatter) (extra : List String) : FileTree.Rewriting :=
  if extra.isEmpty then f.configured else f.unconfigured

/-- The tree after a repair of some targets, which are taken from a directory. -/
def repaired (f : Formatter) (dir : Path) (extra targets : List String) (t : FileTree) : FileTree :=
  if f.works extra t then t.rewriteAll (f.rewriting extra) (targets.map (Path.join dir)) else t

/-- How a call ends. The recovery rule of the tool recognises what a call prints that could not load
the configuration, and nothing else. -/
structure Ends (f : Formatter) (s : Stage) (extra : List String) (t : FileTree)
    (outcome : Outcome) :
    Prop where
  byItself : ∃ code output, outcome = .exited code output
  complains : f.works extra t = false → ∃ code output, outcome = .exited (some code) output ∧
    code ≠ 0 ∧ ∀ rule, s.tool.tool.recovery = some rule → rule.recognises output = true
  hides : f.works extra t = true → ∀ code output, outcome = .exited code output →
    ∀ rule, s.tool.tool.recovery = some rule → rule.recognises output = false

/-- What the stage calls on this host is the formatter. Checks leave the tree as it is, and repairs
rewrite their targets. -/
structure Serves (f : Formatter) (s : Stage) (h : Job.Host FileTree) : Prop where
  idempotent : ∀ extra l contents,
    f.rewriting extra l (f.rewriting extra l contents) = f.rewriting extra l contents
  loads_rewrite : ∀ extra, ∀ target ∈ s.targets.flatten, ∀ t,
    f.loads (t.rewrite (f.rewriting extra) (s.options.root.join target)) = f.loads t
  check : ∀ extra ∈ s.extras, ∀ targets ∈ s.targets, ∀ t,
    f.Ends s extra t (h.run t (s.call s.checkArgs extra targets)).1 ∧
      (h.run t (s.call s.checkArgs extra targets)).2 = t
  repair : ∀ fix, s.fixArgs? = some fix → ∀ extra ∈ s.extras, ∀ targets ∈ s.targets, ∀ t,
    f.Ends s extra t (h.run t (s.call fix extra targets)).1 ∧
      (h.run t (s.call fix extra targets)).2 = f.repaired s.options.root extra targets t

/-- A check of targets that a repair would leave as they are ends well, and prints nothing if that
would count against the files. -/
def FaultsOnlyChanges (f : Formatter) (s : Stage) (h : Job.Host FileTree) : Prop :=
  ∀ extra ∈ s.extras, ∀ targets ∈ s.targets, ∀ t, f.works extra t = true →
    (∀ target ∈ targets, t.rewrite (f.rewriting extra) (s.options.root.join target) = t) →
    ∃ output, (h.run t (s.call s.checkArgs extra targets)).1 = .exited (some 0) output ∧
      (s.tool.tool.failsOnOutput = true → Text.allBlank output = true)

variable {f : Formatter} {s : Stage} {h : Job.Host FileTree} {extra : List String} {t : FileTree}

/-! ## One repair -/

theorem Ends.showsConfigError_eq {code : Option Nat} {output : String}
    (ends : f.Ends s extra t (.exited code output))
    (hidden : f.works extra t = true ∨ s.tool.tool.recovery = none) :
    s.showsConfigError output = false := by
  rw [Stage.showsConfigError]
  cases found : s.tool.tool.recovery with
  | none => rfl
  | some rule =>
      rcases hidden with works | without
      · exact ends.hides works code output rfl rule found
      · cases found.symm.trans without

theorem Ends.repairResult?_eq_none {outcome : Outcome} (ends : f.Ends s extra t outcome)
    (hidden : f.works extra t = true ∨ s.tool.tool.recovery = none) (inv : Invocation) :
    s.repairResult? inv outcome = none := by
  obtain ⟨code, output, rfl⟩ := ends.byItself
  cases code with
  | none => rfl
  | some code => simp [Stage.repairResult?, ends.showsConfigError_eq hidden]

theorem Ends.repairResult?_eq_configError {outcome : Outcome} (ends : f.Ends s extra t outcome)
    (fails : f.works extra t = false) {rule : RecoveryRule}
    (found : s.tool.tool.recovery = some rule) (inv : Invocation) :
    s.repairResult? inv outcome = some .configError := by
  obtain ⟨code, output, rfl, nonzero, shown⟩ := ends.complains fails
  simp [Stage.repairResult?, Stage.showsConfigError, found, nonzero, shown rule found]

namespace Serves

variable (serves : f.Serves s h)

include serves

theorem loads_repaired {targets : List String}
    (own : ∀ target ∈ targets, target ∈ s.targets.flatten) (extra : List String) (t : FileTree) :
    f.loads (f.repaired s.options.root extra targets t) = f.loads t := by
  rw [repaired]
  split
  case isFalse => rfl
  case isTrue works =>
    clear works
    induction targets generalizing t with
    | nil => rfl
    | cons target targets ih =>
        rw [List.forall_mem_cons] at own
        exact (ih own.2 _).trans (serves.loads_rewrite extra target own.1 t)

theorem works_repaired {targets : List String}
    (own : ∀ target ∈ targets, target ∈ s.targets.flatten) (extra other : List String)
    (t : FileTree) :
    f.works other (f.repaired s.options.root extra targets t) = f.works other t := by
  rw [works, serves.loads_repaired own, works]

theorem repaired_append {front : List String}
    (own : ∀ target ∈ front, target ∈ s.targets.flatten) (extra back : List String)
    (t : FileTree) :
    f.repaired s.options.root extra (front ++ back) t =
      f.repaired s.options.root extra back (f.repaired s.options.root extra front t) := by
  rw [repaired, repaired, serves.works_repaired own]
  split
  case isTrue works => rw [repaired, if_pos works, List.map_append, FileTree.rewriteAll_append]
  case isFalse fails => rw [repaired, if_neg fails]

theorem repaired_repaired (wellFormed : t.root.WellFormed) (extra : List String) :
    f.repaired s.options.root extra s.targets.flatten
        (f.repaired s.options.root extra s.targets.flatten t) =
      f.repaired s.options.root extra s.targets.flatten t := by
  rw [repaired, serves.works_repaired fun _ member => member]
  split
  case isTrue works =>
    rw [repaired, if_pos works]
    exact FileTree.rewriteAll_rewriteAll wellFormed (serves.idempotent extra) _
  case isFalse => rfl

/-! ## A pass of repairs -/

variable {fix : List String} {lists : List (List String)}

/-- Repairs that no recovery rule stops come to all targets. -/
theorem repair_perform (fixes : s.fixArgs? = some fix) (possible : extra ∈ s.extras)
    (own : ∀ targets ∈ lists, targets ∈ s.targets)
    (hidden : f.works extra t = true ∨ s.tool.tool.recovery = none) :
    (s.repair (lists.map fun targets =>
        s.tool.baseInvocation.withArgs (fix ++ extra ++ targets))).perform h t =
      (.finished, f.repaired s.options.root extra lists.flatten t) := by
  induction lists generalizing t with
  | nil => simp [Stage.repair, repaired, FileTree.rewriteAll]
  | cons targets lists ih =>
      rw [List.forall_mem_cons] at own
      obtain ⟨ends, after⟩ := serves.repair fix fixes extra possible targets own.1 t
      rw [Stage.call] at ends after
      rw [List.map_cons, Stage.repair, Job.perform_run, ends.repairResult?_eq_none hidden, after]
      have inside : ∀ target ∈ targets, target ∈ s.targets.flatten :=
        fun _ member => List.mem_flatten_of_mem own.1 member
      -- The repair does not change whether the configuration can be loaded.
      rw [← serves.works_repaired inside extra] at hidden
      rw [ih own.2 hidden, List.flatten_cons, serves.repaired_append inside]

/-- The first repair that cannot load the configuration stops all others. -/
theorem repair_perform_of_fails (fixes : s.fixArgs? = some fix) (possible : extra ∈ s.extras)
    (nonempty : s.files ≠ []) (fails : f.works extra t = false) {rule : RecoveryRule}
    (found : s.tool.tool.recovery = some rule) :
    (s.repair (s.invocations fix extra)).perform h t = (.configError, t) := by
  obtain ⟨first, rest, invocations⟩ :=
    List.exists_cons_of_ne_nil (Stage.invocations_ne_nil nonempty fix extra)
  obtain ⟨targets, member, same⟩ := Stage.exists_call_of_mem
    (invocations ▸ List.mem_cons_self : first ∈ s.invocations fix extra)
  obtain ⟨ends, after⟩ := serves.repair fix fixes extra possible targets member t
  rw [invocations, Stage.repair, Job.perform_run, same,
    ends.repairResult?_eq_configError fails found, after, repaired, fails]
  rfl

/-! ## The whole stage -/

theorem verify_perform_snd (withoutConfig : Bool) (t : FileTree) :
    ((s.verify withoutConfig).perform h t).2 = t := by
  apply Job.perform_snd_eq
  intro launch runs
  obtain ⟨extra, possible, targets, member, rfl⟩ := Stage.exists_call_of_verify runs
  exact (serves.check extra possible targets member t).2

end Serves

def bypasses (f : Formatter) (s : Stage) (t : FileTree) : Bool :=
  !f.loads t && s.tool.tool.recovery.isSome

/-- The extra arguments with which the stage goes about its checks. -/
def lastExtra (f : Formatter) (s : Stage) (t : FileTree) : List String :=
  if f.bypasses s t then s.overrideArgs else []

/-- A stage that repairs does so with the configuration or without it, and checks likewise. -/
theorem Serves.perform_eq (serves : f.Serves s h) (nonempty : s.files ≠ []) {fix : List String}
    (fixes : s.fixArgs? = some fix) (t : FileTree) :
    s.perform.perform h t = (s.verify (f.bypasses s t)).perform h
      (f.repaired s.options.root (f.lastExtra s t) s.targets.flatten t) := by
  have own : ∀ targets ∈ s.targets, targets ∈ s.targets := fun _ member => member
  rw [Stage.perform, fixes, Job.perform_andThen, lastExtra]
  cases bypassed : f.bypasses s t with
  | false =>
      have hidden : f.works [] t = true ∨ s.tool.tool.recovery = none := by
        cases loads : f.loads t with
        | true => exact .inl (by simp [works, loads])
        | false => exact .inr (by simpa [bypasses, loads] using bypassed)
      have first := serves.repair_perform fixes s.nil_mem_extras own hidden
      rw [Stage.invocations, ← Stage.targets, first]
      rfl
  | true =>
      rw [bypasses, Bool.and_eq_true, Bool.not_eq_true', Option.isSome_iff_exists] at bypassed
      obtain ⟨fails, rule, found⟩ := bypassed
      have stops : f.works [] t = false := by simp [works, fails]
      -- The first pass stops at once, and the second one goes without the configuration.
      have first := serves.repair_perform_of_fails fixes s.nil_mem_extras nonempty stops found
      rw [first, Job.perform_andThen, if_pos rfl]
      cases works : f.works s.overrideArgs t with
      | true =>
          have second := serves.repair_perform fixes s.overrideArgs_mem_extras own (.inl works)
          rw [Stage.invocations, ← Stage.targets, second]
      | false =>
          have second := serves.repair_perform_of_fails fixes s.overrideArgs_mem_extras nonempty
            works found
          rw [second, repaired, works]
          rfl

theorem Serves.bypasses_repaired (serves : f.Serves s h) (extra : List String) (t : FileTree) :
    f.bypasses s (f.repaired s.options.root extra s.targets.flatten t) = f.bypasses s t := by
  rw [bypasses, serves.loads_repaired fun _ member => member, bypasses]

theorem Serves.lastExtra_repaired (serves : f.Serves s h) (extra : List String) (t : FileTree) :
    f.lastExtra s (f.repaired s.options.root extra s.targets.flatten t) = f.lastExtra s t := by
  rw [lastExtra, serves.bypasses_repaired, lastExtra]

/-- A second time nothing changes any more. -/
theorem Serves.perform_perform (serves : f.Serves s h) (nonempty : s.files ≠ [])
    (wellFormed : t.root.WellFormed) :
    s.perform.perform h (s.perform.perform h t).2 = s.perform.perform h t := by
  cases fixes : s.fixArgs? with
  | none =>
      have same : s.perform = s.verify false := by simp [Stage.perform, fixes]
      rw [same, serves.verify_perform_snd]
  | some fix =>
      rw [serves.perform_eq nonempty fixes t, serves.verify_perform_snd,
        serves.perform_eq nonempty fixes, serves.lastExtra_repaired, serves.bypasses_repaired,
        serves.repaired_repaired wellFormed]

/-! ## Clean verdicts -/

/-- With these extra arguments a repair of the stage leaves the tree as it is. -/
def Finished (f : Formatter) (s : Stage) (extra : List String) (t : FileTree) : Prop :=
  f.works extra t = true ∧ ∀ target ∈ s.targets.flatten,
    t.rewrite (f.rewriting extra) (s.options.root.join target) = t

/-- A check of finished files finds no fault. -/
theorem FaultsOnlyChanges.evaluate_eq (faults : f.FaultsOnlyChanges s h)
    (possible : extra ∈ s.extras)
    (finished : f.Finished s extra t) {targets : List String} (member : targets ∈ s.targets) :
    s.evaluate (s.tool.baseInvocation.withArgs (s.checkArgs ++ extra ++ targets))
      (h.run t (s.call s.checkArgs extra targets)).1 = .clean := by
  obtain ⟨works, still⟩ := finished
  obtain ⟨output, ended, blank⟩ := faults extra possible targets member t works
    fun target inside => still target (List.mem_flatten_of_mem member inside)
  rw [ended, Stage.evaluate, if_pos rfl]
  cases printing : s.tool.tool.failsOnOutput with
  | true => simp [blank printing]
  | false => simp

namespace Serves

variable (serves : f.Serves s h) (faults : f.FaultsOnlyChanges s h) {lists : List (List String)}

include serves faults

theorem checkWith_perform (finished : f.Finished s [] t)
    (own : ∀ targets ∈ lists, targets ∈ s.targets) (tally : Tally) :
    (s.checkWith (lists.map fun targets =>
        s.tool.baseInvocation.withArgs (s.checkArgs ++ [] ++ targets)) tally).perform h t =
      (tally, t) := by
  induction lists with
  | nil => rfl
  | cons targets lists ih =>
      rw [List.forall_mem_cons] at own
      have clean := faults.evaluate_eq s.nil_mem_extras finished own.1
      have after := (serves.check [] s.nil_mem_extras targets own.1 t).2
      rw [Stage.call] at clean after
      rw [List.map_cons, Stage.checkWith, Job.perform_run, after, clean]
      exact ih own.2

theorem checkWithout_perform (finished : f.Finished s s.overrideArgs t)
    (own : ∀ targets ∈ lists, targets ∈ s.targets) (tally : Tally) :
    (s.checkWithout (lists.map fun targets =>
        s.tool.baseInvocation.withArgs (s.checkArgs ++ s.overrideArgs ++ targets)) tally).perform h
          t = ((tally, true), t) := by
  induction lists with
  | nil => rfl
  | cons targets lists ih =>
      rw [List.forall_mem_cons] at own
      have clean := faults.evaluate_eq s.overrideArgs_mem_extras finished own.1
      have after := (serves.check s.overrideArgs s.overrideArgs_mem_extras targets own.1 t).2
      rw [Stage.call] at clean after
      rw [List.map_cons, Stage.checkWithout, Job.perform_run, after, clean]
      exact ih own.2

theorem verify_perform_fst {withoutConfig : Bool}
    (finished : f.Finished s (if withoutConfig then s.overrideArgs else []) t) :
    ((s.verify withoutConfig).perform h t).1 = .clean := by
  have own : ∀ targets ∈ s.targets, targets ∈ s.targets := fun _ member => member
  have empty : s.verdict {} = .clean := Stage.verdict_eq_clean_iff.mpr rfl
  cases withoutConfig with
  | true =>
      rw [Stage.verify, if_pos rfl, Job.perform_andThen, Stage.recoveryInvocations,
        Stage.invocations, ← Stage.targets, serves.checkWithout_perform faults finished own]
      exact empty
  | false =>
      rw [Stage.verify, if_neg Bool.false_ne_true, Job.perform_andThen, Stage.invocations,
        ← Stage.targets, serves.checkWith_perform faults finished own]
      exact empty

end Serves

/-- Only a recovery rule has arguments that make the tool do without the configuration. -/
theorem isSome_of_overrideArgs (some_args : s.overrideArgs ≠ []) :
    s.tool.tool.recovery.isSome = true := by
  cases found : s.tool.tool.recovery with
  | none => simp [Stage.overrideArgs, found] at some_args
  | some rule => rfl

theorem lastExtra_of_loads (loads : f.loads t = true) : f.lastExtra s t = [] := by
  simp [lastExtra, bypasses, loads]

theorem lastExtra_of_fails (fails : f.loads t = false) : f.lastExtra s t = s.overrideArgs := by
  rw [lastExtra, bypasses, fails]
  by_cases some_args : s.overrideArgs = []
  · rw [some_args, ite_self]
  · rw [isSome_of_overrideArgs some_args]
    rfl

theorem works_lastExtra_iff :
    f.works (f.lastExtra s t) t = true ↔ f.loads t = true ∨ s.overrideArgs ≠ [] := by
  cases loads : f.loads t with
  | true => simp [works, loads]
  | false => simp [works, loads, lastExtra_of_fails loads]

/-- What the repairs of a stage make of the tree. -/
theorem repaired_lastExtra (dir : Path) (targets : List String) :
    f.repaired dir (f.lastExtra s t) targets t =
      if f.loads t then t.rewriteAll f.configured (targets.map (Path.join dir))
      else if s.overrideArgs = [] then t
      else t.rewriteAll f.unconfigured (targets.map (Path.join dir)) := by
  cases loads : f.loads t with
  | true => simp [repaired, works, rewriting, loads, lastExtra_of_loads loads]
  | false =>
      by_cases some_args : s.overrideArgs = []
      · simp [repaired, works, loads, lastExtra_of_fails loads, some_args]
      · simp [repaired, works, rewriting, loads, lastExtra_of_fails loads, some_args]

theorem Serves.finished_repaired (serves : f.Serves s h) (wellFormed : t.root.WellFormed)
    (able : f.loads t = true ∨ s.overrideArgs ≠ []) :
    f.Finished s (f.lastExtra s t)
      (f.repaired s.options.root (f.lastExtra s t) s.targets.flatten t) := by
  have works := works_lastExtra_iff.mpr able
  refine ⟨by rwa [serves.works_repaired fun _ member => member], fun target member => ?_⟩
  rw [repaired, if_pos works]
  exact FileTree.rewrite_eq_self (FileTree.wellFormed_rewriteAll wellFormed _)
    (FileTree.settled_rewriteAll (serves.idempotent _) (List.mem_map_of_mem member))

theorem Serves.perform_fst_eq (serves : f.Serves s h) (faults : f.FaultsOnlyChanges s h)
    (nonempty : s.files ≠ []) (wellFormed : t.root.WellFormed) {fix : List String}
    (fixes : s.fixArgs? = some fix) (able : f.loads t = true ∨ s.overrideArgs ≠ []) :
    (s.perform.perform h t).1 = .clean := by
  rw [serves.perform_eq nonempty fixes]
  exact serves.verify_perform_fst faults (serves.finished_repaired wellFormed able)

end Formatter

/-- What a formatter leaves behind it leaves behind again, with the same verdict. A formatter that
repairs files has rewritten each of them, with its configuration or else without it, unless it can
do neither. The verdict is clean if it can do either, and if its checks find fault only with what a
repair would change. -/
theorem Binding.verify_converges (b : Binding) (files : List Path) (options : StageOptions)
    (f : Formatter) (h : Job.Host FileTree) {t : FileTree} (wellFormed : t.root.WellFormed)
    (serves : ∀ tool, b.installed = some tool → f.Serves ⟨tool, b.role, files, options⟩ h) :
    let first := (b.verify files options).perform h t
    (b.verify files options).perform h first.2 = first ∧
    ∀ tool fix, b.installed = some tool → b.role = .formatter → tool.tool.fix = some fix →
      let s : Stage := ⟨tool, b.role, files, options⟩
      (tool.tool.targets = .files ∨ tool.tool.targets = .eachFile →
        let targets := files.map fun file => options.root.join file.asArgument
        first.2 = if f.loads t then t.rewriteAll f.configured targets
          else if s.overrideArgs = [] then t
          else t.rewriteAll f.unconfigured targets) ∧
      (f.loads t = true ∨ s.overrideArgs ≠ [] → f.FaultsOnlyChanges s h → first.1 = .clean) := by
  intro first
  cases bound : b.installed with
  | none =>
      have nothing : b.verify files options = .done .clean := by rw [Binding.verify, bound]
      refine ⟨?_, fun tool fix installed => by cases installed⟩
      simp [first, nothing]
  | some tool =>
      have serves := serves tool bound
      by_cases empty : files = []
      · subst empty
        have nothing : b.verify [] options = .done .clean := by simp [Binding.verify, bound]
        refine ⟨by simp [first, nothing], fun other fix _ _ _ => ⟨fun _ => ?_, fun _ _ => ?_⟩⟩
        · simp [first, nothing, FileTree.rewriteAll]
        · simp [first, nothing]
      · have stage : b.verify files options = (⟨tool, b.role, files, options⟩ : Stage).perform := by
          simp [Binding.verify, bound, empty]
        refine ⟨?_, ?_⟩
        · simp only [first, stage]
          exact serves.perform_perform empty wellFormed
        · intro other fix installed formatter fixes s
          cases installed
          have fixes : s.fixArgs? = some fix := Stage.fixArgs?_eq_some_iff.mpr ⟨formatter, fixes⟩
          refine ⟨fun onFiles => ?_, fun able faults => ?_⟩
          · have after :
                first.2 = f.repaired options.root (f.lastExtra s t) s.targets.flatten t := by
              simp only [first, stage]
              rw [serves.perform_eq empty fixes, serves.verify_perform_snd]
            rw [after, Stage.flatten_targets onFiles, Formatter.repaired_lastExtra, List.map_map,
              Function.comp_def]
          · simp only [first, stage]
            exact serves.perform_fst_eq faults empty wellFormed fixes able

section Tabs

/-- A formatter that takes tabs out of files, and blanks too when it may not load the configuration.
It stumbles over a certain file. -/
def tabFormatter : Formatter where
  loads t := !t.exists? "/w/ruff.toml"
  configured _ contents := contents.filter (· ≠ 9)
  unconfigured _ contents := contents.filter fun b => b ≠ 9 ∧ b ≠ 32

/-- A host on which each program is this formatter, called for one file. -/
def tabHost : Job.Host FileTree where
  tree := id
  run t launch :=
    let extra := launch.invocation.args.filter (· = "--isolated")
    if tabFormatter.works extra t then
      if launch.invocation.args.contains "--check" then
        match t.resolve "/w/a.py" with
        | .ok (.present l (.file contents _)) =>
          if tabFormatter.rewriting extra l contents = contents then (.exited (some 0) "", t)
          else (.exited (some 1) "a.py", t)
        | _ => (.exited (some 0) "", t)
      else (.exited (some 0) "", t.rewrite (tabFormatter.rewriting extra) "/w/a.py")
    else (.exited (some 2) "Failed to parse /w/ruff.toml", t)

/-- A file with a blank and a tab, and further files beside it. -/
def tabTree (others : List (String × Node)) : FileTree where
  root := .dir [("w", .dir (("a.py", .file [120, 32, 9] 0o644) :: others))]

theorem formatStage_targets : formatStage.targets = [["a.py"]] := by decide

theorem formatStage_extras : formatStage.extras = [[], ["--isolated"]] := by decide

theorem tabHost_check (t : FileTree) {extra : List String} (possible : extra ∈ formatStage.extras) :
    tabHost.run t (formatStage.call formatStage.checkArgs extra ["a.py"]) =
      if tabFormatter.works extra t then
        match t.resolve "/w/a.py" with
        | .ok (.present l (.file contents _)) =>
          if tabFormatter.rewriting extra l contents = contents then (.exited (some 0) "", t)
          else (.exited (some 1) "a.py", t)
        | _ => (.exited (some 0) "", t)
      else (.exited (some 2) "Failed to parse /w/ruff.toml", t) := by
  rw [formatStage_extras, List.mem_pair] at possible
  rcases possible with rfl | rfl <;> rfl

theorem tabHost_repair (t : FileTree) {extra : List String}
    (possible : extra ∈ formatStage.extras) :
    tabHost.run t (formatStage.call ["format", "--quiet"] extra ["a.py"]) =
      if tabFormatter.works extra t then
        (.exited (some 0) "", t.rewrite (tabFormatter.rewriting extra) "/w/a.py")
      else (.exited (some 2) "Failed to parse /w/ruff.toml", t) := by
  rw [formatStage_extras, List.mem_pair] at possible
  rcases possible with rfl | rfl <;> rfl

theorem tabFormatter_ends_of_works {extra : List String} {t : FileTree} {code : Nat}
    {output : String} (works : tabFormatter.works extra t = true)
    (plain : formatStage.showsConfigError output = false) :
    tabFormatter.Ends formatStage extra t (.exited (some code) output) where
  byItself := ⟨_, _, rfl⟩
  complains fails := by simp [works] at fails
  hides _ code output same rule found := by
    cases same
    rw [Stage.showsConfigError, found] at plain
    exact plain

theorem tabFormatter_ends_of_fails {extra : List String} {t : FileTree}
    (fails : tabFormatter.works extra t = false) :
    tabFormatter.Ends formatStage extra t (.exited (some 2) "Failed to parse /w/ruff.toml") where
  byItself := ⟨_, _, rfl⟩
  complains _ := by
    refine ⟨2, _, rfl, by decide, fun rule found => ?_⟩
    cases found
    decide
  hides works := by simp [fails] at works

theorem tabFormatter_serves : tabFormatter.Serves formatStage tabHost where
  idempotent extra l contents := by
    rw [Formatter.rewriting]
    split
    · simp [tabFormatter]
    · simp [tabFormatter]
  loads_rewrite extra target _ t := by
    simp only [tabFormatter, FileTree.exists?_rewrite]
  check extra possible targets member t := by
    rw [formatStage_targets, List.mem_singleton] at member
    subst member
    rw [tabHost_check t possible]
    cases works : tabFormatter.works extra t with
    | false => exact ⟨tabFormatter_ends_of_fails works, rfl⟩
    | true =>
        rw [if_pos rfl]
        split
        · split
          · exact ⟨tabFormatter_ends_of_works works (by decide), rfl⟩
          · exact ⟨tabFormatter_ends_of_works works (by decide), rfl⟩
        · exact ⟨tabFormatter_ends_of_works works (by decide), rfl⟩
  repair fix fixes extra possible targets member t := by
    rw [formatStage_targets, List.mem_singleton] at member
    subst member
    have args : fix = ["format", "--quiet"] := by
      have known : formatStage.fixArgs? = some ["format", "--quiet"] := by decide
      exact Option.some.inj (fixes.symm.trans known)
    subst args
    rw [tabHost_repair t possible, Formatter.repaired]
    cases works : tabFormatter.works extra t with
    | false => exact ⟨tabFormatter_ends_of_fails works, rfl⟩
    | true => exact ⟨tabFormatter_ends_of_works works (by decide), rfl⟩

theorem tabFormatter_faultsOnlyChanges : tabFormatter.FaultsOnlyChanges formatStage tabHost := by
  intro extra possible targets member t works still
  rw [formatStage_targets, List.mem_singleton] at member
  subst member
  have settled := FileTree.settled_of_rewrite_eq (still "a.py" List.mem_cons_self)
  have path : Path.join formatStage.options.root "a.py" = "/w/a.py" := by decide
  rw [path] at settled
  refine ⟨"", ?_, fun _ => by decide⟩
  rw [tabHost_check t possible, works, if_pos rfl]
  split
  case h_1 l contents mode found => rw [if_pos (settled l contents mode found)]
  case h_2 => rfl

theorem tabTree_wellFormed {others : List (String × Node)}
    (sorted : (others.map (·.1)).Pairwise (Text.rawBefore · ·))
    (names : ∀ entry ∈ others, Text.rawBefore "a.py" entry.1 = true ∧ IsEntryName entry.1)
    (files : ∀ entry ∈ others, entry.2.WellFormed) : (tabTree others).root.WellFormed := by
  have folder : (Node.dir (("a.py", .file [120, 32, 9] 0o644) :: others)).WellFormed := by
    refine .dir ?_ ?_ ?_
    · rw [List.map_cons, List.pairwise_cons, List.forall_mem_map]
      exact ⟨fun entry member => (names entry member).1, sorted⟩
    · rw [List.forall_mem_cons]
      exact ⟨by decide, fun entry member => (names entry member).2⟩
    · rw [List.forall_mem_cons]
      exact ⟨.file _ _, files⟩
  refine .dir (List.pairwise_singleton _ _) ?_ ?_
  · rw [List.forall_mem_singleton]
    exact (by decide : IsEntryName "w")
  · rw [List.forall_mem_singleton]
    exact folder

def tabLook (t : FileTree) : Verified × FileTree :=
  (formatBinding.verify ["a.py"] formatStage.options).perform tabHost t

/-- A tree with a configuration that cannot be loaded. -/
def stumblingTree : FileTree :=
  tabTree [("ruff.toml", .file [] 0o644)]

theorem Binding.verify_converges_without_tabs :
    formatBinding.installed = some formatStage.tool ∧
      tabFormatter.Serves formatStage tabHost ∧
      tabFormatter.FaultsOnlyChanges formatStage tabHost ∧
      (tabTree []).root.WellFormed ∧ stumblingTree.root.WellFormed ∧
      ((tabLook (tabTree [])).1 = .clean ∧
        (tabLook (tabTree [])).2.read? "/w/a.py" = some [120, 32] ∧
        tabLook (tabLook (tabTree [])).2 = tabLook (tabTree [])) ∧
      (tabLook stumblingTree).1 = .clean ∧
      (tabLook stumblingTree).2.read? "/w/a.py" = some [120] ∧
      tabLook (tabLook stumblingTree).2 = tabLook stumblingTree := by
  have installed : formatBinding.installed = some formatStage.tool := rfl
  have serves : ∀ tool, formatBinding.installed = some tool →
      tabFormatter.Serves ⟨tool, formatBinding.role, ["a.py"], formatStage.options⟩ tabHost := by
    intro tool found
    cases found
    exact tabFormatter_serves
  have able : formatStage.overrideArgs ≠ [] := by decide
  have plain : (tabTree []).root.WellFormed := tabTree_wellFormed .nil (by simp) (by simp)
  have stumbling : stumblingTree.root.WellFormed := by
    refine tabTree_wellFormed (List.pairwise_singleton _ _) ?_ ?_
    · rw [List.forall_mem_singleton]
      exact (by decide : Text.rawBefore "a.py" "ruff.toml" = true ∧ IsEntryName "ruff.toml")
    · rw [List.forall_mem_singleton]
      exact .file _ _
  obtain ⟨again, first⟩ := Binding.verify_converges formatBinding ["a.py"] formatStage.options
    tabFormatter tabHost plain serves
  obtain ⟨-, clean⟩ := first formatStage.tool ["format", "--quiet"] installed rfl rfl
  obtain ⟨again', first'⟩ := Binding.verify_converges formatBinding ["a.py"] formatStage.options
    tabFormatter tabHost stumbling serves
  obtain ⟨-, clean'⟩ := first' formatStage.tool ["format", "--quiet"] installed rfl rfl
  exact ⟨installed, tabFormatter_serves, tabFormatter_faultsOnlyChanges, plain, stumbling,
    ⟨clean (.inr able) tabFormatter_faultsOnlyChanges, by decide +kernel, again⟩,
    clean' (.inr able) tabFormatter_faultsOnlyChanges, by decide +kernel, again'⟩

end Tabs

end LintGate
