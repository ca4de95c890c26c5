import LintGate.Proofs.Run.Looks
import LintGate.Proofs.Verification.Retries

/-!
# Phases of a stage

A stage repairs before it checks, and it repairs only for a formatter that has arguments for it.
`Stage.KeepsPhases` says so, and with which arguments the tool is called. Once a repair could not
load the configuration, all that follows does without it. Repairs that come to their ends without
such a failure leave nothing in the report: there the checks alone decide.
-/

namespace LintGate

/-! ## Histories that agree -/

/-- Where the histories have gone alike and run the same program next, it ends alike. -/
def History.Agree (first second : History) : Prop :=
  ∀ before launch outcome outcome' later later',
    first = before ++ (launch, outcome) :: later →
    second = before ++ (launch, outcome') :: later' → outcome = outcome'

theorem History.Agree.refl (history : History) : Agree history history := by
  intro before launch outcome outcome' later later' cut cut'
  have same := List.append_cancel_left (cut.symm.trans cut')
  cases same
  rfl

theorem History.Agree.tail {entry : Launch × Outcome} {first second : History}
    (agree : Agree (entry :: first) (entry :: second)) : Agree first second := by
  intro before launch outcome outcome' later later' cut cut'
  apply agree (entry :: before) launch outcome outcome' later later'
  · rw [cut, List.cons_append]
  · rw [cut', List.cons_append]

/-- A job that does not mind what it sees is decided by the outcomes of its programs. -/
theorem Job.EndsWith.eq_of_agree {α : Type} {job : Job α} {history history' : History}
    {answer answer' : α} (blind : job.LooksOnly fun _ _ => True)
    (ends : job.EndsWith history answer) (ends' : job.EndsWith history' answer')
    (agree : history.Agree history') : history = history' ∧ answer = answer' := by
  induction blind generalizing history history' with
  | done =>
      obtain ⟨rfl, rfl⟩ := done_endsWith_iff.mp ends
      obtain ⟨rfl, rfl⟩ := done_endsWith_iff.mp ends'
      exact ⟨rfl, rfl⟩
  | run _ ih =>
      obtain ⟨outcome, later, rfl, onward⟩ := run_endsWith_iff.mp ends
      obtain ⟨outcome', later', rfl, onward'⟩ := run_endsWith_iff.mp ends'
      have same : outcome = outcome' := agree [] _ _ _ _ _ rfl rfl
      subst same
      obtain ⟨rfl, rfl⟩ := ih _ onward onward' agree.tail
      exact ⟨rfl, rfl⟩
  | look alike _ ih =>
      obtain ⟨t, onward⟩ := look_endsWith_iff.mp ends
      obtain ⟨u, onward'⟩ := look_endsWith_iff.mp ends'
      rw [alike u t trivial] at onward'
      exact ih t onward onward' agree

namespace Stage

variable {s : Stage} {slot : Nat} {invs : List Invocation} {attempts : List Attempt} {v : Verified}

/-! ## How the tool is called -/

def Attempt.isRepair (a : Attempt) : Bool :=
  a.mode = .repair || a.mode = .repairWithout

theorem isRepair_iff {a : Attempt} :
    a.isRepair = true ↔ a.mode = .repair ∨ a.mode = .repairWithout := by
  simp [Attempt.isRepair]

theorem isRepair_eq_false {a : Attempt} (checking : a.mode = .check ∨ a.mode = .checkWithout) :
    a.isRepair = false := by
  rcases checking with mode | mode <;> simp [Attempt.isRepair, mode]

/-- The arguments of the phase to which attempts of a mode belong. -/
def modeArgs (s : Stage) : Mode → List String
  | .repair | .repairWithout => s.tool.tool.fix.getD []
  | .check | .checkWithout => s.checkArgs

/-- The arguments by which attempts of a mode differ from those that load the configuration. -/
def extraArgs (s : Stage) : Mode → List String
  | .repair | .check => []
  | .repairWithout | .checkWithout => s.overrideArgs

/-- The tool is called with some arguments, then with further ones, and then with one list of its
targets. -/
def CalledWith (s : Stage) (args extra : List String) (a : Attempt) : Prop :=
  ∃ targets ∈ targetLists s.tool.tool.targets s.files,
    a.invocation.program = s.tool.program ∧
      a.invocation.args =
        (s.tool.tool.launcher.map (·.args)).getD [] ++ (args ++ extra ++ targets)

theorem fixArgs?_eq_some_iff {fix : List String} :
    s.fixArgs? = some fix ↔ s.role = .formatter ∧ s.tool.tool.fix = some fix := by
  rw [fixArgs?]
  cases s.role <;> simp

theorem modeArgs_of_repair {mode : Mode} {fix : List String} (fixes : s.fixArgs? = some fix)
    (repairing : mode = .repair ∨ mode = .repairWithout) : s.modeArgs mode = fix := by
  have found := (fixArgs?_eq_some_iff.mp fixes).2
  rcases repairing with rfl | rfl
  · rw [modeArgs, found, Option.getD_some]
  · rw [modeArgs, found, Option.getD_some]

theorem modeArgs_of_isCheck {a : Attempt} (checking : a.isRepair = false) :
    s.modeArgs a.mode = s.checkArgs := by
  cases mode : a.mode with
  | repair | repairWithout => simp [Attempt.isRepair, mode] at checking
  | check | checkWithout => rfl

/-! ## Attempts in their places -/

/-- The tool is called as the mode demands, with the targets that have the place of the attempt. -/
def InPlace (s : Stage) (a : Attempt) : Prop :=
  ∃ targets, (targetLists s.tool.tool.targets s.files)[a.slot]? = some targets ∧
    a.invocation =
      s.tool.baseInvocation.withArgs (s.modeArgs a.mode ++ s.extraArgs a.mode ++ targets)

theorem InPlace.slot_lt {a : Attempt} (inPlace : s.InPlace a) :
    a.slot < (targetLists s.tool.tool.targets s.files).length := by
  obtain ⟨targets, there, -⟩ := inPlace
  exact (List.getElem?_eq_some_iff.mp there).1

theorem inPlace_of_getElem? {a : Attempt} {args extra : List String}
    (phase : s.modeArgs a.mode = args) (same : s.extraArgs a.mode = extra)
    (there : (s.invocations args extra)[a.slot]? = some a.invocation) : s.InPlace a := by
  rw [invocations, List.getElem?_map] at there
  obtain ⟨targets, found, made⟩ := Option.map_eq_some_iff.mp there
  refine ⟨targets, found, ?_⟩
  rw [phase, same, made]

/-- What is left of the invocations from some place on begins with the one that has this place. -/
theorem getElem?_of_drop_eq_cons {all rest : List Invocation} {inv : Invocation}
    (left : all.drop slot = inv :: rest) :
    all[slot]? = some inv ∧ all.drop (slot + 1) = rest := by
  constructor
  · have first := congrArg (·[0]?) left
    simpa using first
  · rw [← List.tail_drop, left, List.tail_cons]

theorem Repairs.getElem?_slot {mode : Mode} {result : Repair} {all : List Invocation}
    (repairs : Repairs s mode slot invs attempts result) (left : all.drop slot = invs) :
    ∀ a ∈ attempts, all[a.slot]? = some a.invocation := by
  induction repairs with
  | finished => simp
  | stopped =>
      rw [List.forall_mem_singleton]
      exact (getElem?_of_drop_eq_cons left).1
  | next _ _ ih =>
      obtain ⟨first, later⟩ := getElem?_of_drop_eq_cons left
      exact List.forall_mem_cons.mpr ⟨first, ih later⟩

theorem ChecksWithout.getElem?_slot {t last : Tally} {goesOn : Bool} {all : List Invocation}
    (checks : ChecksWithout s slot invs t attempts last goesOn) (left : all.drop slot = invs) :
    ∀ a ∈ attempts, all[a.slot]? = some a.invocation := by
  induction checks with
  | finished => simp
  | timedOut =>
      rw [List.forall_mem_singleton]
      exact (getElem?_of_drop_eq_cons left).1
  | next _ _ ih =>
      obtain ⟨first, later⟩ := getElem?_of_drop_eq_cons left
      exact List.forall_mem_cons.mpr ⟨first, ih later⟩

theorem Repairs.inPlace {mode : Mode} {fix extra : List String} {result : Repair}
    (repairs : Repairs s mode 0 (s.invocations fix extra) attempts result)
    (fixes : s.fixArgs? = some fix) (repairing : mode = .repair ∨ mode = .repairWithout)
    (same : s.extraArgs mode = extra) : ∀ a ∈ attempts, s.InPlace a := by
  intro a member
  have its_mode := repairs.mode_eq a member
  apply inPlace_of_getElem? (its_mode ▸ modeArgs_of_repair fixes repairing) (its_mode ▸ same)
  exact repairs.getElem?_slot List.drop_zero a member

theorem ChecksWithout.inPlace {t last : Tally} {goesOn : Bool}
    (checks : ChecksWithout s 0 s.recoveryInvocations t attempts last goesOn) :
    ∀ a ∈ attempts, s.InPlace a := by
  intro a member
  have mode := checks.mode_eq a member
  apply inPlace_of_getElem? (by rw [mode, modeArgs]) (by rw [mode, extraArgs])
  exact checks.getElem?_slot List.drop_zero a member

/-- The checks that take the place of one that could not load the configuration begin anew, with the
first targets. -/
theorem ChecksWith.inPlace {t last : Tally} (checks : ChecksWith s slot invs t attempts last)
    (left : s.checkInvocations.drop slot = invs) : ∀ a ∈ attempts, s.InPlace a := by
  have first {slot : Nat} {inv : Invocation} {rest : List Invocation} {outcome : Outcome}
      (left : s.checkInvocations.drop slot = inv :: rest) :
      s.InPlace ⟨.check, slot, inv, outcome⟩ :=
    inPlace_of_getElem? rfl rfl (getElem?_of_drop_eq_cons left).1
  induction checks with
  | finished => simp
  | timedOut =>
      rw [List.forall_mem_singleton]
      exact first left
  | next _ _ _ ih =>
      exact List.forall_mem_cons.mpr ⟨first left, ih (getElem?_of_drop_eq_cons left).2⟩
  | recovered _ retries _ ih =>
      rw [List.forall_mem_cons, List.forall_mem_append]
      exact ⟨first left, retries.inPlace, ih (getElem?_of_drop_eq_cons left).2⟩
  | abandoned _ retries =>
      exact List.forall_mem_cons.mpr ⟨first left, retries.inPlace⟩

theorem Performs.inPlace (performs : s.Performs attempts v) : ∀ a ∈ attempts, s.InPlace a := by
  cases performs with
  | unrepaired _ checks => exact checks.inPlace List.drop_zero
  | repaired fixes repairs checks =>
      rw [List.forall_mem_append]
      exact ⟨repairs.inPlace fixes (.inl rfl) rfl, checks.inPlace List.drop_zero⟩
  | repairFailed fixes repairs => exact repairs.inPlace fixes (.inl rfl) rfl
  | retryFailed fixes repairs retries =>
      rw [List.forall_mem_append]
      exact ⟨repairs.inPlace fixes (.inl rfl) rfl, retries.inPlace fixes (.inr rfl) rfl⟩
  | bypassed fixes repairs retries _ checks =>
      rw [List.forall_mem_append, List.forall_mem_append]
      exact ⟨repairs.inPlace fixes (.inl rfl) rfl, retries.inPlace fixes (.inr rfl) rfl,
        checks.inPlace⟩

/-- The attempt calls the tool as its mode demands. -/
def CallsForMode (s : Stage) (a : Attempt) : Prop :=
  if a.isRepair then
    ∃ fix, s.fixArgs? = some fix ∧ s.CalledWith fix (s.extraArgs a.mode) a
  else s.CalledWith s.checkArgs (s.extraArgs a.mode) a

theorem InPlace.calledWith {a : Attempt} (inPlace : s.InPlace a) :
    s.CalledWith (s.modeArgs a.mode) (s.extraArgs a.mode) a := by
  obtain ⟨targets, there, same⟩ := inPlace
  refine ⟨targets, List.mem_of_getElem? there, ?_, ?_⟩
  · rw [same]
    rfl
  · rw [same]
    rfl

theorem Performs.exists_fixArgs (performs : s.Performs attempts v) {a : Attempt}
    (member : a ∈ attempts) (isRepair : a.isRepair = true) : ∃ fix, s.fixArgs? = some fix := by
  cases performs with
  | unrepaired _ checks => simp [isRepair_eq_false (checks.mode_eq a member)] at isRepair
  | repaired fixes | repairFailed fixes | retryFailed fixes | bypassed fixes => exact ⟨_, fixes⟩

theorem Performs.callsForMode (performs : s.Performs attempts v) :
    ∀ a ∈ attempts, s.CallsForMode a := by
  intro a member
  have called := (performs.inPlace a member).calledWith
  rw [CallsForMode]
  split
  case isTrue isRepair =>
    obtain ⟨fix, fixes⟩ := performs.exists_fixArgs member isRepair
    rw [modeArgs_of_repair fixes (isRepair_iff.mp isRepair)] at called
    exact ⟨fix, fixes, called⟩
  case isFalse isCheck =>
    rwa [modeArgs_of_isCheck (by simpa using isCheck)] at called

/-! ## Repairs before checks -/

theorem Performs.exists_repairs_checks (performs : s.Performs attempts v) :
    ∃ repairs checks, attempts = repairs ++ checks ∧ (∀ a ∈ repairs, a.isRepair = true) ∧
      ∀ a ∈ checks, a.isRepair = false := by
  obtain ⟨repairs, checks, rfl, repairing, phases⟩ := performs.exists_phases
  refine ⟨repairs, checks, rfl, fun a member => isRepair_iff.mpr (repairing a member), ?_⟩
  rcases phases with ⟨rfl, -⟩ | ⟨-, t, checking, -⟩ | ⟨-, t, goesOn, checking, -⟩
  · simp
  · exact fun a member => isRepair_eq_false (checking.mode_eq a member)
  · exact fun a member => isRepair_eq_false (.inr (checking.mode_eq a member))

theorem Performs.pairwise_repairsFirst (performs : s.Performs attempts v) :
    attempts.Pairwise fun early late => late.isRepair = true → early.isRepair = true := by
  obtain ⟨repairs, checks, rfl, repairing, checking⟩ := performs.exists_repairs_checks
  rw [List.pairwise_append]
  refine ⟨?_, ?_, fun early member _ _ _ => repairing early member⟩
  · exact List.pairwise_of_forall_mem_list fun early member _ _ _ => repairing early member
  · apply List.pairwise_of_forall_mem_list
    intro early _ late member isRepair
    simp [checking late member] at isRepair

theorem invocations_ne_nil (nonempty : s.files ≠ []) (args extra : List String) :
    s.invocations args extra ≠ [] := by
  obtain ⟨file, rest, files⟩ := List.exists_cons_of_ne_nil nonempty
  rw [invocations, ne_eq, List.map_eq_nil_iff]
  cases s.tool.tool.targets <;> simp [targetLists, files, chunks]

theorem Repairs.attempts_ne_nil {mode : Mode} {result : Repair}
    (repairs : Repairs s mode slot invs attempts result) (nonempty : invs ≠ []) :
    attempts ≠ [] := by
  cases repairs with
  | finished => exact absurd rfl nonempty
  | stopped => simp
  | next => simp

theorem Performs.exists_repair_iff (performs : s.Performs attempts v) (nonempty : s.files ≠ []) :
    (∃ a ∈ attempts, a.isRepair = true) ↔ ∃ fix, s.fixArgs? = some fix := by
  constructor
  · rintro ⟨a, member, isRepair⟩
    exact performs.exists_fixArgs member isRepair
  · rintro ⟨fix, fixes⟩
    -- The first pass of repairs makes at least one attempt.
    have first {fix : List String} {repairs : List Attempt} {result : Repair}
        (repairing : Repairs s .repair 0 (s.invocations fix []) repairs result) :
        ∃ a ∈ repairs, a.isRepair = true := by
      obtain ⟨a, member⟩ := List.exists_mem_of_ne_nil _
        (repairing.attempts_ne_nil (invocations_ne_nil nonempty fix []))
      exact ⟨a, member, isRepair_iff.mpr (.inl (repairing.mode_eq a member))⟩
    cases performs with
    | unrepaired none_found => simp [fixes] at none_found
    | repairFailed _ repairs => exact first repairs
    | repaired _ repairs | retryFailed _ repairs | bypassed _ repairs =>
        obtain ⟨a, member, isRepair⟩ := first repairs
        exact ⟨a, List.mem_append_left _ member, isRepair⟩

/-! ## After a repair that could not load the configuration -/

theorem failsToLoad_eq_false_of_goesOn {mode : Mode} {inv : Invocation} {outcome : Outcome}
    (goesOn : s.repairResult? inv outcome = none) :
    s.failsToLoad ⟨mode, slot, inv, outcome⟩ = false := by
  cases outcome with
  | exited code output =>
      cases code with
      | none => rfl
      | some code => simpa [repairResult?, failsToLoad] using goesOn
  | timedOut | failedToStart => rfl

/-- A repair that could not load the configuration is the last one of its pass. -/
theorem Repairs.pairwise_loaded {mode : Mode} {result : Repair}
    (repairs : Repairs s mode slot invs attempts result) :
    attempts.Pairwise fun early _ => s.failsToLoad early = false := by
  induction repairs with
  | finished => exact .nil
  | stopped => exact List.pairwise_singleton _ _
  | next goesOn _ ih =>
      exact List.pairwise_cons.mpr ⟨fun _ _ => failsToLoad_eq_false_of_goesOn goesOn, ih⟩

theorem Repairs.loaded_of_ne_configError {mode : Mode} {result : Repair}
    (repairs : Repairs s mode slot invs attempts result) (other : result ≠ .configError) :
    ∀ a ∈ attempts, s.failsToLoad a = false := by
  induction repairs with
  | finished => simp
  | stopped stops =>
      rw [List.forall_mem_singleton]
      rcases repairResult?_cases stops with ⟨failed, -⟩ | ⟨-, loaded, -⟩
      · exact absurd failed other
      · exact loaded
  | next goesOn _ ih =>
      rw [List.forall_mem_cons]
      exact ⟨failsToLoad_eq_false_of_goesOn goesOn, ih other⟩

def Attempt.bypasses (a : Attempt) : Prop :=
  a.mode = .repairWithout ∨ a.mode = .checkWithout

/-- Whatever follows a repair that could not load the configuration does without it. -/
theorem Performs.pairwise_bypasses (performs : s.Performs attempts v) :
    attempts.Pairwise fun early late =>
      early.isRepair = true → s.failsToLoad early = true → late.bypasses := by
  have all_loaded {repairs : List Attempt} (loaded : ∀ a ∈ repairs, s.failsToLoad a = false)
      (others : List Attempt) : ∀ early ∈ repairs, ∀ late ∈ others,
        early.isRepair = true → s.failsToLoad early = true → late.bypasses := by
    intro early member _ _ _ fails
    simp [loaded early member] at fails
  have within {mode : Mode} {slot : Nat} {invs : List Invocation} {repairs : List Attempt}
      {result : Repair} (repairing : Repairs s mode slot invs repairs result) :
      repairs.Pairwise fun early late =>
        early.isRepair = true → s.failsToLoad early = true → late.bypasses := by
    apply repairing.pairwise_loaded.imp
    intro early _ loaded _ fails
    simp [loaded] at fails
  have checked {checks : List Attempt} (checking : ∀ a ∈ checks, a.isRepair = false) :
      checks.Pairwise fun early late =>
        early.isRepair = true → s.failsToLoad early = true → late.bypasses := by
    apply List.pairwise_of_forall_mem_list
    intro early member _ _ isRepair
    simp [checking early member] at isRepair
  cases performs with
  | unrepaired _ checks => exact checked fun a member => isRepair_eq_false (checks.mode_eq a member)
  | repaired _ repairs checks =>
      rw [List.pairwise_append]
      exact ⟨within repairs, checked fun a member => isRepair_eq_false (checks.mode_eq a member),
        all_loaded (repairs.loaded_of_ne_configError (by simp)) _⟩
  | repairFailed _ repairs => exact within repairs
  | retryFailed _ repairs retries =>
      rw [List.pairwise_append]
      refine ⟨within repairs, within retries, ?_⟩
      exact fun _ _ late member _ _ => .inl (retries.mode_eq late member)
  | bypassed _ repairs retries _ checks =>
      rw [List.pairwise_append, List.pairwise_append]
      refine ⟨within repairs, ⟨within retries, checked fun a member =>
        isRepair_eq_false (.inr (checks.mode_eq a member)), ?_⟩, ?_⟩
      · exact fun _ _ late member _ _ => .inr (checks.mode_eq late member)
      · intro _ _ late member _ _
        rcases List.mem_append.mp member with retried | checked
        · exact .inl (retries.mode_eq late retried)
        · exact .inr (checks.mode_eq late checked)

/-! ## Repairs that leave no trace -/

/-- The program came to an end by itself, and it loaded the configuration. -/
def EndsOrdinarily (s : Stage) (a : Attempt) : Prop :=
  (∃ code output, a.outcome = .exited code output) ∧ s.failsToLoad a = false

theorem Repairs.eq_finished {mode : Mode} {result : Repair}
    (repairs : Repairs s mode slot invs attempts result)
    (ordinary : ∀ a ∈ attempts, s.EndsOrdinarily a) : result = .finished := by
  induction repairs with
  | finished => rfl
  | stopped stops =>
      rw [List.forall_mem_singleton] at ordinary
      obtain ⟨⟨code, output, exited⟩, loaded⟩ := ordinary
      rcases repairResult?_cases stops with ⟨-, fails⟩ | ⟨-, -, unfinished⟩
      · rw [fails] at loaded
        cases loaded
      · exact absurd exited (unfinished code output)
  | next _ _ ih =>
      rw [List.forall_mem_cons] at ordinary
      exact ih ordinary.2

/-- When its repairs end ordinarily, a stage comes to what its checks come to. -/
theorem Performs.verify_endsWith (performs : s.Performs attempts v)
    (ordinary : ∀ a ∈ attempts, a.isRepair = true → s.EndsOrdinarily a) :
    (s.verify false).EndsWith ((checksOf attempts).map s.entry) v := by
  have finished {fix : List String} {repairs others : List Attempt} {result : Repair}
      (repairing : Repairs s .repair 0 (s.invocations fix []) repairs result)
      (ordinary : ∀ a ∈ repairs ++ others, a.isRepair = true → s.EndsOrdinarily a) :
      result = .finished := by
    apply repairing.eq_finished
    intro a member
    apply ordinary a (List.mem_append_left _ member)
    exact isRepair_iff.mpr (.inl (repairing.mode_eq a member))
  cases performs with
  | @unrepaired attempts t _ checks =>
      have whole : checksOf ([] ++ attempts) = attempts :=
        checksOf_append (by simp) checks.mode_eq
      rw [List.nil_append] at whole
      rw [whole]
      exact verify_false_endsWith_iff.mpr ⟨attempts, t, checks, rfl, rfl⟩
  | @repaired _ repairs attempts t _ repairing checks =>
      have repair_modes : ∀ a ∈ repairs, a.mode = .repair ∨ a.mode = .repairWithout :=
        fun a member => .inl (repairing.mode_eq a member)
      rw [checksOf_append repair_modes checks.mode_eq]
      exact verify_false_endsWith_iff.mpr ⟨attempts, t, checks, rfl, rfl⟩
  | repairFailed _ repairs =>
      rw [← List.append_nil attempts] at ordinary
      have ended := finished repairs ordinary
      cases ended
  | retryFailed _ repairs | bypassed _ repairs =>
      have ended := finished repairs ordinary
      cases ended

/-! ## The phases -/

/-- The attempts of a stage keep to its phases, and call the tool as each phase demands. -/
structure KeepsPhases (s : Stage) (attempts : List Attempt) : Prop where
  repairs_iff : (∃ a ∈ attempts, a.isRepair = true) ↔
    s.role = .formatter ∧ ∃ fix, s.tool.tool.fix = some fix
  repairsFirst : attempts.Pairwise fun early late =>
    late.isRepair = true → early.isRepair = true
  repairArgs : ∀ a ∈ attempts, a.isRepair = true →
    ∃ fix, s.tool.tool.fix = some fix ∧ s.CalledWith fix (s.extraArgs a.mode) a
  /-- A linter that repairs what is safe spares each rule of the settings, one after another. -/
  autofixArgs : ∀ args, s.role = .linter → s.options.autofix = true →
    s.tool.tool.autofix = some args → ∀ a ∈ attempts,
      s.CalledWith (args ++ s.tool.tool.unfixableOption.toList.flatMap fun option =>
        s.options.unfixable.flatMap fun rule => [option, rule]) (s.extraArgs a.mode) a
  checkArgs : s.role ≠ .linter ∨ s.options.autofix = false ∨ s.tool.tool.autofix = none →
    ∀ a ∈ attempts, a.isRepair = false →
      s.CalledWith (s.tool.tool.checkArgs s.tool.major) (s.extraArgs a.mode) a
  /-- After a repair that could not load the configuration the tool is always told to do without. -/
  withoutConfig : attempts.Pairwise fun early late =>
    early.isRepair = true → s.failsToLoad early = true →
      ∃ rule, s.tool.tool.recovery = some rule ∧
        ((late.isRepair = true ∧ ∃ fix, s.tool.tool.fix = some fix ∧
          s.CalledWith fix (rule.argsFor s.tool.major) late) ∨
        (late.isRepair = false ∧ s.CalledWith (s.tool.tool.checkArgs s.tool.major)
          (rule.argsFor s.tool.major) late))

theorem checkArgs_eq_of_autofix {args : List String} (linter : s.role = .linter)
    (wanted : s.options.autofix = true) (autofix : s.tool.tool.autofix = some args) :
    s.checkArgs = args ++ s.tool.tool.unfixableOption.toList.flatMap fun option =>
      s.options.unfixable.flatMap fun rule => [option, rule] := by
  have repairs : s.autofixArgs? = some args := by simp [autofixArgs?, linter, wanted, autofix]
  rw [Stage.checkArgs, repairs, unfixableArgs]
  cases s.tool.tool.unfixableOption <;> simp

theorem checkArgs_eq_of_no_autofix
    (no_autofix : s.role ≠ .linter ∨ s.options.autofix = false ∨ s.tool.tool.autofix = none) :
    s.checkArgs = s.tool.tool.checkArgs s.tool.major := by
  have none_found : s.autofixArgs? = none := by
    rw [autofixArgs?]
    cases role : s.role with
    | formatter | check => rfl
    | linter =>
        rcases no_autofix with other | unwanted | without
        · exact absurd role other
        · simp [unwanted]
        · simp [without]
  rw [Stage.checkArgs, none_found]

theorem exists_rule_of_failsToLoad {a : Attempt} (fails : s.failsToLoad a = true) :
    ∃ rule, s.tool.tool.recovery = some rule ∧ s.overrideArgs = rule.argsFor s.tool.major := by
  obtain ⟨mode, slot, inv, outcome⟩ := a
  have shown : ∃ output, s.showsConfigError output = true := by
    cases outcome with
    | exited code output =>
        cases code with
        | none => cases fails
        | some code =>
            rw [failsToLoad, Bool.and_eq_true] at fails
            exact ⟨output, fails.2⟩
    | timedOut | failedToStart => cases fails
  obtain ⟨output, shown⟩ := shown
  obtain ⟨rule, found, -⟩ := (Option.any_eq_true _ _).mp shown
  exact ⟨rule, found, by simp [overrideArgs, found]⟩

theorem Performs.keepsPhases (performs : s.Performs attempts v) (nonempty : s.files ≠ []) :
    s.KeepsPhases attempts where
  repairs_iff := by
    rw [performs.exists_repair_iff nonempty]
    simp only [fixArgs?_eq_some_iff, exists_and_left]
  repairsFirst := performs.pairwise_repairsFirst
  repairArgs a member isRepair := by
    have called := performs.callsForMode a member
    rw [CallsForMode, if_pos isRepair] at called
    obtain ⟨fix, fixes, called⟩ := called
    exact ⟨fix, (fixArgs?_eq_some_iff.mp fixes).2, called⟩
  autofixArgs args linter wanted autofix a member := by
    have called := performs.callsForMode a member
    have isCheck : ¬ a.isRepair = true := by
      intro isRepair
      obtain ⟨fix, fixes⟩ := performs.exists_fixArgs member isRepair
      have formatter := (fixArgs?_eq_some_iff.mp fixes).1
      cases linter.symm.trans formatter
    rwa [CallsForMode, if_neg isCheck, checkArgs_eq_of_autofix linter wanted autofix] at called
  checkArgs no_autofix a member isCheck := by
    have called := performs.callsForMode a member
    rwa [CallsForMode, isCheck, if_neg Bool.false_ne_true,
      checkArgs_eq_of_no_autofix no_autofix] at called
  withoutConfig := by
    have members := List.pairwise_of_forall_mem_list (r := fun early late =>
      s.CallsForMode early ∧ s.CallsForMode late) fun early first late second =>
        ⟨performs.callsForMode early first, performs.callsForMode late second⟩
    apply (performs.pairwise_bypasses.and members).imp
    rintro early late ⟨bypasses, called_early, called⟩ isRepair fails
    obtain ⟨rule, found, override⟩ := exists_rule_of_failsToLoad fails
    have extra : s.extraArgs late.mode = rule.argsFor s.tool.major := by
      rw [← override]
      rcases bypasses isRepair fails with mode | mode <;> rw [mode] <;> rfl
    refine ⟨rule, found, ?_⟩
    rw [CallsForMode, if_pos isRepair] at called_early
    obtain ⟨fix, fixes, -⟩ := called_early
    obtain ⟨formatter, fixes⟩ := fixArgs?_eq_some_iff.mp fixes
    have other : s.role ≠ .linter := by simp [formatter]
    by_cases again : late.isRepair = true
    · rw [CallsForMode, if_pos again, extra] at called
      obtain ⟨fix', fixes', called⟩ := called
      exact .inl ⟨again, fix', (fixArgs?_eq_some_iff.mp fixes').2, called⟩
    · rw [CallsForMode, if_neg again, extra, checkArgs_eq_of_no_autofix (.inl other)] at called
      exact .inr ⟨by simpa using again, called⟩

end Stage

/-- A binding with files and a tool runs what a stage attempts, and each way to carry it out keeps
to the phases. Two ways whose repairs end ordinarily give the same verdict when their checks agree.
A binding without a tool runs nothing. -/
theorem Binding.verify_keeps_phases (b : Binding) {files : List Path} (options : StageOptions)
    (nonempty : files ≠ []) :
    (b.installed = none → ∀ history v, (b.verify files options).EndsWith history v →
      history = [] ∧ v = .clean) ∧
    ∀ tool, b.installed = some tool →
      let s : Stage := ⟨tool, b.role, files, options⟩
      (∀ history v, (b.verify files options).EndsWith history v ↔
        ∃ attempts, s.Performs attempts v ∧ history = attempts.map s.entry) ∧
      (∀ attempts v, s.Performs attempts v → s.KeepsPhases attempts) ∧
      ∀ attempts attempts' v v', s.Performs attempts v → s.Performs attempts' v' →
        (∀ a ∈ attempts ++ attempts', a.isRepair = true → s.EndsOrdinarily a) →
        History.Agree ((Stage.checksOf attempts).map s.entry)
          ((Stage.checksOf attempts').map s.entry) → v = v' := by
  constructor
  · intro unbound history v ends
    rw [Binding.verify, unbound] at ends
    exact Job.done_endsWith_iff.mp ends
  · intro tool installed s
    refine ⟨?_, fun attempts v performs => performs.keepsPhases nonempty, ?_⟩
    · intro history v
      rw [Binding.verify_endsWith_iff installed nonempty]
      exact Stage.perform_endsWith_iff
    · intro attempts attempts' v v' performs performs' ordinary agree
      rw [List.forall_mem_append] at ordinary
      have ends := performs.verify_endsWith ordinary.1
      have ends' := performs'.verify_endsWith ordinary.2
      exact (ends.eq_of_agree (s.verify_looksOnly false) ends' agree).2

section Formatter

/-- A formatter on one file. -/
def formatStage : Stage where
  tool := ⟨.ruffFormat, "/bin/ruff", none⟩
  role := .formatter
  files := ["a.py"]
  options := { root := "/w", profile := "python" }

def formatBinding : Binding :=
  ⟨.formatter, ["ruff-format"], some formatStage.tool⟩

def formatAttempt (mode : Stage.Mode) (args : List String) (code : Nat) (output : String) :
    Stage.Attempt :=
  ⟨mode, 0, ⟨"/bin/ruff", "format" :: (args ++ ["a.py"])⟩, .exited (some code) output⟩

/-- A repair cannot load the configuration, so it is made without, and so is the check. -/
def bypassingAttempts : List Stage.Attempt :=
  [formatAttempt .repair ["--quiet"] 2 "Failed to parse /w/pyproject.toml",
    formatAttempt .repairWithout ["--quiet", "--isolated"] 0 "",
    formatAttempt .checkWithout ["--check", "--quiet", "--isolated"] 0 ""]

/-- A repair that ends with some code, and a check that finds fault. -/
def complainingAttempts (code : Nat) : List Stage.Attempt :=
  [formatAttempt .repair ["--quiet"] code "", formatAttempt .check ["--check", "--quiet"] 1 "a.py"]

theorem formatStage_performs_bypassing : formatStage.Performs bypassingAttempts .clean := by
  have repairing : formatStage.Repairs .repair 0 (formatStage.invocations ["format", "--quiet"] [])
      [formatAttempt .repair ["--quiet"] 2 "Failed to parse /w/pyproject.toml"] .configError :=
    .stopped (by decide)
  have retrying : formatStage.Repairs .repairWithout 0
      (formatStage.invocations ["format", "--quiet"] formatStage.overrideArgs)
      [formatAttempt .repairWithout ["--quiet", "--isolated"] 0 ""] .finished :=
    .next (by decide) (.finished 1)
  have clean (inv : Invocation) : formatStage.evaluate inv (.exited (some 0) "") = .clean := by
    simp [Stage.evaluate, (by decide : formatStage.tool.tool.failsOnOutput = false)]
  have checking : formatStage.ChecksWithout 0 formatStage.recoveryInvocations {}
      [formatAttempt .checkWithout ["--check", "--quiet", "--isolated"] 0 ""] {} true := by
    refine .next (by rw [clean]; simp) ?_
    rw [clean]
    exact .finished 1 {}
  rw [← Stage.verdict_eq_clean_iff.mpr (Eq.refl ({} : Tally))]
  exact .bypassed rfl repairing retrying (by simp) checking

theorem formatStage_performs_complaining (code : Nat) :
    formatStage.Performs (complainingAttempts code) (formatStage.verdict ⟨["a.py"], []⟩) := by
  have goesOn (inv : Invocation) :
      formatStage.repairResult? inv (.exited (some code) "") = none := by
    have hidden : formatStage.showsConfigError "" = false := by decide
    simp [Stage.repairResult?, hidden]
  have complains (inv : Invocation) :
      formatStage.evaluate inv (.exited (some 1) "a.py") = .violation "a.py" := by
    have hidden : formatStage.showsConfigError "a.py" = false := by decide
    have codes : 1 ∉ formatStage.tool.tool.failureCodes := by decide
    have printed : Text.allBlank "a.py" = false := by decide
    simp [Stage.evaluate, hidden, codes, printed]
  have repairing : formatStage.Repairs .repair 0 (formatStage.invocations ["format", "--quiet"] [])
      [formatAttempt .repair ["--quiet"] code ""] .finished :=
    .next (goesOn _) (.finished 1)
  have checking : formatStage.ChecksWith 0 formatStage.checkInvocations {}
      [formatAttempt .check ["--check", "--quiet"] 1 "a.py"] ⟨["a.py"], []⟩ := by
    refine .next (by rw [complains]; simp) (by rw [complains]; simp) ?_
    rw [complains]
    exact .finished 1 _
  exact .repaired rfl repairing checking

theorem Binding.verify_keeps_phases_of_formatter :
    formatBinding.installed = some formatStage.tool ∧ formatStage.files ≠ [] ∧
      formatStage.Performs bypassingAttempts .clean ∧
      formatStage.KeepsPhases bypassingAttempts ∧
      formatStage.Performs (complainingAttempts 0) (formatStage.verdict ⟨["a.py"], []⟩) ∧
      formatStage.Performs (complainingAttempts 1) (formatStage.verdict ⟨["a.py"], []⟩) ∧
      (∀ a ∈ complainingAttempts 0 ++ complainingAttempts 1,
        a.isRepair = true → formatStage.EndsOrdinarily a) ∧
      History.Agree ((Stage.checksOf (complainingAttempts 0)).map formatStage.entry)
        ((Stage.checksOf (complainingAttempts 1)).map formatStage.entry) ∧
      ∀ v, formatStage.Performs (complainingAttempts 1) v →
        formatStage.verdict ⟨["a.py"], []⟩ = v := by
  obtain ⟨-, bound⟩ := Binding.verify_keeps_phases formatBinding formatStage.options
    (by decide : formatStage.files ≠ [])
  obtain ⟨-, phases, decided⟩ := bound formatStage.tool rfl
  have ordinary : ∀ a ∈ complainingAttempts 0 ++ complainingAttempts 1,
      a.isRepair = true → formatStage.EndsOrdinarily a := by
    simp [complainingAttempts, formatAttempt, Stage.Attempt.isRepair, Stage.EndsOrdinarily,
      Stage.failsToLoad, (by decide : formatStage.showsConfigError "" = false)]
  have agree : History.Agree ((Stage.checksOf (complainingAttempts 0)).map formatStage.entry)
      ((Stage.checksOf (complainingAttempts 1)).map formatStage.entry) :=
    .refl _
  refine ⟨rfl, by decide, formatStage_performs_bypassing,
    phases _ _ formatStage_performs_bypassing, formatStage_performs_complaining _,
    formatStage_performs_complaining _, ordinary, agree, ?_⟩
  intro v performs
  exact decided _ _ _ _ (formatStage_performs_complaining _) performs ordinary agree

end Formatter

end LintGate
