import LintGate.Proofs.Verification.Phases

/-!
# How far repairs reach

An attempt with a slot is given the targets with that place, whatever it is made for. So a check is
of files that were repaired when a repair with its slot stands before it. A pass of repairs ends at
the first one that could not load the configuration, and the pass that does without it begins anew;
the checks that follow go through all files. Files are checked unrepaired where both passes ended
before they came to them.
-/

namespace LintGate

namespace Stage

variable {s : Stage} {slot : Nat} {invs : List Invocation} {attempts : List Attempt} {v : Verified}

/-! ## The reach of a pass -/

theorem Repairs.slot_le {mode : Mode} {result : Repair}
    (repairs : Repairs s mode slot invs attempts result) : ∀ a ∈ attempts, slot ≤ a.slot := by
  induction repairs with
  | finished => simp
  | stopped => simp
  | next _ _ ih =>
      exact List.forall_mem_cons.mpr
        ⟨Nat.le_refl _, fun a member => Nat.le_of_succ_le (ih a member)⟩

/-- A pass that does not fail comes to every place up to the first at which the configuration could
not be loaded. -/
theorem Repairs.exists_slot_iff {mode : Mode} {result : Repair}
    (repairs : Repairs s mode slot invs attempts result)
    (notFailed : ∀ message, result ≠ .failed message) {n : Nat} (after : slot ≤ n)
    (inside : n < slot + invs.length) :
    (∃ r ∈ attempts, r.slot = n) ↔ ¬ ∃ r ∈ attempts, s.failsToLoad r = true ∧ r.slot < n := by
  induction repairs with
  | finished =>
      rw [List.length_nil] at inside
      omega
  | @stopped slot inv _ outcome _ stops =>
      have fails : s.failsToLoad ⟨mode, slot, inv, outcome⟩ = true := by
        rcases repairResult?_cases stops with ⟨-, fails⟩ | ⟨⟨message, failed⟩, -⟩
        · exact fails
        · exact absurd failed (notFailed message)
      simp only [List.mem_singleton, exists_eq_left, fails, true_and]
      omega
  | @next slot _ _ outcome attempts _ goesOn later ih =>
      have loaded : s.failsToLoad ⟨mode, slot, _, outcome⟩ = false :=
        failsToLoad_eq_false_of_goesOn goesOn
      simp only [List.mem_cons, exists_eq_or_imp, loaded, Bool.false_eq_true, false_and, false_or]
      rcases Nat.eq_or_lt_of_le after with here | beyond
      · have none_before : ¬ ∃ r ∈ attempts, s.failsToLoad r = true ∧ r.slot < n := by
          rintro ⟨r, member, -, before⟩
          have behind := later.slot_le r member
          omega
        exact iff_of_true (.inl here) none_before
      · rw [List.length_cons] at inside
        rw [← ih notFailed beyond (by omega)]
        simp only [or_iff_right_iff_imp]
        omega

/-! ## Checks of repaired files -/

/-- A repair among the attempts was given the same targets. -/
def RepairedAmong (before : List Attempt) (a : Attempt) : Prop :=
  ∃ r ∈ before, r.isRepair = true ∧ r.slot = a.slot

/-- The repairs of a mode ended before the targets of the attempt, since one of them could not load
the configuration. -/
def CutOff (s : Stage) (mode : Mode) (attempts : List Attempt) (a : Attempt) : Prop :=
  ∃ r ∈ attempts, r.mode = mode ∧ s.failsToLoad r = true ∧ r.slot < a.slot

theorem Repairs.repairedAmong_iff {mode : Mode} {result : Repair} {args extra : List String}
    {a : Attempt} (repairs : Repairs s mode 0 (s.invocations args extra) attempts result)
    (repairing : mode = .repair ∨ mode = .repairWithout)
    (notFailed : ∀ message, result ≠ .failed message)
    (inside : a.slot < (targetLists s.tool.tool.targets s.files).length) :
    RepairedAmong attempts a ↔ ¬ s.CutOff mode attempts a := by
  have modes := repairs.mode_eq
  have inside' : a.slot < 0 + (s.invocations args extra).length := by
    rwa [Nat.zero_add, invocations, List.length_map]
  have reached := repairs.exists_slot_iff notFailed (Nat.zero_le _) inside'
  have repaired : RepairedAmong attempts a ↔ ∃ r ∈ attempts, r.slot = a.slot := by
    apply exists_congr
    intro r
    apply and_congr_right
    intro member
    have isRepair : r.isRepair = true := isRepair_iff.mpr (modes r member ▸ repairing)
    simp [isRepair]
  have cut : s.CutOff mode attempts a ↔
      ∃ r ∈ attempts, s.failsToLoad r = true ∧ r.slot < a.slot := by
    apply exists_congr
    intro r
    apply and_congr_right
    intro member
    simp [modes r member]
  rw [repaired, cut, reached]

theorem repairedAmong_append {front rest : List Attempt} {a : Attempt} :
    RepairedAmong (front ++ rest) a ↔ RepairedAmong front a ∨ RepairedAmong rest a := by
  simp only [RepairedAmong, List.mem_append, or_and_right, exists_or]

theorem cutOff_append {mode : Mode} {front rest : List Attempt} {a : Attempt} :
    s.CutOff mode (front ++ rest) a ↔ s.CutOff mode front a ∨ s.CutOff mode rest a := by
  simp only [CutOff, List.mem_append, or_and_right, exists_or]

/-- Checks repair nothing, and so no repair among them is the last one of its pass. -/
theorem not_of_checks {checks : List Attempt} {a : Attempt}
    (checking : ∀ r ∈ checks, r.isRepair = false) :
    ¬ RepairedAmong checks a ∧ ¬ s.CutOff .repair checks a ∧
      ¬ s.CutOff .repairWithout checks a := by
  refine ⟨?_, ?_, ?_⟩
  · rintro ⟨r, member, isRepair, -⟩
    simp [checking r member] at isRepair
  · rintro ⟨r, member, mode, -⟩
    simpa [checking r member] using isRepair_iff.mpr (.inl mode)
  · rintro ⟨r, member, mode, -⟩
    simpa [checking r member] using isRepair_iff.mpr (.inr mode)

theorem Repairs.not_cutOff {mode other : Mode} {result : Repair} {a : Attempt}
    (repairs : Repairs s mode slot invs attempts result) (different : mode ≠ other) :
    ¬ s.CutOff other attempts a := by
  rintro ⟨r, member, same, -⟩
  exact different ((repairs.mode_eq r member).symm.trans same)

theorem Repairs.not_mem {mode : Mode} {result : Repair} {a : Attempt}
    (repairs : Repairs s mode slot invs attempts result)
    (repairing : mode = .repair ∨ mode = .repairWithout) (checking : a.isRepair = false) :
    a ∉ attempts := by
  intro member
  have isRepair := isRepair_iff.mpr (repairs.mode_eq a member ▸ repairing)
  simp [checking] at isRepair

/-- The files of a check were given to a repair exactly when the tool has a way to repair and one of
the passes came to them. -/
theorem Performs.repairedAmong_iff (performs : s.Performs attempts v) {a : Attempt}
    (member : a ∈ attempts) (checking : a.isRepair = false) :
    RepairedAmong attempts a ↔ (∃ fix, s.fixArgs? = some fix) ∧
      ¬ (s.CutOff .repair attempts a ∧ s.CutOff .repairWithout attempts a) := by
  have inside := (performs.inPlace a member).slot_lt
  cases performs with
  | unrepaired none_found checks =>
      obtain ⟨unrepaired, -⟩ := not_of_checks (s := s) (a := a) fun r there =>
        isRepair_eq_false (checks.mode_eq r there)
      simp [unrepaired, none_found]
  | @repaired _ front _ _ fixes repairs checks =>
      have reached := repairs.repairedAmong_iff (.inl rfl) (by simp) inside
      have whole : ¬ s.CutOff .repair front a := by
        rintro ⟨r, there, -, fails, -⟩
        simp [repairs.loaded_of_ne_configError (by simp) r there] at fails
      obtain ⟨-, -, uncut⟩ := not_of_checks (s := s) (a := a) fun r there =>
        isRepair_eq_false (checks.mode_eq r there)
      have uncut' : ¬ s.CutOff .repairWithout front a := repairs.not_cutOff (by simp)
      simp [repairedAmong_append, cutOff_append, reached, whole, uncut, uncut', fixes]
  | repairFailed _ repairs => exact absurd member (repairs.not_mem (.inl rfl) checking)
  | retryFailed _ repairs retries =>
      rcases List.mem_append.mp member with first | second
      · exact absurd first (repairs.not_mem (.inl rfl) checking)
      · exact absurd second (retries.not_mem (.inr rfl) checking)
  | @bypassed _ front middle _ _ _ _ fixes repairs retries notFailed checks =>
      have reached := repairs.repairedAmong_iff (.inl rfl) (by simp) inside
      have reached' := retries.repairedAmong_iff (.inr rfl) notFailed inside
      obtain ⟨unrepaired, uncut, uncut'⟩ := not_of_checks (s := s) (a := a) fun r there =>
        isRepair_eq_false (.inr (checks.mode_eq r there))
      have other : ¬ s.CutOff .repairWithout front a := repairs.not_cutOff (by simp)
      have other' : ¬ s.CutOff .repair middle a := retries.not_cutOff (by simp)
      simp only [repairedAmong_append, cutOff_append, reached, reached', unrepaired, uncut, uncut',
        other, other', fixes, Option.some.injEq, exists_eq', or_false, false_or, true_and]
      exact not_and_or.symm

/-- A repair stands before every check. -/
theorem Performs.repairedAmong_cut (performs : s.Performs attempts v)
    {before after : List Attempt} {a : Attempt} (cut : attempts = before ++ a :: after)
    (checking : a.isRepair = false) : RepairedAmong before a ↔ RepairedAmong attempts a := by
  have order := performs.pairwise_repairsFirst
  rw [cut, List.pairwise_append, List.pairwise_cons] at order
  have others : ∀ r ∈ a :: after, r.isRepair = false := by
    rw [List.forall_mem_cons]
    refine ⟨checking, fun r member => ?_⟩
    have kept := order.2.1.1 r member
    simpa [checking] using kept
  obtain ⟨unrepaired, -⟩ := not_of_checks (s := s) (a := a) others
  rw [cut, repairedAmong_append, or_iff_left unrepaired]

end Stage

/-- A binding that is carried out calls its tool in each attempt on the targets of one place. A
finding about violations holds what the checks have to say. The files of a check were given to a
repair before exactly when the tool has a way to repair and one of the passes of repairs came to
them. -/
theorem Binding.verify_repairs_before_checks {b : Binding} {tool : InstalledTool}
    (installed : b.installed = some tool) (formatter : b.role = .formatter) {files : List Path}
    {options : StageOptions} {history : History} {v : Verified} (nonempty : files ≠ [])
    (ends : (b.verify files options).EndsWith history v) :
    let s : Stage := ⟨tool, .formatter, files, options⟩
    ∃ attempts, s.Performs attempts v ∧ history = attempts.map s.entry ∧
      (∀ a ∈ attempts, s.InPlace a) ∧
      (∀ f ∈ v.findings, f.category = .formattingNeeded →
        f.output = "\n".intercalate ((Stage.checksOf attempts).filterMap s.violation?)) ∧
      ∀ before a after, attempts = before ++ a :: after → a.isRepair = false →
        (Stage.RepairedAmong before a ↔ tool.tool.fix ≠ none ∧
          ¬ (s.CutOff .repair attempts a ∧ s.CutOff .repairWithout attempts a)) := by
  intro s
  rw [Binding.verify_endsWith_iff installed nonempty, formatter] at ends
  obtain ⟨attempts, performs, same⟩ := Stage.perform_endsWith_iff.mp ends
  refine ⟨attempts, performs, same, performs.inPlace, ?_, ?_⟩
  · intro f member found
    exact performs.output_eq member (by simp [found])
  · intro before a after cut checking
    have member : a ∈ attempts := by simp [cut]
    have fixes : (∃ fix, s.fixArgs? = some fix) ↔ tool.tool.fix ≠ none := by
      simp [Stage.fixArgs?_eq_some_iff, s, Option.ne_none_iff_exists']
    rw [performs.repairedAmong_cut cut checking, performs.repairedAmong_iff member checking, fixes]

end LintGate
