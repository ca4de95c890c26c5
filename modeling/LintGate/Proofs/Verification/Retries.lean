import LintGate.Proofs.Verification.Tallies

/-!
# Retries without the configuration

`Stage.RetriesOnce` says that no invocation is checked twice in one mode, and that one is run
without the configuration only for a cause of its own. The recovery of a stage runs all invocations
anew for each one that could not load the configuration, so this holds exactly of runs in which none
of the checks failed to load it, or in which the checks came to an end right after the first retry.
-/

namespace LintGate

namespace Stage

variable {s : Stage}

/-- The attempt is at the invocation with this place in this mode. -/
def Attempt.isAt (mode : Mode) (slot : Nat) (a : Attempt) : Bool :=
  a.mode = mode && a.slot = slot

/-- A check with the configuration that could not load it. -/
def isFailedLoad (s : Stage) (a : Attempt) : Bool :=
  a.mode = .check && s.failsToLoad a

/-- A check of the invocation with this place that adds a text to the violations. -/
def addsViolationAt (s : Stage) (slot : Nat) (a : Attempt) : Bool :=
  (a.isAt .check slot || a.isAt .checkWithout slot) && (s.violation? a).isSome

/-- No invocation is checked more than once in one mode, and each retry has a cause. -/
structure RetriesOnce (s : Stage) (attempts : List Attempt) : Prop where
  checkedOnce : ∀ slot, attempts.countP (·.isAt .check slot) ≤ 1
  retriedOnce : ∀ slot, attempts.countP (·.isAt .checkWithout slot) ≤ 1
  /-- The repairs had to do without the configuration, or the check of the same invocation could
  not load it. -/
  retriedForCause : ∀ before a after, attempts = before ++ a :: after → a.mode = .checkWithout →
    (∃ r ∈ before, r.mode = .repairWithout) ∨
      ∃ f ∈ before, s.isFailedLoad f = true ∧ f.slot = a.slot
  /-- An invocation adds at most one text to the violations. -/
  countedOnce : ∀ slot, attempts.countP (s.addsViolationAt slot) ≤ 1

theorem Attempt.isAt_iff {mode : Mode} {slot : Nat} {a : Attempt} :
    a.isAt mode slot = true ↔ a.mode = mode ∧ a.slot = slot := by
  simp [Attempt.isAt]

theorem isFailedLoad_iff {slot : Nat} {inv : Invocation} {outcome : Outcome} :
    s.isFailedLoad ⟨.check, slot, inv, outcome⟩ = true ↔
      ∃ output, s.evaluate inv outcome = .configError output := by
  simpa [isFailedLoad, evaluation] using failsToLoad_iff (a := ⟨.check, slot, inv, outcome⟩)

theorem mode_eq_of_isFailedLoad {a : Attempt} (failed : s.isFailedLoad a = true) :
    a.mode = .check := by
  simp only [isFailedLoad, Bool.and_eq_true, decide_eq_true_eq] at failed
  exact failed.1

theorem place_of_addsViolationAt {slot : Nat} {a : Attempt}
    (adds : s.addsViolationAt slot a = true) :
    (a.mode = .check ∨ a.mode = .checkWithout) ∧ a.slot = slot := by
  simp only [addsViolationAt, Bool.and_eq_true, Bool.or_eq_true, Attempt.isAt_iff] at adds
  rcases adds.1 with ⟨mode, same⟩ | ⟨mode, same⟩
  · exact ⟨.inl mode, same⟩
  · exact ⟨.inr mode, same⟩

/-! ## Slots -/

theorem ChecksWithout.slots_eq {slot : Nat} {invs : List Invocation} {t last : Tally}
    {attempts : List Attempt} {goesOn : Bool}
    (checks : ChecksWithout s slot invs t attempts last goesOn) :
    attempts.map (·.slot) = List.range' slot attempts.length := by
  induction checks with
  | finished => rfl
  | timedOut => rfl
  | next _ _ ih => simp [ih, List.range'_succ]

theorem ChecksWithout.length_eq {slot : Nat} {invs : List Invocation} {t last : Tally}
    {attempts : List Attempt} (checks : ChecksWithout s slot invs t attempts last true) :
    attempts.length = invs.length := by
  generalize ended : true = goesOn at checks
  induction checks with
  | finished => rfl
  | timedOut => contradiction
  | next _ _ ih => simp [ih ended]

theorem ChecksWithout.attempts_ne_nil {slot : Nat} {invs : List Invocation} {t last : Tally}
    {attempts : List Attempt} {goesOn : Bool}
    (checks : ChecksWithout s slot invs t attempts last goesOn) (nonempty : invs ≠ []) :
    attempts ≠ [] := by
  cases checks with
  | finished => exact absurd rfl nonempty
  | timedOut => simp
  | next => simp

theorem ChecksWith.check_slots_eq {slot : Nat} {invs : List Invocation} {t last : Tally}
    {attempts : List Attempt} (checks : ChecksWith s slot invs t attempts last) :
    ∃ count, (attempts.filter (·.mode = .check)).map (·.slot) = List.range' slot count := by
  have none_checks {retries : List Attempt} {middle last : Tally} {goesOn : Bool}
      (retrying : ChecksWithout s 0 s.recoveryInvocations middle retries last goesOn) :
      retries.filter (·.mode = .check) = [] := by
    rw [List.filter_eq_nil_iff]
    intro a member
    simp [retrying.mode_eq a member]
  induction checks with
  | finished => exact ⟨0, rfl⟩
  | timedOut => exact ⟨1, rfl⟩
  | next _ _ _ ih =>
      obtain ⟨count, same⟩ := ih
      exact ⟨count + 1, by simp [same, List.range'_succ]⟩
  | recovered _ retrying _ ih =>
      obtain ⟨count, same⟩ := ih
      exact ⟨count + 1, by simp [none_checks retrying, same, List.range'_succ]⟩
  | abandoned _ retrying => exact ⟨1, by simp [none_checks retrying]⟩

/-- Attempts in consecutive slots have at most one in each. -/
theorem countP_slot_le_one {attempts : List Attempt} {slot count n : Nat} {p : Attempt → Bool}
    (slots : attempts.map (·.slot) = List.range' slot count)
    (at_slot : ∀ a ∈ attempts, p a = true → a.slot = n) : attempts.countP p ≤ 1 := by
  have fewer : attempts.countP p ≤ attempts.countP (·.slot == n) := by
    apply List.countP_mono_left
    intro a member holds
    simp [at_slot a member holds]
  have counted : attempts.countP (·.slot == n) = (attempts.map (·.slot)).count n := by
    rw [List.count_eq_countP, List.countP_map]
    rfl
  have once : (List.range' slot count).count n ≤ 1 :=
    List.nodup_iff_count.mp List.nodup_range' n
  rw [counted, slots] at fewer
  exact Nat.le_trans fewer once

/-- A pass without the configuration begins with the first of its invocations. -/
theorem ChecksWithout.countP_first_eq_one {invs : List Invocation} {t last : Tally}
    {attempts : List Attempt} {goesOn : Bool}
    (checks : ChecksWithout s 0 invs t attempts last goesOn) (nonempty : invs ≠ []) :
    attempts.countP (·.isAt .checkWithout 0) = 1 := by
  have some_attempts := checks.attempts_ne_nil nonempty
  have positive : 0 < attempts.length := List.length_pos_iff.mpr some_attempts
  have same : attempts.countP (·.isAt .checkWithout 0) = (attempts.map (·.slot)).count 0 := by
    rw [List.count_eq_countP, List.countP_map]
    apply List.countP_congr
    intro a member
    simp [Attempt.isAt, checks.mode_eq a member]
  rw [same, checks.slots_eq, List.Nodup.count List.nodup_range']
  simp [List.mem_range', positive]

theorem ChecksWithout.countP_failedLoad_eq_zero {slot : Nat} {invs : List Invocation}
    {t last : Tally} {attempts : List Attempt} {goesOn : Bool}
    (checks : ChecksWithout s slot invs t attempts last goesOn) :
    attempts.countP s.isFailedLoad = 0 := by
  rw [List.countP_eq_zero]
  intro a member
  simp [isFailedLoad, checks.mode_eq a member]

/-- The first invocation is run without the configuration once for each check that could not load
it. -/
theorem ChecksWith.countP_first_eq {slot : Nat} {invs : List Invocation} {t last : Tally}
    {attempts : List Attempt} (checks : ChecksWith s slot invs t attempts last)
    (nonempty : s.recoveryInvocations ≠ []) :
    attempts.countP (·.isAt .checkWithout 0) = attempts.countP s.isFailedLoad := by
  induction checks with
  | finished => rfl
  | timedOut found => simp [Attempt.isAt, isFailedLoad_iff, found]
  | next _ loaded _ ih =>
      simp only [List.countP_cons, ih]
      simp [Attempt.isAt, isFailedLoad_iff, loaded]
  | recovered found retrying _ ih =>
      simp only [List.countP_cons, List.countP_append, ih, retrying.countP_first_eq_one nonempty,
        retrying.countP_failedLoad_eq_zero]
      simp [Attempt.isAt, isFailedLoad_iff, found]
      omega
  | abandoned found retrying =>
      simp only [List.countP_cons, retrying.countP_first_eq_one nonempty,
        retrying.countP_failedLoad_eq_zero]
      simp [Attempt.isAt, isFailedLoad_iff, found]

theorem ChecksWith.slot_le {slot : Nat} {invs : List Invocation} {t last : Tally}
    {attempts : List Attempt} (checks : ChecksWith s slot invs t attempts last) :
    ∀ a ∈ attempts, a.mode = .check → slot ≤ a.slot := by
  intro a member checking
  obtain ⟨count, slots⟩ := checks.check_slots_eq
  have inside : a.slot ∈ (attempts.filter (·.mode = .check)).map (·.slot) :=
    List.mem_map.mpr ⟨a, List.mem_filter.mpr ⟨member, by simp [checking]⟩, rfl⟩
  rw [slots, List.mem_range'_1] at inside
  exact inside.1

/-! ## A pass of checks with the configuration -/

/-- Where only the first of the retries is made, the pass ends right after it. -/
theorem ChecksWith.length_le_two {t last : Tally} {attempts : List Attempt}
    (checks : ChecksWith s 0 s.checkInvocations t attempts last)
    (failing : ∃ f ∈ attempts, s.isFailedLoad f = true ∧ f.slot = 0)
    (onlyFirst : ∀ a ∈ attempts, a.mode = .checkWithout → a.slot = 0) :
    attempts.length ≤ 2 := by
  have single {retries : List Attempt} {middle last : Tally} {goesOn : Bool}
      (retrying : ChecksWithout s 0 s.recoveryInvocations middle retries last goesOn)
      (inside : retries ⊆ attempts) : retries.length ≤ 1 := by
    rcases Nat.lt_or_ge 1 retries.length with several | few
    case inr => exact few
    have second : 1 ∈ retries.map (·.slot) := by
      rw [retrying.slots_eq, List.mem_range'_1]
      omega
    obtain ⟨a, member, slot⟩ := List.mem_map.mp second
    have first := onlyFirst a (inside member) (retrying.mode_eq a member)
    omega
  have lengths : s.recoveryInvocations.length = s.checkInvocations.length :=
    s.length_invocations _ _ _ _
  generalize invocations_eq : s.checkInvocations = invs at checks lengths
  cases checks with
  | finished => simp
  | timedOut => simp
  | next _ loaded later =>
      obtain ⟨f, member, failed, slot⟩ := failing
      rcases List.mem_cons.mp member with rfl | inside
      · simp [isFailedLoad_iff, loaded] at failed
      · have after := later.slot_le f inside (mode_eq_of_isFailedLoad failed)
        omega
  | @recovered _ inv rest _ middle last _ _ retries later _ retrying onward =>
      have few : retries.length ≤ 1 := by
        apply single retrying
        intro a member
        simp [member]
      have all := retrying.length_eq
      rw [lengths, List.length_cons] at all
      have ended : rest = [] := List.length_eq_zero_iff.mp (by omega)
      subst ended
      cases onward
      simpa using few
  | @abandoned _ inv rest _ last _ _ retries _ retrying =>
      have few : retries.length ≤ 1 := by
        apply single retrying
        intro a member
        simp [member]
      simpa using few

theorem ChecksWith.two_le_length {slot : Nat} {invs : List Invocation} {t last : Tally}
    {attempts : List Attempt} (checks : ChecksWith s slot invs t attempts last)
    (nonempty : s.recoveryInvocations ≠ [])
    (failing : ∃ f ∈ attempts, s.isFailedLoad f = true) : 2 ≤ attempts.length := by
  induction checks with
  | finished => simp at failing
  | timedOut found => simp [isFailedLoad_iff, found] at failing
  | next _ loaded _ ih =>
      simp only [List.mem_cons, exists_eq_or_imp] at failing
      rcases failing with now | later
      · simp [isFailedLoad_iff, loaded] at now
      · have tail := ih later
        simp only [List.length_cons]
        omega
  | recovered _ retrying _ _ =>
      have some_retries := List.length_pos_iff.mpr (retrying.attempts_ne_nil nonempty)
      simp only [List.length_cons, List.length_append]
      omega
  | abandoned _ retrying =>
      have some_retries := List.length_pos_iff.mpr (retrying.attempts_ne_nil nonempty)
      simp only [List.length_cons]
      omega

/-- A pass that cannot load the configuration and ends at once consists of the first invocation and
its retry. -/
theorem ChecksWith.eq_pair {t last : Tally} {attempts : List Attempt}
    (checks : ChecksWith s 0 s.checkInvocations t attempts last)
    (failing : ∃ f ∈ attempts, s.isFailedLoad f = true) (short : attempts.length ≤ 2) :
    ∃ f r, attempts = [f, r] ∧ s.isFailedLoad f = true ∧ f.slot = 0 ∧
      r.mode = .checkWithout ∧ r.slot = 0 := by
  have first_retry {retries : List Attempt} {middle last : Tally} {goesOn : Bool}
      (retrying : ChecksWithout s 0 s.recoveryInvocations middle retries last goesOn)
      (nonempty : s.recoveryInvocations ≠ []) (few : retries.length ≤ 1) :
      ∃ r, retries = [r] ∧ r.mode = .checkWithout ∧ r.slot = 0 := by
    have some_retries := List.length_pos_iff.mpr (retrying.attempts_ne_nil nonempty)
    obtain ⟨r, rfl⟩ := List.length_eq_one_iff.mp (Nat.le_antisymm few some_retries)
    have slots := retrying.slots_eq
    refine ⟨r, rfl, retrying.mode_eq r (by simp), ?_⟩
    simpa using slots
  have lengths : s.recoveryInvocations.length = s.checkInvocations.length :=
    s.length_invocations _ _ _ _
  generalize invocations_eq : s.checkInvocations = invs at checks lengths
  have nonempty {inv : Invocation} {rest : List Invocation} (more : invs = inv :: rest) :
      s.recoveryInvocations ≠ [] := by
    intro none_left
    simp [none_left, more] at lengths
  cases checks with
  | finished => simp at failing
  | timedOut found => simp [isFailedLoad_iff, found] at failing
  | next _ loaded later =>
      simp only [List.mem_cons, exists_eq_or_imp] at failing
      rcases failing with now | onward
      · simp [isFailedLoad_iff, loaded] at now
      · have tail := later.two_le_length (nonempty rfl) onward
        simp only [List.length_cons] at short
        omega
  | @recovered _ inv rest _ _ _ outcome output retries later found retrying onward =>
      simp only [List.length_cons, List.length_append] at short
      obtain ⟨r, rfl, mode, slot⟩ := first_retry retrying (nonempty rfl) (by omega)
      have ended : later = [] := by
        apply List.length_eq_zero_iff.mp
        simp only [List.length_singleton] at short
        omega
      subst ended
      exact ⟨_, r, rfl, by simp [isFailedLoad_iff, found], rfl, mode, slot⟩
  | @abandoned _ inv rest _ _ outcome output retries found retrying =>
      simp only [List.length_cons] at short
      obtain ⟨r, rfl, mode, slot⟩ := first_retry retrying (nonempty rfl) (by omega)
      exact ⟨_, r, rfl, by simp [isFailedLoad_iff, found], rfl, mode, slot⟩

/-! ## Runs of a stage -/

/-- The checks among attempts. -/
def checksOf (attempts : List Attempt) : List Attempt :=
  attempts.filter fun a => a.mode = .check || a.mode = .checkWithout

private theorem eq_of_countP_le_one {attempts : List Attempt} {p : Attempt → Bool}
    (once : attempts.countP p ≤ 1) {a b : Attempt} (first : a ∈ attempts) (second : b ∈ attempts)
    (pa : p a = true) (pb : p b = true) : a = b := by
  have both : a ∈ attempts.filter p ∧ b ∈ attempts.filter p := by simp [first, second, pa, pb]
  rw [List.countP_eq_length_filter] at once
  match found : attempts.filter p with
  | [] => simp [found] at both
  | [only] =>
      rw [found] at both
      simp only [List.mem_singleton] at both
      rw [both.1, both.2]
  | _ :: _ :: _ =>
      rw [found] at once
      simp at once

/-- What stands in front of an attempt that comes later. -/
private theorem mem_before_of_append_eq {front rest before after : List Attempt} {a : Attempt}
    (cut : front ++ rest = before ++ a :: after) (absent : a ∉ front) :
    ∀ x ∈ front, x ∈ before := by
  rcases List.append_eq_append_iff.mp cut with ⟨more, rfl, _⟩ | ⟨more, rfl, tail⟩
  · intro x member
    simp [member]
  · cases more with
    | nil => simp
    | cons y more =>
        simp only [List.cons_append, List.cons.injEq] at tail
        simp [tail.1] at absent

section Phases

variable {repairs checks : List Attempt}
  (repairing : ∀ a ∈ repairs, a.mode = .repair ∨ a.mode = .repairWithout)

include repairing

theorem countP_append_of_repairing {p : Attempt → Bool}
    (checking : ∀ a, p a = true → a.mode = .check ∨ a.mode = .checkWithout) :
    (repairs ++ checks).countP p = checks.countP p := by
  rw [List.countP_append, Nat.add_eq_right, List.countP_eq_zero]
  intro a member holds
  rcases repairing a member with mode | mode <;> simpa [mode] using checking a holds

theorem checksOf_append (checking : ∀ a ∈ checks, a.mode = .check ∨ a.mode = .checkWithout) :
    checksOf (repairs ++ checks) = checks := by
  have dropped : repairs.filter (fun a => a.mode = .check || a.mode = .checkWithout) = [] := by
    rw [List.filter_eq_nil_iff]
    intro a member
    rcases repairing a member with mode | mode <;> simp [mode]
  rw [checksOf, List.filter_append, dropped, List.nil_append, List.filter_eq_self]
  intro a member
  simpa using checking a member

private theorem mem_before_of_check {before after : List Attempt} {a : Attempt}
    (cut : repairs ++ checks = before ++ a :: after) (mode : a.mode = .checkWithout) :
    ∀ x ∈ repairs, x ∈ before := by
  apply mem_before_of_append_eq cut
  intro member
  rcases repairing a member with same | same <;> simp [mode] at same

/-- Checks in consecutive slots retry once if a retry among them has a cause in the repairs. -/
theorem retriesOnce_of_slots {slot count : Nat}
    (slots : checks.map (·.slot) = List.range' slot count)
    (cause : ∀ a ∈ checks, a.mode = .checkWithout → ∃ r ∈ repairs, r.mode = .repairWithout) :
    s.RetriesOnce (repairs ++ checks) where
  checkedOnce n := by
    rw [countP_append_of_repairing repairing fun a here => .inl (Attempt.isAt_iff.mp here).1]
    exact countP_slot_le_one slots fun a _ here => (Attempt.isAt_iff.mp here).2
  retriedOnce n := by
    rw [countP_append_of_repairing repairing fun a here => .inr (Attempt.isAt_iff.mp here).1]
    exact countP_slot_le_one slots fun a _ here => (Attempt.isAt_iff.mp here).2
  retriedForCause before a after cut mode := by
    have member : a ∈ repairs ++ checks := by simp [cut]
    rcases List.mem_append.mp member with fixed | checked
    · rcases repairing a fixed with same | same <;> simp [mode] at same
    · obtain ⟨r, inside, same⟩ := cause a checked mode
      exact .inl ⟨r, mem_before_of_check repairing cut mode r inside, same⟩
  countedOnce n := by
    rw [countP_append_of_repairing repairing fun a adds => (place_of_addsViolationAt adds).1]
    exact countP_slot_le_one slots fun a _ adds => (place_of_addsViolationAt adds).2

/-- A first check that could not load the configuration, with its retry, retries once. -/
theorem retriesOnce_of_pair {f r : Attempt} (failed : s.isFailedLoad f = true) (first : f.slot = 0)
    (retry : r.mode = .checkWithout) (same : r.slot = 0) :
    s.RetriesOnce (repairs ++ [f, r]) where
  checkedOnce n := by
    rw [countP_append_of_repairing repairing fun a here => .inl (Attempt.isAt_iff.mp here).1]
    have other : r.isAt .check n = false := by simp [Attempt.isAt, retry]
    cases here : f.isAt .check n <;> simp [other, here]
  retriedOnce n := by
    rw [countP_append_of_repairing repairing fun a here => .inr (Attempt.isAt_iff.mp here).1]
    have other : f.isAt .checkWithout n = false := by
      simp [Attempt.isAt, mode_eq_of_isFailedLoad failed]
    cases here : r.isAt .checkWithout n <;> simp [other, here]
  retriedForCause before a after cut mode := by
    have cut' : (repairs ++ [f]) ++ [r] = before ++ a :: after := by simpa using cut
    have absent : a ∉ repairs ++ [f] := by
      intro member
      rcases List.mem_append.mp member with fixed | checked
      · rcases repairing a fixed with found | found <;> simp [mode] at found
      · rw [List.mem_singleton.mp checked, mode_eq_of_isFailedLoad failed] at mode
        contradiction
    have last : a = r := by
      have member : a ∈ (repairs ++ [f]) ++ [r] := by simp [cut']
      rcases List.mem_append.mp member with front | back
      · exact absurd front absent
      · exact List.mem_singleton.mp back
    refine .inr ⟨f, mem_before_of_append_eq cut' absent f (by simp), failed, ?_⟩
    rw [last, first, same]
  countedOnce n := by
    rw [countP_append_of_repairing repairing fun a adds => (place_of_addsViolationAt adds).1]
    have silent : s.addsViolationAt n f = false := by
      simp only [isFailedLoad, Bool.and_eq_true] at failed
      obtain ⟨output, found⟩ := failsToLoad_iff.mp failed.2
      simp [addsViolationAt, violation?, found]
    cases here : s.addsViolationAt n r <;> simp [silent, here]

end Phases

/-- Where a pass retries once and could not load the configuration, only the first check could not
load it, and no other invocation was retried. -/
theorem ChecksWith.length_le_two_of_retriesOnce {repairs checks : List Attempt} {t last : Tally}
    (checking : ChecksWith s 0 s.checkInvocations t checks last)
    (repairing : ∀ a ∈ repairs, a.mode = .repair ∨ a.mode = .repairWithout)
    (fixes : ∀ a ∈ repairs, a.mode = .repair) (once : s.RetriesOnce (repairs ++ checks))
    (failing : ∃ f ∈ checks, s.isFailedLoad f = true) : checks.length ≤ 2 := by
  have nonempty : s.recoveryInvocations ≠ [] := by
    intro none_left
    have lengths : s.recoveryInvocations.length = s.checkInvocations.length :=
      s.length_invocations _ _ _ _
    rw [none_left] at lengths
    rw [List.length_eq_zero_iff.mp lengths.symm] at checking
    cases checking
    simp at failing
  have single : checks.countP s.isFailedLoad ≤ 1 := by
    rw [← checking.countP_first_eq nonempty, ← countP_append_of_repairing repairing
      fun a here => .inr (Attempt.isAt_iff.mp here).1]
    exact once.retriedOnce 0
  -- The only check that failed to load is the cause of every retry, so all are in its slot.
  have cause : ∀ a ∈ checks, a.mode = .checkWithout →
      ∃ f ∈ checks, s.isFailedLoad f = true ∧ f.slot = a.slot := by
    intro a member mode
    obtain ⟨before, after, cut⟩ := List.append_of_mem (List.mem_append_right repairs member)
    rcases once.retriedForCause before a after cut mode with ⟨r, inside, bypassed⟩ | found
    · have member : r ∈ repairs ++ checks := by simp [cut, inside]
      rcases List.mem_append.mp member with fixed | checked
      · simp [fixes r fixed] at bypassed
      · have modes := checking.mode_eq r checked
        simp [bypassed] at modes
    · obtain ⟨f, inside, failed, same⟩ := found
      have member : f ∈ repairs ++ checks := by simp [cut, inside]
      rcases List.mem_append.mp member with fixed | checked
      · have mode := mode_eq_of_isFailedLoad failed
        simp [fixes f fixed] at mode
      · exact ⟨f, checked, failed, same⟩
  obtain ⟨r, retried, here⟩ : ∃ r ∈ checks, r.isAt .checkWithout 0 = true := by
    apply List.countP_pos_iff.mp
    rw [checking.countP_first_eq nonempty]
    exact List.countP_pos_iff.mpr failing
  obtain ⟨retry, first⟩ := Attempt.isAt_iff.mp here
  obtain ⟨f, member, failed, same⟩ := cause r retried retry
  apply checking.length_le_two ⟨f, member, failed, same.trans first⟩
  intro a inside mode
  obtain ⟨g, inside, failed', same'⟩ := cause a inside mode
  rw [← same', eq_of_countP_le_one single inside member failed' failed, same, first]

theorem ChecksWith.mode_eq_check {slot : Nat} {invs : List Invocation} {t last : Tally}
    {attempts : List Attempt} (checks : ChecksWith s slot invs t attempts last)
    (loaded : ∀ a ∈ attempts, s.isFailedLoad a = false) : ∀ a ∈ attempts, a.mode = .check := by
  induction checks with
  | finished => simp
  | timedOut => simp
  | next _ _ _ ih =>
      rw [List.forall_mem_cons] at loaded ⊢
      exact ⟨rfl, ih loaded.2⟩
  | recovered found | abandoned found =>
      rw [List.forall_mem_cons] at loaded
      have failed := loaded.1
      rw [← Bool.not_eq_true, isFailedLoad_iff] at failed
      exact absurd ⟨_, found⟩ failed

/-- A stage retries once exactly when no check failed to load the configuration, or when there were
no checks beyond the first one and its retry. -/
theorem Performs.retriesOnce_iff {attempts : List Attempt} {v : Verified}
    (performs : s.Performs attempts v) :
    s.RetriesOnce attempts ↔
      (∀ a ∈ attempts, s.isFailedLoad a = false) ∨ (checksOf attempts).length ≤ 2 := by
  obtain ⟨repairs, checks, rfl, repairing, phases⟩ := performs.exists_phases
  have repairs_loaded : ∀ a ∈ repairs, s.isFailedLoad a = false := by
    intro a member
    rcases repairing a member with mode | mode <;> simp [isFailedLoad, mode]
  constructor
  · intro once
    rcases phases with ⟨rfl, _⟩ | ⟨fixes, t, checking, _⟩ | ⟨_, t, goesOn, checking, _⟩
    · exact .inl (by simpa using repairs_loaded)
    · by_cases failing : ∃ f ∈ checks, s.isFailedLoad f = true
      · right
        rw [checksOf_append repairing checking.mode_eq]
        exact checking.length_le_two_of_retriesOnce repairing fixes once failing
      · left
        rw [List.forall_mem_append]
        exact ⟨repairs_loaded, by simpa using failing⟩
    · left
      rw [List.forall_mem_append]
      exact ⟨repairs_loaded, fun a member => by simp [isFailedLoad, checking.mode_eq a member]⟩
  · rintro settled
    rcases phases with ⟨rfl, _⟩ | ⟨fixes, t, checking, _⟩ | ⟨bypassed, t, goesOn, checking, _⟩
    · have slots : ([] : List Attempt).map (·.slot) = List.range' 0 0 := rfl
      exact retriesOnce_of_slots repairing slots (by simp)
    · by_cases failing : ∃ f ∈ checks, s.isFailedLoad f = true
      · have short : checks.length ≤ 2 := by
          rw [checksOf_append repairing checking.mode_eq] at settled
          rcases settled with loaded | short
          · obtain ⟨f, member, failed⟩ := failing
            simp [loaded f (List.mem_append_right _ member)] at failed
          · exact short
        obtain ⟨f, r, rfl, failed, first, retry, same⟩ := checking.eq_pair failing short
        exact retriesOnce_of_pair repairing failed first retry same
      · have loaded : ∀ a ∈ checks, s.isFailedLoad a = false := by simpa using failing
        have modes := checking.mode_eq_check loaded
        obtain ⟨count, slots⟩ := checking.check_slots_eq
        rw [List.filter_eq_self.mpr (by simpa using modes)] at slots
        refine retriesOnce_of_slots repairing slots ?_
        intro a member mode
        rw [modes a member] at mode
        contradiction
    · exact retriesOnce_of_slots repairing checking.slots_eq fun _ _ _ => bypassed

/-! ## The violations of a report -/

theorem violations_tallied (t : Tally) (e : Evaluation) :
    (s.tallied t e).violations = t.violations ++ match e with
      | .violation text => [text]
      | _ => [] := by
  cases e <;> simp [tallied, Tally.addViolation, Tally.addFailure]

theorem ChecksWithout.violations_eq {slot : Nat} {invs : List Invocation} {t last : Tally}
    {attempts : List Attempt} {goesOn : Bool}
    (checks : ChecksWithout s slot invs t attempts last goesOn) :
    last.violations = t.violations ++ attempts.filterMap s.violation? := by
  induction checks with
  | finished => simp
  | timedOut found => simp [Tally.addFailure, violation?, evaluation, found]
  | @next _ inv _ _ _ outcome _ _ _ _ ih =>
      rw [ih, violations_tallied, List.append_assoc]
      cases found : s.evaluate inv outcome <;> simp [violation?, evaluation, found]

theorem ChecksWith.violations_eq {slot : Nat} {invs : List Invocation} {t last : Tally}
    {attempts : List Attempt} (checks : ChecksWith s slot invs t attempts last) :
    last.violations = t.violations ++ attempts.filterMap s.violation? := by
  induction checks with
  | finished => simp
  | timedOut found => simp [Tally.addFailure, violation?, evaluation, found]
  | @next _ inv _ _ _ outcome _ _ _ _ ih =>
      rw [ih, violations_tallied, List.append_assoc]
      cases found : s.evaluate inv outcome <;> simp [violation?, evaluation, found]
  | recovered found retrying _ ih =>
      rw [ih, retrying.violations_eq]
      simp [violation?, evaluation, found]
  | abandoned found retrying =>
      rw [retrying.violations_eq]
      simp [violation?, evaluation, found]

theorem output_of_mem_findingsOf {t : Tally} {f : Finding} (member : f ∈ s.findingsOf t)
    (found : f.category ≠ .toolFailure) : f.output = "\n".intercalate t.violations := by
  simp only [findingsOf, List.mem_append] at member
  rcases member with violation | failure
  · split at violation
    · simp at violation
    · rw [List.mem_singleton.mp violation]
  · split at failure
    · simp at failure
    · rw [List.mem_singleton.mp failure] at found
      exact absurd rfl found

theorem findings_verdict (t : Tally) : (s.verdict t).findings = s.findingsOf t := by
  unfold verdict
  split
  · simp_all [Verified.findings]
  · rfl

/-- A finding about violations holds the texts of the checks, in order. -/
theorem Performs.output_eq {attempts : List Attempt} {v : Verified}
    (performs : s.Performs attempts v) {f : Finding} (member : f ∈ v.findings)
    (found : f.category ≠ .toolFailure) :
    f.output = "\n".intercalate ((checksOf attempts).filterMap s.violation?) := by
  obtain ⟨repairs, checks, rfl, repairing, phases⟩ := performs.exists_phases
  rcases phases with ⟨rfl, message, rfl⟩ | ⟨_, t, checking, rfl⟩ | ⟨_, t, _, checking, rfl⟩
  · rw [Verified.findings, List.mem_singleton] at member
    rw [member] at found
    exact absurd rfl found
  · have modes := checking.mode_eq
    rw [findings_verdict] at member
    rw [output_of_mem_findingsOf member found, checking.violations_eq,
      checksOf_append repairing modes, List.nil_append]
  · have modes : ∀ a ∈ checks, a.mode = .check ∨ a.mode = .checkWithout :=
      fun a inside => .inr (checking.mode_eq a inside)
    rw [findings_verdict] at member
    rw [output_of_mem_findingsOf member found, checking.violations_eq,
      checksOf_append repairing modes, List.nil_append]

end Stage

/-- When a binding is carried out, each invocation is run at most once in each mode, and without the
configuration only for a cause of its own, exactly when no check failed to load the configuration or
there were no checks beyond the first one and its retry. The finding about violations holds the
texts of all checks. -/
theorem Binding.verify_retriesOnce_iff {b : Binding} {tool : InstalledTool}
    {files : List Path} {options : StageOptions} {history : History} {v : Verified}
    (installed : b.installed = some tool) (nonempty : files ≠ [])
    (ends : (b.verify files options).EndsWith history v) :
    let s : Stage := ⟨tool, b.role, files, options⟩
    ∃ attempts, s.Performs attempts v ∧ history = attempts.map s.entry ∧
      (∀ f ∈ v.findings, f.category ≠ .toolFailure →
        f.output = "\n".intercalate ((Stage.checksOf attempts).filterMap s.violation?)) ∧
      (s.RetriesOnce attempts ↔
        (∀ a ∈ attempts, s.isFailedLoad a = false) ∨ (Stage.checksOf attempts).length ≤ 2) := by
  intro s
  rw [Binding.verify_endsWith_iff installed nonempty] at ends
  obtain ⟨attempts, performs, same⟩ := Stage.perform_endsWith_iff.mp ends
  exact ⟨attempts, performs, same, fun _ member => performs.output_eq member,
    performs.retriesOnce_iff⟩

/-! ## Two parts of a long list -/

section Parts

/-- A list that is longer than one part, but not than two, is cut once. -/
theorem Stage.chunks_eq_pair {size fuel : Nat} {files : List Path}
    (enough : 2 ≤ fuel) (long : size < files.length) (short : files.length ≤ 2 * size) :
    Stage.chunks size fuel files = [files.take size, files.drop size] := by
  match fuel, enough with
  | fuel + 2, _ =>
      have first : files.isEmpty = false := by
        rw [List.isEmpty_eq_false_iff]
        intro none_left
        simp [none_left] at long
      have second : (files.drop size).isEmpty = false := by
        rw [List.isEmpty_eq_false_iff]
        intro none_left
        have count := congrArg List.length none_left
        simp only [List.length_drop, List.length_nil] at count
        omega
      have third : (files.drop size).drop size = [] := by
        rw [List.drop_drop, List.drop_eq_nil_iff]
        omega
      have whole : (files.drop size).take size = files.drop size := by
        apply List.take_of_length_le
        rw [List.length_drop]
        omega
      have ended : Stage.chunks size fuel [] = [] := by cases fuel <;> rfl
      simp [Stage.chunks, first, second, third, whole, ended]

/-- A linter on more files than one invocation takes. -/
def splitStage : Stage where
  tool := ⟨.ruff, "/bin/ruff", none⟩
  role := .linter
  files := (List.range 201).map fun n => s!"f{n}.py"
  options := { root := "/w", profile := "python" }

def splitBinding : Binding :=
  ⟨.linter, ["ruff"], some splitStage.tool⟩

/-- What the linter is given in one of the two parts. -/
def splitInvocation (extra : List String) (files : List Path) : Invocation :=
  splitStage.tool.baseInvocation.withArgs
    (splitStage.checkArgs ++ extra ++ files.map Path.asArgument)

theorem splitStage_invocations_eq (extra : List String) :
    splitStage.invocations splitStage.checkArgs extra =
      [splitInvocation extra (splitStage.files.take 200),
        splitInvocation extra (splitStage.files.drop 200)] := by
  have count : splitStage.files.length = 201 := by simp [splitStage]
  have parts : Stage.chunks Stage.maxFiles splitStage.files.length splitStage.files =
      [splitStage.files.take 200, splitStage.files.drop 200] := by
    apply Stage.chunks_eq_pair
    · omega
    · rw [count]
      decide
    · rw [count]
      decide
  have targets : splitStage.tool.tool.targets = .files := rfl
  simp only [Stage.invocations, Stage.targetLists, targets, parts, List.map_cons, List.map_nil]
  rfl

/-- A check of one part, which cannot load the configuration. -/
def splitCheck (slot : Nat) (files : List Path) : Stage.Attempt where
  mode := .check
  slot := slot
  invocation := splitInvocation [] files
  outcome := .exited (some 2) "Failed to parse /w/pyproject.toml"

/-- A retry of one part, which finds a violation. -/
def splitRetry (slot : Nat) (files : List Path) : Stage.Attempt where
  mode := .checkWithout
  slot := slot
  invocation := splitInvocation splitStage.overrideArgs files
  outcome := .exited (some 1) "E1"

def splitRetries : List Stage.Attempt :=
  [splitRetry 0 (splitStage.files.take 200), splitRetry 1 (splitStage.files.drop 200)]

/-- Both parts are run again for each of the two checks. -/
def splitAttempts : List Stage.Attempt :=
  splitCheck 0 (splitStage.files.take 200) :: (splitRetries ++
    splitCheck 1 (splitStage.files.drop 200) :: (splitRetries ++ []))

theorem splitStage_unloaded (inv : Invocation) :
    splitStage.evaluate inv (.exited (some 2) "Failed to parse /w/pyproject.toml") =
      .configError "Failed to parse /w/pyproject.toml" := by
  have shown : splitStage.showsConfigError "Failed to parse /w/pyproject.toml" = true := by
    decide
  simp [Stage.evaluate, shown]

theorem splitStage_violated (inv : Invocation) :
    splitStage.evaluate inv (.exited (some 1) "E1") = .violation "E1" := by
  have hidden : splitStage.showsConfigError "E1" = false := by decide
  have codes : 1 ∉ splitStage.tool.tool.failureCodes := by decide
  have printed : Text.allBlank "E1" = false := by decide
  simp [Stage.evaluate, hidden, codes, printed]

theorem splitStage_performs :
    splitStage.Performs splitAttempts
      (splitStage.verdict ⟨["E1", "E1", "E1", "E1"], []⟩) := by
  have checks : splitStage.checkInvocations =
      [splitInvocation [] (splitStage.files.take 200),
        splitInvocation [] (splitStage.files.drop 200)] := splitStage_invocations_eq []
  have retries : splitStage.recoveryInvocations =
      [splitInvocation splitStage.overrideArgs (splitStage.files.take 200),
        splitInvocation splitStage.overrideArgs (splitStage.files.drop 200)] :=
    splitStage_invocations_eq splitStage.overrideArgs
  have retrying (t : Tally) : splitStage.ChecksWithout 0 splitStage.recoveryInvocations t
      splitRetries ((t.addViolation "E1").addViolation "E1") true := by
    rw [retries]
    refine .next (by simp [splitStage_violated]) ?_
    rw [splitStage_violated]
    refine .next (by simp [splitStage_violated]) ?_
    rw [splitStage_violated]
    exact .finished 2 _
  have checking : splitStage.ChecksWith 0 splitStage.checkInvocations {} splitAttempts
      ⟨["E1", "E1", "E1", "E1"], []⟩ := by
    rw [checks]
    refine .recovered (splitStage_unloaded _) (retrying {}) ?_
    exact .recovered (splitStage_unloaded _) (retrying _) (.finished 2 _)
  exact .unrepaired rfl checking

theorem splitBinding_endsWith :
    (splitBinding.verify splitStage.files splitStage.options).EndsWith
      (splitAttempts.map splitStage.entry)
      (splitStage.verdict ⟨["E1", "E1", "E1", "E1"], []⟩) := by
  rw [Binding.verify_endsWith_iff rfl (by simp [splitStage])]
  exact Stage.perform_endsWith_iff.mpr ⟨_, splitStage_performs, rfl⟩

/-- With two parts that cannot load the configuration, each part is run without it twice. -/
theorem Binding.verify_retries_twice :
    splitBinding.installed = some splitStage.tool ∧
      splitStage.Performs splitAttempts (splitStage.verdict ⟨["E1", "E1", "E1", "E1"], []⟩) ∧
      (splitBinding.verify splitStage.files splitStage.options).EndsWith
        (splitAttempts.map splitStage.entry)
        (splitStage.verdict ⟨["E1", "E1", "E1", "E1"], []⟩) ∧
      ¬ splitStage.RetriesOnce splitAttempts := by
  refine ⟨rfl, splitStage_performs, splitBinding_endsWith, ?_⟩
  intro once
  have counted : splitAttempts.countP (·.isAt .checkWithout 0) = 2 := by
    simp [splitAttempts, splitRetries, splitCheck, splitRetry, Stage.Attempt.isAt]
  have atMost := once.retriedOnce 0
  omega

theorem Binding.verify_retriesOnce_iff_split :
    splitBinding.installed = some splitStage.tool ∧ splitStage.files ≠ [] ∧
      (splitBinding.verify splitStage.files splitStage.options).EndsWith
        (splitAttempts.map splitStage.entry)
        (splitStage.verdict ⟨["E1", "E1", "E1", "E1"], []⟩) ∧
      ∃ attempts,
        splitStage.Performs attempts (splitStage.verdict ⟨["E1", "E1", "E1", "E1"], []⟩) ∧
        splitAttempts.map splitStage.entry = attempts.map splitStage.entry ∧
        (∀ f ∈ (splitStage.verdict ⟨["E1", "E1", "E1", "E1"], []⟩).findings,
          f.category ≠ .toolFailure →
            f.output = "\n".intercalate
              ((Stage.checksOf attempts).filterMap splitStage.violation?)) ∧
        (splitStage.RetriesOnce attempts ↔
          (∀ a ∈ attempts, splitStage.isFailedLoad a = false) ∨
            (Stage.checksOf attempts).length ≤ 2) := by
  have nonempty : splitStage.files ≠ [] := by simp [splitStage]
  exact ⟨rfl, nonempty, splitBinding_endsWith,
    Binding.verify_retriesOnce_iff (b := splitBinding) rfl nonempty splitBinding_endsWith⟩

end Parts

end LintGate
