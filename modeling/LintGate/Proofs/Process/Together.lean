import LintGate.Proofs.Process.Isolation

/-!
# Histories of interleavings

Jobs that are worked on side by side have one history together. What one of them contributes to it
is a history of that job, and the rest comes from the others. Jobs done one after another are a
special case.
-/

namespace LintGate

namespace Job

variable {α β σ : Type}

/-- Worked on side by side, the jobs may run these programs, with these outcomes, and then end with
these answers. -/
inductive EndTogether : List (Job α) → History → List α → Prop where
  | done (answers : List α) : EndTogether (answers.map done) [] answers
  | run {jobs : List (Job α)} {i : Nat} {launch : Launch} {next : Outcome → Job α}
      {outcome : Outcome} {history : History} {answers : List α} :
      jobs[i]? = some (.run launch next) →
      EndTogether (jobs.set i (next outcome)) history answers →
      EndTogether jobs ((launch, outcome) :: history) answers
  | look {jobs : List (Job α)} {i : Nat} {next : FileTree → Job α} {tree : FileTree}
      {history : History} {answers : List α} :
      jobs[i]? = some (.look next) →
      EndTogether (jobs.set i (next tree)) history answers →
      EndTogether jobs history answers

/-- Whoever works on jobs side by side produces one of their histories together. -/
theorem Interleaves.exists_ran {host : Host σ} {jobs : List (Job α)} {answers : List α}
    {s last : σ} (interleaved : Interleaves host jobs s (answers.map Job.done) last) :
    ∃ history, EndTogether jobs history answers ∧ host.Ran history := by
  generalize ended : answers.map done = later at interleaved
  induction interleaved with
  | rest jobs s => exact ⟨[], ended ▸ .done answers, by simp [Host.Ran]⟩
  | @step _ _ s _ _ _ _ _ found stepped _ ih =>
      obtain ⟨history, together, ran⟩ := ih ended
      rcases step_cases stepped with ⟨launch, next, rfl, rfl, -⟩ | ⟨next, rfl, rfl, -⟩
      · exact ⟨_, .run found together, ran.cons launch s⟩
      · exact ⟨history, .look found together, ran⟩

theorem Interleaves.exists_endTogether {host : Host σ} {jobs : List (Job α)} {answers : List α}
    {s last : σ} (interleaved : Interleaves host jobs s (answers.map Job.done) last) :
    ∃ history, EndTogether jobs history answers := by
  obtain ⟨history, together, -⟩ := interleaved.exists_ran
  exact ⟨history, together⟩

/-! ## One job after another -/

/-- One job may come to its end while the others wait. -/
theorem EndsWith.endTogether {job : Job α} {own later : History} {answer : α} {answers : List α}
    {front back : List (Job α)} (ends : job.EndsWith own answer)
    (onward : EndTogether (front ++ Job.done answer :: back) later answers) :
    EndTogether (front ++ job :: back) (own ++ later) answers := by
  have found (job : Job α) : (front ++ job :: back)[front.length]? = some job := by simp
  induction ends with
  | done answer => exact onward
  | run _ ih =>
      apply EndTogether.run (found _)
      rw [List.set_append_right _ _ (Nat.le_refl _), Nat.sub_self, List.set_cons_zero]
      exact ih onward
  | look _ ih =>
      apply EndTogether.look (found _)
      rw [List.set_append_right _ _ (Nat.le_refl _), Nat.sub_self, List.set_cons_zero]
      exact ih onward

/-- What is done for one member of a list after another can be done for all of them together. -/
theorem endTogether_of_each {f : α → Job β} {xs : List α} {ys : List β} {history : History}
    (ends : (each f xs).EndsWith history ys) : EndTogether (xs.map f) history ys := by
  -- The jobs in front have come to their ends when the next one is begun.
  suffices behind : ∀ front : List β,
      EndTogether (front.map done ++ xs.map f) history (front ++ ys) from behind []
  induction xs generalizing history ys with
  | nil =>
      obtain ⟨rfl, rfl⟩ := done_endsWith_iff.mp ends
      intro front
      simpa using EndTogether.done front
  | cons x xs ih =>
      obtain ⟨own, _, y, rfl, first, ends⟩ := andThen_endsWith_iff.mp ends
      obtain ⟨later, _, more, rfl, others, ends⟩ := andThen_endsWith_iff.mp ends
      obtain ⟨rfl, rfl⟩ := done_endsWith_iff.mp ends
      intro front
      apply first.endTogether
      simpa using ih others (front ++ [y])

/-! ## What one job contributes -/

variable {jobs : List (Job α)} {history : History} {answers : List α} {p : Launch → Bool}

theorem EndTogether.length_eq (together : EndTogether jobs history answers) :
    answers.length = jobs.length := by
  induction together with
  | done => rw [List.length_map]
  | run _ _ ih | look _ _ ih => rw [ih, List.length_set]

/-- No job but the one at a place may run a program of a kind. -/
def AloneWith (p : Launch → Bool) (jobs : List (Job α)) (i : Nat) : Prop :=
  ∀ k other launch, k ≠ i → jobs[k]? = some other → other.MayRun launch → p launch = false

theorem AloneWith.set {i k : Nat} {job left : Job α} (alone : AloneWith p jobs i)
    (found : jobs[k]? = some job) (fewer : ∀ launch, left.MayRun launch → job.MayRun launch) :
    AloneWith p (jobs.set k left) i := by
  intro place other launch elsewhere there runs
  by_cases here : k = place
  · subst here
    rw [List.getElem?_set_self (List.getElem?_eq_some_iff.mp found).1] at there
    cases there
    exact alone k job launch elsewhere found (fewer launch runs)
  · rw [List.getElem?_set_ne here] at there
    exact alone place other launch elsewhere there runs

/-- What is run for one of the jobs stands in the history together with what is run for the others.
Programs that no other job may run are run as in a history of that job. -/
theorem EndTogether.exists_part {i : Nat} {job : Job α}
    (together : EndTogether jobs history answers) (found : jobs[i]? = some job) :
    ∃ own answer, answers[i]? = some answer ∧ job.EndsWith own answer ∧ own.Sublist history ∧
      ∀ p, AloneWith p jobs i → history.filter (p ·.1) = own.filter (p ·.1) := by
  induction together generalizing job with
  | done answers =>
      obtain ⟨answer, there, rfl⟩ := exists_answer_of_done found
      exact ⟨[], answer, there, .done answer, .slnil, fun _ _ => rfl⟩
  | @run jobs k launch next outcome history answers stepping _ ih =>
      have inside : k < jobs.length := (List.getElem?_eq_some_iff.mp stepping).1
      have later {p : Launch → Bool} (alone : AloneWith p jobs i) :
          AloneWith p (jobs.set k (next outcome)) i :=
        alone.set stepping fun launch (runs : (next outcome).MayRun launch) => runs.run
      by_cases here : k = i
      · subst here
        cases stepping.symm.trans found
        obtain ⟨own, answer, there, ends, part, same⟩ := ih (List.getElem?_set_self inside)
        refine ⟨(launch, outcome) :: own, answer, there, .run ends, part.cons_cons _, ?_⟩
        intro p alone
        rw [List.filter_cons, List.filter_cons, same p (later alone)]
      · -- Another job goes on, and what it runs is of another kind.
        have still : (jobs.set k (next outcome))[i]? = some job := by
          rwa [List.getElem?_set_ne here]
        obtain ⟨own, answer, there, ends, part, same⟩ := ih still
        refine ⟨own, answer, there, ends, part.cons _, ?_⟩
        intro p alone
        rw [List.filter_cons, alone k _ launch here stepping (mayRun_run launch next),
          if_neg Bool.false_ne_true, same p (later alone)]
  | @look jobs k next tree history answers stepping _ ih =>
      have inside : k < jobs.length := (List.getElem?_eq_some_iff.mp stepping).1
      have later {p : Launch → Bool} (alone : AloneWith p jobs i) :
          AloneWith p (jobs.set k (next tree)) i :=
        alone.set stepping fun launch (runs : (next tree).MayRun launch) => runs.look
      by_cases here : k = i
      · subst here
        cases stepping.symm.trans found
        obtain ⟨own, answer, there, ends, part, same⟩ := ih (List.getElem?_set_self inside)
        exact ⟨own, answer, there, .look ends, part, fun p alone => same p (later alone)⟩
      · have still : (jobs.set k (next tree))[i]? = some job := by
          rwa [List.getElem?_set_ne here]
        obtain ⟨own, answer, there, ends, part, same⟩ := ih still
        exact ⟨own, answer, there, ends, part, fun p alone => same p (later alone)⟩

/-- Each answer of jobs for a list is the answer for one of its members, and what was run for it
stands in the history. -/
theorem EndTogether.exists_part_of_mem {f : α → Job β} {xs : List α} {ys : List β} {y : β}
    (together : EndTogether (xs.map f) history ys) (member : y ∈ ys) :
    ∃ x ∈ xs, ∃ own, (f x).EndsWith own y ∧ own.Sublist history := by
  obtain ⟨i, inside, rfl⟩ := List.getElem_of_mem member
  have place : i < xs.length := by
    rw [together.length_eq, List.length_map] at inside
    exact inside
  have found : (xs.map f)[i]? = some (f xs[i]) := by
    rw [List.getElem?_map, List.getElem?_eq_getElem place, Option.map_some]
  obtain ⟨own, answer, there, ends, part, -⟩ := together.exists_part found
  rw [List.getElem?_eq_getElem inside] at there
  cases there
  exact ⟨_, List.getElem_mem place, own, ends, part⟩

theorem EndTogether.exists_own {i : Nat} {job : Job α}
    (together : EndTogether jobs history answers) (found : jobs[i]? = some job)
    (alone : AloneWith p jobs i) :
    ∃ own answer, answers[i]? = some answer ∧ job.EndsWith own answer ∧
      history.filter (p ·.1) = own.filter (p ·.1) := by
  obtain ⟨own, answer, there, ends, -, same⟩ := together.exists_part found
  exact ⟨own, answer, there, ends, same p alone⟩

theorem EndTogether.exists_mayRun (together : EndTogether jobs history answers)
    {launch : Launch} {outcome : Outcome} (member : (launch, outcome) ∈ history) :
    ∃ job ∈ jobs, job.MayRun launch := by
  induction together with
  | done => cases member
  | @run jobs k first next outcome history answers stepping _ ih =>
      rcases List.mem_cons.mp member with here | later
      · cases here
        exact ⟨_, List.mem_of_getElem? stepping, mayRun_run _ _⟩
      · obtain ⟨job, inside, runs⟩ := ih later
        rcases List.mem_or_eq_of_mem_set inside with old | rfl
        · exact ⟨job, old, runs⟩
        · exact ⟨_, List.mem_of_getElem? stepping, runs.run⟩
  | @look jobs k next tree history answers stepping _ ih =>
      obtain ⟨job, inside, runs⟩ := ih member
      rcases List.mem_or_eq_of_mem_set inside with old | rfl
      · exact ⟨job, old, runs⟩
      · exact ⟨_, List.mem_of_getElem? stepping, runs.look⟩

end Job

end LintGate
