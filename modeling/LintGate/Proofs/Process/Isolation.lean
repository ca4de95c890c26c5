import LintGate.Proofs.Process.Interleaving

/-!
# One job among others

When a job sees nothing of what the programs of the others change, it comes to what it comes to
alone, in whatever order the steps are taken. The others may do what they like otherwise, and need
not do the same again.
-/

namespace LintGate

namespace Job

variable {α σ : Type} {host host' : Host σ} {valid : σ → Prop}
  {sees spares : FileTree → FileTree → Prop} {job left : Job α} {s between last : σ}

theorem mayRun_of_step {launch : Launch} (stepped : job.step? host s = some (left, between))
    (runs : left.MayRun launch) : job.MayRun launch := by
  rcases step_cases stepped with ⟨first, next, rfl, rfl, rfl⟩ | ⟨next, rfl, rfl, rfl⟩
  · exact runs.run
  · exact runs.look

theorem exists_endsWith_of_step {history : History} {answer : α}
    (stepped : job.step? host s = some (left, between)) (ends : left.EndsWith history answer) :
    ∃ longer, job.EndsWith longer answer := by
  rcases step_cases stepped with ⟨first, next, rfl, rfl, rfl⟩ | ⟨next, rfl, rfl, rfl⟩
  · exact ⟨_, .run ends⟩
  · exact ⟨_, .look ends⟩

/-! ## What others do not see -/

/-- No program of the job leaves the valid states or changes what is seen. -/
structure Unseen (host : Host σ) (valid : σ → Prop) (sees : FileTree → FileTree → Prop)
    (job : Job α) : Prop where
  staysValid : ∀ {launch s}, job.MayRun launch → valid s → valid (host.run s launch).2
  same : ∀ {launch s}, job.MayRun launch → valid s →
    sees (host.tree s) (host.tree (host.run s launch).2)

namespace Unseen

theorem step (unseen : job.Unseen host valid sees)
    (stepped : job.step? host s = some (left, between)) : left.Unseen host valid sees where
  staysValid := fun runs => unseen.staysValid (mayRun_of_step stepped runs)
  same := fun runs => unseen.same (mayRun_of_step stepped runs)

theorem of_step (unseen : job.Unseen host valid sees) (alike : Equivalence sees) (start : valid s)
    (stepped : job.step? host s = some (left, between)) :
    valid between ∧ sees (host.tree s) (host.tree between) := by
  rcases step_cases stepped with ⟨launch, next, rfl, rfl, rfl⟩ | ⟨next, rfl, rfl, rfl⟩
  · have runs := mayRun_run launch next
    exact ⟨unseen.staysValid runs start, unseen.same runs start⟩
  · exact ⟨start, alike.refl _⟩

end Unseen

/-! ## The answer at one place -/

section Place

variable {jobs : List (Job α)} {results : List α} {i : Nat}

theorem Interleaves.length_eq {later : List (Job α)}
    (interleaved : Interleaves host jobs s later last) : later.length = jobs.length := by
  induction interleaved with
  | rest => rfl
  | step _ _ _ ih => rw [ih, List.length_set]

theorem exists_answer_of_done (found : (results.map done)[i]? = some job) :
    ∃ answer, results[i]? = some answer ∧ job = done answer := by
  rw [List.getElem?_map, Option.map_eq_some_iff] at found
  obtain ⟨answer, there, same⟩ := found
  exact ⟨answer, there, same.symm⟩

/-- Each of the jobs ends, with one of the answers that it can end with. -/
theorem Interleaves.exists_endsWith (interleaved : Interleaves host jobs s (results.map done) last)
    (found : jobs[i]? = some job) :
    ∃ answer history, results[i]? = some answer ∧ job.EndsWith history answer := by
  generalize ended : results.map done = later at interleaved
  induction interleaved generalizing job with
  | rest jobs s =>
      subst ended
      obtain ⟨answer, there, rfl⟩ := exists_answer_of_done found
      exact ⟨answer, [], there, .done answer⟩
  | @step jobs later s between last k other left stepping stepped _ ih =>
      by_cases here : k = i
      · subst here
        cases stepping.symm.trans found
        have inside : k < jobs.length := (List.getElem?_eq_some_iff.mp stepping).1
        obtain ⟨answer, history, there, ends⟩ := ih (List.getElem?_set_self inside) ended
        obtain ⟨longer, ends⟩ := exists_endsWith_of_step stepped ends
        exact ⟨answer, longer, there, ends⟩
      · apply ih _ ended
        rwa [List.getElem?_set_ne here]

/-- A job among others comes to what it comes to alone. -/
theorem Interleaves.answer_eq (alike : Equivalence sees)
    (interleaved : Interleaves host jobs s (results.map done) last) (start : valid s)
    (found : jobs[i]? = some job) (confined : job.Confined host valid sees spares)
    (others : ∀ {k other}, k ≠ i → jobs[k]? = some other → other.Unseen host valid sees) :
    results[i]? = some (job.perform host s).1 := by
  generalize ended : results.map done = later at interleaved
  induction interleaved generalizing job with
  | rest jobs s =>
      subst ended
      obtain ⟨answer, there, rfl⟩ := exists_answer_of_done found
      exact there
  | @step jobs later s between last k other left stepping stepped _ ih =>
      have inside : k < jobs.length := (List.getElem?_eq_some_iff.mp stepping).1
      -- A step of its own does not change what the job comes to, and others it does not see.
      by_cases here : k = i
      · subst here
        cases stepping.symm.trans found
        rw [← perform_eq_of_step stepped]
        apply ih (confined.staysValid_of_step start stepped) (List.getElem?_set_self inside)
          (confined.step stepped) _ ended
        intro place another elsewhere there
        rw [List.getElem?_set_ne elsewhere.symm] at there
        exact others elsewhere there
      · have unseen := others here stepping
        obtain ⟨valid_between, same⟩ := unseen.of_step alike start stepped
        rw [(confined.perform_congr start valid_between same).1]
        apply ih valid_between _ confined _ ended
        · rwa [List.getElem?_set_ne here]
        · intro place another elsewhere there
          by_cases moved : k = place
          · subst moved
            rw [List.getElem?_set_self inside] at there
            cases there
            exact unseen.step stepped
          · rw [List.getElem?_set_ne moved] at there
            exact others elsewhere there

end Place

/-- On machines that agree on its programs, a job comes to the same. -/
theorem perform_eq_of_agree (tree_eq : host'.tree = host.tree)
    (staysValid : ∀ {launch s}, job.MayRun launch → valid s → valid (host.run s launch).2)
    (run_eq : ∀ {launch s}, job.MayRun launch → valid s → host'.run s launch = host.run s launch)
    (start : valid s) : job.perform host' s = job.perform host s := by
  induction job generalizing s with
  | done answer => rfl
  | run launch next ih =>
      have first := mayRun_run launch next
      rw [perform_run, perform_run, run_eq first start]
      apply ih
      · intro other s later
        exact staysValid later.run
      · intro other s later
        exact run_eq later.run
      · exact staysValid first start
  | look next ih =>
      rw [perform_look, perform_look, tree_eq]
      apply ih
      · intro launch s later
        exact staysValid later.look
      · intro launch s later
        exact run_eq later.look
      · exact start

end Job

end LintGate
