import LintGate.Proofs.Process.History
import Mathlib.Logic.Hydra

/-!
# Interleavings of jobs

Jobs are worked on side by side when a system takes, at any time, a step of any one of them. If what
a job does depends only on what it sees, and no other job changes that, then each job comes to what
it comes to alone, whatever the order of the steps. So side by side and one after another come to
the same.
-/

namespace LintGate

namespace Job

variable {α β σ ι : Type} {host : Host σ}

/-- One step of a job: what is left of it when its next request has been answered. -/
def step? (host : Host σ) : Job α → σ → Option (Job α × σ)
  | done _, _ => none
  | run launch next, s => some (next (host.run s launch).1, (host.run s launch).2)
  | look next, s => some (next (host.tree s), s)

/-- Steps of some jobs, in any order. -/
inductive Interleaves (host : Host σ) : List (Job α) → σ → List (Job α) → σ → Prop where
  | rest (jobs : List (Job α)) (s : σ) : Interleaves host jobs s jobs s
  | step {jobs later : List (Job α)} {s between last : σ} {i : Nat} {job left : Job α} :
      jobs[i]? = some job → job.step? host s = some (left, between) →
      Interleaves host (jobs.set i left) between later last →
      Interleaves host jobs s later last

/-- What a step is. -/
theorem step_cases {job left : Job α} {s between : σ}
    (stepped : job.step? host s = some (left, between)) :
    (∃ launch next, job = .run launch next ∧ left = next (host.run s launch).1 ∧
      between = (host.run s launch).2) ∨
    ∃ next, job = .look next ∧ left = next (host.tree s) ∧ between = s := by
  cases job with
  | done answer => cases stepped
  | run launch next =>
      cases stepped
      exact .inl ⟨launch, next, rfl, rfl, rfl⟩
  | look next =>
      cases stepped
      exact .inr ⟨next, rfl, rfl, rfl⟩

theorem perform_eq_of_step {job left : Job α} {s between : σ}
    (stepped : job.step? host s = some (left, between)) :
    left.perform host between = job.perform host s := by
  rcases step_cases stepped with ⟨launch, next, rfl, rfl, rfl⟩ | ⟨next, rfl, rfl, rfl⟩
  · rfl
  · rfl

/-! ## Every interleaving ends -/

/-- What can be left of a job after one step. -/
inductive Continues : Job α → Job α → Prop where
  | run (launch : Launch) (next : Outcome → Job α) (outcome : Outcome) :
      Continues (next outcome) (.run launch next)
  | look (next : FileTree → Job α) (tree : FileTree) : Continues (next tree) (.look next)

theorem continues_of_step {job left : Job α} {s between : σ}
    (stepped : job.step? host s = some (left, between)) : Continues left job := by
  rcases step_cases stepped with ⟨launch, next, rfl, rfl, rfl⟩ | ⟨next, rfl, rfl, rfl⟩
  · exact .run launch next _
  · exact .look next _

theorem wellFounded_continues : WellFounded (Continues (α := α)) := by
  constructor
  intro job
  induction job with
  | done answer =>
      constructor
      intro left continues
      cases continues
  | run launch next ih =>
      constructor
      intro left continues
      cases continues with
      | run _ _ outcome => exact ih outcome
  | look next ih =>
      constructor
      intro left continues
      cases continues with
      | look _ tree => exact ih tree

theorem coe_set_add {jobs : List α} {i : Nat} {job : α} (found : jobs[i]? = some job) (left : α) :
    ((jobs.set i left : List α) : Multiset α) + {job} = jobs + {left} := by
  induction jobs generalizing i with
  | nil => cases found
  | cons first jobs ih =>
      cases i with
      | zero =>
          cases found
          rw [List.set_cons_zero, ← Multiset.cons_coe, ← Multiset.cons_coe, Multiset.cons_add,
            Multiset.cons_add, add_comm, Multiset.singleton_add, add_comm, Multiset.singleton_add,
            Multiset.cons_swap]
      | succ i =>
          rw [List.set_cons_succ, ← Multiset.cons_coe, ← Multiset.cons_coe, Multiset.cons_add,
            Multiset.cons_add, ih found]

/-- A step of one of some jobs. -/
def StepsTo (host : Host σ) (later now : List (Job α) × σ) : Prop :=
  ∃ i job left, now.1[i]? = some job ∧ job.step? host now.2 = some (left, later.2) ∧
    later.1 = now.1.set i left

/-- No interleaving goes on for ever. -/
theorem wellFounded_stepsTo (host : Host σ) : WellFounded (StepsTo (α := α) host) := by
  have jobsShrink := InvImage.wf (fun pool : List (Job α) × σ => (pool.1 : Multiset (Job α)))
    (wellFounded_continues (α := α)).cutExpand
  apply Subrelation.wf _ jobsShrink
  rintro ⟨later, between⟩ ⟨now, s⟩ ⟨i, job, left, found, stepped, rfl⟩
  refine ⟨{left}, job, ?_, ?_⟩
  · intro other member
    rw [Multiset.mem_singleton.mp member]
    exact continues_of_step stepped
  · exact coe_set_add found left

/-! ## One job after another -/

theorem Interleaves.trans {first second third : List (Job α)} {s between last : σ}
    (early : Interleaves host first s second between)
    (late : Interleaves host second between third last) :
    Interleaves host first s third last := by
  induction early with
  | rest => exact late
  | step found stepped _ ih => exact .step found stepped (ih late)

theorem Interleaves.eq_of_nil {later : List (Job α)} {s last : σ}
    (interleaved : Interleaves host [] s later last) : last = s := by
  cases interleaved with
  | rest => rfl
  | step found => cases found

/-- One job may be carried out while all others wait. -/
theorem interleaves_perform (host : Host σ) (front back : List (Job α)) (job : Job α) (s : σ) :
    Interleaves host (front ++ job :: back) s
      (front ++ done (job.perform host s).1 :: back) (job.perform host s).2 := by
  have found (job : Job α) : (front ++ job :: back)[front.length]? = some job := by simp
  have changed (job left : Job α) :
      (front ++ job :: back).set front.length left = front ++ left :: back := by simp
  induction job generalizing s with
  | done answer => exact .rest _ _
  | run launch next ih =>
      apply Interleaves.step (found _) rfl
      rw [changed]
      exact ih _ _
  | look next ih =>
      apply Interleaves.step (found _) rfl
      rw [changed]
      exact ih _ _

/-- To carry out one job after another is one of the orders. -/
theorem interleaves_each (host : Host σ) (f : ι → Job α) (front : List (Job α)) (xs : List ι)
    (s : σ) :
    Interleaves host (front ++ xs.map f) s
      (front ++ ((each f xs).perform host s).1.map done) ((each f xs).perform host s).2 := by
  induction xs generalizing front s with
  | nil => exact .rest _ _
  | cons x xs ih =>
      have first := interleaves_perform host front (xs.map f) (f x) s
      have later := ih (front ++ [done ((f x).perform host s).1]) ((f x).perform host s).2
      rw [List.append_assoc, List.append_assoc] at later
      rw [each, perform_andThen, perform_andThen, perform_done]
      exact first.trans later

/-- Wherever some jobs stand, they can be brought to their ends. -/
theorem exists_interleaves_done (host : Host σ) (jobs : List (Job α)) (s : σ) :
    ∃ (results : List α) (last : σ), Interleaves host jobs s (results.map done) last := by
  have sequential := interleaves_each host id [] jobs s
  rw [List.map_id] at sequential
  exact ⟨_, _, sequential⟩

/-! ## Jobs that keep to themselves -/

/-- Whenever the job looks, it goes on alike for any two trees that are the same in this sense. -/
inductive LooksOnly (same : FileTree → FileTree → Prop) : Job α → Prop where
  | done (answer : α) : LooksOnly same (.done answer)
  | run {launch : Launch} {next : Outcome → Job α} :
      (∀ outcome, LooksOnly same (next outcome)) → LooksOnly same (.run launch next)
  | look {next : FileTree → Job α} :
      (∀ t u, same t u → next t = next u) → (∀ t, LooksOnly same (next t)) →
      LooksOnly same (.look next)

/-- A program does the same to trees that `sees` does not tell apart, and before and after it
`spares` does not tell the trees apart. -/
structure Host.Confines (host : Host σ) (valid : σ → Prop)
    (sees spares : FileTree → FileTree → Prop)
    (launch : Launch) : Prop where
  staysValid : ∀ {s}, valid s → valid (host.run s launch).2
  spares : ∀ {s}, valid s → spares (host.tree s) (host.tree (host.run s launch).2)
  outcome_eq : ∀ {s u}, valid s → valid u → sees (host.tree s) (host.tree u) →
    (host.run s launch).1 = (host.run u launch).1
  seesSame : ∀ {s u}, valid s → valid u → sees (host.tree s) (host.tree u) →
    sees (host.tree (host.run s launch).2) (host.tree (host.run u launch).2)

/-- What a job makes of the files is what `sees` shows, and so are the programs that it runs. -/
structure Confined (host : Host σ) (valid : σ → Prop) (sees spares : FileTree → FileTree → Prop)
    (job : Job α) : Prop where
  looks : job.LooksOnly sees
  runs : ∀ {launch}, job.MayRun launch → host.Confines valid sees spares launch

section Same

variable {same : FileTree → FileTree → Prop}

theorem LooksOnly.mono {other : FileTree → FileTree → Prop} {job : Job α}
    (looks : job.LooksOnly other)
    (finer : ∀ t u, same t u → other t u) : job.LooksOnly same := by
  induction looks with
  | done answer => exact .done answer
  | run _ ih => exact .run ih
  | look alike _ ih => exact .look (fun t u looksSame => alike t u (finer t u looksSame)) ih

theorem LooksOnly.seen {view : FileTree → α} (alike : ∀ t u, same t u → view t = view u) :
    (Job.seen view).LooksOnly same :=
  .look (fun t u looksSame => congrArg Job.done (alike t u looksSame)) fun _ => .done _

/-- The second job is only asked about answers that the first one can give. -/
theorem LooksOnly.andThen {x : Job α} {f : α → Job β} (first : x.LooksOnly same)
    (second : ∀ history a, x.EndsWith history a → (f a).LooksOnly same) :
    (x.andThen f).LooksOnly same := by
  induction first with
  | done a => exact second [] a (.done a)
  | run _ ih =>
      apply LooksOnly.run
      intro outcome
      exact ih outcome fun history a ends => second _ a (.run ends)
  | look alike _ ih =>
      apply LooksOnly.look
      · intro t u looksSame
        exact congrArg (fun job => job.andThen f) (alike t u looksSame)
      · intro t
        exact ih t fun history a ends => second _ a (.look ends)

theorem LooksOnly.each {f : ι → Job α} {xs : List ι}
    (looks : ∀ x ∈ xs, (f x).LooksOnly same) : (Job.each f xs).LooksOnly same := by
  induction xs with
  | nil => exact .done _
  | cons x xs ih =>
      rw [List.forall_mem_cons] at looks
      refine looks.1.andThen fun _ y _ => ?_
      refine (ih looks.2).andThen fun _ ys _ => ?_
      exact .done _

theorem LooksOnly.keep {f : ι → Job Bool} {xs : List ι}
    (looks : ∀ x ∈ xs, (f x).LooksOnly same) : (Job.keep f xs).LooksOnly same := by
  induction xs with
  | nil => exact .done _
  | cons x xs ih =>
      rw [List.forall_mem_cons] at looks
      refine looks.1.andThen fun _ kept _ => ?_
      refine (ih looks.2).andThen fun _ more _ => ?_
      exact .done _

end Same

namespace Confined

variable {valid : σ → Prop} {sees spares : FileTree → FileTree → Prop}

theorem run {launch : Launch} {next : Outcome → Job α}
    (confined : (Job.run launch next).Confined host valid sees spares) (outcome : Outcome) :
    (next outcome).Confined host valid sees spares where
  looks := by
    cases confined.looks with
    | run looks => exact looks outcome
  runs := fun later => confined.runs later.run

theorem look {next : FileTree → Job α}
    (confined : (Job.look next).Confined host valid sees spares) (tree : FileTree) :
    (next tree).Confined host valid sees spares where
  looks := by
    cases confined.looks with
    | look _ looks => exact looks tree
  runs := fun later => confined.runs later.look

variable {job left : Job α} {s between : σ}

theorem step (confined : job.Confined host valid sees spares)
    (stepped : job.step? host s = some (left, between)) :
    left.Confined host valid sees spares := by
  rcases step_cases stepped with ⟨launch, next, rfl, rfl, rfl⟩ | ⟨next, rfl, rfl, rfl⟩
  · exact confined.run _
  · exact confined.look _

theorem staysValid_of_step (confined : job.Confined host valid sees spares) (start : valid s)
    (stepped : job.step? host s = some (left, between)) : valid between := by
  rcases step_cases stepped with ⟨launch, next, rfl, rfl, rfl⟩ | ⟨next, rfl, rfl, rfl⟩
  · exact (confined.runs (mayRun_run launch next)).staysValid start
  · exact start

/-- A step changes nothing that the job spares. -/
theorem spares_of_step (confined : job.Confined host valid sees spares) (start : valid s)
    (stepped : job.step? host s = some (left, between)) :
    host.tree between = host.tree s ∨ spares (host.tree s) (host.tree between) := by
  rcases step_cases stepped with ⟨launch, next, rfl, rfl, rfl⟩ | ⟨next, rfl, rfl, rfl⟩
  · exact .inr ((confined.runs (mayRun_run launch next)).spares start)
  · exact .inl rfl

/-- From states that look the same to it, a job comes to the same. -/
theorem perform_congr {u : σ} (confined : job.Confined host valid sees spares)
    (validS : valid s) (validU : valid u) (same : sees (host.tree s) (host.tree u)) :
    (job.perform host s).1 = (job.perform host u).1 ∧
      sees (host.tree (job.perform host s).2) (host.tree (job.perform host u).2) := by
  induction job generalizing s u with
  | done answer => exact ⟨rfl, same⟩
  | run launch next ih =>
      have program := confined.runs (mayRun_run launch next)
      have onward := ih _ (confined.run (host.run u launch).1) (program.staysValid validS)
        (program.staysValid validU) (program.seesSame validS validU same)
      rw [perform_run, perform_run, program.outcome_eq validS validU same]
      exact onward
  | look next ih =>
      have alike : next (host.tree s) = next (host.tree u) := by
        cases confined.looks with
        | look alike _ => exact alike _ _ same
      rw [perform_look, perform_look, alike]
      exact ih _ (confined.look _) validS validU same

end Confined

/-! ## Any order of steps -/

section Order

variable {valid : σ → Prop} {sees spares : ι → FileTree → FileTree → Prop} {f : ι → Job α}
  {xs : List ι} {s : σ}

/-- Each job of a pool is still on its way to what it comes to alone from the state `s`. -/
structure OnCourse (host : Host σ) (valid : σ → Prop) (sees spares : ι → FileTree → FileTree → Prop)
    (f : ι → Job α) (xs : List ι) (s : σ) (jobs : List (Job α)) (now : σ) : Prop where
  validNow : valid now
  length_eq : jobs.length = xs.length
  confined : ∀ {i : Nat} {x : ι} {job : Job α}, xs[i]? = some x → jobs[i]? = some job →
    job.Confined host valid (sees x) (spares x)
  answer_eq : ∀ {i : Nat} {x : ι} {job : Job α}, xs[i]? = some x → jobs[i]? = some job →
    (job.perform host now).1 = ((f x).perform host s).1
  seesSame : ∀ {i : Nat} {x : ι} {job : Job α}, xs[i]? = some x → jobs[i]? = some job →
    sees x (host.tree (job.perform host now).2) (host.tree ((f x).perform host s).2)

variable (alike : ∀ x, Equivalence (sees x))

include alike

theorem OnCourse.start (validS : valid s)
    (confined : ∀ x ∈ xs, (f x).Confined host valid (sees x) (spares x)) :
    OnCourse host valid sees spares f xs s (xs.map f) s := by
  have its {i : Nat} {x : ι} {job : Job α} (label : xs[i]? = some x)
      (found : (xs.map f)[i]? = some job) : job = f x := by
    rw [List.getElem?_map, label] at found
    cases found
    rfl
  refine ⟨validS, List.length_map _, ?_, ?_, ?_⟩
  · intro i x job label found
    rw [its label found]
    exact confined x (List.mem_of_getElem? label)
  · intro i x job label found
    rw [its label found]
  · intro i x job label found
    rw [its label found]
    exact (alike x).refl _

variable (distinct : xs.Nodup)
  (apart : ∀ {x y t u}, x ∈ xs → y ∈ xs → x ≠ y → spares x t u → sees y t u)

include distinct apart

/-- A step of any job keeps all of them on course. -/
theorem OnCourse.step {jobs : List (Job α)} {now between : σ} {i : Nat} {job left : Job α}
    (onCourse : OnCourse host valid sees spares f xs s jobs now) (found : jobs[i]? = some job)
    (stepped : job.step? host now = some (left, between)) :
    OnCourse host valid sees spares f xs s (jobs.set i left) between := by
  have inside : i < jobs.length := (List.getElem?_eq_some_iff.mp found).1
  obtain ⟨x, label⟩ : ∃ x, xs[i]? = some x := by
    rw [onCourse.length_eq] at inside
    exact ⟨_, List.getElem?_eq_getElem inside⟩
  have own := onCourse.confined label found
  have laterValid := own.staysValid_of_step onCourse.validNow stepped
  -- A job at another place sees the same before and after the step.
  have unseen {k : Nat} {y : ι} (elsewhere : i ≠ k) (its : xs[k]? = some y) :
      sees y (host.tree between) (host.tree now) := by
    rcases own.spares_of_step onCourse.validNow stepped with same | spared
    · rw [same]
      exact (alike y).refl _
    · have other : x ≠ y := by
        rintro rfl
        exact elsewhere ((List.getElem?_inj (onCourse.length_eq ▸ inside) distinct).mp
          (label.trans its.symm))
      apply (alike y).symm
      exact apart (List.mem_of_getElem? label) (List.mem_of_getElem? its) other spared
  have now_or {k : Nat} {y : ι} {rest : Job α} (its : xs[k]? = some y)
      (there : (jobs.set i left)[k]? = some rest) :
      (k = i ∧ y = x ∧ rest = left) ∨ i ≠ k ∧ jobs[k]? = some rest := by
    rw [List.getElem?_set] at there
    by_cases here : i = k
    · subst here
      rw [if_pos rfl, if_pos inside] at there
      cases there
      cases label.symm.trans its
      exact .inl ⟨rfl, rfl, rfl⟩
    · rw [if_neg here] at there
      exact .inr ⟨here, there⟩
  refine ⟨laterValid, by rw [List.length_set, onCourse.length_eq], ?_, ?_, ?_⟩
  · intro k y rest its there
    rcases now_or its there with ⟨-, rfl, rfl⟩ | ⟨-, there⟩
    · exact own.step stepped
    · exact onCourse.confined its there
  · intro k y rest its there
    rcases now_or its there with ⟨-, rfl, rfl⟩ | ⟨elsewhere, there⟩
    · rw [perform_eq_of_step stepped]
      exact onCourse.answer_eq label found
    · have same := (onCourse.confined its there).perform_congr laterValid onCourse.validNow
        (unseen elsewhere its)
      exact same.1.trans (onCourse.answer_eq its there)
  · intro k y rest its there
    rcases now_or its there with ⟨-, rfl, rfl⟩ | ⟨elsewhere, there⟩
    · rw [perform_eq_of_step stepped]
      exact onCourse.seesSame label found
    · have same := (onCourse.confined its there).perform_congr laterValid onCourse.validNow
        (unseen elsewhere its)
      exact (alike y).trans same.2 (onCourse.seesSame its there)

theorem OnCourse.interleaves {jobs later : List (Job α)} {now last : σ}
    (interleaved : Interleaves host jobs now later last)
    (onCourse : OnCourse host valid sees spares f xs s jobs now) :
    OnCourse host valid sees spares f xs s later last := by
  induction interleaved with
  | rest => exact onCourse
  | step found stepped _ ih => exact ih (onCourse.step alike distinct apart found stepped)

/-- Jobs that keep to themselves come to the same answers side by side as one after another, and to
trees that are the same in the eyes of each of them. -/
theorem Interleaves.eq_each {results : List α} {last : σ} (validS : valid s)
    (confined : ∀ x ∈ xs, (f x).Confined host valid (sees x) (spares x))
    (interleaved : Interleaves host (xs.map f) s (results.map done) last) :
    results = ((each f xs).perform host s).1 ∧ valid last ∧
      valid ((each f xs).perform host s).2 ∧
      ∀ x ∈ xs, sees x (host.tree last) (host.tree ((each f xs).perform host s).2) := by
  have start : OnCourse host valid sees spares f xs s (xs.map f) s :=
    .start alike validS confined
  have sequential : Interleaves host (xs.map f) s (((each f xs).perform host s).1.map done)
      ((each f xs).perform host s).2 := interleaves_each host f [] xs s
  have here := start.interleaves alike distinct apart interleaved
  have there := start.interleaves alike distinct apart sequential
  have finished {results : List α} {last : σ}
      (ended : OnCourse host valid sees spares f xs s (results.map done) last) :
      results = xs.map (fun x => ((f x).perform host s).1) ∧
        ∀ x ∈ xs, sees x (host.tree last) (host.tree ((f x).perform host s).2) := by
    have length_eq : results.length = xs.length := by simpa using ended.length_eq
    have pooled {i : Nat} {answer : α} (found : results[i]? = some answer) :
        (results.map done)[i]? = some (done answer) := by
      rw [List.getElem?_map, found]
      rfl
    constructor
    · apply List.ext_getElem?
      intro i
      rw [List.getElem?_map]
      cases label : xs[i]? with
      | none =>
          rw [List.getElem?_eq_none_iff, ← length_eq, ← List.getElem?_eq_none_iff] at label
          exact label
      | some x =>
          have inside : i < results.length := length_eq ▸ (List.getElem?_eq_some_iff.mp label).1
          have found := List.getElem?_eq_getElem inside
          rw [found]
          exact congrArg some (ended.answer_eq label (pooled found))
    · intro x member
      obtain ⟨i, label⟩ := List.getElem?_of_mem member
      have inside : i < results.length := length_eq ▸ (List.getElem?_eq_some_iff.mp label).1
      exact ended.seesSame label (pooled (List.getElem?_eq_getElem inside))
  obtain ⟨answers, views⟩ := finished here
  obtain ⟨answers', views'⟩ := finished there
  refine ⟨answers.trans answers'.symm, here.validNow, there.validNow, ?_⟩
  intro x member
  exact (alike x).trans (views x member) ((alike x).symm (views' x member))

end Order

end Job

end LintGate
