import LintGate.Process.Job

/-!
# Histories of jobs

A history lists the programs that a job ran, each with its outcome. `Job.EndsWith` relates a job to
its histories and answers, whatever the outcomes are and whatever the job sees of the files. The
history of two jobs, one after the other, is put together from their own.
-/

namespace LintGate

/-- The programs that were run, in order, and how each of them ended. -/
abbrev History := List (Launch × Outcome)

namespace Job

variable {α β : Type}

/-- The job may run these programs, with these outcomes, and then end with this answer. -/
inductive EndsWith : Job α → History → α → Prop where
  | done (answer : α) : EndsWith (.done answer) [] answer
  | run {launch : Launch} {next : Outcome → Job α} {outcome : Outcome} {history : History}
      {answer : α} :
      EndsWith (next outcome) history answer →
      EndsWith (.run launch next) ((launch, outcome) :: history) answer
  | look {next : FileTree → Job α} {tree : FileTree} {history : History} {answer : α} :
      EndsWith (next tree) history answer →
      EndsWith (.look next) history answer

@[simp] theorem done_endsWith_iff {answer other : α} {history : History} :
    (done answer).EndsWith history other ↔ history = [] ∧ other = answer := by
  constructor
  · intro ends
    cases ends
    exact ⟨rfl, rfl⟩
  · rintro ⟨rfl, rfl⟩
    exact .done _

theorem run_endsWith_iff {launch : Launch} {next : Outcome → Job α} {history : History}
    {answer : α} :
    (run launch next).EndsWith history answer ↔
      ∃ outcome later, history = (launch, outcome) :: later ∧
        (next outcome).EndsWith later answer := by
  constructor
  · intro ends
    cases ends with
    | run later => exact ⟨_, _, rfl, later⟩
  · rintro ⟨outcome, later, rfl, ends⟩
    exact .run ends

theorem look_endsWith_iff {next : FileTree → Job α} {history : History} {answer : α} :
    (look next).EndsWith history answer ↔ ∃ tree, (next tree).EndsWith history answer := by
  constructor
  · intro ends
    cases ends with
    | look later => exact ⟨_, later⟩
  · rintro ⟨tree, ends⟩
    exact .look ends

theorem EndsWith.andThen {x : Job α} {f : α → Job β} {first second : History} {a : α} {b : β}
    (left : x.EndsWith first a) (right : (f a).EndsWith second b) :
    (x.andThen f).EndsWith (first ++ second) b := by
  induction left with
  | done answer => exact right
  | run _ ih => exact .run (ih right)
  | look _ ih => exact .look (ih right)

/-- A history of two jobs is cut where the first one ends. -/
theorem andThen_endsWith_iff {x : Job α} {f : α → Job β} {history : History} {b : β} :
    (x.andThen f).EndsWith history b ↔
      ∃ first second a, history = first ++ second ∧ x.EndsWith first a ∧
        (f a).EndsWith second b := by
  constructor
  · intro ends
    induction x generalizing history with
    | done a => exact ⟨[], history, a, rfl, .done a, ends⟩
    | run launch next ih =>
        obtain ⟨outcome, later, rfl, laterEnds⟩ := run_endsWith_iff.mp ends
        obtain ⟨first, second, a, rfl, left, right⟩ := ih outcome laterEnds
        exact ⟨(launch, outcome) :: first, second, a, rfl, .run left, right⟩
    | look next ih =>
        cases ends with
        | look laterEnds =>
            obtain ⟨first, second, a, rfl, left, right⟩ := ih _ laterEnds
            exact ⟨first, second, a, rfl, .look left, right⟩
  · rintro ⟨first, second, a, rfl, left, right⟩
    exact left.andThen right

/-- What is kept of a list are members for which the answer was yes. -/
theorem exists_history_of_mem_keep {f : α → Job Bool} {xs kept : List α} {history : History} {x : α}
    (ends : (keep f xs).EndsWith history kept) (member : x ∈ kept) :
    ∃ own, (f x).EndsWith own true := by
  induction xs generalizing history kept with
  | nil =>
      cases ends
      cases member
  | cons first xs ih =>
      obtain ⟨own, _, yes, rfl, answered, ends⟩ := andThen_endsWith_iff.mp ends
      obtain ⟨_, _, more, rfl, later, ends⟩ := andThen_endsWith_iff.mp ends
      obtain ⟨-, rfl⟩ := done_endsWith_iff.mp ends
      cases yes with
      | false => exact ih later member
      | true =>
          rcases List.mem_cons.mp member with rfl | among
          · exact ⟨own, answered⟩
          · exact ih later among

/-- Each answer for a list is the answer for one of its members, and what was run for it stands in
the history. -/
theorem exists_part_of_mem_each {f : α → Job β} {xs : List α} {ys : List β} {history : History}
    {y : β} (ends : (each f xs).EndsWith history ys) (member : y ∈ ys) :
    ∃ x ∈ xs, ∃ own, (f x).EndsWith own y ∧ own.Sublist history := by
  induction xs generalizing history ys with
  | nil =>
      cases ends
      cases member
  | cons first xs ih =>
      obtain ⟨own, _, answer, rfl, answered, ends⟩ := andThen_endsWith_iff.mp ends
      obtain ⟨rest, _, more, rfl, later, ends⟩ := andThen_endsWith_iff.mp ends
      obtain ⟨rfl, rfl⟩ := done_endsWith_iff.mp ends
      rw [List.append_nil]
      rcases List.mem_cons.mp member with rfl | among
      · exact ⟨first, List.mem_cons_self, own, answered, List.sublist_append_left own rest⟩
      · obtain ⟨x, inside, its, answers, part⟩ := ih later among
        exact ⟨x, List.mem_cons_of_mem _ inside, its, answers,
          part.trans (List.sublist_append_right own rest)⟩

theorem exists_history_of_mem_each {f : α → Job β} {xs : List α} {ys : List β} {history : History}
    {y : β} (ends : (each f xs).EndsWith history ys) (member : y ∈ ys) :
    ∃ x ∈ xs, ∃ own, (f x).EndsWith own y := by
  obtain ⟨x, inside, own, answers, -⟩ := exists_part_of_mem_each ends member
  exact ⟨x, inside, own, answers⟩

/-- The programs of the history ended as they end on the host. -/
def Host.Ran {σ : Type} (host : Host σ) (history : History) : Prop :=
  ∀ entry ∈ history, ∃ s, entry.2 = (host.run s entry.1).1

theorem Host.Ran.cons {σ : Type} {host : Host σ} {history : History} (ran : host.Ran history)
    (launch : Launch) (s : σ) : host.Ran ((launch, (host.run s launch).1) :: history) :=
  List.forall_mem_cons.mpr ⟨⟨s, rfl⟩, ran⟩

/-- Whoever carries a job out produces one of its histories, and has run the programs in it. -/
theorem exists_ran_of_perform {σ : Type} (host : Host σ) (x : Job α) (s : σ) :
    ∃ history, x.EndsWith history (x.perform host s).1 ∧ host.Ran history := by
  induction x generalizing s with
  | done a => exact ⟨[], .done a, by simp [Host.Ran]⟩
  | run launch next ih =>
      obtain ⟨history, ends, ran⟩ := ih (host.run s launch).1 (host.run s launch).2
      exact ⟨(launch, (host.run s launch).1) :: history, .run ends, ran.cons launch s⟩
  | look next ih =>
      obtain ⟨history, ends, ran⟩ := ih (host.tree s) s
      exact ⟨history, .look ends, ran⟩

theorem exists_history_of_perform {σ : Type} (host : Host σ) (x : Job α) (s : σ) :
    ∃ history, x.EndsWith history (x.perform host s).1 := by
  obtain ⟨history, ends, -⟩ := exists_ran_of_perform host x s
  exact ⟨history, ends⟩

/-- The host, which also notes what it runs. -/
def Host.noting {σ : Type} (host : Host σ) : Host (σ × History) where
  tree := fun s => host.tree s.1
  run := fun s launch =>
    let (outcome, later) := host.run s.1 launch
    (outcome, later, s.2 ++ [(launch, outcome)])

theorem endsWith_of_noting {σ : Type} (host : Host σ) (x : Job α) (s : σ × History) :
    ∃ history, x.EndsWith history (x.perform host.noting s).1 ∧
      (x.perform host.noting s).2.2 = s.2 ++ history := by
  induction x generalizing s with
  | done a => exact ⟨[], .done a, (List.append_nil _).symm⟩
  | run launch next ih =>
      obtain ⟨history, ends, notes⟩ := ih (host.run s.1 launch).1
        ((host.run s.1 launch).2, s.2 ++ [(launch, (host.run s.1 launch).1)])
      refine ⟨_, .run ends, ?_⟩
      rw [perform_run]
      exact notes.trans (List.append_assoc _ _ _)
  | look next ih =>
      obtain ⟨history, ends, notes⟩ := ih (host.tree s.1) s
      exact ⟨history, .look ends, notes⟩

/-! ## Programs that a job may run -/

/-- The job can come to run this program. -/
def MayRun (job : Job α) (launch : Launch) : Prop :=
  ∃ history answer outcome, job.EndsWith history answer ∧ (launch, outcome) ∈ history

theorem exists_endsWith (job : Job α) : ∃ history answer, job.EndsWith history answer := by
  induction job with
  | done answer => exact ⟨[], answer, .done answer⟩
  | run launch next ih =>
      obtain ⟨history, answer, ends⟩ := ih (.timedOut 0 "")
      exact ⟨_, answer, .run ends⟩
  | look next ih =>
      obtain ⟨history, answer, ends⟩ := ih {}
      exact ⟨history, answer, .look ends⟩

theorem mayRun_run (launch : Launch) (next : Outcome → Job α) :
    (run launch next).MayRun launch := by
  obtain ⟨history, answer, ends⟩ := exists_endsWith (next (.timedOut 0 ""))
  exact ⟨_, answer, _, .run ends, List.mem_cons_self⟩

theorem MayRun.run {launch other : Launch} {next : Outcome → Job α} {outcome : Outcome}
    (later : (next outcome).MayRun other) : (Job.run launch next).MayRun other := by
  obtain ⟨history, answer, itsOutcome, ends, member⟩ := later
  exact ⟨_, answer, itsOutcome, .run ends, List.mem_cons_of_mem _ member⟩

theorem MayRun.look {other : Launch} {next : FileTree → Job α} {tree : FileTree}
    (later : (next tree).MayRun other) : (Job.look next).MayRun other := by
  obtain ⟨history, answer, itsOutcome, ends, member⟩ := later
  exact ⟨_, answer, itsOutcome, .look ends, member⟩

theorem not_mayRun_done {answer : α} {launch : Launch} : ¬ (done answer).MayRun launch := by
  rintro ⟨history, other, outcome, ends, member⟩
  cases ends
  cases member

theorem eq_or_mayRun_of_run {launch other : Launch} {next : Outcome → Job α}
    (runs : (Job.run launch next).MayRun other) :
    other = launch ∨ ∃ outcome, (next outcome).MayRun other := by
  obtain ⟨history, answer, itsOutcome, ends, member⟩ := runs
  obtain ⟨outcome, later, rfl, rest⟩ := run_endsWith_iff.mp ends
  rcases List.mem_cons.mp member with here | further
  · exact .inl (congrArg Prod.fst here)
  · exact .inr ⟨outcome, later, answer, itsOutcome, rest, further⟩

theorem exists_mayRun_of_look {launch : Launch} {next : FileTree → Job α}
    (runs : (Job.look next).MayRun launch) : ∃ tree, (next tree).MayRun launch := by
  obtain ⟨history, answer, itsOutcome, ends, member⟩ := runs
  obtain ⟨tree, ends⟩ := look_endsWith_iff.mp ends
  exact ⟨tree, history, answer, itsOutcome, ends, member⟩

theorem not_mayRun_seen {view : FileTree → α} {launch : Launch} : ¬ (seen view).MayRun launch := by
  intro runs
  obtain ⟨tree, runs⟩ := exists_mayRun_of_look runs
  exact not_mayRun_done runs

/-- What is run is run by the first of two jobs, or by the second after an answer of the first. -/
theorem mayRun_of_andThen {x : Job α} {f : α → Job β} {launch : Launch}
    (runs : (x.andThen f).MayRun launch) :
    x.MayRun launch ∨ ∃ history a, x.EndsWith history a ∧ (f a).MayRun launch := by
  obtain ⟨history, b, outcome, ends, member⟩ := runs
  obtain ⟨first, second, a, rfl, left, right⟩ := andThen_endsWith_iff.mp ends
  rcases List.mem_append.mp member with early | late
  · exact .inl ⟨first, a, outcome, left, early⟩
  · exact .inr ⟨first, a, left, second, b, outcome, right, late⟩

theorem exists_mayRun_of_each {f : α → Job β} {xs : List α} {launch : Launch}
    (runs : (each f xs).MayRun launch) : ∃ x ∈ xs, (f x).MayRun launch := by
  induction xs with
  | nil => exact absurd runs not_mayRun_done
  | cons x xs ih =>
      rcases mayRun_of_andThen runs with first | ⟨_, y, _, runs⟩
      · exact ⟨x, List.mem_cons_self, first⟩
      · rcases mayRun_of_andThen runs with later | ⟨_, ys, _, runs⟩
        · obtain ⟨other, member, later⟩ := ih later
          exact ⟨other, List.mem_cons_of_mem _ member, later⟩
        · exact absurd runs not_mayRun_done

theorem exists_mayRun_of_keep {f : α → Job Bool} {xs : List α} {launch : Launch}
    (runs : (keep f xs).MayRun launch) : ∃ x ∈ xs, (f x).MayRun launch := by
  induction xs with
  | nil => exact absurd runs not_mayRun_done
  | cons x xs ih =>
      rcases mayRun_of_andThen runs with first | ⟨_, kept, _, runs⟩
      · exact ⟨x, List.mem_cons_self, first⟩
      · rcases mayRun_of_andThen runs with later | ⟨_, more, _, runs⟩
        · obtain ⟨other, member, later⟩ := ih later
          exact ⟨other, List.mem_cons_of_mem _ member, later⟩
        · exact absurd runs not_mayRun_done

end Job

end LintGate
