import LintGate.FileTree
import LintGate.Process.Invocation

/-!
# Jobs

A job is work that looks at files and runs programs. It says nothing about what the programs do:
`Job.perform` carries it out on any system that can answer its requests, one after another.
-/

namespace LintGate

/-- Work that ends with an answer. -/
inductive Job (α : Type) where
  | done (answer : α)
  /-- Runs a program and goes on with its outcome. -/
  | run (launch : Launch) (next : Outcome → Job α)
  /-- Looks at the files as they are now. -/
  | look (next : FileTree → Job α)

namespace Job

variable {α β : Type}

/-- Does a second job with the answer of a first one. -/
def andThen : Job α → (α → Job β) → Job β
  | done a, next => next a
  | run l k, next => run l fun o => (k o).andThen next
  | look k, next => look fun t => (k t).andThen next

instance : Monad Job where
  pure := done
  bind := andThen

/-- What is seen of the files. -/
def seen (view : FileTree → α) : Job α :=
  look fun t => done (view t)

/-- Does the same job for one member of a list after another. -/
def each (f : α → Job β) : List α → Job (List β)
  | [] => done []
  | x :: rest => (f x).andThen fun y => (each f rest).andThen fun ys => done (y :: ys)

/-- Keeps the members of a list for which a job answers yes. -/
def keep (f : α → Job Bool) : List α → Job (List α)
  | [] => done []
  | x :: rest => (f x).andThen fun kept => (keep f rest).andThen fun more =>
    done (if kept then x :: more else more)

/-- What can answer the requests of a job. -/
structure Host (σ : Type) where
  tree : σ → FileTree
  run : σ → Launch → Outcome × σ

/-- Carries out a job. -/
def perform {σ : Type} (h : Host σ) : Job α → σ → α × σ
  | done a, s => (a, s)
  | run l k, s =>
    let (outcome, s) := h.run s l
    (k outcome).perform h s
  | look k, s => (k (h.tree s)).perform h s

@[simp] theorem perform_done {σ : Type} (h : Host σ) (a : α) (s : σ) :
    (done a).perform h s = (a, s) := rfl

theorem perform_run {σ : Type} (h : Host σ) (l : Launch) (k : Outcome → Job α) (s : σ) :
    (run l k).perform h s = (k (h.run s l).1).perform h (h.run s l).2 := rfl

theorem perform_look {σ : Type} (h : Host σ) (k : FileTree → Job α) (s : σ) :
    (look k).perform h s = (k (h.tree s)).perform h s := rfl

/-- A job after another one is carried out where the first one ended. -/
theorem perform_andThen {σ : Type} (h : Host σ) (x : Job α) (f : α → Job β) (s : σ) :
    (x.andThen f).perform h s = (f (x.perform h s).1).perform h (x.perform h s).2 := by
  induction x generalizing s with
  | done a => rfl
  | run l k ih => exact ih _ _
  | look k ih => exact ih _ _

end Job

end LintGate
