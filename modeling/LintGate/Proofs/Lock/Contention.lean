import LintGate.Proofs.Lock
import LintGate.Proofs.Path.Segments
import Mathlib.Logic.Function.Basic

/-!
# Runs that contend for a lock

Any number of checks run on one machine, and their steps are interleaved in any way. A check that
wants the lock opens its lock file and tries the lock until it gets it or has waited for too long;
it does its work and releases the lock. A check that does not want it goes ahead. The system lets
one run at a time hold the lock of a file, and its clock goes on in between.
-/

namespace LintGate

namespace Lock

/-- What the work of a check comes to. -/
abbrev Answer := Except Fault (Verdict × Nat)

structure CheckRun where
  settings : Settings
  /-- Where its relative paths begin. -/
  here : Location
  searchPath : String

namespace CheckRun

def root (r : CheckRun) : Path :=
  r.settings.root

def timeoutMs (r : CheckRun) : Nat :=
  r.settings.lockTimeoutSeconds * 1000

/-- The files as the run sees them. -/
def view (r : CheckRun) (root : Node) : FileTree where
  root := root
  here := r.here

/-- What the run does while it has the lock. -/
def work (r : CheckRun) : Job Answer :=
  Program.checking r.settings r.searchPath

end CheckRun

/-- A lock file that a run has opened. -/
structure Opened where
  path : Path
  /-- The canonical path of the root, as it was then. -/
  canonical : Option Path
  file : Location
  /-- When that was. The run counts from then how long it waits. -/
  since : Nat

/-- Where a run stands. -/
inductive Phase where
  | starting
  /-- The lock file could not be opened, or it could not be locked for another reason than that
  somebody holds its lock. -/
  | failed (opened : Option Opened) (fault : Fault)
  /-- About to try the lock. -/
  | trying (opened : Opened)
  /-- The lock was found held. -/
  | refused (opened : Opened)
  /-- Until the next attempt is due. -/
  | sleeping (opened : Opened) (wakes : Nat)
  | gaveUp (opened : Opened) (fault : Fault)
  /-- At work, with this work left. It has the lock if it wants it. -/
  | working (guard : Option Opened) (job : Job Answer)
  | ended (guard : Option Opened) (answer : Answer)

namespace Phase

def opened? : Phase → Option Opened
  | starting => none
  | trying opened | refused opened | sleeping opened _ | gaveUp opened _ => some opened
  | failed opened _ | working opened _ | ended opened _ => opened

/-- The file whose lock a run has. -/
def holds? : Phase → Option Location
  | working guard _ => guard.map (·.file)
  | _ => none

/-- What a run has come to. -/
def answer? : Phase → Option Answer
  | failed _ fault | gaveUp _ fault => some (.error fault)
  | ended _ answer => some answer
  | _ => none

end Phase

/-- All runs, with the files that they share and the locks that are held. -/
structure System where
  root : Node
  /-- In milliseconds. -/
  clock : Nat
  /-- Which run holds the lock of a file. -/
  holder : Location → Option Nat
  phase : Nat → Phase

namespace System

/-- No run has started, and no lock is held. -/
structure Fresh (start : Location) (s : System) : Prop where
  isDir : s.root.HasDir start
  free : ∀ file, s.holder file = none
  starting : ∀ i, s.phase i = .starting

def enter (s : System) (i : Nat) (phase : Phase) : System :=
  { s with phase := Function.update s.phase i phase }

@[simp] theorem root_enter (s : System) (i : Nat) (phase : Phase) :
    (s.enter i phase).root = s.root := rfl

@[simp] theorem clock_enter (s : System) (i : Nat) (phase : Phase) :
    (s.enter i phase).clock = s.clock := rfl

@[simp] theorem holder_enter (s : System) (i : Nat) (phase : Phase) :
    (s.enter i phase).holder = s.holder := rfl

@[simp] theorem phase_enter_self (s : System) (i : Nat) (phase : Phase) :
    (s.enter i phase).phase i = phase := by
  simp [enter]

theorem phase_enter_of_ne {i j : Nat} (s : System) (phase : Phase) (other : j ≠ i) :
    (s.enter i phase).phase j = s.phase j := by
  simp [enter, other]

end System

/-- What a run does in one step. -/
inductive Act where
  | opens
  | fails (fault : Fault)
  | acquires
  | isRefused (holder : Nat)
  | waits
  | retries
  | givesUp
  /-- Begins without the lock, because it is not wanted. -/
  | goesAhead
  | looks
  | launches (launch : Launch) (outcome : Outcome)
  | releases (answer : Answer)
  /-- Ends without having had the lock. -/
  | ends (answer : Answer)

namespace Act

/-- To look at files and to start programs. -/
def IsRequest : Act → Prop
  | looks | launches .. => True
  | opens | fails _ | acquires | isRefused _ | waits | retries | givesUp | goesAhead | releases _
  | ends _ => False

/-- What a lock is taken for: requests, and to come to an answer. -/
def IsWork : Act → Prop
  | releases _ | ends _ => True
  | other => other.IsRequest

/-- What a run does that does not get the lock, or not yet. -/
def IsUnsuccessful : Act → Prop
  | fails _ | isRefused _ | waits | retries | givesUp => True
  | opens | acquires | goesAhead | looks | launches .. | releases _ | ends _ => False

end Act

/-- What can become of the files: when a program is launched and ends with an outcome, and while no
run does anything. -/
structure Changes where
  byProgram : Launch → Outcome → Node → Node → Prop
  byOthers : Node → Node → Prop

variable (dir : Path) (runs : Nat → CheckRun) (changes : Changes)

/-- One step of a run. The system may refuse to lock a file for reasons of its own. -/
inductive Step : System → Nat → Act → System → Prop where
  | opens {s : System} {i : Nat} {t : FileTree} {file : Location} :
      s.phase i = .starting → (runs i).settings.lock = true →
      openFile ((runs i).view s.root) dir (runs i).root = .ok (t, file) →
      Step s i .opens ({ s with root := t.root }.enter i
        (.trying
          { path := ((runs i).view s.root).lockPath dir (runs i).root
            canonical := ((runs i).view s.root).canonical? (runs i).root
            file
            since := s.clock }))
  | fails {s : System} {i : Nat} {fault : Fault} :
      s.phase i = .starting → (runs i).settings.lock = true →
      openFile ((runs i).view s.root) dir (runs i).root = .error fault →
      Step s i (.fails fault) (s.enter i (.failed none fault))
  | breaks {s : System} {i : Nat} {opened : Opened} (cause : SystemError) :
      s.phase i = .trying opened →
      Step s i (.fails (.lock opened.path cause))
        (s.enter i (.failed (some opened) (.lock opened.path cause)))
  | acquires {s : System} {i : Nat} {opened : Opened} :
      s.phase i = .trying opened → s.holder opened.file = none →
      Step s i .acquires
        ({ s with holder := Function.update s.holder opened.file (some i) }.enter i
          (.working (some opened) (runs i).work))
  | isRefused {s : System} {i holder : Nat} {opened : Opened} :
      s.phase i = .trying opened → s.holder opened.file = some holder →
      Step s i (.isRefused holder) (s.enter i (.refused opened))
  | waits {s : System} {i : Nat} {opened : Opened} :
      s.phase i = .refused opened →
      attempt true (runs i).timeoutMs (s.clock - opened.since) = .tryAgain →
      Step s i .waits (s.enter i (.sleeping opened (s.clock + pollMs)))
  | retries {s : System} {i wakes : Nat} {opened : Opened} :
      s.phase i = .sleeping opened wakes → wakes ≤ s.clock →
      Step s i .retries (s.enter i (.trying opened))
  | givesUp {s : System} {i waitedMs : Nat} {opened : Opened} :
      s.phase i = .refused opened →
      attempt true (runs i).timeoutMs (s.clock - opened.since) = .timedOut waitedMs →
      Step s i .givesUp
        (s.enter i (.gaveUp opened (.lockTimeout (runs i).root (waitedMs / 1000))))
  | goesAhead {s : System} {i : Nat} :
      s.phase i = .starting → (runs i).settings.lock = false →
      Step s i .goesAhead (s.enter i (.working none (runs i).work))
  | looks {s : System} {i : Nat} {guard : Option Opened} {next : FileTree → Job Answer} :
      s.phase i = .working guard (.look next) →
      Step s i .looks (s.enter i (.working guard (next ((runs i).view s.root))))
  | launches {s : System} {i : Nat} {guard : Option Opened} {launch : Launch} {outcome : Outcome}
      {next : Outcome → Job Answer} {root : Node} :
      s.phase i = .working guard (.run launch next) →
      changes.byProgram launch outcome s.root root →
      Step s i (.launches launch outcome)
        ({ s with root }.enter i (.working guard (next outcome)))
  | releases {s : System} {i : Nat} {opened : Opened} {answer : Answer} :
      s.phase i = .working (some opened) (.done answer) →
      Step s i (.releases answer)
        ({ s with holder := Function.update s.holder opened.file none }.enter i
          (.ended (some opened) answer))
  | ends {s : System} {i : Nat} {answer : Answer} :
      s.phase i = .working none (.done answer) →
      Step s i (.ends answer) (s.enter i (.ended none answer))

/-- A step that was taken, and when. -/
structure Event where
  time : Nat
  run : Nat
  act : Act

/-- Steps of the runs in any order. In between, time goes by and the files may change. -/
inductive Trace (s₀ : System) : List Event → System → Prop where
  | start : Trace s₀ [] s₀
  | step {events : List Event} {s s' : System} {i : Nat} {act : Act} :
      Trace s₀ events s → Step dir runs changes s i act s' →
      Trace s₀ (events ++ [⟨s.clock, i, act⟩]) s'
  | changes {events : List Event} {s : System} {root : Node} :
      Trace s₀ events s → changes.byOthers s.root root → Trace s₀ events { s with root }
  | elapses {events : List Event} {s : System} (ms : Nat) :
      Trace s₀ events s → Trace s₀ events { s with clock := s.clock + ms }

/-- The files have changed, but the lock files that were there are in their places. The path of
their directory begins at `start` if it is relative. -/
structure KeepsLockFiles (start : Location) (root root' : Node) : Prop where
  isDir : root'.HasDir start
  inPlace : ∀ path file node,
    (⟨root, start⟩ : FileTree).resolve (dir.join (lockName path)) = .ok (.present file node) →
    ∃ node', (⟨root', start⟩ : FileTree).resolve (dir.join (lockName path)) =
      .ok (.present file node')

/-- Programs and others may do anything except to take lock files away. -/
def Changes.keepingLocks (start : Location) : Changes where
  byProgram _ _ := KeepsLockFiles dir start
  byOthers := KeepsLockFiles dir start

variable {dir runs changes}

theorem Trace.append {s₀ s s' : System} {events later : List Event}
    (first : Trace dir runs changes s₀ events s) (second : Trace dir runs changes s later s') :
    Trace dir runs changes s₀ (events ++ later) s' := by
  induction second with
  | start => rwa [List.append_nil]
  | step _ stepped ih => exact List.append_assoc .. ▸ ih.step stepped
  | changes _ allowed ih => exact ih.changes allowed
  | elapses ms _ ih => exact ih.elapses ms

theorem Step.trace {s s' : System} {i : Nat} {act : Act}
    (stepped : Step dir runs changes s i act s') :
    Trace dir runs changes s [⟨s.clock, i, act⟩] s' :=
  Trace.start.step stepped

/-- Whatever stands in a list with one more entry is that entry, or stands before it. -/
theorem cases_of_append_singleton {α : Type} {xs front back : List α} {x y : α}
    (split : xs ++ [x] = front ++ y :: back) :
    (xs = front ∧ x = y ∧ back = []) ∨
      ∃ between, xs = front ++ y :: between ∧ back = between ++ [x] := by
  rcases List.eq_nil_or_concat back with rfl | ⟨between, last, rfl⟩
  · obtain ⟨same, ends⟩ := List.append_inj' split rfl
    exact .inl ⟨same, (List.cons.inj ends).1, rfl⟩
  · rw [List.concat_eq_append, ← List.cons_append, ← List.append_assoc] at split
    obtain ⟨same, ends⟩ := List.append_inj' split rfl
    cases ends
    exact .inr ⟨between, same, List.concat_eq_append ..⟩

/-- A trace is cut at any of its steps. -/
theorem Trace.exists_cut {s₀ s : System} {events front back : List Event} {event : Event}
    (trace : Trace dir runs changes s₀ events s) (split : events = front ++ event :: back) :
    ∃ before after, Trace dir runs changes s₀ front before ∧ event.time = before.clock ∧
      Step dir runs changes before event.run event.act after ∧
      Trace dir runs changes after back s := by
  induction trace generalizing back with
  | start => simp at split
  | @step earlier s s' j other trace stepped ih =>
      rcases cases_of_append_singleton split with ⟨rfl, rfl, rfl⟩ | ⟨between, early, rfl⟩
      · exact ⟨s, s', trace, rfl, stepped, .start⟩
      · obtain ⟨before, after, first, at_clock, middle, second⟩ := ih early
        exact ⟨before, after, first, at_clock, middle, second.step stepped⟩
  | changes _ allowed ih =>
      obtain ⟨before, after, first, at_clock, middle, second⟩ := ih split
      exact ⟨before, after, first, at_clock, middle, second.changes allowed⟩
  | elapses ms _ ih =>
      obtain ⟨before, after, first, at_clock, middle, second⟩ := ih split
      exact ⟨before, after, first, at_clock, middle, second.elapses ms⟩

end Lock

end LintGate
