import LintGate.Proofs.Lock.Exclusion

/-!
# Checks take turns

The program's own check is a run of the system: while the other runs rest, it takes the steps of one
run and comes to the same answer, the same files and the same locks. So what holds of all runs holds
of it: it takes its snapshot, starts its programs and comes to its verdict while it has the lock.
-/

namespace LintGate

namespace Lock

variable {dir : Path} {start : Location} {runs : Nat → CheckRun} {changes : Changes}
  {s₀ s s' : System} {i : Nat} {events : List Event} {m : Machine} {held : List Location}

/-! ## One run at work -/

namespace Changes

/-- Files are changed by the programs of a run alone, and these do what they do on a machine. -/
def onMachine (here : Location) : Changes where
  byProgram launch outcome root root' := ∃ m : Machine, m.tree = ⟨root, here⟩ ∧
    (m.run launch).1 = outcome ∧ (m.run launch).2.tree.root = root'
  byOthers _ _ := False

/-- What the programs of a job do to the files of a machine is among the changes. -/
def Cover (changes : Changes) : Job Answer → Machine → Prop
  | .done _, _ => True
  | .run launch next, m =>
    changes.byProgram launch (m.run launch).1 m.tree.root (m.run launch).2.tree.root ∧
      changes.Cover (next (m.run launch).1) (m.run launch).2
  | .look next, m => changes.Cover (next m.tree) m

theorem cover_onMachine {here : Location} (job : Job Answer) (from_here : m.tree.here = here) :
    (onMachine here).Cover job m := by
  induction job generalizing m with
  | done => trivial
  | run launch next ih =>
      subst from_here
      exact ⟨⟨m, rfl, rfl, rfl⟩, ih _ (m.here_run launch)⟩
  | look next ih => exact ih _ from_here

end Changes

theorem view_of_here {t : FileTree} {run : CheckRun} (here : t.here = run.here) :
    t = run.view t.root := by
  rw [CheckRun.view, ← here]

/-- A job is done by the steps of a run, request by request. -/
theorem exists_trace_of_perform {guard : Option Opened} {job : Job Answer} (dir : Path)
    (working : s.phase i = .working guard job) (shown : m.tree = (runs i).view s.root) :
    ∃ events s',
      (∀ changes : Changes, changes.Cover job m → Trace dir runs changes s events s') ∧
      (∀ event ∈ events, event.run = i) ∧ (∀ event ∈ events, event.act.IsRequest) ∧
      s'.phase i = .working guard (.done (job.perform Machine.host m).1) ∧
      (job.perform Machine.host m).2.tree = (runs i).view s'.root ∧ s'.holder = s.holder := by
  induction job generalizing s m with
  | done answer => exact ⟨[], s, fun _ _ => .start, by simp, by simp, working, shown, rfl⟩
  | run launch next ih =>
      have same_root : m.tree.root = s.root := by
        rw [shown]
        rfl
      have same_here : (m.run launch).2.tree.here = (runs i).here := by
        rw [m.here_run, shown]
        rfl
      obtain ⟨events, s', later, own, requests, rest, files, locks⟩ :=
        ih (m.run launch).1
          (System.phase_enter_self { s with root := (m.run launch).2.tree.root } i _)
          (view_of_here same_here)
      refine ⟨⟨s.clock, i, .launches launch (m.run launch).1⟩ :: events, s', ?_, ?_, ?_, rest,
        files, locks⟩
      · rintro changes ⟨changed, covers⟩
        rw [same_root] at changed
        exact (Step.launches working changed).trace.append (later changes covers)
      · simpa using own
      · simpa [Act.IsRequest] using requests
  | look next ih =>
      obtain ⟨events, s', later, own, requests, rest, files, locks⟩ :=
        ih m.tree (System.phase_enter_self s i (.working guard (next m.tree))) shown
      refine ⟨⟨s.clock, i, .looks⟩ :: events, s', ?_, ?_, ?_, rest, files, locks⟩
      · intro changes covers
        have first : Step dir runs changes s i .looks _ := .looks working
        rw [← shown] at first
        exact first.trace.append (later changes covers)
      · simpa using own
      · simpa [Act.IsRequest] using requests

/-- A run that finds the lock held too early to give up tries again after a while. -/
theorem exists_trace_of_poll {opened : Opened} {holder : Nat} (dir : Path)
    (trying : s.phase i = .trying opened) (locked : s.holder opened.file = some holder)
    (tryAgain : attempt true (runs i).timeoutMs (s.clock - opened.since) = .tryAgain) :
    ∃ events s', (∀ changes, Trace dir runs changes s events s') ∧
      (∀ event ∈ events, event.run = i) ∧ (∀ event ∈ events, event.act.IsUnsuccessful) ∧
      s'.phase i = .trying opened ∧ s'.clock = s.clock + pollMs ∧ s'.root = s.root ∧
      s'.holder = s.holder := by
  have refused (changes : Changes) : Step dir runs changes s i (.isRefused holder) _ :=
    .isRefused trying locked
  have waits (changes : Changes) : Step dir runs changes _ i .waits _ :=
    .waits (System.phase_enter_self s i (.refused opened)) tryAgain
  have slept (changes : Changes) := ((refused changes).trace.step (waits changes)).elapses pollMs
  have trace (changes : Changes) :=
    (slept changes).step (.retries (System.phase_enter_self _ _ _) (Nat.le_refl _))
  exact ⟨_, _, trace, by simp, by simp [Act.IsUnsuccessful], System.phase_enter_self _ _ _,
    rfl, rfl, rfl⟩

/-- A run that finds the lock held tries again and again, until it has waited for long enough. -/
theorem exists_trace_of_refused {opened : Opened} {holder polls : Nat} (dir : Path)
    (trying : s.phase i = .trying opened) (locked : s.holder opened.file = some holder)
    (began : opened.since ≤ s.clock)
    (left : s.clock + polls * pollMs = opened.since + waitingTime (runs i).timeoutMs) :
    ∃ events s', (∀ changes, Trace dir runs changes s events s') ∧
      (∀ event ∈ events, event.run = i) ∧ (∀ event ∈ events, event.act.IsUnsuccessful) ∧
      s'.phase i = .gaveUp opened
        (.lockTimeout (runs i).root (waitingTime (runs i).timeoutMs / 1000)) ∧
      s'.root = s.root ∧ s'.holder = s.holder := by
  induction polls generalizing s with
  | zero =>
      have waited : s.clock - opened.since = waitingTime (runs i).timeoutMs := by omega
      have timedOut := attempt_waitingTime (runs i).timeoutMs
      rw [← waited] at timedOut
      have refused (changes : Changes) : Step dir runs changes s i (.isRefused holder) _ :=
        .isRefused trying locked
      have gone (changes : Changes) : Step dir runs changes _ i .givesUp _ :=
        .givesUp (System.phase_enter_self s i (.refused opened)) timedOut
      have trace (changes : Changes) := (refused changes).trace.step (gone changes)
      rw [waited] at trace
      exact ⟨_, _, trace, by simp, by simp [Act.IsUnsuccessful], System.phase_enter_self _ _ _, rfl,
        rfl⟩
  | succ polls ih =>
      have early : s.clock - opened.since < (runs i).timeoutMs := by
        rw [waitingTime, pollMs] at left
        omega
      have tryAgain : attempt true (runs i).timeoutMs (s.clock - opened.since) = .tryAgain := by
        simp [attempt, Nat.not_le.mpr early]
      obtain ⟨events, s', first, own, none_gained, trying', later, root, locks⟩ :=
        exists_trace_of_poll dir trying locked tryAgain
      obtain ⟨more, last, second, own', none_gained', gone, root', locks'⟩ :=
        ih trying' (locks ▸ locked) (by omega) (by rw [later, ← left, Nat.add_mul]; omega)
      refine ⟨_, _, fun changes => (first changes).append (second changes), ?_, ?_, gone,
        root'.trans root, locks'.trans locks⟩
      · rw [List.forall_mem_append]
        exact ⟨own, own'⟩
      · rw [List.forall_mem_append]
        exact ⟨none_gained, none_gained'⟩

/-! ## The check of the program -/

/-- A machine shows a run the files of a system and the locks that are held. -/
structure System.Shows (s : System) (dir : Path) (run : CheckRun) (m : Machine)
    (held : List Location) : Prop where
  files : m.tree = run.view s.root
  directory : Program.lockDirectory m = dir
  searchPath : Program.searchPath m = run.searchPath
  locks : ∀ file, file ∈ held ↔ s.holder file ≠ none

/-- What a check does from its beginning to its end, given whether it wants the lock and what it is
told when it asks for it. -/
inductive Course (wanted : Bool) (acquired : Except Fault Location) (answer : Answer) :
    List Act → Prop where
  | underLock {file : Location} {work : List Act} :
      wanted = true → acquired = .ok file → (∀ act ∈ work, act.IsRequest) →
      Course wanted acquired answer (.opens :: .acquires :: (work ++ [.releases answer]))
  /-- It does nothing but to open the lock file and to try the lock. -/
  | refused {fault : Fault} {acts : List Act} :
      wanted = true → acquired = .error fault → answer = .error fault →
      (∀ act ∈ acts, act = .opens ∨ act.IsUnsuccessful) → Course wanted acquired answer acts
  | withoutLock {work : List Act} :
      wanted = false → (∀ act ∈ work, act.IsRequest) →
      Course wanted acquired answer (.goesAhead :: (work ++ [.ends answer]))

/-- The program's check on a machine is what a run does in a system while the others rest: it comes
to the same answer and leaves the same files, and it has given back the lock that it took. -/
structure IsCheck (dir : Path) (runs : Nat → CheckRun) (i : Nat) (s : System) (m : Machine)
    (held : List Location) (events : List Event) (s' : System) (answer : Answer) (last : Machine) :
    Prop where
  /-- Among any changes that its programs keep to. -/
  trace : ∀ changes : Changes,
    changes.Cover (runs i).work (Program.takeLock m (runs i).settings held).2 →
    Trace dir runs changes s events s'
  onMachine : Trace dir runs (.onMachine (runs i).here) s events s'
  own : ∀ event ∈ events, event.run = i
  course : Course (runs i).settings.lock
    (acquire m.tree held dir (runs i).root (runs i).timeoutMs).1 answer (events.map (·.act))
  answered : (s'.phase i).answer? = some answer
  locks : s'.holder = s.holder
  files : last.tree = (runs i).view s'.root
  check_eq : Program.check m (runs i).settings held =
    (answer.map fun (verdict, tokens) =>
      Program.verdictResult last (runs i).settings.output verdict tokens, last)

/-! ### Its steps -/

theorem exists_opens {t : FileTree} {file : Location} (starting : s.phase i = .starting)
    (wanted : (runs i).settings.lock = true)
    (opens : openFile ((runs i).view s.root) dir (runs i).root = .ok (t, file)) :
    ∃ s' opened, (∀ changes, Step dir runs changes s i .opens s') ∧ s'.phase i = .trying opened ∧
      opened.file = file ∧ opened.since = s.clock ∧
      opened.canonical = ((runs i).view s.root).canonical? (runs i).root ∧
      s'.root = t.root ∧ s'.holder = s.holder ∧ s'.clock = s.clock :=
  ⟨_, _, fun _ => .opens starting wanted opens, System.phase_enter_self _ _ _, rfl, rfl, rfl, rfl,
    rfl, rfl⟩

theorem exists_acquires {opened : Opened} (dir : Path) (runs : Nat → CheckRun)
    (trying : s.phase i = .trying opened) (free : s.holder opened.file = none) :
    ∃ s', (∀ changes, Step dir runs changes s i .acquires s') ∧
      s'.phase i = .working (some opened) (runs i).work ∧ s'.root = s.root ∧
      s'.holder = Function.update s.holder opened.file (some i) :=
  ⟨_, fun _ => .acquires trying free, System.phase_enter_self _ _ _, rfl, rfl⟩

theorem exists_releases {opened : Opened} {answer : Answer} (dir : Path) (runs : Nat → CheckRun)
    (finished : s.phase i = .working (some opened) (.done answer)) :
    ∃ s', (∀ changes, Step dir runs changes s i (.releases answer) s') ∧
      s'.phase i = .ended (some opened) answer ∧ s'.root = s.root ∧
      s'.holder = Function.update s.holder opened.file none :=
  ⟨_, fun _ => .releases finished, System.phase_enter_self _ _ _, rfl, rfl⟩

theorem exists_goesAhead (dir : Path) (starting : s.phase i = .starting)
    (unwanted : (runs i).settings.lock = false) :
    ∃ s', (∀ changes, Step dir runs changes s i .goesAhead s') ∧
      s'.phase i = .working none (runs i).work ∧ s'.root = s.root ∧ s'.holder = s.holder :=
  ⟨_, fun _ => .goesAhead starting unwanted, System.phase_enter_self _ _ _, rfl, rfl⟩

/-! ### Its course -/

section Check

variable (starting : s.phase i = .starting) (shows : s.Shows dir (runs i) m held)

/-- A run asks the system for its lock. -/
theorem takeLock_of_wanted (wanted : (runs i).settings.lock = true)
    (shows : s.Shows dir (runs i) m held) {answer : Except Fault Location} {tree : FileTree}
    (asked : acquire m.tree held dir (runs i).root (runs i).timeoutMs = (answer, tree)) :
    Program.takeLock m (runs i).settings held = (answer.map fun _ => (), { m with tree }) := by
  rw [CheckRun.root, CheckRun.timeoutMs] at asked
  rw [Program.takeLock, if_pos wanted, shows.directory, asked]

include starting shows

/-- A run that gets the lock does its work with it. -/
theorem exists_isCheck_of_acquired {file : Location} {tree : FileTree}
    (wanted : (runs i).settings.lock = true)
    (acquired : acquire m.tree held dir (runs i).root (runs i).timeoutMs = (.ok file, tree)) :
    ∃ events s' answer last, IsCheck dir runs i s m held events s' answer last := by
  have taken := takeLock_of_wanted wanted shows acquired
  obtain ⟨opens, unlocked⟩ := opens_of_acquire acquired
  have free : s.holder file = none := by
    by_contra locked
    exact unlocked ((shows.locks file).mpr locked)
  have same_here : tree.here = (runs i).here := by
    rw [here_of_openFile opens, shows.files]
    rfl
  rw [shows.files] at opens
  obtain ⟨s₁, opened, first, trying, rfl, -, -, root₁, locks₁, -⟩ :=
    exists_opens starting wanted opens
  obtain ⟨s₂, second, working, root₂, locks₂⟩ := exists_acquires dir runs trying (locks₁ ▸ free)
  have shown : ({ m with tree } : Machine).tree = (runs i).view s₂.root := by
    rw [root₂, root₁]
    exact view_of_here same_here
  obtain ⟨events, s₃, third, own, requests, finished, files, locks₃⟩ :=
    exists_trace_of_perform dir working shown
  obtain ⟨s₄, fourth, ended, root₄, locks₄⟩ := exists_releases dir runs finished
  have trace (changes : Changes) (covers : changes.Cover (runs i).work { m with tree }) :=
    (((first changes).trace.step (second changes)).append (third changes covers)).step
      (fourth changes)
  refine ⟨_, s₄, ((runs i).work.perform Machine.host { m with tree }).1, _, ?_,
    trace _ (Changes.cover_onMachine _ same_here), ?_, ?_, by rw [ended]; rfl, ?_,
    by rw [root₄]; exact files, ?_⟩
  · rw [taken]
    exact trace
  · simpa [or_imp, forall_and] using own
  · have work : ∀ act ∈ events.map (·.act), act.IsRequest := by simpa using requests
    simpa using Course.underLock wanted (congrArg Prod.fst acquired) work
  · rw [locks₄, locks₃, locks₂, locks₁, Function.update_idem, Function.update_eq_self_iff, free]
  · rw [Program.check_of_takeLock taken, shows.searchPath]
    rfl

/-- A run that does not get the lock does no work. -/
theorem exists_isCheck_of_refused {fault : Fault} {tree : FileTree}
    (wanted : (runs i).settings.lock = true)
    (refused : acquire m.tree held dir (runs i).root (runs i).timeoutMs = (.error fault, tree)) :
    ∃ events s' answer last, IsCheck dir runs i s m held events s' answer last := by
  have check_eq := Program.check_of_refused (takeLock_of_wanted wanted shows refused)
  rcases cases_of_acquire_error refused with ⟨fails, rfl⟩ | ⟨file, opens, locked, timedOut⟩
  · rw [shows.files] at fails
    have step (changes : Changes) : Step dir runs changes s i (.fails fault) _ :=
      .fails starting wanted fails
    refine ⟨_, _, .error fault, m, fun changes _ => (step changes).trace, (step _).trace, by simp,
      ?_, ?_, rfl, shows.files, check_eq⟩
    · exact .refused wanted (congrArg Prod.fst refused) rfl (by simp [Act.IsUnsuccessful])
    · rw [System.phase_enter_self]
      rfl
  · have same_here : tree.here = (runs i).here := by
      rw [here_of_openFile opens, shows.files]
      rfl
    rw [shows.files] at opens
    obtain ⟨holder, holds⟩ := Option.ne_none_iff_exists'.mp ((shows.locks file).mp locked)
    obtain ⟨s₁, opened, first, trying, rfl, began, -, root₁, locks₁, clock₁⟩ :=
      exists_opens starting wanted opens
    obtain ⟨events, s₂, second, own, none_gained, gone, root₂, locks₂⟩ :=
      exists_trace_of_refused dir trying (locks₁ ▸ holds) (by rw [began, clock₁])
        (by rw [began, clock₁]; rfl)
    rw [← timedOut] at gone
    have trace (changes : Changes) := (first changes).trace.append (second changes)
    refine ⟨_, s₂, .error fault, _, fun changes _ => trace changes, trace _, ?_, ?_,
      by rw [gone]; rfl, locks₂.trans locks₁, ?_, check_eq⟩
    · simpa using own
    · have acts : ∀ act ∈ Act.opens :: events.map (·.act), act = .opens ∨ act.IsUnsuccessful := by
        rw [List.forall_mem_cons]
        refine ⟨.inl rfl, fun act member => ?_⟩
        obtain ⟨event, inside, rfl⟩ := List.mem_map.mp member
        exact .inr (none_gained event inside)
      simpa using Course.refused wanted (congrArg Prod.fst refused) rfl acts
    · rw [root₂, root₁]
      exact view_of_here same_here

/-- A run that does not want the lock does its work at once. -/
theorem exists_isCheck_of_unwanted (unwanted : (runs i).settings.lock = false) :
    ∃ events s' answer last, IsCheck dir runs i s m held events s' answer last := by
  have taken : Program.takeLock m (runs i).settings held = (.ok (), m) := by
    rw [Program.takeLock, unwanted, if_neg Bool.false_ne_true]
  have same_here : m.tree.here = (runs i).here := by
    rw [shows.files]
    rfl
  obtain ⟨s₁, first, working, root₁, locks₁⟩ := exists_goesAhead dir starting unwanted
  obtain ⟨events, s₂, second, own, requests, finished, files, locks₂⟩ :=
    exists_trace_of_perform dir working (root₁ ▸ shows.files)
  have trace (changes : Changes) (covers : changes.Cover (runs i).work m) :=
    ((first changes).trace.append (second changes covers)).step (.ends finished)
  refine ⟨_, _, ((runs i).work.perform Machine.host m).1, _, ?_,
    trace _ (Changes.cover_onMachine _ same_here), ?_, ?_, ?_, locks₂.trans locks₁, files, ?_⟩
  · rw [taken]
    exact trace
  · simpa [or_imp, forall_and] using own
  · have work : ∀ act ∈ events.map (·.act), act.IsRequest := by simpa using requests
    simpa using Course.withoutLock unwanted work
  · rw [System.phase_enter_self]
    rfl
  · rw [Program.check_of_takeLock taken, shows.searchPath]
    rfl

/-- The program's check is what a run does in the system. -/
theorem exists_isCheck : ∃ events s' answer last,
    IsCheck dir runs i s m held events s' answer last := by
  cases wanted : (runs i).settings.lock with
  | false => exact exists_isCheck_of_unwanted starting shows wanted
  | true =>
      cases asked : acquire m.tree held dir (runs i).root (runs i).timeoutMs with
      | mk answer tree =>
          cases answer with
          | error fault => exact exists_isCheck_of_refused starting shows wanted asked
          | ok file => exact exists_isCheck_of_acquired starting shows wanted asked

end Check

/-! ## Any number of checks -/

/-- Any number of checks take turns on a root, however it is spelled and however their steps are
interleaved. No step takes the lock of another run away, and an attempt without success changes
nothing but the run that made it. The program's check is a run of the system: it asks for its lock,
and it looks at files and starts programs only when it has the lock or does not want it. -/
theorem checks_take_turns (shared : SharedDirectory dir start runs) (fresh : s₀.Fresh start)
    (trace : Trace dir runs (.keepingLocks dir start) s₀ events s) :
    TakesTurns runs events s ∧
    (∀ i act s', Step dir runs (.keepingLocks dir start) s i act s' →
      (∀ file holder, holder ≠ i → s.holder file = some holder → s'.holder file = some holder) ∧
      (∀ j, j ≠ i → s'.phase j = s.phase j) ∧
      (act.IsUnsuccessful → s'.holder = s.holder ∧ s'.root = s.root)) ∧
    ∀ i m held, s.phase i = .starting → s.Shows dir (runs i) m held →
      ∃ more s' answer last, IsCheck dir runs i s m held more s' answer last := by
  refine ⟨trace.takesTurns shared fresh, ?_, fun i m held => exists_isCheck⟩
  intro i act s' stepped
  obtain ⟨keeps, unsuccessful⟩ := stepped.keeps_locks (trace.sound shared fresh.sound)
  exact ⟨keeps, fun j other => stepped.phase_of_ne other, unsuccessful⟩

section Example

/-- A run that has the lock can go on until it releases it. -/
theorem exists_trace_to_release (dir : Path) (runs : Nat → CheckRun) {opened : Opened}
    {job : Job Answer} (working : s.phase i = .working (some opened) job)
    (isDir : s.root.HasDir start) :
    ∃ events answer s', Trace dir runs (.keepingLocks dir start) s
        (events ++ [⟨s.clock, i, .releases answer⟩]) s' ∧
      s'.clock = s.clock ∧ s'.holder opened.file = none ∧ (s'.phase i).opened? = some opened ∧
      ∀ k, k ≠ i → s'.phase k = s.phase k := by
  induction job generalizing s with
  | done answer =>
      refine ⟨[], answer, _, (Step.releases working).trace, rfl, by simp, ?_, ?_⟩
      · rw [System.phase_enter_self]
        rfl
      · exact fun k other => System.phase_enter_of_ne _ _ other
  | run launch next ih =>
      have first : Step dir runs (.keepingLocks dir start) s i
          (.launches launch (.timedOut 0 "")) _ := .launches working (.refl dir isDir)
      obtain ⟨events, answer, s', later, clock, free, is_opened, others⟩ := ih (.timedOut 0 "")
        (System.phase_enter_self s i (.working (some opened) (next (.timedOut 0 "")))) isDir
      refine ⟨_, answer, s', List.append_assoc .. ▸ first.trace.append later, clock, free,
        is_opened, ?_⟩
      exact fun k other => (others k other).trans (System.phase_enter_of_ne s _ other)
  | look next ih =>
      have first : Step dir runs (.keepingLocks dir start) s i .looks _ := .looks working
      obtain ⟨events, answer, s', later, clock, free, is_opened, others⟩ :=
        ih ((runs i).view s.root)
          (System.phase_enter_self s i (.working (some opened) (next ((runs i).view s.root)))) isDir
      refine ⟨_, answer, s', List.append_assoc .. ▸ first.trace.append later, clock, free,
        is_opened, ?_⟩
      exact fun k other => (others k other).trans (System.phase_enter_of_ne s _ other)

/-- Two runs in one directory, of which the second comes by a link. -/
def linkedRuns (i : Nat) : CheckRun where
  settings := { root := if i = 0 then "/w" else "/l" }
  here := []
  searchPath := ""

def idleSystem : System where
  root := RunContext.nestedRoots.root
  clock := 0
  holder := fun _ => none
  phase := fun _ => .starting

/-- Both runs open the same file, the second one after the first one has made it. -/
def opensSameFile : Bool :=
  match openFile RunContext.nestedRoots "/tmp" "/w" with
  | .error _ => false
  | .ok (t, file) =>
    match openFile { root := t.root } "/tmp" "/l" with
    | .error _ => false
    | .ok (_, file') => file = file' && ({ root := t.root } : FileTree).canonical? "/l" = some "/w"

theorem exists_openFile_linked :
    ∃ t u file, openFile RunContext.nestedRoots "/tmp" "/w" = .ok (t, file) ∧
      openFile { root := t.root } "/tmp" "/l" = .ok (u, file) ∧
      ({ root := t.root } : FileTree).canonical? "/l" = some "/w" := by
  have same : opensSameFile = true := by decide +kernel
  unfold opensSameFile at same
  split at same
  · cases same
  case h_2 t file opens =>
    split at same
    · cases same
    case h_2 u file' opens' =>
      rw [Bool.and_eq_true, decide_eq_true_eq, decide_eq_true_eq] at same
      obtain ⟨rfl, canonical⟩ := same
      exact ⟨t, u, file, opens, opens', canonical⟩

theorem shows_idleSystem :
    idleSystem.Shows "/tmp" (linkedRuns 0) RunContext.nestedMachine [] where
  files := rfl
  directory := by decide
  searchPath := rfl
  locks file := by simp [idleSystem]

/-- The first run is the program's check if it is alone. Otherwise the second run is refused, waits,
and gets the lock when the first one has released it. -/
theorem checks_take_turns_by_link :
    (∃ more s' answer last,
      IsCheck "/tmp" linkedRuns 0 idleSystem RunContext.nestedMachine [] more s' answer last) ∧
    ∃ events answer s, SharedDirectory "/tmp" [] linkedRuns ∧ idleSystem.Fresh [] ∧
      Trace "/tmp" linkedRuns (.keepingLocks "/tmp" []) idleSystem
        ([⟨0, 0, .opens⟩, ⟨0, 1, .opens⟩, ⟨0, 0, .acquires⟩, ⟨0, 1, .isRefused 0⟩, ⟨0, 1, .waits⟩,
          ⟨100, 1, .retries⟩] ++ (events ++ [⟨100, 0, .releases answer⟩]) ++
          [⟨100, 1, .acquires⟩]) s ∧
      s.rootOf 0 = some "/w" ∧ s.rootOf 1 = some "/w" ∧ s.IsWorking 1 ∧ ¬ s.IsWorking 0 := by
  obtain ⟨t, u, file, opens, opens', canonical'⟩ := exists_openFile_linked
  have shared : SharedDirectory "/tmp" [] linkedRuns := fun _ => .inl (by decide)
  have fresh : idleSystem.Fresh [] := ⟨⟨_, _, rfl⟩, fun _ => rfl, fun _ => rfl⟩
  refine ⟨(checks_take_turns shared fresh .start).2.2 0 _ [] rfl shows_idleSystem, ?_⟩
  have canonical : RunContext.nestedRoots.canonical? "/w" = some "/w" := by decide
  obtain ⟨s₁, opened, first, trying, at_file, -, named, root₁, holder₁, clock₁⟩ :
      ∃ s' opened, (∀ changes, Step "/tmp" linkedRuns changes idleSystem 0 .opens s') ∧
        s'.phase 0 = .trying opened ∧ opened.file = file ∧ opened.since = 0 ∧
        opened.canonical = RunContext.nestedRoots.canonical? "/w" ∧ s'.root = t.root ∧
        s'.holder = idleSystem.holder ∧ s'.clock = 0 :=
    exists_opens rfl rfl opens
  obtain ⟨s₂, opened', second, trying', at_file', -, named', -, holder₂, clock₂⟩ :
      ∃ s' opened', (∀ changes, Step "/tmp" linkedRuns changes s₁ 1 .opens s') ∧
        s'.phase 1 = .trying opened' ∧ opened'.file = file ∧ opened'.since = s₁.clock ∧
        opened'.canonical = ((linkedRuns 1).view s₁.root).canonical? "/l" ∧ s'.root = u.root ∧
        s'.holder = s₁.holder ∧ s'.clock = s₁.clock := by
    refine exists_opens ((first (.onMachine [])).phase_of_ne (by decide)) rfl ?_
    rw [root₁]
    exact opens'
  have same_file : opened'.file = opened.file := at_file'.trans at_file.symm
  have trying₀ : s₂.phase 0 = .trying opened :=
    ((second (.onMachine [])).phase_of_ne (by decide)).trans trying
  have free : s₂.holder opened.file = none := by
    rw [holder₂, holder₁]
    rfl
  obtain ⟨s₃, third, works, -, holder₃⟩ := exists_acquires "/tmp" linkedRuns trying₀ free
  have held : s₃.holder opened'.file = some 0 := by
    rw [holder₃, same_file, Function.update_self]
  obtain ⟨s₄, fourth, refused, clock₄⟩ :
      ∃ s', Step "/tmp" linkedRuns (.keepingLocks "/tmp" []) s₃ 1 (.isRefused 0) s' ∧
        s'.phase 1 = .refused opened' ∧ s'.clock = s₃.clock :=
    ⟨_, .isRefused (((third (.onMachine [])).phase_of_ne (by decide)).trans trying') held,
      System.phase_enter_self _ _ _, rfl⟩
  have no_time : s₃.clock = 0 := by
    rw [(third (.onMachine [])).clock_eq, clock₂, clock₁]
  have waits : attempt true (linkedRuns 1).timeoutMs (s₄.clock - opened'.since) = .tryAgain := by
    rw [clock₄, no_time, Nat.zero_sub]
    decide
  obtain ⟨s₅, fifth, sleeping, clock₅⟩ :
      ∃ s', Step "/tmp" linkedRuns (.keepingLocks "/tmp" []) s₄ 1 .waits s' ∧
        s'.phase 1 = .sleeping opened' (s₄.clock + pollMs) ∧ s'.clock = s₄.clock :=
    ⟨_, .waits refused waits, System.phase_enter_self _ _ _, rfl⟩
  obtain ⟨s₆, sixth, trying'', clock₆⟩ :
      ∃ s', Step "/tmp" linkedRuns (.keepingLocks "/tmp" [])
          { s₅ with clock := s₅.clock + pollMs } 1 .retries s' ∧
        s'.phase 1 = .trying opened' ∧ s'.clock = s₅.clock + pollMs :=
    ⟨_, .retries sleeping (by rw [clock₅]), System.phase_enter_self _ _ _, rfl⟩
  have before := ((((first (.keepingLocks "/tmp" [])).trace.step (second _)).step (third _)).step
    fourth).step fifth
  have until_now := (before.elapses pollMs).step sixth
  have works' : s₆.phase 0 = .working (some opened) (linkedRuns 0).work := by
    rw [sixth.phase_of_ne (by decide)]
    exact (fifth.phase_of_ne (by decide)).trans ((fourth.phase_of_ne (by decide)).trans works)
  obtain ⟨events, answer, s₇, seventh, clock₇, free', is_opened, others⟩ :=
    exists_trace_to_release "/tmp" linkedRuns works' (until_now.sound shared fresh.sound).isDir
  obtain ⟨s₈, eighth, works'', -, -⟩ := exists_acquires "/tmp" linkedRuns
    ((others 1 (by decide)).trans trying'') (same_file ▸ free')
  have trace := (until_now.append seventh).step (eighth _)
  -- No step but the wait has taken any time.
  rw [clock₇, clock₆, clock₅, clock₄, no_time, clock₂, clock₁] at trace
  have root₀ : s₈.rootOf 0 = some "/w" := by
    rw [System.rootOf, (eighth (.onMachine [])).phase_of_ne (by decide), is_opened,
      Option.bind_some, named, canonical]
  have root₁ : s₈.rootOf 1 = some "/w" := by
    rw [System.rootOf, works'']
    exact named'.trans (root₁ ▸ canonical')
  have working : s₈.IsWorking 1 := ⟨_, _, works''⟩
  refine ⟨events, answer, s₈, shared, fresh, trace, root₀, root₁, working, fun working' => ?_⟩
  obtain ⟨turns, -⟩ := checks_take_turns shared fresh trace
  exact absurd (turns.alone 0 1 "/w" root₀ root₁ working' working) (by decide)

end Example

end Lock

end LintGate
