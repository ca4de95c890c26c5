import LintGate.Proofs.Lock.Contention
import LintGate.Proofs.Path.Parents
import LintGate.Proofs.Run.Locks

/-!
# Runs on one root exclude each other

Of all runs whose roots have the same canonical path, however each root was spelled, at most one at
a time has the lock and works. The invariant says that a lock is held by the run that works under
it, and that a lock file stays where the path from which it was opened leads.
-/

namespace LintGate

namespace Lock

variable {dir : Path} {start : Location} {runs : Nat → CheckRun} {changes : Changes}
  {s₀ s s' : System} {i j : Nat} {act : Act} {events : List Event} {t u : FileTree} {root : Path}
  {file : Location}

/-- All runs put their lock files into one directory. Its path is absolute, or it begins at the same
place for all of them. -/
def SharedDirectory (dir : Path) (start : Location) (runs : Nat → CheckRun) : Prop :=
  ∀ i, dir.isAbsolute = true ∨ (runs i).here = start

/-! ## Lock files -/

theorem isAbsolute_lockFile (absolute : dir.isAbsolute = true) (path : String) :
    (dir.join (lockName path)).isAbsolute = true := by
  have relative : Path.isAbsolute (lockName path) = false := by
    rw [Path.isAbsolute, lockName, String.toList_append, String.toList_append]
    rfl
  rw [Path.isAbsolute_join relative (Path.ne_empty_of_isAbsolute absolute), absolute]

/-- Where an absolute path leads does not depend on where relative paths begin. -/
theorem resolve_eq_of_begins {p : Path} (begins : p.isAbsolute = true ∨ t.here = start) :
    t.resolve p = (⟨t.root, start⟩ : FileTree).resolve p := by
  rw [FileTree.resolve, FileTree.resolve, FileTree.resolveWith, FileTree.resolveWith]
  rcases begins with absolute | same
  · rw [absolute]
    rfl
  · rw [same]

theorem location_eq {p : Path} {l l' : Location} {node node' : Node}
    (there : t.resolve p = .ok (.present l node)) (there' : t.resolve p = .ok (.present l' node')) :
    l = l' := by
  cases there.symm.trans there'
  rfl

theorem KeepsLockFiles.refl {root : Node} (dir : Path) (isDir : root.HasDir start) :
    KeepsLockFiles dir start root root where
  isDir := isDir
  inPlace _ _ node there := ⟨node, there⟩

/-- To open a lock file leaves all lock files in place, and it is then where the path leads that
belongs to the canonical path of the root. -/
theorem keepsLockFiles_of_openFile (begins : dir.isAbsolute = true ∨ t.here = start)
    (isDir : t.root.HasDir start) (opens : openFile t dir root = .ok (u, file)) :
    KeepsLockFiles dir start t.root u.root ∧
      ∀ path, t.canonical? root = some path → ∃ node,
        (⟨u.root, start⟩ : FileTree).resolve (dir.join (lockName path)) =
          .ok (.present file node) := by
  have leads : t.resolve (t.lockPath dir root) =
      (⟨t.root, start⟩ : FileTree).resolve (t.lockPath dir root) :=
    resolve_eq_of_begins (begins.imp_left fun absolute => isAbsolute_lockFile absolute _)
  have named (path : Path) (canonical : t.canonical? root = some path) :
      dir.join (lockName path) = t.lockPath dir root :=
    (FileTree.lockPath_of_canonical? canonical dir).symm
  rcases cases_of_openFile opens with ⟨rfl, node, there, -⟩ | ⟨above, name, empty, rfl, rfl⟩
  · refine ⟨.refl dir isDir, fun path canonical => ⟨node, ?_⟩⟩
    rw [named path canonical, ← leads, there]
  · rw [leads] at empty
    have keeps := (FileTree.addsFile_of_absent [] Node.plainMode isDir empty).keeps
    refine ⟨⟨?_, fun path place node => FileTree.exists_present_of_resolve keeps rfl⟩, ?_⟩
    · obtain ⟨entries, listable, isDir⟩ := isDir
      obtain ⟨node, entry, same⟩ := keeps.exists_outline isDir
      obtain ⟨others, rfl⟩ := Node.exists_dir_of_outline same
      exact ⟨others, listable, entry⟩
    · intro path canonical
      rw [named path canonical]
      obtain ⟨now, bits, there⟩ := FileTree.exists_file_of_added [] Node.plainMode isDir empty
      exact ⟨.file now bits, there⟩

/-! ## The invariant -/

/-- The lock file of a run in this phase is at the place to which its path leads, if the root of the
run exists. -/
def Phase.InPlace (dir : Path) (start : Location) (root : Node) (phase : Phase) : Prop :=
  ∀ opened path, phase.opened? = some opened → opened.canonical = some path →
    ∃ node, (⟨root, start⟩ : FileTree).resolve (dir.join (lockName path)) =
      .ok (.present opened.file node)

namespace System

/-- What holds of a system after any steps. -/
structure Sound (dir : Path) (start : Location) (s : System) : Prop where
  isDir : s.root.HasDir start
  /-- A lock is held by the run that works under it. -/
  locked : ∀ file i, s.holder file = some i ↔ (s.phase i).holds? = some file
  inPlace : ∀ i, (s.phase i).InPlace dir start s.root

theorem Fresh.sound (fresh : s.Fresh start) : s.Sound dir start where
  isDir := fresh.isDir
  locked := fun file i => by simp [fresh.free, fresh.starting, Phase.holds?]
  inPlace := fun i opened path is_opened => by simp [fresh.starting, Phase.opened?] at is_opened

namespace Sound

theorem withRoot {root : Node} (sound : s.Sound dir start)
    (keeps : KeepsLockFiles dir start s.root root) :
    ({ s with root } : System).Sound dir start where
  isDir := keeps.isDir
  locked := sound.locked
  inPlace := by
    intro i opened path is_opened canonical
    obtain ⟨node, there⟩ := sound.inPlace i opened path is_opened canonical
    exact keeps.inPlace path opened.file node there

/-- A run enters a phase, and who holds which lock changes accordingly. -/
theorem enter {phase : Phase} {holder : Location → Option Nat} (sound : s.Sound dir start)
    (own : ∀ file, holder file = some i ↔ phase.holds? = some file)
    (others : ∀ file k, k ≠ i → (holder file = some k ↔ s.holder file = some k))
    (inPlace : phase.InPlace dir start s.root) :
    (({ s with holder } : System).enter i phase).Sound dir start where
  isDir := sound.isDir
  locked := by
    intro file k
    by_cases same : k = i
    · subst same
      rw [phase_enter_self]
      exact own file
    · rw [phase_enter_of_ne _ phase same]
      exact (others file k same).trans (sound.locked file k)
  inPlace := by
    intro k
    by_cases same : k = i
    · subst same
      rwa [phase_enter_self]
    · rw [phase_enter_of_ne _ phase same]
      exact sound.inPlace k

/-- A run goes on with the lock that it has, or without one. -/
theorem goesOn {phase : Phase} (sound : s.Sound dir start)
    (same_lock : phase.holds? = (s.phase i).holds?)
    (same_file : phase.opened? = (s.phase i).opened?) : (s.enter i phase).Sound dir start := by
  apply sound.enter
  · intro file
    rw [sound.locked, same_lock]
  · exact fun _ _ _ => Iff.rfl
  · intro opened path is_opened
    exact sound.inPlace i opened path (same_file ▸ is_opened)

end Sound

end System

theorem Step.sound (shared : SharedDirectory dir start runs) (sound : s.Sound dir start)
    (stepped : Step dir runs (.keepingLocks dir start) s i act s') : s'.Sound dir start := by
  cases stepped with
  | @opens t file starting _ opens =>
      obtain ⟨keeps, opened⟩ := keepsLockFiles_of_openFile (shared i) sound.isDir opens
      apply (sound.withRoot keeps).enter
      · intro file
        rw [sound.locked, starting]
        rfl
      · exact fun _ _ _ => Iff.rfl
      · rintro _ path ⟨⟩ canonical
        exact opened path canonical
  | fails starting | goesAhead starting =>
      exact sound.goesOn (by rw [starting]; rfl) (by rw [starting]; rfl)
  | breaks _ trying => exact sound.goesOn (by rw [trying]; rfl) (by rw [trying]; rfl)
  | @acquires opened trying free =>
      apply sound.enter
      · intro file
        by_cases here : file = opened.file
        · simp [here, Phase.holds?]
        · have without : s.holder file ≠ some i := by
            simp [sound.locked, trying, Phase.holds?]
          simp [here, Ne.symm here, Phase.holds?, without]
      · intro file k other
        by_cases here : file = opened.file
        · simp [here, free, Ne.symm other]
        · simp [here]
      · intro other path is_opened
        cases is_opened
        exact sound.inPlace i opened path (by rw [trying]; rfl)
  | isRefused trying => exact sound.goesOn (by rw [trying]; rfl) (by rw [trying]; rfl)
  | waits refused | givesUp refused =>
      exact sound.goesOn (by rw [refused]; rfl) (by rw [refused]; rfl)
  | retries sleeping => exact sound.goesOn (by rw [sleeping]; rfl) (by rw [sleeping]; rfl)
  | looks working | ends working =>
      exact sound.goesOn (by rw [working]; rfl) (by rw [working]; rfl)
  | launches working keeps =>
      exact (sound.withRoot keeps).goesOn (by rw [working]; rfl) (by rw [working]; rfl)
  | @releases opened answer working =>
      have locked : s.holder opened.file = some i := by
        rw [sound.locked, working]
        rfl
      apply sound.enter
      · intro file
        by_cases here : file = opened.file
        · simp [here, Phase.holds?]
        · have without : s.holder file ≠ some i := by
            rw [ne_eq, sound.locked, working]
            exact fun same => here (Option.some.inj same).symm
          simp [here, Phase.holds?, without]
      · intro file k other
        by_cases here : file = opened.file
        · simp [here, locked, Ne.symm other]
        · simp [here]
      · intro other path is_opened
        cases is_opened
        exact sound.inPlace i opened path (by rw [working]; rfl)

theorem Trace.sound (shared : SharedDirectory dir start runs) (sound : s₀.Sound dir start)
    (trace : Trace dir runs (.keepingLocks dir start) s₀ events s) : s.Sound dir start := by
  induction trace with
  | start => exact sound
  | step _ stepped ih => exact stepped.sound shared ih
  | changes _ keeps ih => exact ih.withRoot keeps
  | elapses _ _ ih => exact ⟨ih.isDir, ih.locked, ih.inPlace⟩

/-! ## Between taking the lock and releasing it -/

namespace System

/-- A run is between taking the lock and releasing it. -/
def IsWorking (s : System) (i : Nat) : Prop :=
  ∃ opened job, s.phase i = .working (some opened) job

/-- The canonical path of the root of a run, as it was when the run opened its lock file. -/
def rootOf (s : System) (i : Nat) : Option Path :=
  (s.phase i).opened?.bind (·.canonical)

theorem isWorking_iff_holds : s.IsWorking i ↔ ∃ file, (s.phase i).holds? = some file := by
  rw [IsWorking]
  cases s.phase i with
  | working guard => cases guard <;> simp [Phase.holds?]
  | starting | failed | trying | refused | sleeping | gaveUp | ended => simp [Phase.holds?]

/-- Runs with one lock file have one lock. -/
theorem Sound.eq_of_isWorking (sound : s.Sound dir start) {path : Path}
    (first : s.rootOf i = some path) (second : s.rootOf j = some path) (working : s.IsWorking i)
    (working' : s.IsWorking j) : i = j := by
  obtain ⟨opened, job, phase⟩ := working
  obtain ⟨opened', job', phase'⟩ := working'
  rw [rootOf, phase] at first
  rw [rootOf, phase'] at second
  obtain ⟨node, there⟩ := sound.inPlace i opened path (by rw [phase]; rfl) first
  obtain ⟨node', there'⟩ := sound.inPlace j opened' path (by rw [phase']; rfl) second
  have same_file : opened.file = opened'.file := location_eq there there'
  have holds : s.holder opened.file = some i := (sound.locked _ _).mpr (by rw [phase]; rfl)
  have holds' : s.holder opened.file = some j :=
    (sound.locked _ _).mpr (by rw [phase', same_file]; rfl)
  exact Option.some.inj (holds.symm.trans holds')

end System

/-- The run has taken the lock and not released it since. -/
def HasAcquired (i : Nat) (events : List Event) : Prop :=
  ∃ front time back, events = front ++ ⟨time, i, .acquires⟩ :: back ∧
    ∀ later answer, ⟨later, i, .releases answer⟩ ∉ back

theorem hasAcquired_append_iff {event : Event} :
    HasAcquired i (events ++ [event]) ↔ event.run = i ∧ event.act = .acquires ∨
      HasAcquired i events ∧ ∀ answer, ¬ (event.run = i ∧ event.act = .releases answer) := by
  obtain ⟨time, run, act⟩ := event
  constructor
  · rintro ⟨front, began, back, split, held⟩
    rcases cases_of_append_singleton split with ⟨-, same, -⟩ | ⟨between, rfl, rfl⟩
    · cases same
      exact .inl ⟨rfl, rfl⟩
    · refine .inr ⟨⟨front, began, between, rfl, fun later answer member => ?_⟩, ?_⟩
      · exact held later answer (List.mem_append_left _ member)
      · rintro answer ⟨rfl, rfl⟩
        exact held time answer (List.mem_append_right _ List.mem_cons_self)
  · rintro (⟨rfl, rfl⟩ | ⟨⟨front, began, back, rfl, held⟩, stays⟩)
    · exact ⟨events, time, [], rfl, by simp⟩
    · refine ⟨front, began, back ++ [⟨time, run, act⟩], by simp, fun later answer member => ?_⟩
      rcases List.mem_append.mp member with early | last
      · exact held later answer early
      · cases List.mem_singleton.mp last
        exact stays answer ⟨rfl, rfl⟩

theorem Step.phase_of_ne (stepped : Step dir runs changes s j act s') (other : i ≠ j) :
    s'.phase i = s.phase i := by
  cases stepped <;> exact System.phase_enter_of_ne _ _ other

/-- A run works when it takes the lock, and until it releases it. -/
theorem Step.isWorking_iff (stepped : Step dir runs changes s j act s') :
    s'.IsWorking i ↔ j = i ∧ act = .acquires ∨
      s.IsWorking i ∧ ∀ answer, ¬ (j = i ∧ act = .releases answer) := by
  by_cases own : i = j
  · subst own
    cases stepped with
    | opens phase | fails phase | breaks _ phase | acquires phase | isRefused phase | waits phase
      | retries phase | givesUp phase | goesAhead phase | looks phase | launches phase
      | releases phase | ends phase => simp [System.IsWorking, phase]
  · simp [System.IsWorking, stepped.phase_of_ne own, Ne.symm own]

theorem Trace.isWorking_iff (fresh : s₀.Fresh start) (trace : Trace dir runs changes s₀ events s) :
    s.IsWorking i ↔ HasAcquired i events := by
  induction trace with
  | start =>
      have idle : ¬ s₀.IsWorking i := by simp [System.IsWorking, fresh.starting]
      refine ⟨fun working => absurd working idle, ?_⟩
      rintro ⟨front, time, back, split, -⟩
      simp at split
  | step _ stepped ih => rw [hasAcquired_append_iff, stepped.isWorking_iff, ih]
  | changes _ _ ih | elapses _ _ ih => exact ih

/-! ## Without the lock -/

/-- At work, or at its end, without having had the lock. -/
def Phase.IsUnlocked : Phase → Prop
  | .working guard _ | .ended guard _ => guard = none
  | _ => False

theorem Phase.not_isUnlocked_of_opened {phase : Phase} {opened : Opened}
    (is_opened : phase.opened? = some opened) : ¬ phase.IsUnlocked := by
  intro unlocked
  cases phase with
  | working guard | ended guard => cases unlocked.symm.trans is_opened
  | starting | failed | trying | refused | sleeping | gaveUp => cases unlocked

/-- Who goes on without the lock does not come to have had it. -/
theorem Step.isUnlocked (stepped : Step dir runs changes s j act s')
    (unlocked : (s.phase i).IsUnlocked) : (s'.phase i).IsUnlocked := by
  by_cases own : i = j
  · subst own
    cases stepped with
    | opens phase | fails phase | breaks _ phase | acquires phase | isRefused phase | waits phase
      | retries phase | givesUp phase | goesAhead phase | releases phase =>
        rw [phase] at unlocked
        cases unlocked
    | ends => simp [Phase.IsUnlocked]
    | looks phase | launches phase =>
        rw [phase] at unlocked
        rw [System.phase_enter_self]
        exact unlocked
  · rwa [stepped.phase_of_ne own]

theorem Trace.isUnlocked (trace : Trace dir runs changes s₀ events s)
    (unlocked : (s₀.phase i).IsUnlocked) : (s.phase i).IsUnlocked := by
  induction trace with
  | start => exact unlocked
  | step _ stepped ih => exact stepped.isUnlocked ih
  | changes _ _ ih | elapses _ _ ih => exact ih

/-- Only a run that does not want the lock works without it. -/
theorem Trace.not_wanted (fresh : s₀.Fresh start) (trace : Trace dir runs changes s₀ events s)
    (unlocked : (s.phase i).IsUnlocked) : (runs i).settings.lock = false := by
  induction trace with
  | start =>
      rw [fresh.starting] at unlocked
      cases unlocked
  | @step _ s s' j act _ stepped ih =>
      by_cases own : i = j
      · subst own
        cases stepped with
        | opens | fails | breaks | acquires | isRefused | waits | retries | givesUp | releases =>
            rw [System.phase_enter_self] at unlocked
            cases unlocked
        | goesAhead _ unwanted => exact unwanted
        | looks phase | launches phase =>
            rw [System.phase_enter_self] at unlocked
            exact ih (by rw [phase]; exact unlocked)
        | ends phase => exact ih (by rw [phase]; rfl)
      · exact ih (stepped.phase_of_ne own ▸ unlocked)
  | changes _ _ ih | elapses _ _ ih => exact ih unlocked

/-- Work is done by runs that have the lock, and by runs that do not want it. -/
theorem Step.cases_of_isWork (stepped : Step dir runs changes s j act s') (work : act.IsWork) :
    s.IsWorking j ∨ (s.phase j).IsUnlocked := by
  have guarded {guard : Option Opened} {job : Job Answer} (phase : s.phase j = .working guard job) :
      s.IsWorking j ∨ (s.phase j).IsUnlocked := by
    cases guard with
    | some opened => exact .inl ⟨opened, job, phase⟩
    | none =>
        rw [phase]
        exact .inr rfl
  cases stepped with
  | opens | fails | breaks | acquires | isRefused | waits | retries | givesUp | goesAhead =>
      cases work
  | looks phase | launches phase | releases phase | ends phase => exact guarded phase

/-! ## Who was refused -/

theorem Step.opened?_eq {opened : Opened} (stepped : Step dir runs changes s j act s')
    (is_opened : (s.phase i).opened? = some opened) : (s'.phase i).opened? = some opened := by
  by_cases own : i = j
  · subst own
    cases stepped with
    | opens phase | fails phase | goesAhead phase => simp [phase, Phase.opened?] at is_opened
    | breaks _ phase | acquires phase | isRefused phase | waits phase | retries phase
      | givesUp phase | looks phase | launches phase | releases phase | ends phase =>
        rw [phase] at is_opened
        rw [System.phase_enter_self]
        exact is_opened
  · rwa [stepped.phase_of_ne own]

theorem Trace.opened?_eq {opened : Opened} (trace : Trace dir runs changes s₀ events s)
    (is_opened : (s₀.phase i).opened? = some opened) : (s.phase i).opened? = some opened := by
  induction trace with
  | start => exact is_opened
  | step _ stepped ih => exact stepped.opened?_eq ih
  | changes _ _ ih | elapses _ _ ih => exact ih

theorem Step.clock_eq (stepped : Step dir runs changes s i act s') : s'.clock = s.clock := by
  cases stepped <;> rfl

theorem Trace.time_le_clock (trace : Trace dir runs changes s₀ events s) :
    ∀ event ∈ events, event.time ≤ s.clock := by
  induction trace with
  | start => simp
  | step _ stepped ih =>
      rw [List.forall_mem_append, List.forall_mem_singleton, stepped.clock_eq]
      exact ⟨ih, Nat.le_refl _⟩
  | changes _ _ ih => exact ih
  | elapses ms _ ih => exact fun event member => (ih event member).trans (Nat.le_add_right _ ms)

/-- A run counts its time from when it opened its lock file. -/
theorem Trace.opens_mem {opened : Opened} (fresh : s₀.Fresh start)
    (trace : Trace dir runs changes s₀ events s)
    (is_opened : (s.phase i).opened? = some opened) : ⟨opened.since, i, .opens⟩ ∈ events := by
  induction trace with
  | start => simp [fresh.starting, Phase.opened?] at is_opened
  | @step events s s' j act _ stepped ih =>
      by_cases own : i = j
      · subst own
        cases stepped with
        | opens =>
            rw [System.phase_enter_self] at is_opened
            cases is_opened
            exact List.mem_append_right _ List.mem_cons_self
        | fails | goesAhead => simp [Phase.opened?] at is_opened
        | breaks _ phase | acquires phase | isRefused phase | waits phase | retries phase
          | givesUp phase | looks phase | launches phase | releases phase | ends phase =>
            rw [System.phase_enter_self] at is_opened
            exact List.mem_append_left _ (ih (by rw [phase]; exact is_opened))
      · exact List.mem_append_left _ (ih (stepped.phase_of_ne own ▸ is_opened))
  | changes _ _ ih | elapses _ _ ih => exact ih is_opened

/-- A run that was refused has tried last, and has found that another run held the lock. -/
theorem Trace.exists_refusal {opened : Opened} (shared : SharedDirectory dir start runs)
    (fresh : s₀.Fresh start) (trace : Trace dir runs (.keepingLocks dir start) s₀ events s)
    (refused : s.phase i = .refused opened) :
    ∃ front time back holder, events = front ++ ⟨time, i, .isRefused holder⟩ :: back ∧
      (∀ event ∈ back, event.run ≠ i) ∧ holder ≠ i ∧ HasAcquired holder front := by
  induction trace with
  | start => simp [fresh.starting] at refused
  | @step events s s' j act trace stepped ih =>
      by_cases own : i = j
      · subst own
        cases stepped with
        | opens | fails | breaks | acquires | waits | retries | givesUp | goesAhead | looks
          | launches | releases | ends => simp at refused
        | @isRefused holder opened trying held =>
          have holds := ((trace.sound shared fresh.sound).locked opened.file holder).mp held
          refine ⟨events, s.clock, [], holder, rfl, by simp, ?_, ?_⟩
          · rintro rfl
            simp [trying, Phase.holds?] at holds
          · exact (trace.isWorking_iff fresh).mp (System.isWorking_iff_holds.mpr ⟨_, holds⟩)
      · rw [stepped.phase_of_ne own] at refused
        obtain ⟨front, time, back, holder, rfl, none_own, other, acquired⟩ := ih refused
        refine ⟨front, time, back ++ [⟨s.clock, j, act⟩], holder, by simp, ?_, other, acquired⟩
        rw [List.forall_mem_append]
        exact ⟨none_own, by simpa using Ne.symm own⟩
  | changes _ _ ih | elapses _ _ ih => exact ih refused

/-- A step leaves the locks of other runs alone, and a step that is no success leaves all locks and
the files alone. -/
theorem Step.keeps_locks (sound : s.Sound dir start) (stepped : Step dir runs changes s i act s') :
    (∀ file holder, holder ≠ i → s.holder file = some holder → s'.holder file = some holder) ∧
      (act.IsUnsuccessful → s'.holder = s.holder ∧ s'.root = s.root) := by
  cases stepped with
  | opens | goesAhead | looks | launches | ends =>
      exact ⟨fun _ _ _ held => held, False.elim⟩
  | fails | breaks | isRefused | waits | retries | givesUp =>
      exact ⟨fun _ _ _ held => held, fun _ => ⟨rfl, rfl⟩⟩
  | @acquires opened trying free =>
      refine ⟨fun file holder _ held => ?_, False.elim⟩
      have elsewhere : file ≠ opened.file := by
        rintro rfl
        cases free.symm.trans held
      simp [elsewhere, held]
  | @releases opened answer working =>
      refine ⟨fun file holder other held => ?_, False.elim⟩
      have holds : s.holder opened.file = some i := (sound.locked _ i).mpr (by rw [working]; rfl)
      have elsewhere : file ≠ opened.file := by
        rintro rfl
        exact other (Option.some.inj (held.symm.trans holds))
      simp [elsewhere, held]

theorem of_attempt_timedOut {heldByOther : Bool} {timeoutMs waitedMs reported : Nat}
    (timedOut : attempt heldByOther timeoutMs waitedMs = .timedOut reported) :
    reported = waitedMs ∧ timeoutMs ≤ waitedMs := by
  rw [attempt] at timedOut
  split at timedOut
  · cases timedOut
  · split at timedOut
    case isTrue enough =>
      cases timedOut
      exact ⟨rfl, enough⟩
    case isFalse => cases timedOut

/-- A run that gave up has tried and has found that another run held the lock; then, at or past its
time limit, it stopped. -/
theorem Trace.exists_timeout {opened : Opened} {fault : Fault}
    (shared : SharedDirectory dir start runs) (fresh : s₀.Fresh start)
    (trace : Trace dir runs (.keepingLocks dir start) s₀ events s)
    (gaveUp : s.phase i = .gaveUp opened fault) :
    ∃ front tried between gone back holder,
      events = front ++ ⟨tried, i, .isRefused holder⟩ :: (between ++ ⟨gone, i, .givesUp⟩ :: back) ∧
      ⟨opened.since, i, .opens⟩ ∈ front ∧ (∀ event ∈ between, event.run ≠ i) ∧
      holder ≠ i ∧ HasAcquired holder front ∧ opened.since + (runs i).timeoutMs ≤ gone ∧
      fault = .lockTimeout (runs i).root ((gone - opened.since) / 1000) := by
  induction trace with
  | start => simp [fresh.starting] at gaveUp
  | @step events s s' j act trace stepped ih =>
      by_cases own : i = j
      · subst own
        cases stepped with
        | opens | fails | breaks | acquires | isRefused | waits | retries | goesAhead | looks
          | launches | releases | ends => simp at gaveUp
        | @givesUp waitedMs opened refused timedOut =>
          obtain ⟨front, tried, between, holder, rfl, none_own, other, acquired⟩ :=
            trace.exists_refusal shared fresh refused
          have is_opened : (s.phase i).opened? = some opened := by
            rw [refused]
            rfl
          have began := trace.opens_mem fresh is_opened
          rw [System.phase_enter_self] at gaveUp
          cases gaveUp
          obtain ⟨rfl, waited⟩ := of_attempt_timedOut timedOut
          have enough : opened.since + (runs i).timeoutMs ≤ s.clock :=
            Nat.add_le_of_le_sub' (trace.time_le_clock _ began) waited
          have early : ⟨opened.since, i, .opens⟩ ∈ front := by
            rcases List.mem_append.mp began with early | later
            · exact early
            · rcases List.mem_cons.mp later with same | later
              · cases same
              · exact absurd rfl (none_own _ later)
          exact ⟨front, tried, between, s.clock, [], holder, by simp, early, none_own, other,
            acquired, enough, rfl⟩
      · rw [stepped.phase_of_ne own] at gaveUp
        obtain ⟨front, tried, between, gone, back, holder, rfl, rest⟩ := ih gaveUp
        exact ⟨front, tried, between, gone, back ++ [⟨s.clock, j, act⟩], holder, by simp, rest⟩
  | changes _ _ ih | elapses _ _ ih => exact ih gaveUp

/-! ## Turns -/

/-- What is known of the root of a run that works stays known. -/
theorem Trace.rootOf_eq (trace : Trace dir runs changes s₀ events s) (working : s₀.IsWorking i) :
    s₀.rootOf i = s.rootOf i := by
  obtain ⟨opened, job, phase⟩ := working
  have is_opened : (s₀.phase i).opened? = some opened := by
    rw [phase]
    rfl
  rw [System.rootOf, System.rootOf, is_opened, trace.opened?_eq is_opened]

/-- While one run has the lock, no run with the same root takes it, and none does any work. -/
theorem Trace.exists_release (shared : SharedDirectory dir start runs) (fresh : s₀.Fresh start)
    (trace : Trace dir runs (.keepingLocks dir start) s₀ events s) {front between back : List Event}
    {path : Path} {took time : Nat}
    (split : events = front ++ ⟨took, i, .acquires⟩ :: (between ++ ⟨time, j, act⟩ :: back))
    (other : i ≠ j) (root : s.rootOf i = some path) (root' : s.rootOf j = some path)
    (wants : act = .acquires ∨ act.IsWork) :
    ∃ later answer, ⟨later, i, .releases answer⟩ ∈ between := by
  by_contra held
  rw [← List.cons_append, ← List.append_assoc] at split
  obtain ⟨before, after, first, -, stepped, second⟩ := trace.exists_cut split
  have working : before.IsWorking i := (first.isWorking_iff fresh).mpr
    ⟨front, took, between, rfl, fun later answer member => held ⟨later, answer, member⟩⟩
  have working_after : after.IsWorking i := by
    obtain ⟨opened, job, phase⟩ := working
    exact ⟨opened, job, (stepped.phase_of_ne other).trans phase⟩
  have onward := stepped.trace.append second
  rcases wants with rfl | work
  · have acquired : after.IsWorking j := stepped.isWorking_iff.mpr (.inl ⟨rfl, rfl⟩)
    have sound := (first.step stepped).sound shared fresh.sound
    exact other (sound.eq_of_isWorking ((second.rootOf_eq working_after).trans root)
      ((second.rootOf_eq acquired).trans root') working_after acquired)
  · rcases stepped.cases_of_isWork work with working' | unlocked
    · have sound := first.sound shared fresh.sound
      exact other (sound.eq_of_isWorking ((onward.rootOf_eq working).trans root)
        ((onward.rootOf_eq working').trans root') working working')
    · -- A run that has not opened a lock file has no root that the others know of.
      rw [System.rootOf, Option.bind_eq_some_iff] at root'
      obtain ⟨opened, is_opened, -⟩ := root'
      exact Phase.not_isUnlocked_of_opened is_opened (onward.isUnlocked unlocked)

/-- What any steps of any number of checks have come to. -/
structure TakesTurns (runs : Nat → CheckRun) (events : List Event) (s : System) : Prop where
  /-- At most one run on a root is between taking the lock and releasing it. -/
  alone : ∀ i j path, s.rootOf i = some path → s.rootOf j = some path →
    s.IsWorking i → s.IsWorking j → i = j
  /-- Who wants the lock does its work between taking it and releasing it. -/
  locked : ∀ i front time act back, (runs i).settings.lock = true → act.IsWork →
    events = front ++ ⟨time, i, act⟩ :: back → HasAcquired i front
  /-- Snapshots, programs and verdicts of two runs on a root never overlap. -/
  released : ∀ i j path front took between time act back,
    s.rootOf i = some path → s.rootOf j = some path → i ≠ j → act = .acquires ∨ act.IsWork →
    events = front ++ ⟨took, i, .acquires⟩ :: (between ++ ⟨time, j, act⟩ :: back) →
    ∃ later answer, ⟨later, i, .releases answer⟩ ∈ between
  /-- Who gives up was refused in the last attempt, while another run held the lock, and had then
  waited for as long as the time limit since it opened the lock file. -/
  timedOut : ∀ i opened fault, s.phase i = .gaveUp opened fault →
    ∃ front tried between gone back holder,
      events = front ++ ⟨tried, i, .isRefused holder⟩ :: (between ++ ⟨gone, i, .givesUp⟩ :: back) ∧
      ⟨opened.since, i, .opens⟩ ∈ front ∧ (∀ event ∈ between, event.run ≠ i) ∧
      holder ≠ i ∧ HasAcquired holder front ∧ opened.since + (runs i).timeoutMs ≤ gone ∧
      fault = .lockTimeout (runs i).root ((gone - opened.since) / 1000)

theorem Trace.takesTurns (shared : SharedDirectory dir start runs) (fresh : s₀.Fresh start)
    (trace : Trace dir runs (.keepingLocks dir start) s₀ events s) : TakesTurns runs events s where
  alone _ _ _ root root' working working' :=
    (trace.sound shared fresh.sound).eq_of_isWorking root root' working working'
  locked i front time act back wanted work split := by
    obtain ⟨before, after, first, -, stepped, -⟩ := trace.exists_cut split
    rcases stepped.cases_of_isWork work with working | unlocked
    · exact (first.isWorking_iff fresh).mp working
    · cases wanted.symm.trans (first.not_wanted fresh unlocked)
  released _ _ _ _ _ _ _ _ _ root root' other wants split :=
    trace.exists_release shared fresh split other root root' wants
  timedOut _ _ _ gaveUp := trace.exists_timeout shared fresh gaveUp

end Lock

end LintGate
