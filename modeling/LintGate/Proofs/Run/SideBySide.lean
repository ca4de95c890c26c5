import LintGate.Proofs.FileTree.Change
import LintGate.Proofs.Run.Launches
import LintGate.Proofs.Run.Looks

/-!
# Languages side by side

When the tools and checks of every language write only files that the language claims, and read no
file that another language of the run claims, it does not matter in which order the languages take
their steps: the verdict and the tree are those of the languages one after another.

A file is what its path shows. To write through a link is to write every file that shows it.
-/

namespace LintGate

variable {σ : Type} {host : Job.Host σ} {states : σ → Prop}

/-! ## Machines -/

/-- In these states nothing but the files decides what a program does. -/
structure Job.Host.DependsOnFiles (host : Host σ) (states : σ → Prop) : Prop where
  wellFormed : ∀ {s}, states s → (host.tree s).root.WellFormed
  staysIn : ∀ {s} launch, states s → states (host.run s launch).2
  /-- A program does not change where relative paths begin. -/
  here_eq : ∀ {s} launch, states s → (host.tree (host.run s launch).2).here = (host.tree s).here
  outcome_eq : ∀ {s u} launch, states s → states u → host.tree s = host.tree u →
    (host.run s launch).1 = (host.run u launch).1
  tree_eq : ∀ {s u} launch, states s → states u → host.tree s = host.tree u →
    host.tree (host.run s launch).2 = host.tree (host.run u launch).2

namespace Job

theorem looksOnly_eq {α : Type} (job : Job α) : job.LooksOnly (· = ·) := by
  induction job with
  | done answer => exact .done answer
  | run launch next ih => exact .run ih
  | look next ih => exact .look (fun t u same => congrArg next same) ih

/-- From states with the same files a job comes to the same. -/
theorem Host.DependsOnFiles.perform_eq {α : Type} (files : host.DependsOnFiles states)
    (job : Job α) {s u : σ} (inS : states s) (inU : states u) (same : host.tree s = host.tree u) :
    (job.perform host s).1 = (job.perform host u).1 ∧
      host.tree (job.perform host s).2 = host.tree (job.perform host u).2 := by
  have confined : job.Confined host states (· = ·) (fun _ _ => True) := by
    refine ⟨job.looksOnly_eq, fun {launch} _ => ?_⟩
    constructor
    · exact files.staysIn launch
    · intro s _
      trivial
    · exact files.outcome_eq launch
    · exact files.tree_eq launch
  exact confined.perform_congr inS inU same

end Job

namespace RunContext

variable {c : RunContext} {languages : List Language}

/-- The tools and checks of each language write only files that the language claims, and read none
that another of these languages claims. -/
structure KeepsToOwnFiles (c : RunContext) (host : Job.Host σ) (states : σ → Prop)
    (languages : List Language) : Prop where
  writesOwn : ∀ {l launch s p}, l ∈ languages → (c.performLanguage l).MayRun launch → states s →
    l.profile.claimsPath p = false →
    FileTree.SameAt p (host.tree s) (host.tree (host.run s launch).2)
  outcome_eq : ∀ {l launch s u}, l ∈ languages → (c.performLanguage l).MayRun launch →
    states s → states u → l.SeesSame languages (host.tree s) (host.tree u) →
    (host.run s launch).1 = (host.run u launch).1
  writesSame : ∀ {l launch s u p}, l ∈ languages → (c.performLanguage l).MayRun launch →
    states s → states u → l.SeesSame languages (host.tree s) (host.tree u) →
    l.profile.claimsPath p = true →
    FileTree.SameAt p (host.tree (host.run s launch).2) (host.tree (host.run u launch).2)

/-- The trees differ at most where the language claims the path. -/
def SparesOthers (l : Language) (t u : FileTree) : Prop :=
  ∀ p, l.profile.claimsPath p = false → FileTree.SameAt p t u

theorem KeepsToOwnFiles.confined (own : c.KeepsToOwnFiles host states languages)
    (files : host.DependsOnFiles states) (here : Location) {l : Language} (member : l ∈ languages) :
    (c.performLanguage l).Confined host (fun s => states s ∧ (host.tree s).here = here)
      (l.SeesSame languages) (SparesOthers l) := by
  refine ⟨c.performLanguage_looksOnly l, fun {launch} mayRun => ?_⟩
  constructor
  · intro s valid
    exact ⟨files.staysIn launch valid.1, (files.here_eq launch valid.1).trans valid.2⟩
  · intro s valid p unclaimed
    exact own.writesOwn member mayRun valid.1 unclaimed
  · intro s u valid valid' same
    exact own.outcome_eq member mayRun valid.1 valid'.1 same
  · intro s u valid valid' same p maySee
    by_cases claimed : l.profile.claimsPath p = true
    · exact own.writesSame member mayRun valid.1 valid'.1 same claimed
    · rw [Bool.not_eq_true] at claimed
      have kept := own.writesOwn member mayRun valid.1 claimed
      have kept' := own.writesOwn member mayRun valid'.1 claimed
      exact kept.symm.trans ((same p maySee).trans kept')

/-- Whether a language claims the files of a name. -/
def claimsName (l : Language) (name : String) : Bool :=
  l.profile.claims (Text.lossy name)

/-- In a tree without links it is enough that nothing changes but files whose names the language
claims. -/
theorem sparesOthers_of_differsInFiles {l : Language} {t u : FileTree}
    (differs : t.root.DiffersInFiles (claimsName l) u.root) (here : t.here = u.here)
    (real : t.root.HasDir t.here) : SparesOthers l t u := by
  intro p unclaimed
  apply FileTree.sameAt_of_differsInFiles differs here real
  intro name named
  rwa [Profile.claimsPath, Path.shownName?, named] at unclaimed

/-- What one language writes, the others do not see. -/
theorem seesSame_of_sparesOthers {x y : Language} {t u : FileTree} (member : x ∈ languages)
    (differs : x ≠ y) (spared : SparesOthers x t u) : y.SeesSame languages t u :=
  fun p maySee => spared p (maySee x member differs)

/-- Trees that look the same to each of some languages show the same everywhere. -/
theorem sameAt_of_seesSame {t u : FileTree} (some_language : languages ≠ [])
    (same : ∀ l ∈ languages, l.SeesSame languages t u) (p : Path) : FileTree.SameAt p t u := by
  by_cases claimed : ∃ l ∈ languages, l.profile.claimsPath p = true
  · obtain ⟨l, member, claims⟩ := claimed
    exact same l member p (Language.maySee_of_claimsPath claims)
  · obtain ⟨l, member⟩ := List.exists_mem_of_ne_nil languages some_language
    apply same l member p
    intro other among _
    rw [Bool.eq_false_iff]
    intro claims
    exact claimed ⟨other, among, claims⟩

/-- The languages of a run are those of the program in their order, each at most once. -/
theorem nodup_of_languages {t : FileTree} (found : c.languages t = .ok languages) :
    languages.Nodup := by
  rw [RunContext.languages, FileTree.detect] at found
  cases walked : t.walk c.settings.root (some c.settings.detectDepth) with
  | error fault =>
      rw [walked] at found
      cases found
  | ok files =>
      rw [walked] at found
      cases found
      exact ((by decide : Language.all.Nodup).filter _).filter _

/-- Side by side, the languages come to the answers that they come to one after another, and they
leave the same files. -/
theorem KeepsToOwnFiles.results_eq (own : c.KeepsToOwnFiles host states languages)
    (files : host.DependsOnFiles states) (distinct : languages.Nodup) {s last : σ}
    (start : states s)
    {results : List LanguageResult}
    (interleaved : Job.Interleaves host (languages.map c.performLanguage) s
      (results.map .done) last) :
    results = ((Job.each c.performLanguage languages).perform host s).1 ∧
      states last ∧ states ((Job.each c.performLanguage languages).perform host s).2 ∧
      host.tree last =
        host.tree ((Job.each c.performLanguage languages).perform host s).2 := by
  have apart {x y : Language} {t u : FileTree} (inside : x ∈ languages) (_ : y ∈ languages)
      (differs : x ≠ y) (spared : SparesOthers x t u) : y.SeesSame languages t u :=
    seesSame_of_sparesOthers inside differs spared
  obtain ⟨answers, ⟨valid, here⟩, ⟨valid', here'⟩, views⟩ :=
    interleaved.eq_each (Language.seesSame_equivalence languages) distinct apart ⟨start, rfl⟩
      fun l member => own.confined files (host.tree s).here member
  refine ⟨answers, valid, valid', ?_⟩
  by_cases some_language : languages = []
  · subst some_language
    rw [interleaved.eq_of_nil]
    rfl
  · exact FileTree.eq_of_sameAt (files.wellFormed valid) (files.wellFormed valid')
      (here.trans here'.symm) (sameAt_of_seesSame some_language views)

/-- Wherever the languages stand when they are taken side by side, they come to an end in whatever
order they go on, and the verdict and the files are then those of a run that takes one language
after another. -/
theorem sideBySide_eq_sequential (files : host.DependsOnFiles states)
    (own : c.KeepsToOwnFiles host states languages) (distinct : languages.Nodup) {s now : σ}
    {jobs : List (Job LanguageResult)} (start : states s)
    (reached : Job.Interleaves host (languages.map c.performLanguage) s jobs now) :
    Acc (Job.StepsTo host) (jobs, now) ∧
    (∃ (results : List LanguageResult) (last : σ),
      Job.Interleaves host jobs now (results.map .done) last) ∧
    ∀ (results : List LanguageResult) (last : σ),
      Job.Interleaves host jobs now (results.map .done) last →
        ((c.conclude results).perform host last).1 = ((c.perform languages).perform host s).1 ∧
        host.tree ((c.conclude results).perform host last).2 =
          host.tree ((c.perform languages).perform host s).2 := by
  refine ⟨(Job.wellFounded_stepsTo host).apply _, Job.exists_interleaves_done host jobs now, ?_⟩
  intro results last onward
  obtain ⟨answers, valid, valid', same⟩ :=
    own.results_eq files distinct start (reached.trans onward)
  rw [perform, Job.perform_andThen, ← answers]
  exact files.perform_eq _ valid valid' same

section Example

/-- A directory with one file of each of two languages. -/
def mixedFolder (python go : Text.Bytes) : Node :=
  .dir [("a.py", .file python 0o644), ("b.go", .file go 0o644)]

def mixedTree (python go : Text.Bytes) : FileTree where
  root := .dir [("w", mixedFolder python go)]

/-- The file that a program empties. -/
def emptiedBy? (program : Path) : Option Location :=
  if program = "empty-python" then some ["w", "a.py"]
  else if program = "empty-go" then some ["w", "b.go"]
  else none

/-- A machine with programs that find fault with a file unless it is empty, and empty it. -/
def emptyingHost : Job.Host FileTree where
  tree := id
  run := fun t launch =>
    match emptiedBy? launch.invocation.program with
    | none => (.failedToStart "not found", t)
    | some l =>
      (.exited (some (((t.root.get? l).map Node.size).getD 0)) "",
        t.setAt l (some (.file [] 0o644)))

def emptyingCheck (l : Language) : CustomCheck :=
  ⟨"empty", ["empty-" ++ l.id], [l], false, 120⟩

def emptyingContext : RunContext where
  settings := { root := "/w", checks := [emptyingCheck .python, emptyingCheck .go] }
  ignored := []
  candidates := ⟨.fullScan, ["a.py", "b.go"]⟩
  resolver := ⟨"", "/w"⟩

def IsMixedTree (t : FileTree) : Prop :=
  ∃ python go, t = mixedTree python go

theorem mixedTree_wellFormed (python go : Text.Bytes) : (mixedTree python go).root.WellFormed := by
  have top : IsEntryName "w" := by decide
  have first : IsEntryName "a.py" := by decide
  have second : IsEntryName "b.go" := by decide
  refine .dir (List.pairwise_singleton _ _) (by simpa using top) ?_
  rw [List.forall_mem_singleton]
  refine .dir ?_ (by simpa using ⟨first, second⟩) ?_
  · simp only [List.map_cons, List.map_nil, List.pairwise_cons, List.mem_singleton, forall_eq]
    exact ⟨by decide, by simp⟩
  · rw [List.forall_mem_cons, List.forall_mem_singleton]
    exact ⟨.file _ _, .file _ _⟩

theorem run_emptyingHost_python {launch : Launch}
    (program : launch.invocation.program = "empty-python") (python go : Text.Bytes) :
    emptyingHost.run (mixedTree python go) launch =
      (.exited (some python.length) "", mixedTree [] go) := by
  simp only [emptyingHost, program]
  rfl

theorem run_emptyingHost_go {launch : Launch}
    (program : launch.invocation.program = "empty-go") (python go : Text.Bytes) :
    emptyingHost.run (mixedTree python go) launch =
      (.exited (some go.length) "", mixedTree python []) := by
  simp only [emptyingHost, program]
  rfl

theorem program_of_emptyingContext {l : Language} {launch : Launch}
    (runs : (emptyingContext.performLanguage l).MayRun launch) :
    launch.invocation.program = "empty-" ++ l.id := by
  cases startedFor_of_mayRun runs with
  | version finds => exact absurd finds (Resolver.not_finds_of_no_path rfl)
  | tool inv finds => exact absurd finds (Resolver.not_finds_of_no_path rfl)
  | @check check files inv _ member command same =>
      obtain ⟨either, its⟩ := List.mem_filter.mp member
      rw [same]
      rcases List.mem_pair.mp either with rfl | rfl
      · cases List.mem_singleton.mp (List.contains_iff_mem.mp its)
        cases command
        rfl
      · cases List.mem_singleton.mp (List.contains_iff_mem.mp its)
        cases command
        rfl

theorem mixedFolder_plain (kind : String → Bool) (python go : Text.Bytes) :
    (mixedFolder python go).Plain kind := by
  apply Node.plain_dir
  · rw [List.forall_mem_cons, List.forall_mem_singleton]
    exact ⟨Node.plain_file _ _, Node.plain_file _ _⟩
  · rw [List.forall_mem_cons, List.forall_mem_singleton]
    exact ⟨fun _ => rfl, fun _ => rfl⟩

theorem sparesOthers_mixedTree {l : Language} {python go python' go' : Text.Bytes}
    (differs : (mixedFolder python go).DiffersInFiles (claimsName l) (mixedFolder python' go')) :
    SparesOthers l (mixedTree python go) (mixedTree python' go') := by
  have unclaimed : claimsName l "w" = false := by
    cases l <;> decide
  have plain (python go : Text.Bytes) : (mixedTree python go).root.Plain (claimsName l) := by
    apply Node.plain_dir
    · rw [List.forall_mem_singleton]
      exact mixedFolder_plain _ python go
    · rw [List.forall_mem_singleton]
      intro claimed
      cases claimed.symm.trans unclaimed
  have whole : (mixedTree python go).root.DiffersInFiles (claimsName l)
      (mixedTree python' go').root := by
    apply Node.differsInFiles_dir (plain _ _) (plain _ _)
    intro name _
    by_cases top : "w" = name
    · subst top
      exact .inr ⟨_, _, rfl, rfl, differs⟩
    · exact .inl ⟨if_neg top, if_neg top⟩
  exact sparesOthers_of_differsInFiles whole rfl ⟨_, _, rfl⟩

theorem child?_mixedFolder {name : String} (python go : Text.Bytes) (first : "a.py" ≠ name)
    (second : "b.go" ≠ name) :
    Node.child? name [("a.py", .file python 0o644), ("b.go", .file go 0o644)] = none := by
  simp [Node.child?, first, second]

theorem sparesOthers_python (old new go : Text.Bytes) :
    SparesOthers .python (mixedTree old go) (mixedTree new go) := by
  apply sparesOthers_mixedTree
  apply Node.differsInFiles_dir (mixedFolder_plain _ _ _) (mixedFolder_plain _ _ _)
  intro name unclaimed
  have other : "a.py" ≠ name := by
    rintro rfl
    exact absurd unclaimed (by decide)
  by_cases second : "b.go" = name
  · subst second
    exact .inr ⟨_, _, rfl, rfl, .refl (Node.plain_file go 0o644)⟩
  · exact .inl ⟨child?_mixedFolder old go other second, child?_mixedFolder new go other second⟩

theorem sparesOthers_go (python old new : Text.Bytes) :
    SparesOthers .go (mixedTree python old) (mixedTree python new) := by
  apply sparesOthers_mixedTree
  apply Node.differsInFiles_dir (mixedFolder_plain _ _ _) (mixedFolder_plain _ _ _)
  intro name unclaimed
  have other : "b.go" ≠ name := by
    rintro rfl
    exact absurd unclaimed (by decide)
  by_cases first : "a.py" = name
  · subst first
    exact .inr ⟨_, _, rfl, rfl, .refl (Node.plain_file python 0o644)⟩
  · exact .inl ⟨child?_mixedFolder python old first other,
      child?_mixedFolder python new first other⟩

theorem emptyingHost_dependsOnFiles : emptyingHost.DependsOnFiles IsMixedTree where
  wellFormed := by
    rintro s ⟨python, go, rfl⟩
    exact mixedTree_wellFormed python go
  staysIn := by
    rintro s launch ⟨python, go, rfl⟩
    by_cases python_check : launch.invocation.program = "empty-python"
    · rw [run_emptyingHost_python python_check]
      exact ⟨_, _, rfl⟩
    by_cases go_check : launch.invocation.program = "empty-go"
    · rw [run_emptyingHost_go go_check]
      exact ⟨_, _, rfl⟩
    · have unknown : emptyingHost.run (mixedTree python go) launch =
          (.failedToStart "not found", mixedTree python go) := by
        simp only [emptyingHost, emptiedBy?, python_check, go_check, if_false]
      rw [unknown]
      exact ⟨_, _, rfl⟩
  here_eq := by
    intro s launch _
    simp only [emptyingHost]
    split <;> rfl
  outcome_eq := by
    rintro s u launch - - rfl
    rfl
  tree_eq := by
    rintro s u launch - - rfl
    rfl

theorem emptyingContext_keepsToOwnFiles :
    emptyingContext.KeepsToOwnFiles emptyingHost IsMixedTree [.go, .python] where
  writesOwn := by
    rintro l launch s p member runs ⟨python, go, rfl⟩ unclaimed
    have program := program_of_emptyingContext runs
    rcases List.mem_pair.mp member with rfl | rfl
    · rw [run_emptyingHost_go program]
      exact sparesOthers_go python go [] p unclaimed
    · rw [run_emptyingHost_python program]
      exact sparesOthers_python python [] go p unclaimed
  outcome_eq := by
    rintro l launch s u member runs ⟨python, go, rfl⟩ ⟨python', go', rfl⟩ same
    have program := program_of_emptyingContext runs
    rcases List.mem_pair.mp member with rfl | rfl
    · have shown := same "/w/b.go" (Language.maySee_of_claimsPath (by decide)) true
      rw [run_emptyingHost_go program, run_emptyingHost_go program]
      cases shown
      rfl
    · have shown := same "/w/a.py" (Language.maySee_of_claimsPath (by decide)) true
      rw [run_emptyingHost_python program, run_emptyingHost_python program]
      cases shown
      rfl
  writesSame := by
    rintro l launch s u p member runs ⟨python, go, rfl⟩ ⟨python', go', rfl⟩ - claimed
    have program := program_of_emptyingContext runs
    rcases List.mem_pair.mp member with rfl | rfl
    · rw [run_emptyingHost_go program, run_emptyingHost_go program]
      apply sparesOthers_python python python' []
      exact Language.maySee_of_claimsPath claimed .python (List.mem_singleton_self _) (by decide)
    · rw [run_emptyingHost_python program, run_emptyingHost_python program]
      apply sparesOthers_go [] go go'
      exact Language.maySee_of_claimsPath claimed .go (List.mem_singleton_self _) (by decide)

/-- The later language of two may take all of its steps before the first one begins. -/
theorem sideBySide_of_later_first :
    emptyingHost.DependsOnFiles IsMixedTree ∧
      emptyingContext.KeepsToOwnFiles emptyingHost IsMixedTree [.go, .python] ∧
      [Language.go, .python].Nodup ∧ IsMixedTree (mixedTree [32] [32]) ∧
      ∃ result now,
        Job.Interleaves emptyingHost ([.go, .python].map emptyingContext.performLanguage)
          (mixedTree [32] [32]) [emptyingContext.performLanguage .go, .done result] now ∧
        Acc (Job.StepsTo emptyingHost) ([emptyingContext.performLanguage .go, .done result], now) ∧
        (∃ (results : List LanguageResult) (last : FileTree),
          Job.Interleaves emptyingHost [emptyingContext.performLanguage .go, .done result] now
            (results.map .done) last) ∧
        ∀ (results : List LanguageResult) (last : FileTree),
          Job.Interleaves emptyingHost [emptyingContext.performLanguage .go, .done result] now
            (results.map .done) last →
          ((emptyingContext.conclude results).perform emptyingHost last).1 =
              ((emptyingContext.perform [.go, .python]).perform emptyingHost
                (mixedTree [32] [32])).1 ∧
            emptyingHost.tree ((emptyingContext.conclude results).perform emptyingHost last).2 =
              emptyingHost.tree ((emptyingContext.perform [.go, .python]).perform emptyingHost
                (mixedTree [32] [32])).2 := by
  have start : IsMixedTree (mixedTree [32] [32]) := ⟨_, _, rfl⟩
  have reached := Job.interleaves_perform emptyingHost [emptyingContext.performLanguage .go] []
    (emptyingContext.performLanguage .python) (mixedTree [32] [32])
  refine ⟨emptyingHost_dependsOnFiles, emptyingContext_keepsToOwnFiles, by decide, start, ?_⟩
  refine ⟨_, _, reached, ?_⟩
  exact sideBySide_eq_sequential emptyingHost_dependsOnFiles emptyingContext_keepsToOwnFiles
    (by decide) start reached

end Example

end RunContext

end LintGate
