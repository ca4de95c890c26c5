import LintGate.Proofs.Process.Isolation
import LintGate.Proofs.Run.Profiles
import LintGate.Proofs.Run.SideBySide

/-!
# Languages and the failures of others

Two runs may differ in what the programs of one language do: whether they are installed, hang, crash
or complain. When the programs of each language write only files that the language claims, and those
of the other languages do not look at the files and programs of this one, the two runs report the
same about all other languages.
-/

namespace LintGate

/-- The profile is one of another language. -/
def Language.isOther (P : Language) (profile : String) : Bool :=
  all.any fun l => decide (l ≠ P) && decide (l.id = profile)

/-- What the verdict says about other languages, in its order. -/
def Verdict.ofOthers (P : Language) (v : Verdict) : Verdict where
  profiles := v.profiles.filter fun summary => P.isOther summary.profile
  findings := v.findings.filter fun f => P.isOther f.profile

theorem Language.isOther_eq_false {P : Language} {profile : String}
    (none_other : ∀ l ≠ P, l.id ≠ profile) : P.isOther profile = false := by
  simp only [isOther, List.any_eq_false, Bool.and_eq_true, decide_eq_true_eq, not_and]
  intro l _
  exact none_other l

theorem Language.isOther_id (P : Language) : P.isOther P.id = false := by
  apply isOther_eq_false
  intro l differs same
  exact differs (eq_of_id same)

theorem Language.isOther_globalProfile (P : Language) :
    P.isOther Settings.globalProfile = false := by
  apply isOther_eq_false
  intro l _
  exact l.id_ne_globalProfile

/-! ## Verdicts on results that differ for one language -/

namespace LanguageResult

variable {P : Language} {results results' : List LanguageResult}

/-- The results differ at most in what is about one language. -/
def AlikeBut (P : Language) (r r' : LanguageResult) : Prop :=
  r = r' ∨ r.IsAbout P ∧ r'.IsAbout P

theorem IsAbout.not_other {r : LanguageResult} (about : r.IsAbout P) :
    P.isOther r.summary.profile = false := by
  rw [about.summary, P.isOther_id]

theorem IsAbout.findings_ofOthers {r : LanguageResult} (about : r.IsAbout P) :
    r.findings.filter (fun f => P.isOther f.profile) = [] := by
  rw [List.filter_eq_nil_iff]
  intro f member
  rw [about.findings f member, P.isOther_id]
  exact Bool.false_ne_true

theorem summaries_ofOthers_eq (alike : List.Forall₂ (AlikeBut P) results results') :
    (results.map (·.summary)).filter (fun summary => P.isOther summary.profile) =
      (results'.map (·.summary)).filter fun summary => P.isOther summary.profile := by
  induction alike with
  | nil => rfl
  | @cons r r' rest rest' first _ ih =>
      rcases first with rfl | ⟨about, about'⟩
      · simp only [List.map_cons, List.filter_cons, ih]
      · simp only [List.map_cons, List.filter_cons, about.not_other, about'.not_other, ih,
          Bool.false_eq_true, if_false]

theorem findings_ofOthers_eq (alike : List.Forall₂ (AlikeBut P) results results') :
    (results.flatMap findings).filter (fun f => P.isOther f.profile) =
      (results'.flatMap findings).filter fun f => P.isOther f.profile := by
  induction alike with
  | nil => rfl
  | @cons r r' rest rest' first _ ih =>
      rw [List.flatMap_cons, List.flatMap_cons, List.filter_append, List.filter_append, ih]
      rcases first with rfl | ⟨about, about'⟩
      · rfl
      · rw [about.findings_ofOthers, about'.findings_ofOthers]

end LanguageResult

namespace RunContext

open LanguageResult (AlikeBut)

variable {σ : Type} {c : RunContext} {host host' : Job.Host σ} {states : σ → Prop}
  {languages : List Language} {l P : Language}

/-- What a verdict says about other languages is what their results say. The closing checks add
nothing to it. -/
theorem ofOthers_conclude {results : List LanguageResult}
    (distinct : ∀ r ∈ results, r.StagesDistinct) (last : σ) :
    ((c.conclude results).perform host last).1.ofOthers P =
      ⟨(results.map (·.summary)).filter fun summary => P.isOther summary.profile,
        (results.flatMap LanguageResult.findings).filter fun f => P.isOther f.profile⟩ := by
  rw [conclude_eq c distinct, Job.perform_andThen, Job.perform_done]
  obtain ⟨history, ends⟩ := Job.exists_history_of_perform host (c.closingChecks results) last
  have closing : ((c.closingChecks results).perform host last).1.filter
      (fun f => P.isOther f.profile) = [] := by
    rw [List.filter_eq_nil_iff]
    intro f member
    rw [profile_of_closingChecks ends member, P.isOther_globalProfile]
    exact Bool.false_ne_true
  simp only [Verdict.ofOthers, List.filter_append, closing, List.append_nil]

/-! ## What languages notice -/

/-- The names of the programs of a language: of the tools that may serve it and of its checks. -/
def programNames (c : RunContext) (l : Language) : List String :=
  c.toolPrograms l ++
    (c.settings.checksOf l).filterMap fun check => check.command.head?.bind Path.fileName?

/-- The path ends with the name of a program of the language. -/
def IsProgramOf (c : RunContext) (l : Language) (p : Path) : Prop :=
  ∃ name ∈ c.programNames l, p.fileName? = some name

/-- No other of these languages claims the path, nor is it one of their programs, unless it is also
a file or a program of the language itself. -/
def MayNotice (c : RunContext) (languages : List Language) (l : Language) (p : Path) : Prop :=
  l.MaySee languages p ∧
    (l.profile.claimsPath p = true ∨ c.IsProgramOf l p ∨
      ∀ other ∈ languages, other ≠ l → ¬ c.IsProgramOf other p)

/-- The trees differ at most in files and programs of other languages. -/
def NoticesSame (c : RunContext) (languages : List Language) (l : Language) (t u : FileTree) :
    Prop :=
  ∀ p, c.MayNotice languages l p → FileTree.SameAt p t u

theorem noticesSame_equivalence (c : RunContext) (languages : List Language) (l : Language) :
    Equivalence (c.NoticesSame languages l) where
  refl := fun t p _ => .refl p t
  symm := fun same p notices => (same p notices).symm
  trans := fun first second p notices => (first p notices).trans (second p notices)

theorem mayNotice_of_claimsPath {p : Path} (claimed : l.profile.claimsPath p = true) :
    c.MayNotice languages l p :=
  ⟨Language.maySee_of_claimsPath claimed, .inl claimed⟩

theorem mayNotice_of_asksAbout {p : Path} (asked : c.AsksAbout l p) :
    c.MayNotice languages l p := by
  refine ⟨maySee_of_asksAbout asked, ?_⟩
  rcases asked with claimed | ⟨name, member, named⟩
  · exact .inl claimed
  · exact .inr (.inl ⟨name, List.mem_append_left _ member, named⟩)

/-! ## Machines -/

/-- The programs of each language write only files that the language claims. Those of every language
but one look at no file and no program of another language. -/
structure KeepsApart (c : RunContext) (host : Job.Host σ) (states : σ → Prop)
    (languages : List Language) (P : Language) : Prop where
  staysIn : ∀ {l launch s}, l ∈ languages → (c.performLanguage l).MayRun launch → states s →
    states (host.run s launch).2
  writesOwn : ∀ {l launch s p}, l ∈ languages → (c.performLanguage l).MayRun launch → states s →
    l.profile.claimsPath p = false →
    FileTree.SameAt p (host.tree s) (host.tree (host.run s launch).2)
  outcome_eq : ∀ {l launch s u}, l ∈ languages → l ≠ P → (c.performLanguage l).MayRun launch →
    states s → states u → c.NoticesSame languages l (host.tree s) (host.tree u) →
    (host.run s launch).1 = (host.run u launch).1
  writesSame : ∀ {l launch s u p}, l ∈ languages → l ≠ P → (c.performLanguage l).MayRun launch →
    states s → states u → c.NoticesSame languages l (host.tree s) (host.tree u) →
    l.profile.claimsPath p = true →
    FileTree.SameAt p (host.tree (host.run s launch).2) (host.tree (host.run u launch).2)

/-- The machines differ in nothing but what they do when they run a program of one language. -/
structure AgreeBut (c : RunContext) (host host' : Job.Host σ) (states : σ → Prop)
    (languages : List Language) (P : Language) : Prop where
  tree_eq : host'.tree = host.tree
  run_eq : ∀ {l launch s}, l ∈ languages → l ≠ P → (c.performLanguage l).MayRun launch →
    states s → host'.run s launch = host.run s launch

namespace KeepsApart

variable (own : c.KeepsApart host states languages P)

include own

theorem unseen {other : Language} (member : other ∈ languages) (differs : other ≠ l) :
    (c.performLanguage other).Unseen host states (c.NoticesSame languages l) where
  staysValid := own.staysIn member
  same := by
    intro launch s runs start p notices
    exact own.writesOwn member runs start (notices.1 other member differs)

theorem confined (member : l ∈ languages) (differs : l ≠ P) :
    (c.performLanguage l).Confined host states (c.NoticesSame languages l) (SparesOthers l) := by
  have asks : (c.performLanguage l).LooksOnly (c.NoticesSame languages l) := by
    apply (c.performLanguage_asksOnly l).mono
    intro t u same p asked
    exact same p (mayNotice_of_asksAbout asked)
  refine ⟨asks, fun {launch} runs => ?_⟩
  constructor
  · intro s
    exact own.staysIn member runs
  · intro s valid p
    exact own.writesOwn member runs valid
  · intro s u
    exact own.outcome_eq member differs runs
  · intro s u valid valid' same p notices
    by_cases claimed : l.profile.claimsPath p = true
    · exact own.writesSame member differs runs valid valid' same claimed
    · rw [Bool.not_eq_true] at claimed
      have kept := own.writesOwn member runs valid claimed
      have kept' := own.writesOwn member runs valid' claimed
      exact kept.symm.trans ((same p notices).trans kept')

/-- Side by side with the others, a language comes to what it comes to alone. -/
theorem result_eq (distinct : languages.Nodup) {results : List LanguageResult} {s last : σ}
    {i : Nat}
    (interleaved : Job.Interleaves host (languages.map c.performLanguage) s
      (results.map .done) last)
    (start : states s) (label : languages[i]? = some l) (differs : l ≠ P) :
    results[i]? = some ((c.performLanguage l).perform host s).1 := by
  have found : (languages.map c.performLanguage)[i]? = some (c.performLanguage l) := by
    rw [List.getElem?_map, label]
    rfl
  apply interleaved.answer_eq (c.noticesSame_equivalence languages l) start found
    (own.confined (List.mem_of_getElem? label) differs)
  intro k job elsewhere there
  rw [List.getElem?_map, Option.map_eq_some_iff] at there
  obtain ⟨other, label', rfl⟩ := there
  apply own.unseen (List.mem_of_getElem? label')
  rintro rfl
  have inside : k < languages.length := (List.getElem?_eq_some_iff.mp label').1
  exact elsewhere ((List.getElem?_inj inside distinct).mp (label'.trans label.symm))

/-- On either machine a language comes to the same alone. -/
theorem perform_eq (agree : c.AgreeBut host host' states languages P)
    {s s' : σ} (start : states s) (start' : states s') (member : l ∈ languages) (differs : l ≠ P)
    (same : c.NoticesSame languages l (host.tree s) (host.tree s')) :
    ((c.performLanguage l).perform host' s').1 = ((c.performLanguage l).perform host s).1 := by
  have machines : (c.performLanguage l).perform host' s' = (c.performLanguage l).perform host s' :=
    Job.perform_eq_of_agree agree.tree_eq (own.staysIn member) (agree.run_eq member differs) start'
  rw [machines]
  exact ((own.confined member differs).perform_congr start start' same).1.symm

end KeepsApart

theorem exists_endsWith_of_interleaves {results : List LanguageResult} {s last : σ}
    (interleaved : Job.Interleaves host (languages.map c.performLanguage) s
      (results.map .done) last)
    {i : Nat} (label : languages[i]? = some l) :
    ∃ r history, results[i]? = some r ∧ (c.performLanguage l).EndsWith history r := by
  apply interleaved.exists_endsWith
  rw [List.getElem?_map, label]
  rfl

theorem length_of_interleaves {results : List LanguageResult} {s last : σ}
    (interleaved : Job.Interleaves host (languages.map c.performLanguage) s
      (results.map .done) last) :
    results.length = languages.length := by
  simpa using interleaved.length_eq

theorem stagesDistinct_of_interleaves {results : List LanguageResult} {s last : σ}
    (interleaved : Job.Interleaves host (languages.map c.performLanguage) s
      (results.map .done) last) :
    ∀ r ∈ results, r.StagesDistinct := by
  obtain ⟨history, together⟩ := interleaved.exists_endTogether
  exact stagesDistinct_of_endTogether together

/-! ## Two runs -/

/-- The results of two runs differ at most in what is about one language. -/
theorem KeepsApart.results_alike (own : c.KeepsApart host states languages P)
    (own' : c.KeepsApart host' states languages P)
    (agree : c.AgreeBut host host' states languages P) (distinct : languages.Nodup)
    {s s' last last' : σ} {results results' : List LanguageResult} (start : states s)
    (start' : states s')
    (same : ∀ l ∈ languages, l ≠ P → c.NoticesSame languages l (host.tree s) (host.tree s'))
    (interleaved : Job.Interleaves host (languages.map c.performLanguage) s
      (results.map .done) last)
    (interleaved' : Job.Interleaves host' (languages.map c.performLanguage) s'
      (results'.map .done) last') :
    List.Forall₂ (AlikeBut P) results results' := by
  have length_eq := length_of_interleaves interleaved
  have length_eq' := length_of_interleaves interleaved'
  rw [List.forall₂_iff_get]
  refine ⟨length_eq.trans length_eq'.symm, ?_⟩
  intro i inside inside'
  rw [List.get_eq_getElem, List.get_eq_getElem]
  have labelled : i < languages.length := length_eq ▸ inside
  have label := List.getElem?_eq_getElem labelled
  have here := List.getElem?_eq_getElem inside
  have here' := List.getElem?_eq_getElem inside'
  by_cases differs : languages[i] = P
  · right
    obtain ⟨r, history, there, ends⟩ := exists_endsWith_of_interleaves interleaved label
    obtain ⟨r', history', there', ends'⟩ := exists_endsWith_of_interleaves interleaved' label
    cases here.symm.trans there
    cases here'.symm.trans there'
    rw [differs] at ends ends'
    exact ⟨isAbout_of_performLanguage ends, isAbout_of_performLanguage ends'⟩
  -- Each run comes to what the language comes to alone, and alone it notices no difference.
  · left
    have there := own.result_eq distinct interleaved start label differs
    have there' := own'.result_eq distinct interleaved' start' label differs
    have member := List.getElem_mem labelled
    rw [own.perform_eq agree start start' member differs (same _ member differs)] at there'
    have both := (here.symm.trans there).trans (here'.symm.trans there').symm
    exact Option.some.inj both

/-- Two runs over some languages, each in any order of steps, on machines that differ in what the
programs of one language do and from trees that differ at most in files and programs of this
language, report the same about all others. Whatever the programs do, a run comes to its end from
wherever it stands. -/
theorem reports_of_others_eq (own : c.KeepsApart host states languages P)
    (own' : c.KeepsApart host' states languages P)
    (agree : c.AgreeBut host host' states languages P) (distinct : languages.Nodup) {s s' : σ}
    (start : states s) (start' : states s')
    (same : ∀ l ∈ languages, l ≠ P → c.NoticesSame languages l (host.tree s) (host.tree s')) :
    (∀ (results results' : List LanguageResult) (last last' : σ),
      Job.Interleaves host (languages.map c.performLanguage) s (results.map .done) last →
      Job.Interleaves host' (languages.map c.performLanguage) s' (results'.map .done) last' →
      ((c.conclude results).perform host last).1.ofOthers P =
        ((c.conclude results').perform host' last').1.ofOthers P) ∧
    ((c.perform languages).perform host s).1.ofOthers P =
      ((c.perform languages).perform host' s').1.ofOthers P ∧
    ∀ (jobs : List (Job LanguageResult)) (now : σ),
      Job.Interleaves host' (languages.map c.performLanguage) s' jobs now →
      Acc (Job.StepsTo host') (jobs, now) ∧
        ∃ (results : List LanguageResult) (last : σ),
          Job.Interleaves host' jobs now (results.map .done) last := by
  have any_order {results results' : List LanguageResult} {last last' : σ}
      (interleaved : Job.Interleaves host (languages.map c.performLanguage) s
        (results.map .done) last)
      (interleaved' : Job.Interleaves host' (languages.map c.performLanguage) s'
        (results'.map .done) last') :
      ((c.conclude results).perform host last).1.ofOthers P =
        ((c.conclude results').perform host' last').1.ofOthers P := by
    have alike := own.results_alike own' agree distinct start start' same interleaved interleaved'
    rw [ofOthers_conclude (stagesDistinct_of_interleaves interleaved),
      ofOthers_conclude (stagesDistinct_of_interleaves interleaved'),
      LanguageResult.summaries_ofOthers_eq alike, LanguageResult.findings_ofOthers_eq alike]
  refine ⟨?_, ?_, ?_⟩
  · intro results results' last last'
    exact any_order
  · rw [perform, Job.perform_andThen, Job.perform_andThen]
    exact any_order (Job.interleaves_each host c.performLanguage [] languages s)
      (Job.interleaves_each host' c.performLanguage [] languages s')
  · intro jobs now _
    exact ⟨(Job.wellFounded_stepsTo host').apply _, Job.exists_interleaves_done host' jobs now⟩

section Example

/-- The same machine, but that the program of one language does not come to an end. -/
def hangingHost : Job.Host FileTree where
  tree := id
  run := fun t launch =>
    if launch.invocation.program = "empty-python" then (.timedOut 120 "", t)
    else emptyingHost.run t launch

theorem run_hangingHost_python {launch : Launch}
    (program : launch.invocation.program = "empty-python") (t : FileTree) :
    hangingHost.run t launch = (.timedOut 120 "", t) :=
  if_pos program

theorem run_hangingHost_other {launch : Launch}
    (program : launch.invocation.program ≠ "empty-python") (t : FileTree) :
    hangingHost.run t launch = emptyingHost.run t launch :=
  if_neg program

theorem program_of_go {launch : Launch} (differs : l ≠ .python)
    (member : l ∈ [Language.go, .python])
    (runs : (emptyingContext.performLanguage l).MayRun launch) :
    l = .go ∧ launch.invocation.program ≠ "empty-python" := by
  have program := program_of_emptyingContext runs
  rcases List.mem_pair.mp member with rfl | rfl
  · refine ⟨rfl, ?_⟩
    rw [program]
    decide
  · exact absurd rfl differs

theorem emptyingHost_keepsApart :
    emptyingContext.KeepsApart emptyingHost IsMixedTree [.go, .python] .python where
  staysIn := fun _ _ => emptyingHost_dependsOnFiles.staysIn _
  writesOwn := emptyingContext_keepsToOwnFiles.writesOwn
  outcome_eq := by
    rintro l launch s u member differs runs ⟨python, go, rfl⟩ ⟨python', go', rfl⟩ same
    obtain ⟨rfl, -⟩ := program_of_go differs member runs
    have program := program_of_emptyingContext runs
    have shown := same "/w/b.go" (mayNotice_of_claimsPath (by decide)) true
    rw [run_emptyingHost_go program, run_emptyingHost_go program]
    cases shown
    rfl
  writesSame := by
    rintro l launch s u p member differs runs ⟨python, go, rfl⟩ ⟨python', go', rfl⟩ - claimed
    obtain ⟨rfl, -⟩ := program_of_go differs member runs
    have program := program_of_emptyingContext runs
    rw [run_emptyingHost_go program, run_emptyingHost_go program]
    apply sparesOthers_python python python' []
    exact Language.maySee_of_claimsPath claimed .python (List.mem_singleton_self _) (by decide)

theorem hangingHost_agreeBut :
    emptyingContext.AgreeBut emptyingHost hangingHost IsMixedTree [.go, .python] .python where
  tree_eq := rfl
  run_eq := by
    intro l launch s member differs runs _
    exact run_hangingHost_other (program_of_go differs member runs).2 s

theorem hangingHost_keepsApart :
    emptyingContext.KeepsApart hangingHost IsMixedTree [.go, .python] .python where
  staysIn := by
    intro l launch s member runs valid
    by_cases program : launch.invocation.program = "empty-python"
    · rw [run_hangingHost_python program]
      exact valid
    · rw [run_hangingHost_other program]
      exact emptyingHost_keepsApart.staysIn member runs valid
  writesOwn := by
    intro l launch s p member runs valid unclaimed
    by_cases program : launch.invocation.program = "empty-python"
    · rw [run_hangingHost_python program]
      exact .refl p _
    · rw [run_hangingHost_other program]
      exact emptyingHost_keepsApart.writesOwn member runs valid unclaimed
  outcome_eq := by
    intro l launch s u member differs runs valid valid' same
    have other := (program_of_go differs member runs).2
    rw [run_hangingHost_other other, run_hangingHost_other other]
    exact emptyingHost_keepsApart.outcome_eq member differs runs valid valid' same
  writesSame := by
    intro l launch s u p member differs runs valid valid' same claimed
    have other := (program_of_go differs member runs).2
    rw [run_hangingHost_other other, run_hangingHost_other other]
    exact emptyingHost_keepsApart.writesSame member differs runs valid valid' same claimed

/-- The program of one language hangs in the second run, and the other language is reported as in
the first one. -/
theorem reports_of_others_eq_hanging :
    emptyingContext.KeepsApart emptyingHost IsMixedTree [.go, .python] .python ∧
      emptyingContext.KeepsApart hangingHost IsMixedTree [.go, .python] .python ∧
      emptyingContext.AgreeBut emptyingHost hangingHost IsMixedTree [.go, .python] .python ∧
      [Language.go, .python].Nodup ∧ IsMixedTree (mixedTree [32] [32]) ∧
      IsMixedTree (mixedTree [33] [32]) ∧
      (∀ l ∈ [Language.go, .python], l ≠ .python →
        emptyingContext.NoticesSame [.go, .python] l (mixedTree [32] [32]) (mixedTree [33] [32])) ∧
      ((emptyingContext.perform [.go, .python]).perform emptyingHost
          (mixedTree [32] [32])).1.ofOthers .python =
        ((emptyingContext.perform [.go, .python]).perform hangingHost
          (mixedTree [33] [32])).1.ofOthers .python := by
  have distinct : [Language.go, .python].Nodup := by decide
  have start : IsMixedTree (mixedTree [32] [32]) := ⟨_, _, rfl⟩
  have start' : IsMixedTree (mixedTree [33] [32]) := ⟨_, _, rfl⟩
  have same : ∀ l ∈ [Language.go, .python], l ≠ .python →
      emptyingContext.NoticesSame [.go, .python] l (mixedTree [32] [32])
        (mixedTree [33] [32]) := by
    intro l _ differs p notices
    exact sparesOthers_python [32] [33] [32] p (notices.1 .python (by simp) differs.symm)
  refine ⟨emptyingHost_keepsApart, hangingHost_keepsApart, hangingHost_agreeBut, distinct, start,
    start', same, ?_⟩
  exact (reports_of_others_eq emptyingHost_keepsApart hangingHost_keepsApart hangingHost_agreeBut
    distinct start start' same).2.1

end Example

end RunContext

end LintGate
