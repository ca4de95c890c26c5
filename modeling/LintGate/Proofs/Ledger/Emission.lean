import LintGate.Proofs.Ledger

/-!
# Emission within a stage

Each recording counts its findings from zero, so a stage that records more than once is reported in
rounds: the first findings of its recordings, then the second ones, and so on. The rounds are the
order of emission as long as no recording of two or more findings is followed by another one of the
same stage that is not empty.
-/

namespace LintGate

namespace Ledger

/-! ## Lists in the order of their keys -/

section Keys

variable {α κ : Type}

theorem eq_filter_append {p : α → Bool} {l : List α}
    (front : l.Pairwise fun a b => p b = true → p a = true) :
    l = l.filter p ++ l.filter fun a => !p a := by
  induction l with
  | nil => rfl
  | cons a l ih =>
      obtain ⟨first, rest⟩ := List.pairwise_cons.mp front
      cases holds : p a with
      | true =>
          rw [List.filter_cons_of_pos holds, List.filter_cons_of_neg (by simp [holds]),
            List.cons_append, ← ih rest]
      | false =>
          have none_left : l.filter p = [] := by
            apply List.filter_eq_nil_iff.mpr
            intro b member later
            simp [first b member later] at holds
          rw [List.filter_cons_of_neg (by simp [holds]), List.filter_cons_of_pos (by simp [holds]),
            none_left, List.nil_append]
          have others := ih rest
          rw [none_left, List.nil_append] at others
          rw [← others]

/-- A list in the order of its keys is put together from its parts with one key each. -/
theorem eq_flatMap_filter_key [DecidableEq κ] (key : α → κ) {before : κ → κ → Prop} {keys : List κ}
    {l : List α} (irrefl : ∀ k, ¬ before k k) (increasing : keys.Pairwise before)
    (ordered : l.Pairwise fun a b => ¬ before (key b) (key a)) (covered : ∀ a ∈ l, key a ∈ keys) :
    l = keys.flatMap fun k => l.filter fun a => key a = k := by
  induction keys generalizing l with
  | nil =>
      apply List.eq_nil_iff_forall_not_mem.mpr
      intro a member
      cases covered a member
  | cons k keys ih =>
      obtain ⟨first, increasing⟩ := List.pairwise_cons.mp increasing
      have front : l.Pairwise fun a b => decide (key b = k) = true → decide (key a = k) = true := by
        apply ordered.imp_of_mem
        intro a b inside _ notBefore same
        rw [decide_eq_true_eq] at same ⊢
        rcases List.mem_cons.mp (covered a inside) with here | later
        · exact here
        · exact absurd (same ▸ first _ later) notBefore
      have later : (l.filter fun a => !decide (key a = k)) =
          keys.flatMap fun k' => l.filter fun a => key a = k' := by
        have rest_covered : ∀ a ∈ l.filter fun a => !decide (key a = k), key a ∈ keys := by
          intro a inside
          obtain ⟨member, other⟩ := List.mem_filter.mp inside
          rcases List.mem_cons.mp (covered a member) with same | later
          · simp [same] at other
          · exact later
        rw [ih increasing (ordered.filter _) rest_covered]
        apply List.flatMap_congr
        intro k' member
        rw [List.filter_filter]
        apply List.filter_congr
        intro a _
        have distinct : k' ≠ k := by
          rintro rfl
          exact irrefl k' (first k' member)
        by_cases same : key a = k' <;> simp [same, distinct]
      rw [List.flatMap_cons, ← later]
      exact eq_filter_append front

end Keys

/-! ## Stages in order -/

/-- A stage comes before another: by language, and for one language by role. -/
def StageBefore (stage other : Nat × Role) : Prop :=
  stage.1 < other.1 ∨ stage.1 = other.1 ∧ stage.2.rank < other.2.rank

def Place.stage (p : Place) : Nat × Role :=
  (p.language, p.role)

/-- The place comes before another one. -/
def Place.Before (p other : Place) : Prop :=
  StageBefore p.stage other.stage ∨ p.stage = other.stage ∧ p.sequence < other.sequence

theorem Place.not_before_of_atMost {p other : Place} (ordered : p.atMost other = true) :
    ¬ StageBefore other.stage p.stage ∧ ¬ other.Before p := by
  rw [Place.atMost_iff] at ordered
  have later : ¬ StageBefore other.stage p.stage := by
    simp only [StageBefore, Place.stage]
    omega
  refine ⟨later, ?_⟩
  rintro (earlier | ⟨same, earlier⟩)
  · exact later earlier
  · obtain ⟨languages, roles⟩ := Prod.mk.inj same
    rw [languages, roles] at ordered
    omega

theorem StageBefore.irrefl (stage : Nat × Role) : ¬ StageBefore stage stage := by
  rw [StageBefore]
  omega

theorem Place.Before.irrefl (p : Place) : ¬ p.Before p := by
  rintro (before | ⟨-, before⟩)
  · exact StageBefore.irrefl _ before
  · exact Nat.lt_irrefl _ before

/-- The stages of a number of languages, in order. -/
def stagesOf (languages : Nat) : List (Nat × Role) :=
  (List.range languages).flatMap fun language =>
    [(language, .formatter), (language, .linter), (language, .check)]

theorem pairwise_stagesOf (languages : Nat) : (stagesOf languages).Pairwise StageBefore := by
  apply List.pairwise_flatMap.mpr
  constructor
  · intro language _
    simp [StageBefore, Role.rank]
  · apply List.pairwise_lt_range.imp
    intro language other earlier stage inFirst stage' inSecond
    have first : stage.1 = language := by
      simp only [List.mem_cons, List.not_mem_nil, or_false] at inFirst
      rcases inFirst with rfl | rfl | rfl <;> rfl
    have second : stage'.1 = other := by
      simp only [List.mem_cons, List.not_mem_nil, or_false] at inSecond
      rcases inSecond with rfl | rfl | rfl <;> rfl
    exact .inl (by omega)

theorem mem_stagesOf {languages : Nat} {stage : Nat × Role} (bound : stage.1 < languages) :
    stage ∈ stagesOf languages := by
  obtain ⟨language, role⟩ := stage
  apply List.mem_flatMap.mpr
  refine ⟨language, List.mem_range.mpr bound, ?_⟩
  cases role <;> simp

/-! ## What a stage emits and what is reported of it -/

variable {recordings : List Recording} {stage : Nat × Role}

/-- The findings of a stage, in the order in which they were emitted. -/
def emittedBy (recordings : List Recording) (stage : Nat × Role) : List Finding :=
  (recordings.filter (·.stage = stage)).flatMap (·.findings)

/-- The findings of a stage in rounds, each of which takes one finding of every recording that is
long enough. -/
def inRounds (recordings : List Recording) (stage : Nat × Role) : List Finding :=
  (List.range (emittedBy recordings stage).length).flatMap fun round =>
    (recordings.filter (·.stage = stage)).filterMap (·.findings[round]?)

theorem findings_entries (r : Recording) : r.entries.map (·.2) = r.findings :=
  findings_placed _ _ _ _

theorem stage_of_entry {r : Recording} {entry : Place × Finding} (member : entry ∈ r.entries) :
    entry.1.stage = r.stage :=
  stage_of_mem_entries member

theorem flatMap_filter_stage {β : Type} (f : Recording → List β) (recordings : List Recording) :
    (recordings.flatMap fun r => if r.stage = stage then f r else []) =
      (recordings.filter (·.stage = stage)).flatMap f := by
  induction recordings with
  | nil => rfl
  | cons r rest ih =>
      rw [List.flatMap_cons, ih]
      by_cases same : r.stage = stage
      · rw [if_pos same, List.filter_cons_of_pos (by simpa using same), List.flatMap_cons]
      · rw [if_neg same, List.filter_cons_of_neg (by simpa using same), List.nil_append]

/-- The entries of a stage, in recording order, hold what the stage emitted. -/
theorem findings_filter_stage :
    ((recordings.flatMap Recording.entries).filter (·.1.stage = stage)).map (·.2) =
      emittedBy recordings stage := by
  rw [List.filter_flatMap, List.map_flatMap, emittedBy, ← flatMap_filter_stage]
  apply List.flatMap_congr
  intro r _
  split
  case isTrue same =>
    rw [List.filter_eq_self.mpr, findings_entries]
    intro entry member
    simpa [stage_of_entry member] using same
  case isFalse other =>
    rw [List.filter_eq_nil_iff.mpr, List.map_nil]
    intro entry member
    simpa [stage_of_entry member] using other

theorem findings_filter_placed {language start round : Nat} {role : Role}
    {findings : List Finding} :
    ((placed language role start findings).filter (·.1 = ⟨language, role, round⟩)).map (·.2) =
      if start ≤ round then findings[round - start]?.toList else [] := by
  induction findings generalizing start with
  | nil => simp [placed]
  | cons f rest ih =>
      rw [placed]
      rcases Nat.lt_trichotomy start round with before | rfl | after
      · have further : round - start = round - (start + 1) + 1 := by omega
        rw [List.filter_cons_of_neg (by simp [Nat.ne_of_lt before]), ih,
          if_pos (Nat.succ_le_of_lt before), if_pos (Nat.le_of_lt before), further,
          List.getElem?_cons_succ]
      · rw [List.filter_cons_of_pos (by simp), List.map_cons, ih,
          if_neg (Nat.not_succ_le_self start), if_pos (Nat.le_refl start)]
        simp
      · rw [List.filter_cons_of_neg (by simp [Nat.ne_of_gt after]), ih, if_neg (by omega),
          if_neg (by omega)]

/-- The entries at one place are those of one round. -/
theorem findings_filter_place {p : Place} :
    ((recordings.flatMap Recording.entries).filter (·.1 = p)).map (·.2) =
      (recordings.filter (·.stage = p.stage)).filterMap (·.findings[p.sequence]?) := by
  rw [List.filter_flatMap, List.map_flatMap, List.filterMap_eq_flatMap_toList,
    ← flatMap_filter_stage]
  apply List.flatMap_congr
  intro r _
  split
  case isTrue same =>
    obtain ⟨language, role, round⟩ := p
    obtain ⟨rfl, rfl⟩ := Prod.mk.inj same
    exact findings_filter_placed.trans (if_pos (Nat.zero_le round))
  case isFalse other =>
    rw [List.filter_eq_nil_iff.mpr, List.map_nil]
    rintro entry member same
    rw [decide_eq_true_eq] at same
    exact other (same ▸ (stage_of_entry member).symm)

theorem sequence_lt_of_mem_placed {language start : Nat} {role : Role} {findings : List Finding}
    {entry : Place × Finding} (member : entry ∈ placed language role start findings) :
    entry.1.sequence < start + findings.length := by
  induction findings generalizing start with
  | nil => cases member
  | cons f rest ih =>
      rw [List.length_cons]
      rcases List.mem_cons.mp member with rfl | later
      · dsimp only
        omega
      · have := ih later
        omega

theorem sequence_lt_length_emittedBy {entry : Place × Finding}
    (member : entry ∈ recordings.flatMap Recording.entries) :
    entry.1.sequence < (emittedBy recordings entry.1.stage).length := by
  obtain ⟨r, recorded, inside⟩ := List.mem_flatMap.mp member
  have bound := sequence_lt_of_mem_placed inside
  have part : r.findings.Sublist (emittedBy recordings entry.1.stage) := by
    rw [emittedBy, List.flatMap_def]
    apply List.sublist_flatten_of_mem
    apply List.mem_map_of_mem
    simp [recorded, stage_of_entry inside]
  have shorter := part.length_le
  omega

/-! ## Reports by stage -/

/-- The entries of some recordings, in report order. -/
def reported (recordings : List Recording) : List (Place × Finding) :=
  (recordings.flatMap Recording.entries).mergeSort fun a b => a.1.atMost b.1

theorem sorted_ofRecordings_eq (recordings : List Recording) :
    (ofRecordings recordings).sorted = (reported recordings).map (·.2) := by
  rw [sorted, entries_ofRecordings, reported]

theorem mem_reported {entry : Place × Finding} :
    entry ∈ reported recordings ↔ entry ∈ recordings.flatMap Recording.entries :=
  List.mem_mergeSort

/-- Entries of which none is to be moved past another are reported as they were recorded. -/
theorem filter_reported {p : Place × Finding → Bool}
    (tied : ((recordings.flatMap Recording.entries).filter p).Pairwise
      fun a b => a.1.atMost b.1 = true) :
    (reported recordings).filter p = (recordings.flatMap Recording.entries).filter p := by
  have kept : ((recordings.flatMap Recording.entries).filter p).Sublist (reported recordings) := by
    apply List.sublist_mergeSort _ _ tied List.filter_sublist
    · intro a b c first second
      exact Place.atMost_trans first second
    · intro a b
      exact Place.atMost_total a.1 b.1
  have inside := kept.filter p
  rw [List.filter_filter] at inside
  simp only [Bool.and_self] at inside
  have perm := (List.mergeSort_perm (recordings.flatMap Recording.entries)
    fun a b => a.1.atMost b.1).filter p
  exact (inside.eq_of_length perm.length_eq.symm).symm

theorem filter_reported_place (p : Place) :
    (reported recordings).filter (·.1 = p) =
      (recordings.flatMap Recording.entries).filter (·.1 = p) := by
  apply filter_reported
  apply List.pairwise_filter.mpr
  apply List.pairwise_of_forall
  intro a b first second
  rw [of_decide_eq_true first, of_decide_eq_true second, Place.atMost_iff]
  omega

/-- A stage is reported in rounds. -/
theorem findings_reported_stage (stage : Nat × Role) :
    ((reported recordings).filter (·.1.stage = stage)).map (·.2) = inRounds recordings stage := by
  have increasing : ((List.range (emittedBy recordings stage).length).map fun round =>
      (⟨stage.1, stage.2, round⟩ : Place)).Pairwise Place.Before := by
    apply List.pairwise_map.mpr
    apply List.pairwise_lt_range.imp
    intro round later before
    exact .inr ⟨rfl, before⟩
  have ordered : ((reported recordings).filter (·.1.stage = stage)).Pairwise
      fun a b => ¬ Place.Before b.1 a.1 :=
    ((pairwise_mergeSort _).filter _).imp fun before => (Place.not_before_of_atMost before).2
  have covered : ∀ entry ∈ (reported recordings).filter (·.1.stage = stage), entry.1 ∈
      (List.range (emittedBy recordings stage).length).map fun round =>
        (⟨stage.1, stage.2, round⟩ : Place) := by
    intro entry member
    obtain ⟨inside, its⟩ := List.mem_filter.mp member
    rw [decide_eq_true_eq] at its
    have bound := sequence_lt_length_emittedBy (mem_reported.mp inside)
    rw [its] at bound
    refine List.mem_map.mpr ⟨entry.1.sequence, List.mem_range.mpr bound, ?_⟩
    rw [← its]
    rfl
  rw [eq_flatMap_filter_key Prod.fst Place.Before.irrefl increasing ordered covered,
    List.map_flatMap, List.flatMap_map, inRounds]
  apply List.flatMap_congr
  intro round _
  have its_round : ((reported recordings).filter (·.1.stage = stage)).filter
      (·.1 = ⟨stage.1, stage.2, round⟩) =
        (reported recordings).filter (·.1 = ⟨stage.1, stage.2, round⟩) := by
    rw [List.filter_filter]
    apply List.filter_congr
    intro entry _
    by_cases here : entry.1 = ⟨stage.1, stage.2, round⟩
    · simp [here, Place.stage]
    · simp [here]
  rw [its_round, filter_reported_place, findings_filter_place]
  rfl

/-- Stages are reported one after another. -/
theorem sorted_eq_flatMap_inRounds {languages : Nat}
    (bound : ∀ r ∈ recordings, r.language < languages) :
    (ofRecordings recordings).sorted = (stagesOf languages).flatMap (inRounds recordings) := by
  have ordered : (reported recordings).Pairwise fun a b => ¬ StageBefore b.1.stage a.1.stage :=
    (pairwise_mergeSort _).imp fun before => (Place.not_before_of_atMost before).1
  have covered : ∀ entry ∈ reported recordings, entry.1.stage ∈ stagesOf languages := by
    intro entry member
    obtain ⟨r, recorded, inside⟩ := List.mem_flatMap.mp (mem_reported.mp member)
    rw [stage_of_entry inside]
    exact mem_stagesOf (bound r recorded)
  rw [sorted_ofRecordings_eq,
    eq_flatMap_filter_key (fun entry : Place × Finding => entry.1.stage) StageBefore.irrefl
      (pairwise_stagesOf languages) ordered covered, List.map_flatMap]
  apply List.flatMap_congr
  intro stage _
  exact findings_reported_stage stage

/-- Nothing is lost of a stage, and nothing is added. -/
theorem inRounds_perm (recordings : List Recording) (stage : Nat × Role) :
    (inRounds recordings stage).Perm (emittedBy recordings stage) := by
  rw [← findings_reported_stage, ← findings_filter_stage]
  exact ((List.mergeSort_perm _ _).filter _).map _

theorem findings_flatMap_entries (recordings : List Recording) :
    (recordings.flatMap Recording.entries).map (·.2) = recordings.flatMap (·.findings) := by
  rw [List.map_flatMap]
  exact List.flatMap_congr fun r _ => findings_entries r

theorem sorted_perm (recordings : List Recording) :
    (ofRecordings recordings).sorted.Perm (recordings.flatMap (·.findings)) := by
  rw [sorted_ofRecordings_eq, ← findings_flatMap_entries]
  exact (List.mergeSort_perm _ _).map _

/-! ## Recordings that do not mix -/

/-- No finding of the later recording is reported between findings of the earlier one. -/
def Recording.ClearOf (r later : Recording) : Prop :=
  r.stage = later.stage → r.findings.length ≤ 1 ∨ later.findings = []

theorem pairwise_entries_of_clear (clear : recordings.Pairwise Recording.ClearOf)
    (stage : Nat × Role) :
    ((recordings.flatMap Recording.entries).filter (·.1.stage = stage)).Pairwise
      fun a b => a.1.atMost b.1 = true := by
  apply List.pairwise_filter.mpr
  apply List.pairwise_flatMap.mpr
  constructor
  · intro r _
    exact (pairwise_placed _ _ _ _).imp fun ordered _ _ => ordered.1
  · apply clear.imp
    intro r later clear a inFirst b inSecond first second
    rw [decide_eq_true_eq] at first second
    have same : r.stage = later.stage := by
      rw [← stage_of_entry inFirst, ← stage_of_entry inSecond, first, second]
    rcases clear same with short | empty
    · have first_round := sequence_lt_of_mem_placed inFirst
      obtain ⟨languages, roles⟩ := Prod.mk.inj (first.trans second.symm)
      rw [Place.atMost_iff, languages, roles]
      omega
    · rw [Recording.entries, empty] at inSecond
      cases inSecond

theorem inRounds_eq_of_clear (clear : recordings.Pairwise Recording.ClearOf)
    (stage : Nat × Role) : inRounds recordings stage = emittedBy recordings stage := by
  rw [← findings_reported_stage, filter_reported (pairwise_entries_of_clear clear stage),
    findings_filter_stage]

/-- Findings that are all different are reported in the order of their places. -/
theorem pairwise_sorted_of_nodup (distinct : (recordings.flatMap (·.findings)).Nodup) :
    (ofRecordings recordings).sorted.Pairwise fun f g =>
      ∀ a ∈ recordings.flatMap Recording.entries, ∀ b ∈ recordings.flatMap Recording.entries,
        a.2 = f → b.2 = g → a.1.atMost b.1 = true := by
  rw [← findings_flatMap_entries] at distinct
  rw [sorted_ofRecordings_eq]
  apply List.pairwise_map.mpr
  apply (pairwise_mergeSort (recordings.flatMap Recording.entries)).imp_of_mem
  intro entry other inside inside' ordered a member b member' same same'
  have first : a = entry :=
    List.inj_on_of_nodup_map distinct member (mem_reported.mp inside) same
  have second : b = other :=
    List.inj_on_of_nodup_map distinct member' (mem_reported.mp inside') same'
  rw [first, second]
  exact ordered

/-- Findings that are all different are in the order of emission only if no recordings mix. -/
theorem pairwise_clear_of_sorted {languages : Nat}
    (bound : ∀ r ∈ recordings, r.language < languages)
    (distinct : (recordings.flatMap (·.findings)).Nodup)
    (kept : (ofRecordings recordings).sorted =
      (stagesOf languages).flatMap (emittedBy recordings)) :
    recordings.Pairwise Recording.ClearOf := by
  have ordered := pairwise_sorted_of_nodup distinct
  rw [kept] at ordered
  apply List.pairwise_iff_forall_sublist.mpr
  intro r later both same
  have recorded : r ∈ recordings := both.subset List.mem_cons_self
  have recorded' : later ∈ recordings := both.subset (List.mem_cons_of_mem _ List.mem_cons_self)
  have of_stage := (List.pairwise_flatMap.mp ordered).1 r.stage (mem_stagesOf (bound r recorded))
  have of_recordings := List.pairwise_filter.mp (List.pairwise_flatMap.mp of_stage).2
  have apart := List.pairwise_iff_forall_sublist.mp of_recordings both (by simp) (by simp [same])
  cases first : r.findings with
  | nil => exact .inl (by simp)
  | cons f more =>
      cases more with
      | nil => exact .inl (by simp)
      | cons second rest =>
          cases others : later.findings with
          | nil => exact .inr rfl
          | cons g rest' =>
              -- The second finding of the one is emitted before the first of the other.
              have inFirst : (⟨r.language, r.role, 1⟩, second) ∈ r.entries := by
                simp [Recording.entries, first, placed]
              have inSecond : (⟨later.language, later.role, 0⟩, g) ∈ later.entries := by
                simp [Recording.entries, others, placed]
              have before := apart second (by simp [first]) g (by simp [others])
                _ (List.mem_flatMap.mpr ⟨r, recorded, inFirst⟩)
                _ (List.mem_flatMap.mpr ⟨later, recorded', inSecond⟩) rfl rfl
              obtain ⟨languages_eq, roles_eq⟩ := Prod.mk.inj same
              rw [Place.atMost_iff, languages_eq, roles_eq] at before
              dsimp only at before
              omega

/-- The report holds all findings, stage by stage, and those of a stage in rounds. The findings of
each stage are in the order of emission if no recording of two or more of them is followed by
another one of the same stage that is not empty; and only then, as long as they are all
different. -/
theorem sorted_keeps_emission_iff {recordings : List Recording} {languages : Nat}
    (bound : ∀ r ∈ recordings, r.language < languages) :
    let l := ofRecordings recordings
    l.sorted.Perm (recordings.flatMap (·.findings)) ∧
      (stagesOf languages).Pairwise StageBefore ∧
      l.sorted = (stagesOf languages).flatMap (inRounds recordings) ∧
      (∀ stage, (inRounds recordings stage).Perm (emittedBy recordings stage)) ∧
      (recordings.Pairwise Recording.ClearOf →
        l.sorted = (stagesOf languages).flatMap (emittedBy recordings)) ∧
      ((recordings.flatMap (·.findings)).Nodup →
        l.sorted = (stagesOf languages).flatMap (emittedBy recordings) →
          recordings.Pairwise Recording.ClearOf) := by
  intro l
  have rounds := sorted_eq_flatMap_inRounds bound
  refine ⟨sorted_perm recordings, pairwise_stagesOf languages, rounds, inRounds_perm recordings, ?_,
    pairwise_clear_of_sorted bound⟩
  intro clear
  exact rounds.trans (List.flatMap_congr fun stage _ => inRounds_eq_of_clear clear stage)

section Mixed

def violationBy (tool : String) : Finding :=
  ⟨tool, "go", .check, .lintViolation, "x"⟩

/-- Two findings of a stage, and then another one of the same stage. -/
def mixedRecordings : List Recording :=
  [⟨0, .check, [violationBy "a", violationBy "b"]⟩, ⟨0, .check, [violationBy "c"]⟩]

/-- The third finding that a stage emits is reported as its second one. -/
theorem sorted_mixes_recordings :
    emittedBy mixedRecordings (0, .check) =
        [violationBy "a", violationBy "b", violationBy "c"] ∧
      (ofRecordings mixedRecordings).sorted =
        [violationBy "a", violationBy "c", violationBy "b"] ∧
      (ofRecordings mixedRecordings).sorted ≠ (stagesOf 1).flatMap (emittedBy mixedRecordings) := by
  have rounds : (ofRecordings mixedRecordings).sorted =
      (stagesOf 1).flatMap (inRounds mixedRecordings) := sorted_eq_flatMap_inRounds (by decide)
  rw [rounds]
  decide

/-- A stage that records one finding may record more of them, also after another stage. -/
def separateRecordings : List Recording :=
  [⟨0, .check, [violationBy "a"]⟩, ⟨1, .formatter, [violationBy "d", violationBy "e"]⟩,
    ⟨0, .check, [violationBy "b", violationBy "c"]⟩, ⟨0, .linter, [violationBy "f"]⟩]

theorem sorted_keeps_emission_of_separate :
    (∀ r ∈ separateRecordings, r.language < 2) ∧
      (∀ r ∈ mixedRecordings, r.language < 1) ∧
      (mixedRecordings.flatMap (·.findings)).Nodup ∧
      separateRecordings.Pairwise Recording.ClearOf ∧
      (ofRecordings separateRecordings).sorted =
        (stagesOf 2).flatMap (emittedBy separateRecordings) ∧
      (stagesOf 2).flatMap (emittedBy separateRecordings) =
        ["f", "a", "b", "c", "d", "e"].map violationBy ∧
      ¬ mixedRecordings.Pairwise Recording.ClearOf ∧
      (ofRecordings mixedRecordings).sorted = (stagesOf 1).flatMap (inRounds mixedRecordings) ∧
      (ofRecordings mixedRecordings).sorted ≠ (stagesOf 1).flatMap (emittedBy mixedRecordings) := by
  have bound : ∀ r ∈ separateRecordings, r.language < 2 := by decide
  have bound' : ∀ r ∈ mixedRecordings, r.language < 1 := by decide
  have distinct : (mixedRecordings.flatMap (·.findings)).Nodup := by decide
  have clear : separateRecordings.Pairwise Recording.ClearOf := by
    simp [separateRecordings, Recording.ClearOf, Recording.stage]
  have mixes : ¬ mixedRecordings.Pairwise Recording.ClearOf := by
    simp [mixedRecordings, Recording.ClearOf, Recording.stage]
  obtain ⟨-, -, -, -, keeps, -⟩ := sorted_keeps_emission_iff bound
  obtain ⟨-, -, rounds, -, -, only⟩ := sorted_keeps_emission_iff bound'
  exact ⟨bound, bound', distinct, clear, keeps clear, by decide, mixes, rounds,
    fun kept => mixes (only distinct kept)⟩

end Mixed

end Ledger

end LintGate
