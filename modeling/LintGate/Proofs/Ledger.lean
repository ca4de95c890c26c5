import LintGate.Ledger
import Mathlib.Data.List.Nodup

/-!
# Order of reports

The places of a ledger are ordered lexicographically, so entries at distinct places have one
arrangement only. A ledger whose recordings are made for distinct stages is therefore reported the
same in whatever order they were made.
-/

namespace LintGate

theorem Role.rank_inj {a b : Role} (same : a.rank = b.rank) : a = b := by
  cases a <;> cases b <;> simp_all [rank]

namespace Ledger

namespace Place

theorem atMost_iff {a b : Place} :
    a.atMost b = true ↔ a.language < b.language ∨ a.language = b.language ∧
      (a.role.rank < b.role.rank ∨ a.role.rank = b.role.rank ∧ a.sequence ≤ b.sequence) := by
  by_cases languages : a.language = b.language
  · by_cases ranks : a.role.rank = b.role.rank
    · simp [atMost, languages, ranks]
    · simp [atMost, languages, ranks]
  · simp [atMost, languages]

theorem atMost_trans {a b c : Place} (first : a.atMost b = true) (second : b.atMost c = true) :
    a.atMost c = true := by
  rw [atMost_iff] at first second ⊢
  omega

theorem atMost_total (a b : Place) : (a.atMost b || b.atMost a) = true := by
  rw [Bool.or_eq_true, atMost_iff, atMost_iff]
  omega

theorem eq_of_atMost {a b : Place} (below : a.atMost b = true) (above : b.atMost a = true) :
    a = b := by
  rw [atMost_iff] at below above
  obtain ⟨language, role, sequence⟩ := a
  obtain ⟨language', role', sequence'⟩ := b
  dsimp only at below above
  have languages : language = language' := by omega
  have roles : role = role' := Role.rank_inj (by omega)
  have sequences : sequence = sequence' := by omega
  rw [languages, roles, sequences]

end Place

/-! ## Entries at distinct places -/

theorem pairwise_mergeSort (es : List (Place × Finding)) :
    (es.mergeSort fun a b => a.1.atMost b.1).Pairwise fun a b => a.1.atMost b.1 = true := by
  apply List.pairwise_mergeSort
  · intro a b c first second
    exact Place.atMost_trans first second
  · intro a b
    exact Place.atMost_total a.1 b.1

/-- Entries at distinct places are reported in one order, however they are arranged. -/
theorem sorted_eq_of_perm {l m : Ledger} (perm : l.entries.Perm m.entries)
    (distinct : (l.entries.map (·.1)).Nodup) : l.sorted = m.sorted := by
  have sameEntries : (l.entries.mergeSort fun a b => a.1.atMost b.1) =
      m.entries.mergeSort fun a b => a.1.atMost b.1 := by
    apply List.Perm.eq_of_pairwise _ (pairwise_mergeSort _) (pairwise_mergeSort _)
    · exact (List.mergeSort_perm _ _).trans (perm.trans (List.mergeSort_perm _ _).symm)
    · intro a b inLeft inRight below above
      apply List.inj_on_of_nodup_map distinct
      · exact List.mem_mergeSort.mp inLeft
      · exact perm.mem_iff.mpr (List.mem_mergeSort.mp inRight)
      · exact Place.eq_of_atMost below above
  rw [sorted, sorted, sameEntries]

/-- Entries that stand in order already are reported as they stand. -/
theorem sorted_eq_map_of_pairwise {l : Ledger}
    (ordered : l.entries.Pairwise fun a b => a.1.atMost b.1 = true) :
    l.sorted = l.entries.map (·.2) := by
  rw [sorted, List.mergeSort_of_pairwise ordered]

/-! ## Recordings -/

/-- What one stage of one language records at once. -/
structure Recording where
  language : Nat
  role : Role
  findings : List Finding
deriving DecidableEq, Repr

/-- The stage that makes the recording. -/
def Recording.stage (r : Recording) : Nat × Role :=
  (r.language, r.role)

def Recording.entries (r : Recording) : List (Place × Finding) :=
  placed r.language r.role 0 r.findings

/-- The ledger after some recordings, made one after another. -/
def ofRecordings (recordings : List Recording) : Ledger :=
  recordings.foldl (fun ledger r => ledger.record r.language r.role r.findings) .empty

theorem entries_foldl_record (recordings : List Recording) (l : Ledger) :
    (recordings.foldl (fun ledger r => ledger.record r.language r.role r.findings) l).entries =
      l.entries ++ recordings.flatMap Recording.entries := by
  induction recordings generalizing l with
  | nil => simp
  | cons r rest ih =>
      rw [List.foldl_cons, ih, List.flatMap_cons, ← List.append_assoc]
      rfl

theorem entries_ofRecordings (recordings : List Recording) :
    (ofRecordings recordings).entries = recordings.flatMap Recording.entries := by
  rw [ofRecordings, entries_foldl_record]
  rfl

theorem findings_placed (language : Nat) (role : Role) (start : Nat) (findings : List Finding) :
    (placed language role start findings).map (·.2) = findings := by
  induction findings generalizing start with
  | nil => rfl
  | cons f rest ih => simp [placed, ih]

/-- Where the findings of one recording stand. -/
theorem stage_of_mem_placed {language start : Nat} {role : Role} {findings : List Finding}
    {entry : Place × Finding} (member : entry ∈ placed language role start findings) :
    entry.1.language = language ∧ entry.1.role = role ∧ start ≤ entry.1.sequence := by
  induction findings generalizing start with
  | nil => simp [placed] at member
  | cons f rest ih =>
      rw [placed] at member
      rcases List.mem_cons.mp member with first | later
      · simp [first]
      · obtain ⟨languages, roles, further⟩ := ih later
        exact ⟨languages, roles, by omega⟩

theorem pairwise_placed (language : Nat) (role : Role) (start : Nat) (findings : List Finding) :
    (placed language role start findings).Pairwise fun a b =>
      a.1.atMost b.1 = true ∧ a.1 ≠ b.1 := by
  induction findings generalizing start with
  | nil => exact .nil
  | cons f rest ih =>
      apply List.pairwise_cons.mpr
      refine ⟨?_, ih (start + 1)⟩
      intro entry member
      obtain ⟨languages, roles, later⟩ := stage_of_mem_placed member
      constructor
      · rw [Place.atMost_iff, languages, roles]
        exact .inr ⟨rfl, .inr ⟨rfl, by dsimp only; omega⟩⟩
      · intro same
        have sequences : start = entry.1.sequence := congrArg Place.sequence same
        omega

theorem stage_of_mem_entries {r : Recording} {entry : Place × Finding}
    (member : entry ∈ r.entries) : (entry.1.language, entry.1.role) = r.stage := by
  obtain ⟨languages, roles, -⟩ := stage_of_mem_placed member
  rw [languages, roles]
  rfl

/-- Recordings of distinct stages have distinct places. -/
theorem nodup_places {recordings : List Recording}
    (distinct : (recordings.map Recording.stage).Nodup) :
    ((recordings.flatMap Recording.entries).map (·.1)).Nodup := by
  rw [List.Nodup, List.pairwise_map]
  apply List.pairwise_flatMap.mpr
  constructor
  · intro r _
    exact (pairwise_placed _ _ _ _).imp fun ordered => ordered.2
  · apply (List.pairwise_map.mp distinct).imp
    intro r other differ a inFirst b inSecond same
    apply differ
    rw [← stage_of_mem_entries inFirst, ← stage_of_mem_entries inSecond, same]

/-- Recordings of distinct stages may be made in any order. -/
theorem sorted_ofRecordings_perm {recordings others : List Recording}
    (perm : recordings.Perm others) (distinct : (recordings.map Recording.stage).Nodup) :
    (ofRecordings recordings).sorted = (ofRecordings others).sorted := by
  apply sorted_eq_of_perm
  · rw [entries_ofRecordings, entries_ofRecordings]
    exact perm.flatMap_right _
  · rw [entries_ofRecordings]
    exact nodup_places distinct

/-! ## Recordings in the order of their stages -/

/-- The recording is for an earlier stage than another. -/
def Recording.Before (r other : Recording) : Prop :=
  r.language < other.language ∨
    r.language = other.language ∧ r.role.rank < other.role.rank

theorem Recording.Before.atMost {r other : Recording} (before : r.Before other)
    {a b : Place × Finding} (inFirst : a ∈ r.entries) (inSecond : b ∈ other.entries) :
    a.1.atMost b.1 = true := by
  obtain ⟨languages, roles, -⟩ := stage_of_mem_placed inFirst
  obtain ⟨languages', roles', -⟩ := stage_of_mem_placed inSecond
  rw [Place.atMost_iff, languages, roles, languages', roles']
  rcases before with earlier | ⟨same, earlier⟩
  · exact .inl earlier
  · exact .inr ⟨same, .inl earlier⟩

theorem nodup_stages_of_pairwise {recordings : List Recording}
    (ordered : recordings.Pairwise Recording.Before) :
    (recordings.map Recording.stage).Nodup := by
  apply List.pairwise_map.mpr
  apply ordered.imp
  intro r other before same
  have languages : r.language = other.language := congrArg Prod.fst same
  have roles : r.role = other.role := congrArg Prod.snd same
  rw [Recording.Before, languages, roles] at before
  omega

theorem sorted_ofRecordings_of_pairwise {recordings : List Recording}
    (ordered : recordings.Pairwise Recording.Before) :
    (ofRecordings recordings).sorted = recordings.flatMap (·.findings) := by
  rw [sorted_eq_map_of_pairwise, entries_ofRecordings, List.map_flatMap]
  · congr 1
    funext r
    exact findings_placed _ _ _ _
  · rw [entries_ofRecordings]
    apply List.pairwise_flatMap.mpr
    constructor
    · intro r _
      exact (pairwise_placed _ _ _ _).imp fun ordered => ordered.1
    · apply ordered.imp
      intro r other before a inFirst b inSecond
      exact before.atMost inFirst inSecond

/-- What was recorded in any order is reported in the order of the stages. -/
theorem sorted_eq_flatMap {l : Ledger} {recordings : List Recording}
    (perm : l.entries.Perm (recordings.flatMap Recording.entries))
    (ordered : recordings.Pairwise Recording.Before) :
    l.sorted = recordings.flatMap (·.findings) := by
  rw [← sorted_ofRecordings_of_pairwise ordered]
  apply sorted_eq_of_perm
  · rwa [entries_ofRecordings]
  · exact (perm.map (·.1)).nodup_iff.mpr (nodup_places (nodup_stages_of_pairwise ordered))

end Ledger

end LintGate
