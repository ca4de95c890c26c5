import LintGate.Path
import LintGate.Proofs.Text.Raw
import Mathlib.Data.List.Sort

/-!
# The order of paths

Paths are ordered strictly by their components: of two paths one is before the other unless they are
spellings of one path. Insertion keeps a list strictly increasing, and `Path.sortedSet` makes one.
-/

namespace LintGate

namespace Path

namespace Component

theorem before_irrefl (a : Component) : a.before a = false := by
  cases a with
  | name n => exact Text.rawBefore_irrefl n
  | root | here | up => simp [before, rank]

theorem before_trans {a b c : Component} (first : a.before b = true) (second : b.before c = true) :
    a.before c = true := by
  cases a with
  | name m =>
      cases b with
      | name n =>
          cases c with
          | name k =>
              exact Text.rawBefore_trans first second
          | root | here | up => simp [before, rank] at second
      | root | here | up => simp [before, rank] at first
  | root | here | up => cases b <;> cases c <;> simp_all [before, rank]

theorem before_trichotomy (a b : Component) : a.before b = true ∨ a = b ∨ b.before a = true := by
  cases a with
  | name m =>
      cases b with
      | name n =>
          rw [name.injEq]
          exact Text.rawBefore_trichotomy m n
      | root | here | up => simp [before, rank]
  | root | here | up => cases b <;> simp [before, rank]

end Component

theorem componentsBefore_cons {a b : Component} {as bs : List Component} :
    componentsBefore (a :: as) (b :: bs) = true ↔
      a.before b = true ∨ a = b ∧ componentsBefore as bs = true := by
  simp [componentsBefore]

theorem componentsBefore_irrefl (cs : List Component) : componentsBefore cs cs = false := by
  induction cs with
  | nil => rfl
  | cons c cs ih => simp [componentsBefore, Component.before_irrefl, ih]

theorem componentsBefore_trans {as bs cs : List Component}
    (first : componentsBefore as bs = true) (second : componentsBefore bs cs = true) :
    componentsBefore as cs = true := by
  induction as generalizing bs cs with
  | nil =>
      cases cs with
      | nil => cases bs <;> cases second
      | cons => rfl
  | cons a as ih =>
      cases bs with
      | nil => cases first
      | cons b bs =>
          cases cs with
          | nil => cases second
          | cons c cs =>
              rw [componentsBefore_cons] at first second ⊢
              rcases first with ab | ⟨rfl, first⟩
              · rcases second with bc | ⟨rfl, -⟩
                · exact .inl (Component.before_trans ab bc)
                · exact .inl ab
              · rcases second with bc | ⟨rfl, second⟩
                · exact .inl bc
                · exact .inr ⟨rfl, ih first second⟩

theorem componentsBefore_trichotomy (as bs : List Component) :
    componentsBefore as bs = true ∨ as = bs ∨ componentsBefore bs as = true := by
  induction as generalizing bs with
  | nil => cases bs <;> simp [componentsBefore]
  | cons a as ih =>
      cases bs with
      | nil => simp [componentsBefore]
      | cons b bs =>
          rw [componentsBefore_cons, componentsBefore_cons]
          rcases Component.before_trichotomy a b with ab | rfl | ba
          · exact .inl (.inl ab)
          · rcases ih bs with first | rfl | second
            · exact .inl (.inr ⟨rfl, first⟩)
            · exact .inr (.inl rfl)
            · exact .inr (.inr (.inr ⟨rfl, second⟩))
          · exact .inr (.inr (.inl ba))

theorem same_iff {p q : Path} : p.same q = true ↔ p.components = q.components := by
  simp [same]

theorem before_irrefl (p : Path) : p.before p = false :=
  componentsBefore_irrefl _

theorem before_trans {p q r : Path} (first : p.before q = true) (second : q.before r = true) :
    p.before r = true :=
  componentsBefore_trans first second

theorem before_asymm {p q : Path} (first : p.before q = true) : q.before p = false := by
  rw [Bool.eq_false_iff]
  intro second
  have loop := before_trans first second
  rw [before_irrefl] at loop
  cases loop

instance : Std.Asymm (fun p q : Path => p.before q = true) where
  asymm _ _ first second := by
    rw [before_asymm first] at second
    cases second

theorem before_trichotomy (p q : Path) :
    p.before q = true ∨ p.same q = true ∨ q.before p = true := by
  rw [same_iff]
  exact componentsBefore_trichotomy _ _

theorem before_of_same {p q r : Path} (same : p.same q = true) : p.before r = q.before r := by
  rw [before, before, same_iff.mp same]

/-! ## Strictly increasing lists -/

theorem mem_insertSorted {p q : Path} {ps : List Path} (member : q ∈ insertSorted p ps) :
    q = p ∨ q ∈ ps := by
  induction ps with
  | nil => exact .inl (List.mem_singleton.mp member)
  | cons first rest ih =>
      rw [insertSorted] at member
      split at member
      · exact List.mem_cons.mp member
      · split at member
        · exact .inr member
        · rcases List.mem_cons.mp member with rfl | later
          · exact .inr List.mem_cons_self
          · rcases ih later with rfl | inside
            · exact .inl rfl
            · exact .inr (List.mem_cons_of_mem _ inside)

theorem pairwise_insertSorted (p : Path) {ps : List Path} (sorted : ps.Pairwise (before · ·)) :
    (insertSorted p ps).Pairwise (before · ·) := by
  induction ps with
  | nil => exact List.pairwise_singleton _ _
  | cons first rest ih =>
      obtain ⟨below, sorted⟩ := List.pairwise_cons.mp sorted
      rw [insertSorted]
      split
      case isTrue earlier =>
        refine List.pairwise_cons.mpr ⟨?_, List.pairwise_cons.mpr ⟨below, sorted⟩⟩
        rw [List.forall_mem_cons]
        exact ⟨earlier, fun q member => before_trans earlier (below q member)⟩
      case isFalse notEarlier =>
        split
        case isTrue => exact List.pairwise_cons.mpr ⟨below, sorted⟩
        case isFalse different =>
          refine List.pairwise_cons.mpr ⟨?_, ih sorted⟩
          intro q member
          rcases mem_insertSorted member with rfl | inside
          · rcases before_trichotomy q first with earlier | same | later
            · exact absurd earlier notEarlier
            · exact absurd same different
            · exact later
          · exact below q inside

/-- A strictly increasing list holds one spelling of each path. -/
theorem eq_of_same {p q : Path} {ps : List Path} (sorted : ps.Pairwise (before · ·))
    (first : p ∈ ps) (second : q ∈ ps) (same : p.same q = true) : p = q := by
  induction ps with
  | nil => cases first
  | cons least rest ih =>
      obtain ⟨below, sorted⟩ := List.pairwise_cons.mp sorted
      rcases List.mem_cons.mp first with rfl | inRest
      · rcases List.mem_cons.mp second with rfl | inRest'
        · rfl
        · have earlier := below q inRest'
          rw [before_of_same same, before_irrefl] at earlier
          cases earlier
      · rcases List.mem_cons.mp second with rfl | inRest'
        · have earlier := below p inRest
          rw [← before_of_same same, before_irrefl] at earlier
          cases earlier
        · exact ih sorted inRest inRest'

theorem exists_same_insertSorted (p : Path) (ps : List Path) :
    ∃ q ∈ insertSorted p ps, p.same q = true := by
  induction ps with
  | nil => exact ⟨p, List.mem_singleton_self p, same_iff.mpr rfl⟩
  | cons first rest ih =>
      rw [insertSorted]
      split
      · exact ⟨p, List.mem_cons_self, same_iff.mpr rfl⟩
      · split
        case isTrue same => exact ⟨first, List.mem_cons_self, same⟩
        case isFalse =>
          obtain ⟨q, inside, same⟩ := ih
          exact ⟨q, List.mem_cons_of_mem _ inside, same⟩

theorem mem_insertSorted_of_mem (p : Path) {q : Path} {ps : List Path} (member : q ∈ ps) :
    q ∈ insertSorted p ps := by
  induction ps with
  | nil => cases member
  | cons first rest ih =>
      rw [insertSorted]
      split
      · exact List.mem_cons_of_mem _ member
      · split
        · exact member
        · rcases List.mem_cons.mp member with rfl | later
          · exact List.mem_cons_self
          · exact List.mem_cons_of_mem _ (ih later)

/-- Paths are all kept when they are put in order, as long as each has one spelling. -/
theorem mem_foldl_insertSorted_iff {spelt : Path → Prop}
    (once : ∀ p q, spelt p → spelt q → p.same q = true → p = q) {q : Path} {ps found : List Path}
    (inside : ∀ p ∈ ps, spelt p) (found_inside : ∀ p ∈ found, spelt p) :
    q ∈ ps.foldl (fun found p => insertSorted p found) found ↔ q ∈ ps ∨ q ∈ found := by
  induction ps generalizing found with
  | nil => simp
  | cons p ps ih =>
      rw [List.forall_mem_cons] at inside
      have member_iff (x : Path) : x ∈ insertSorted p found ↔ x = p ∨ x ∈ found := by
        refine ⟨mem_insertSorted, ?_⟩
        rintro (rfl | member)
        · obtain ⟨y, there, same⟩ := exists_same_insertSorted x found
          have among : spelt y := by
            rcases mem_insertSorted there with rfl | old
            · exact inside.1
            · exact found_inside y old
          exact (once x y inside.1 among same).symm ▸ there
        · exact mem_insertSorted_of_mem p member
      have still_inside : ∀ x ∈ insertSorted p found, spelt x := by
        intro x member
        rcases (member_iff x).mp member with rfl | old
        · exact inside.1
        · exact found_inside x old
      rw [List.foldl_cons, ih inside.2 still_inside, member_iff, List.mem_cons, or_left_comm,
        or_assoc]

theorem pairwise_foldl_insertSorted {found : List Path} (sorted : found.Pairwise (before · ·))
    (ps : List Path) :
    (ps.foldl (fun found p => insertSorted p found) found).Pairwise (before · ·) := by
  induction ps generalizing found with
  | nil => exact sorted
  | cons p ps ih => exact ih (pairwise_insertSorted p sorted)

theorem mem_of_mem_dropRepeated {q : Path} {ps : List Path}
    (member : q ∈ sortedSet.dropRepeated ps) : q ∈ ps := by
  induction ps with
  | nil => exact member
  | cons p rest ih =>
      rw [sortedSet.dropRepeated] at member
      split at member
      case h_1 => simpa using .inl (List.mem_singleton.mp member)
      case h_2 first more found =>
        rw [found] at ih
        split at member
        · rcases List.mem_cons.mp member with rfl | later
          · exact List.mem_cons_self
          · exact List.mem_cons_of_mem _ (ih (List.mem_cons_of_mem _ later))
        · rcases List.mem_cons.mp member with rfl | later
          · exact List.mem_cons_self
          · exact List.mem_cons_of_mem _ (ih later)

theorem pairwise_dropRepeated {ps : List Path}
    (sorted : ps.Pairwise fun p q => (!q.before p) = true) :
    (sortedSet.dropRepeated ps).Pairwise (before · ·) := by
  induction ps with
  | nil => exact .nil
  | cons p rest ih =>
      obtain ⟨above, sorted⟩ := List.pairwise_cons.mp sorted
      have increasing := ih sorted
      rw [sortedSet.dropRepeated]
      split
      case h_1 => exact List.pairwise_singleton _ _
      case h_2 first more found =>
        rw [found] at increasing
        obtain ⟨below, increasing'⟩ := List.pairwise_cons.mp increasing
        split
        case isTrue same =>
          refine List.pairwise_cons.mpr ⟨?_, increasing'⟩
          intro q member
          rw [before_of_same same]
          exact below q member
        case isFalse different =>
          refine List.pairwise_cons.mpr ⟨?_, increasing⟩
          have firstAbove : first.before p = false := by
            have member : first ∈ sortedSet.dropRepeated rest := by simp [found]
            simpa using above first (mem_of_mem_dropRepeated member)
          have earlier : p.before first = true := by
            rcases before_trichotomy p first with earlier | same | later
            · exact earlier
            · exact absurd same different
            · rw [firstAbove] at later
              cases later
          rw [List.forall_mem_cons]
          exact ⟨earlier, fun q member => before_trans earlier (below q member)⟩

theorem dropRepeated_eq_self {ps : List Path} (sorted : ps.Pairwise (before · ·)) :
    sortedSet.dropRepeated ps = ps := by
  induction ps with
  | nil => rfl
  | cons p rest ih =>
      obtain ⟨below, sorted⟩ := List.pairwise_cons.mp sorted
      rw [sortedSet.dropRepeated, ih sorted]
      cases rest with
      | nil => rfl
      | cons q more =>
          have different : p.same q = false := by
            rw [Bool.eq_false_iff]
            intro same
            have earlier := below q List.mem_cons_self
            rw [before_of_same same, before_irrefl] at earlier
            cases earlier
          simp [different]

theorem sortedSet_eq_self {ps : List Path} (sorted : ps.Pairwise (before · ·)) :
    sortedSet ps = ps := by
  have inOrder : ps.Pairwise fun p q => (!q.before p) = true :=
    sorted.imp fun earlier => by simp [before_asymm earlier]
  rw [sortedSet, List.mergeSort_of_pairwise inOrder, dropRepeated_eq_self sorted]

theorem mem_of_mem_sortedSet {q : Path} {ps : List Path} (member : q ∈ sortedSet ps) : q ∈ ps :=
  List.mem_mergeSort.mp (mem_of_mem_dropRepeated member)

theorem pairwise_sortedSet (ps : List Path) : (sortedSet ps).Pairwise (before · ·) := by
  apply pairwise_dropRepeated
  apply List.pairwise_mergeSort
  · intro p q r first second
    simp only [Bool.not_eq_true', Bool.eq_false_iff] at first second ⊢
    intro third
    rcases before_trichotomy q p with earlier | same | later
    · exact first earlier
    · rw [before, same_iff.mp same] at second
      exact second third
    · exact second (before_trans third later)
  · intro p q
    cases earlier : p.before q with
    | true => simp [before_asymm earlier]
    | false => simp

end Path

end LintGate
