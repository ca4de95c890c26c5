import LintGate.Text.Ascii
import LintGate.Tool.Recovery
import Mathlib.Data.List.Forall2

/-!
# The texts of a wording

A wording stands for the texts that its pieces read one after another, and `Wording.occursIn` looks
for one of these texts as a run of neighbouring characters. Capital and small letters are read
alike, so the case of the letters of a text does not matter. A wording closes when its last piece is
made of letters of which the last is not blank; the texts of such a wording end visibly.
-/

namespace LintGate

namespace Text

theorem toLower_cases (c : Char) :
    c.toLower = c ∨ 65 ≤ c.toNat ∧ c.toNat ≤ 90 ∧ c.toLower.toNat = c.toNat + 32 := by
  by_cases capital : c.val ≥ 'A'.val ∧ c.val ≤ 'Z'.val
  · right
    have low : 65 ≤ c.val.toNat := UInt32.le_iff_toNat_le.mp capital.1
    have high : c.val.toNat ≤ 90 := UInt32.le_iff_toNat_le.mp capital.2
    refine ⟨low, high, ?_⟩
    have step : (c.val + ('a'.val - 'A'.val)).toNat = c.val.toNat + 32 := by
      rw [UInt32.toNat_add]
      exact Nat.mod_eq_of_lt (show c.val.toNat + 32 < 2 ^ 32 by omega)
    have raised : c.toLower.val = c.val + ('a'.val - 'A'.val) :=
      congrArg Char.val (dif_pos capital)
    exact (congrArg UInt32.toNat raised).trans step
  · exact .inl (dif_neg capital)

theorem toLower_toLower (c : Char) : c.toLower.toLower = c.toLower := by
  rcases toLower_cases c.toLower with small | ⟨low, high, -⟩
  · exact small
  · rcases toLower_cases c with same | ⟨low', -, shifted⟩
    · rw [same, same]
    · omega

theorem toLower_eq_iff {c d : Char} (other : d.toNat < 65 ∨ 122 < d.toNat) :
    c.toLower = d ↔ c = d := by
  rcases toLower_cases c with same | ⟨low, high, shifted⟩
  · rw [same]
  · constructor
    · rintro rfl
      omega
    · rintro rfl
      omega

theorem isBlank_toLower (c : Char) : isBlank c.toLower = isBlank c := by
  rcases toLower_cases c with same | ⟨low, high, shifted⟩
  · rw [same]
  · have visible {d : Char} (low : 65 ≤ d.toNat) (high : d.toNat ≤ 122) : isBlank d = false := by
      simp only [isBlank, Bool.or_eq_false_iff, Bool.and_eq_false_imp, beq_eq_false_iff_ne,
        decide_eq_true_eq, decide_eq_false_iff_not]
      omega
    rw [visible (by omega) (by omega), visible low (by omega)]

end Text

namespace Wording

open Text (isBlank)

theorem sameLetter_toLower (letter c : Char) :
    sameLetter letter c.toLower = sameLetter letter c := by
  have long_s : (c.toLower == '\u017F') = (c == '\u017F') := by
    rw [Bool.eq_iff_iff, beq_iff_eq, beq_iff_eq]
    exact Text.toLower_eq_iff (.inr (by decide))
  have kelvin : (c.toLower == '\u212A') = (c == '\u212A') := by
    rw [Bool.eq_iff_iff, beq_iff_eq, beq_iff_eq]
    exact Text.toLower_eq_iff (.inr (by decide))
  rw [sameLetter, sameLetter, Text.toLower_toLower, long_s, kelvin]

theorem isBlank_of_sameLetter {letter c : Char} (same : sameLetter letter c = true)
    (blank : isBlank c = true) : isBlank letter = true := by
  simp only [sameLetter, Bool.or_eq_true, Bool.and_eq_true, beq_iff_eq] at same
  rcases same with (rfl | ⟨-, rfl⟩) | ⟨-, rfl⟩
  · rwa [Text.isBlank_toLower]
  · cases blank
  · cases blank

/-! ## What a wording reads -/

/-- A text consists of some letters, each in either case. -/
def Spells (letters : String) (read : List Char) : Prop :=
  List.Forall₂ (fun letter c => sameLetter letter c = true) letters.toList read

/-- The texts of a piece. -/
def Part.Reads : Part → List Char → Prop
  | .text letters, read => Spells letters read
  | .oneOf choices, read => ∃ choice ∈ choices, Spells choice read
  | .anything, read => ∀ c ∈ read, c ≠ '\n'
  | .blanks, read => ∀ c ∈ read, isBlank c = true

/-- The texts of a wording. -/
inductive Reads : Wording → List Char → Prop where
  | done : Reads [] []
  | part {part : Part} {more : Wording} {front back : List Char} (first : part.Reads front)
      (rest : Reads more back) : Reads (part :: more) (front ++ back)

theorem afterLetters?_eq_some_iff {letters cs rest : List Char} :
    afterLetters? letters cs = some rest ↔
      ∃ read, cs = read ++ rest ∧
        List.Forall₂ (fun letter c => sameLetter letter c = true) letters read := by
  induction letters generalizing cs with
  | nil => simp [afterLetters?]
  | cons letter letters ih =>
      cases cs with
      | nil => simp [afterLetters?]
      | cons c cs =>
          rw [afterLetters?]
          split
          case isTrue same =>
            rw [ih]
            constructor
            · rintro ⟨read, rfl, spells⟩
              exact ⟨c :: read, rfl, .cons same spells⟩
            · rintro ⟨_, shape, spells⟩
              cases spells with
              | cons _ spells =>
                  obtain ⟨rfl, rfl⟩ := List.cons.inj shape
                  exact ⟨_, rfl, spells⟩
          case isFalse other =>
            constructor
            · intro nothing
              cases nothing
            · rintro ⟨_, shape, spells⟩
              cases spells with
              | cons same _ =>
                  obtain ⟨rfl, -⟩ := List.cons.inj shape
                  exact absurd same other

theorem mem_endsAfter_iff {skip : Char → Bool} {cs rest : List Char} :
    rest ∈ endsAfter skip cs ↔ ∃ read, cs = read ++ rest ∧ ∀ c ∈ read, skip c = true := by
  induction cs with
  | nil =>
      rw [endsAfter, List.mem_singleton]
      constructor
      · rintro rfl
        exact ⟨[], rfl, by simp⟩
      · rintro ⟨read, shape, -⟩
        exact (List.append_eq_nil_iff.mp shape.symm).2
  | cons c cs ih =>
      rw [endsAfter, List.mem_cons]
      constructor
      · rintro (rfl | later)
        · exact ⟨[], rfl, by simp⟩
        · split at later
          case isTrue skipped =>
            obtain ⟨read, rfl, all⟩ := ih.mp later
            exact ⟨c :: read, rfl, List.forall_mem_cons.mpr ⟨skipped, all⟩⟩
          case isFalse => cases later
      · rintro ⟨read, shape, all⟩
        cases read with
        | nil => exact .inl shape.symm
        | cons d read =>
            obtain ⟨rfl, rfl⟩ := List.cons.inj shape
            rw [List.forall_mem_cons] at all
            rw [if_pos all.1]
            exact .inr (ih.mpr ⟨read, rfl, all.2⟩)

theorem Part.mem_after_iff {part : Part} {cs rest : List Char} :
    rest ∈ part.after cs ↔ ∃ read, cs = read ++ rest ∧ part.Reads read := by
  cases part with
  | text letters =>
      rw [after, Option.mem_toList]
      exact afterLetters?_eq_some_iff
  | oneOf choices =>
      simp only [after, List.mem_filterMap, afterLetters?_eq_some_iff]
      constructor
      · rintro ⟨choice, member, read, shape, spells⟩
        exact ⟨read, shape, choice, member, spells⟩
      · rintro ⟨read, shape, choice, member, spells⟩
        exact ⟨choice, member, read, shape, spells⟩
  | anything => simp only [after, mem_endsAfter_iff, Reads, ne_eq, decide_not, Bool.not_eq_true',
      decide_eq_false_iff_not]
  | blanks => exact mem_endsAfter_iff

theorem opens_iff {w : Wording} {cs : List Char} :
    w.opens cs = true ↔ ∃ read, w.Reads read ∧ read <+: cs := by
  induction w generalizing cs with
  | nil =>
      rw [opens]
      exact ⟨fun _ => ⟨[], .done, List.nil_prefix⟩, fun _ => rfl⟩
  | cons part more ih =>
      rw [opens, List.any_eq_true]
      constructor
      · rintro ⟨rest, after, opens⟩
        obtain ⟨front, rfl, first⟩ := Part.mem_after_iff.mp after
        obtain ⟨back, reads, begins⟩ := ih.mp opens
        exact ⟨front ++ back, .part first reads, (List.prefix_append_right_inj front).mpr begins⟩
      · rintro ⟨_, reads, tail, rfl⟩
        cases reads with
        | part first reads =>
            exact ⟨_, Part.mem_after_iff.mpr ⟨_, List.append_assoc .., first⟩,
              ih.mpr ⟨_, reads, List.prefix_append _ _⟩⟩

theorem occursIn_iff {w : Wording} {cs : List Char} :
    w.occursIn cs = true ↔ ∃ read, w.Reads read ∧ read <:+: cs := by
  induction cs with
  | nil => simp only [occursIn, opens_iff, List.prefix_nil, List.infix_nil]
  | cons c cs ih =>
      rw [occursIn, Bool.or_eq_true, opens_iff, ih]
      constructor
      · rintro (⟨read, reads, begins⟩ | ⟨read, reads, inside⟩)
        · exact ⟨read, reads, begins.isInfix⟩
        · exact ⟨read, reads, List.infix_cons inside⟩
      · rintro ⟨read, reads, inside⟩
        rcases List.infix_cons_iff.mp inside with begins | later
        · exact .inl ⟨read, reads, begins⟩
        · exact .inr ⟨read, reads, later⟩

theorem occursIn_mono {w : Wording} {cs whole : List Char} (inside : cs <:+: whole)
    (occurs : w.occursIn cs = true) : w.occursIn whole = true := by
  obtain ⟨read, reads, within⟩ := occursIn_iff.mp occurs
  exact occursIn_iff.mpr ⟨read, reads, within.trans inside⟩

/-! ## Letter case -/

theorem spells_toLower_iff {letters : String} {read : List Char} :
    Spells letters (read.map Char.toLower) ↔ Spells letters read := by
  rw [Spells, List.forall₂_map_right_iff]
  simp only [sameLetter_toLower, Spells]

theorem Part.reads_toLower_iff {part : Part} {read : List Char} :
    part.Reads (read.map Char.toLower) ↔ part.Reads read := by
  cases part with
  | text letters => exact spells_toLower_iff
  | oneOf choices => simp only [Reads, spells_toLower_iff]
  | anything =>
      have same (c : Char) : c.toLower = '\n' ↔ c = '\n' := Text.toLower_eq_iff (.inl (by decide))
      simp only [Reads, List.forall_mem_map, ne_eq, same]
  | blanks => simp only [Reads, List.forall_mem_map, Text.isBlank_toLower]

theorem Reads.toLower {w : Wording} {read : List Char} (reads : w.Reads read) :
    w.Reads (read.map Char.toLower) := by
  induction reads with
  | done => exact .done
  | part first _ ih =>
      rw [List.map_append]
      exact .part (Part.reads_toLower_iff.mpr first) ih

theorem Reads.of_toLower {w : Wording} {small read : List Char} (reads : w.Reads small)
    (lowered : small = read.map Char.toLower) : w.Reads read := by
  induction reads generalizing read with
  | done =>
      rw [List.map_eq_nil_iff.mp lowered.symm]
      exact .done
  | part first _ ih =>
      obtain ⟨front, back, rfl, rfl, rest⟩ := List.map_eq_append_iff.mp lowered.symm
      exact .part (Part.reads_toLower_iff.mp first) (ih rest.symm)

theorem occursIn_toLower (w : Wording) (cs : List Char) :
    w.occursIn (cs.map Char.toLower) = w.occursIn cs := by
  rw [Bool.eq_iff_iff, occursIn_iff, occursIn_iff]
  constructor
  · rintro ⟨_, reads, inside⟩
    obtain ⟨read, within, lowered⟩ := List.infix_map_iff.mp inside
    exact ⟨read, reads.of_toLower lowered, within⟩
  · rintro ⟨read, reads, inside⟩
    exact ⟨_, reads.toLower, inside.map Char.toLower⟩

/-! ## Ends -/

/-- There are letters, and the last one is not blank. -/
def endsVisibly (letters : String) : Bool :=
  letters.toList.getLast?.any (!isBlank ·)

/-- The last piece ends with a letter that is not blank, whichever text it reads. -/
def closes (w : Wording) : Bool :=
  match w.getLast? with
  | some (.text letters) => endsVisibly letters
  | some (.oneOf choices) => choices.all endsVisibly
  | _ => false

theorem Spells.exists_last {letters : String} {read : List Char} (spells : Spells letters read)
    (visible : endsVisibly letters = true) : ∃ c ∈ read.getLast?, isBlank c = false := by
  rw [endsVisibly, Option.any_eq_true] at visible
  obtain ⟨letter, last, shown⟩ := visible
  obtain ⟨front, shape⟩ := List.getLast?_eq_some_iff.mp last
  have backwards := List.forall₂_reverse_iff.mpr spells
  rw [shape, List.reverse_append, List.reverse_singleton, List.singleton_append] at backwards
  obtain ⟨c, back, same, -, reversed⟩ := List.forall₂_cons_left_iff.mp backwards
  refine ⟨c, by rw [List.getLast?_eq_head?_reverse, reversed]; rfl, ?_⟩
  rw [Bool.eq_false_iff]
  intro blank
  rw [isBlank_of_sameLetter same blank] at shown
  cases shown

theorem Reads.exists_last {w : Wording} {read : List Char} (reads : w.Reads read)
    (closed : w.closes = true) : ∃ c ∈ read.getLast?, isBlank c = false := by
  induction reads with
  | done => cases closed
  | @part part more front back first rest ih =>
      cases more with
      | nil =>
          cases rest
          rw [List.append_nil]
          cases part with
          | text letters => exact Spells.exists_last first closed
          | oneOf choices =>
              obtain ⟨choice, member, spells⟩ := first
              exact spells.exists_last (List.all_eq_true.mp closed choice member)
          | anything => cases closed
          | blanks => cases closed
      | cons next more =>
          have closed' : closes (next :: more) = true := by
            rwa [closes, List.getLast?_cons_cons] at closed
          obtain ⟨c, last, visible⟩ := ih closed'
          exact ⟨c, by rw [List.getLast?_append, Option.mem_def.mp last]; rfl, visible⟩

end Wording

end LintGate
