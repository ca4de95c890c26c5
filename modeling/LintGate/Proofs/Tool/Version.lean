import LintGate.Tool.Version
import Mathlib.Data.List.Basic

/-!
# Versions in banners

A text is dotted when a dot stands in it between two digits. In a dotted text the first run of
digits before such a dot is the major number, and every number is as long as it can be. A version
is read back from its own text, whatever stands around it.
-/

namespace LintGate

namespace Version

open Text (isDecimalDigit)

/-- A dot stands between two digits. -/
def Dotted (cs : List Char) : Prop :=
  ∃ front d e back, cs = front ++ d :: '.' :: e :: back ∧
    isDecimalDigit d = true ∧ isDecimalDigit e = true

/-- The first character is no digit. -/
def EndsDigits (cs : List Char) : Prop :=
  ∀ c ∈ cs.head?, isDecimalDigit c = false

theorem not_isDecimalDigit_dot : isDecimalDigit '.' = false := by decide

theorem Dotted.of_suffix (front : List Char) {cs : List Char} (dotted : Dotted cs) :
    Dotted (front ++ cs) := by
  obtain ⟨before, d, e, back, rfl, digit, digit'⟩ := dotted
  exact ⟨front ++ before, d, e, back, (List.append_assoc ..).symm, digit, digit'⟩

theorem takeWhile_digits {digits rest : List Char} (all : ∀ c ∈ digits, isDecimalDigit c = true)
    (ends : EndsDigits rest) :
    (digits ++ rest).takeWhile isDecimalDigit = digits ∧
      (digits ++ rest).dropWhile isDecimalDigit = rest := by
  rw [List.takeWhile_append_of_pos all, List.dropWhile_append_of_pos all]
  cases rest with
  | nil => simp
  | cons c rest =>
      have other : isDecimalDigit c = false := ends c rfl
      simp [other]

theorem dotDigits?_of_digits {digits rest : List Char} (some_digit : digits ≠ [])
    (all : ∀ c ∈ digits, isDecimalDigit c = true) (ends : EndsDigits rest) :
    dotDigits? ('.' :: (digits ++ rest)) = some (digits, rest) := by
  obtain ⟨taken, dropped⟩ := takeWhile_digits all ends
  simp [dotDigits?, taken, dropped, some_digit]

theorem dotDigits?_eq_none {cs : List Char}
    (undotted : ∀ e back, cs = '.' :: e :: back → isDecimalDigit e = false) :
    dotDigits? cs = none := by
  unfold dotDigits?
  split
  case h_1 rest =>
    cases rest with
    | nil => rfl
    | cons e back =>
        have other := undotted e back rfl
        simp [other]
  case h_2 => rfl

theorem search_digit {run rest : List Char} {c : Char} (digit : isDecimalDigit c = true) :
    search run (c :: rest) = search (c :: run) rest := by
  conv_lhs => unfold search
  rw [if_pos digit]

/-- What is no digit and begins no second number ends a run of digits. -/
theorem search_other {run rest : List Char} {c : Char} (other : isDecimalDigit c = false)
    (undotted : run = [] ∨ dotDigits? (c :: rest) = none) :
    search run (c :: rest) = search [] rest := by
  conv_lhs => unfold search
  rw [if_neg (by simp [other])]
  rcases undotted with rfl | undotted
  · rfl
  · rw [undotted]
    cases run <;> rfl

theorem search_digits {run digits rest : List Char}
    (all : ∀ c ∈ digits, isDecimalDigit c = true) :
    search run (digits ++ rest) = search (digits.reverse ++ run) rest := by
  induction digits generalizing run with
  | nil => rfl
  | cons c digits ih =>
      rw [List.forall_mem_cons] at all
      rw [List.cons_append, search_digit all.1, ih all.2, List.reverse_cons, List.append_assoc,
        List.singleton_append]

theorem search_dot {run minor rest : List Char} (some_run : run ≠ [])
    (some_minor : minor ≠ []) (all : ∀ c ∈ minor, isDecimalDigit c = true)
    (ends : EndsDigits rest) :
    search run ('.' :: (minor ++ rest)) = ofParts? run.reverse minor rest := by
  obtain ⟨d, run, rfl⟩ := List.exists_cons_of_ne_nil some_run
  have found := dotDigits?_of_digits some_minor all ends
  unfold search
  rw [if_neg (by simp [not_isDecimalDigit_dot]), found]

/-- No number follows a run of digits in a text that is not dotted. Two characters tell. -/
theorem dotDigits?_eq_none_of_run (shown hidden : List Char) {d : Char} {run : List Char}
    (digit : isDecimalDigit d = true) (undotted : ¬ Dotted ((d :: run).reverse ++ shown))
    (told : 2 ≤ shown.length ∨ hidden = []) : dotDigits? (shown ++ hidden) = none := by
  apply dotDigits?_eq_none
  intro e back shape
  have begins : ∃ more, shown = '.' :: e :: more := by
    rcases told with long | rfl
    · match shown, long with
      | first :: second :: more, _ =>
          rw [List.cons_append, List.cons_append, List.cons.injEq, List.cons.injEq] at shape
          exact ⟨more, by rw [shape.1, shape.2.1]⟩
    · exact ⟨back, by simpa using shape⟩
  obtain ⟨more, rfl⟩ := begins
  rw [Bool.eq_false_iff]
  intro digit'
  apply undotted
  exact ⟨run.reverse, d, e, more, by simp, digit, digit'⟩

theorem search_eq_none {run cs : List Char} (digits : ∀ d ∈ run, isDecimalDigit d = true)
    (undotted : ¬ Dotted (run.reverse ++ cs)) : search run cs = none := by
  induction cs generalizing run with
  | nil => rfl
  | cons c rest ih =>
      by_cases digit : isDecimalDigit c = true
      · rw [search_digit digit]
        apply ih (List.forall_mem_cons.mpr ⟨digit, digits⟩)
        simpa using undotted
      · have clear : run = [] ∨ dotDigits? (c :: rest) = none := by
          cases run with
          | nil => exact .inl rfl
          | cons d run =>
              have none_left := dotDigits?_eq_none_of_run (c :: rest) []
                (digits d List.mem_cons_self) undotted (.inr rfl)
              exact .inr (by simpa using none_left)
        rw [search_other (by simpa using digit) clear]
        apply ih (by simp)
        intro dotted
        apply undotted
        have longer := dotted.of_suffix (run.reverse ++ [c])
        simpa using longer

/-- What stands before a number is passed over when it does not end in a digit and holds no version
itself. -/
theorem search_front {run front rest : List Char} {c : Char}
    (digits : ∀ d ∈ run, isDecimalDigit d = true)
    (undotted : ¬ Dotted (run.reverse ++ front ++ [c]))
    (apart : ∀ d ∈ (run.reverse ++ front).getLast?, isDecimalDigit d = false) :
    search run (front ++ c :: rest) = search [] (c :: rest) := by
  induction front generalizing run with
  | nil =>
      cases run with
      | nil => rfl
      | cons d run =>
          have digit := digits d List.mem_cons_self
          have other := apart d (by simp)
          rw [digit] at other
          cases other
  | cons x front ih =>
      by_cases digit : isDecimalDigit x = true
      · rw [List.cons_append, search_digit digit]
        apply ih (List.forall_mem_cons.mpr ⟨digit, digits⟩)
        · simpa using undotted
        · simpa using apart
      · have clear : run = [] ∨ dotDigits? (x :: (front ++ c :: rest)) = none := by
          cases run with
          | nil => exact .inl rfl
          | cons d run =>
              have none_left := dotDigits?_eq_none_of_run (x :: (front ++ [c])) rest
                (digits d List.mem_cons_self) (by simpa using undotted) (.inl (by simp))
              exact .inr (by simpa using none_left)
        rw [List.cons_append, search_other (by simpa using digit) clear]
        apply ih (by simp)
        · intro dotted
          apply undotted
          have longer := dotted.of_suffix (run.reverse ++ [x])
          simpa using longer
        · intro d last
          apply apart
          cases front with
          | nil => cases last
          | cons y front => simpa using last

/-- The first version of a text: two runs of digits around a dot, both as long as they can be, with
no such runs before. -/
structure ReadsFirst (text front major minor rest : List Char) : Prop where
  shape : text = front ++ major ++ '.' :: minor ++ rest
  some_major : major ≠ []
  some_minor : minor ≠ []
  major_digits : ∀ c ∈ major, isDecimalDigit c = true
  minor_digits : ∀ c ∈ minor, isDecimalDigit c = true
  apart : ∀ c ∈ front.getLast?, isDecimalDigit c = false
  undotted : ∀ c ∈ major.head?, ¬ Dotted (front ++ [c])
  ends : EndsDigits rest

theorem ReadsFirst.parse?_eq {text : String} {front major minor rest : List Char}
    (first : ReadsFirst text.toList front major minor rest) :
    parse? text = ofParts? major minor rest := by
  obtain ⟨c, more, rfl⟩ := List.exists_cons_of_ne_nil first.some_major
  calc
    parse? text = search [] (front ++ c :: (more ++ '.' :: (minor ++ rest))) := by
      rw [parse?, first.shape]
      simp
    _ = search [] (c :: (more ++ '.' :: (minor ++ rest))) := by
      apply search_front (by simp)
      · simpa using first.undotted c rfl
      · simpa using first.apart
    _ = search ((c :: more).reverse ++ []) ('.' :: (minor ++ rest)) := by
      rw [← List.cons_append, search_digits first.major_digits]
    _ = ofParts? (c :: more) minor rest := by
      rw [List.append_nil, search_dot (by simp) first.some_minor first.minor_digits first.ends,
        List.reverse_reverse]

theorem parse?_eq_none {text : String} (undotted : ¬ Dotted text.toList) : parse? text = none :=
  search_eq_none (by simp) (by simpa using undotted)

/-! ## Numbers -/

theorem isDecimalDigit_of_mem_toDigits {n : Nat} {c : Char} (member : c ∈ Nat.toDigits 10 n) :
    isDecimalDigit c = true :=
  Text.isDecimalDigit_of_isDigit (Nat.isDigit_of_mem_toDigits (by decide) (by decide) member)

theorem part?_toDigits (n : UInt64) : part? (Nat.toDigits 10 n.toNat) = some n := by
  have digits : (Nat.toDigits 10 n.toNat).all Char.isDigit = true := by
    rw [List.all_eq_true]
    intro c member
    exact Nat.isDigit_of_mem_toDigits (by decide) (by decide) member
  have fits : n.toNat ≤ maxPart := Nat.le_pred_of_lt n.toNat_lt
  rw [part?, if_pos digits, Nat.ofDigitChars_ten_toDigits]
  simp [fits]

theorem not_dotted_of_no_digit {front : List Char} (clear : ∀ c ∈ front, isDecimalDigit c = false)
    (c : Char) : ¬ Dotted (front ++ [c]) := by
  rintro ⟨before, d, e, back, shape, digit, -⟩
  have cut := congrArg List.dropLast shape
  rw [List.dropLast_concat, List.dropLast_append_of_ne_nil (by simp)] at cut
  have member : d ∈ front := by simp [cut]
  rw [clear d member] at digit
  cases digit

section Banner

variable {text : String} {front rest : List Char} {a b : UInt64}
  (shape : text.toList =
    front ++ Nat.toDigits 10 a.toNat ++ '.' :: Nat.toDigits 10 b.toNat ++ rest)
  (clear : ∀ c ∈ front, isDecimalDigit c = false) (ends : EndsDigits rest)

include shape clear ends

theorem readsFirst_of_banner :
    ReadsFirst text.toList front (Nat.toDigits 10 a.toNat) (Nat.toDigits 10 b.toNat) rest where
  shape := shape
  some_major := Nat.toDigits_ne_nil
  some_minor := Nat.toDigits_ne_nil
  major_digits := fun _ => isDecimalDigit_of_mem_toDigits
  minor_digits := fun _ => isDecimalDigit_of_mem_toDigits
  apart := fun c last => clear c (List.mem_of_getLast? last)
  undotted := fun c _ => not_dotted_of_no_digit clear c
  ends := ends

theorem parse?_of_banner :
    parse? text = some ⟨a, b, ((dotDigits? rest).bind fun found => part? found.1).getD 0⟩ := by
  rw [(readsFirst_of_banner shape clear ends).parse?_eq, ofParts?, part?_toDigits, part?_toDigits]
  rfl

end Banner

theorem toList_text (v : Version) :
    v.text.toList = Nat.toDigits 10 v.major.toNat ++ '.' :: Nat.toDigits 10 v.minor.toNat ++
      '.' :: Nat.toDigits 10 v.patch.toNat := by
  simp [text, ToString.toString]

theorem parse?_around_text (front back : String) (v : Version)
    (clear : ∀ c ∈ front.toList, isDecimalDigit c = false) (ends : EndsDigits back.toList) :
    parse? (front ++ v.text ++ back) = some v := by
  have shape : (front ++ v.text ++ back).toList =
      front.toList ++ Nat.toDigits 10 v.major.toNat ++ '.' :: Nat.toDigits 10 v.minor.toNat ++
        '.' :: (Nat.toDigits 10 v.patch.toNat ++ back.toList) := by
    simp [toList_text]
  have dot : EndsDigits ('.' :: (Nat.toDigits 10 v.patch.toNat ++ back.toList)) := by
    intro c first
    cases first
    exact not_isDecimalDigit_dot
  have patch := dotDigits?_of_digits (Nat.toDigits_ne_nil (n := v.patch.toNat) (b := 10))
    (fun _ => isDecimalDigit_of_mem_toDigits) ends
  rw [parse?_of_banner shape clear dot, patch, Option.bind_some, part?_toDigits, Option.getD_some]

theorem parse?_around_pair (front back : String) (a b : UInt64)
    (clear : ∀ c ∈ front.toList, isDecimalDigit c = false) (ends : EndsDigits back.toList)
    (no_patch : ∀ c rest, back.toList = '.' :: c :: rest → isDecimalDigit c = false) :
    parse? (front ++ s!"{a.toNat}.{b.toNat}" ++ back) = some ⟨a, b, 0⟩ := by
  have shape : (front ++ s!"{a.toNat}.{b.toNat}" ++ back).toList =
      front.toList ++ Nat.toDigits 10 a.toNat ++ '.' :: Nat.toDigits 10 b.toNat ++
        back.toList := by
    simp [ToString.toString]
  rw [parse?_of_banner shape clear ends, dotDigits?_eq_none no_patch]
  rfl

end Version

end LintGate
