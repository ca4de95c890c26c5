import LintGate.Proofs.Text.Pieces
import LintGate.Text.Utf8
import Mathlib.Algebra.Group.Nat.Defs

/-!
# ASCII bytes in decoded text

A byte that stands for an ASCII character belongs to no other character, whether the bytes around it
are well formed or not. So a text may be cut at such bytes before or after it is decoded.
-/

namespace LintGate.Text

theorem toNat_ofNat_of_valid {n : Nat} (valid : n.isValidChar) : (Char.ofNat n).toNat = n := by
  rw [Char.ofNat, dif_pos valid]
  rfl

theorem toNat_ofNat_of_ascii {b : UInt8} (ascii : b < 0x80) :
    (Char.ofNat b.toNat).toNat = b.toNat := by
  have below := UInt8.lt_iff_toNat_lt.mp ascii
  simp only [UInt8.reduceToNat] at below
  exact toNat_ofNat_of_valid (.inl (by omega))

namespace Utf8

/-- Only bytes beyond ASCII are due, and whatever they are, a character beyond ASCII comes of
them. -/
def Pending.BeyondAscii : Pending → Prop
  | .none => True
  | .some owed low high value => 0x80 ≤ low.toNat ∧
      ∀ n, (value * 64 + (low.toNat - 0x80)) * 64 ^ owed ≤ n →
        n < (value * 64 + (high.toNat - 0x80) + 1) * 64 ^ owed → 0x80 ≤ n ∧ n.isValidChar

theorem beyondAscii_some (least most : Nat) {owed value : Nat} {low high : UInt8}
    (isLow : low.toNat = 0x80 + least) (isHigh : high.toNat = 0x80 + most)
    (beyond : 0x80 ≤ (value * 64 + least) * 64 ^ owed)
    (valid : (value * 64 + most + 1) * 64 ^ owed ≤ 0xD800 ∨
      0xE000 ≤ (value * 64 + least) * 64 ^ owed ∧
        (value * 64 + most + 1) * 64 ^ owed ≤ 0x110000) :
    (Pending.some owed low high value).BeyondAscii := by
  refine ⟨by omega, ?_⟩
  rw [isLow, isHigh, Nat.add_sub_cancel_left, Nat.add_sub_cancel_left]
  intro n above below
  refine ⟨by omega, ?_⟩
  unfold Nat.isValidChar
  omega

theorem beyondAscii_first (r : Reader) (b : UInt8) : (r.first b).pending.BeyondAscii := by
  have isByte (n : UInt8) (other : ¬ b = n) : b.toNat ≠ n.toNat :=
    fun same => other (UInt8.toNat_inj.mp same)
  unfold Reader.first
  simp only [Bool.and_eq_true, decide_eq_true_eq, beq_iff_eq, UInt8.le_iff_toNat_le]
  -- The branches are those of the first byte: ASCII, then leads of two, three and four bytes.
  split
  · trivial
  split
  next lead =>
    simp only [UInt8.reduceToNat] at lead
    apply beyondAscii_some 0 0x3F rfl rfl <;> omega
  split
  · apply beyondAscii_some 0x20 0x3F rfl rfl <;> omega
  split
  · apply beyondAscii_some 0 0x1F rfl rfl <;> omega
  next notE0 notED =>
    have other := isByte 0xED notED
    split
    next lead =>
      simp only [UInt8.reduceToNat] at lead other
      apply beyondAscii_some 0 0x3F rfl rfl <;> omega
    split
    · apply beyondAscii_some 0x10 0x3F rfl rfl <;> omega
    split
    next lead =>
      simp only [UInt8.reduceToNat] at lead
      apply beyondAscii_some 0 0x3F rfl rfl <;> omega
    split
    · apply beyondAscii_some 0 0x0F rfl rfl <;> omega
    · trivial

theorem beyondAscii_feed {r : Reader} (beyond : r.pending.BeyondAscii) (b : UInt8) :
    (r.feed b).pending.BeyondAscii := by
  obtain ⟨pending, read, sound⟩ := r
  cases pending with
  | none => exact beyondAscii_first _ b
  | some owed low high value =>
      unfold Reader.feed
      dsimp only
      split
      case isFalse => exact beyondAscii_first _ b
      case isTrue within =>
        simp only [Bool.and_eq_true, decide_eq_true_eq, UInt8.le_iff_toNat_le] at within
        cases owed with
        | zero => trivial
        | succ owed =>
            obtain ⟨due, comes⟩ := beyond
            refine ⟨by decide, ?_⟩
            intro n above below
            have digit (x : Nat) : x * 64 * 64 ^ owed = x * 64 ^ (owed + 1) := by
              rw [Nat.pow_succ', Nat.mul_assoc]
            have least : value * 64 + (low.toNat - 0x80) ≤ value * 64 + (b.toNat - 0x80) := by omega
            have most : value * 64 + (b.toNat - 0x80) + 1 ≤
                value * 64 + (high.toNat - 0x80) + 1 := by omega
            simp only [UInt8.reduceToNat, Nat.reduceSub, Nat.add_zero, digit] at above
            simp only [UInt8.reduceToNat, Nat.reduceSub, Nat.add_assoc, Nat.reduceAdd] at below
            rw [← Nat.succ_mul, digit] at below
            apply comes n
            · exact Nat.le_trans (Nat.mul_le_mul_right _ least) above
            · exact Nat.lt_of_lt_of_le below (Nat.mul_le_mul_right _ most)

theorem beyondAscii_foldl {r : Reader} (beyond : r.pending.BeyondAscii) (bs : Bytes) :
    (bs.foldl Reader.feed r).pending.BeyondAscii := by
  induction bs generalizing r with
  | nil => exact beyond
  | cons b bs ih => exact ih (beyondAscii_feed beyond b)

/-- An ASCII byte ends the character before it and stands for its own. -/
theorem feed_ascii {r : Reader} (beyond : r.pending.BeyondAscii) {b : UInt8} (ascii : b < 0x80) :
    r.feed b = ⟨.none, Char.ofNat b.toNat :: r.finish.read, r.finish.sound⟩ := by
  obtain ⟨pending, read, sound⟩ := r
  cases pending with
  | none => simp [Reader.feed, Reader.first, Reader.finish, ascii]
  | some owed low high value =>
      have early : ¬ low ≤ b := by
        have due := beyond.1
        have small := UInt8.lt_iff_toNat_lt.mp ascii
        rw [UInt8.le_iff_toNat_le]
        simp only [UInt8.reduceToNat] at small
        omega
      simp [Reader.feed, Reader.first, Reader.finish, ascii, early, Reader.replace]

/-- A reader that goes on where another one has ended. -/
def Reader.after (r earlier : Reader) : Reader :=
  ⟨r.pending, r.read ++ earlier.read, r.sound && earlier.sound⟩

theorem first_after (earlier r : Reader) (b : UInt8) :
    (r.after earlier).first b = (r.first b).after earlier := by
  simp only [Reader.first, Reader.after, Reader.replace]
  repeat' split
  all_goals simp

theorem feed_after (earlier r : Reader) (b : UInt8) :
    (r.after earlier).feed b = (r.feed b).after earlier := by
  obtain ⟨pending, read, sound⟩ := r
  cases pending with
  | none => exact first_after earlier ⟨.none, read, sound⟩ b
  | some owed low high value =>
      have again := first_after earlier ⟨.none, replacement :: read, false⟩ b
      simp only [Reader.feed, Reader.after, Reader.replace] at again ⊢
      split
      · cases owed <;> rfl
      · simpa using again

theorem foldl_feed_after (earlier r : Reader) (bs : Bytes) :
    bs.foldl Reader.feed (r.after earlier) = (bs.foldl Reader.feed r).after earlier := by
  induction bs generalizing r with
  | nil => rfl
  | cons b bs ih => rw [List.foldl_cons, List.foldl_cons, feed_after, ih]

theorem finish_after (earlier r : Reader) : (r.after earlier).finish = r.finish.after earlier := by
  obtain ⟨pending, read, sound⟩ := r
  cases pending <;> simp [Reader.finish, Reader.after, Reader.replace]

theorem readAll_append_ascii (before after : Bytes) {b : UInt8} (ascii : b < 0x80) :
    readAll (before ++ b :: after) = (readAll after).after
      ⟨.none, Char.ofNat b.toNat :: (readAll before).read, (readAll before).sound⟩ := by
  have beyond := beyondAscii_foldl (r := .start) trivial before
  have begins (read : List Char) (sound : Bool) :
      (⟨.none, read, sound⟩ : Reader) = Reader.start.after ⟨.none, read, sound⟩ := rfl
  rw [readAll, List.foldl_append, List.foldl_cons, feed_ascii beyond ascii, begins,
    foldl_feed_after, finish_after]
  rfl

theorem mem_read_replace {r : Reader} {c : Char} (member : c ∈ r.replace.read)
    (ascii : c.toNat < 0x80) : c ∈ r.read := by
  rcases List.mem_cons.mp member with rfl | old
  · exact absurd ascii (by decide)
  · exact old

theorem mem_read_first {r : Reader} {b : UInt8} {c : Char} (other : ¬ b < 0x80)
    (member : c ∈ (r.first b).read) (ascii : c.toNat < 0x80) : c ∈ r.read := by
  unfold Reader.first at member
  rw [if_neg other] at member
  repeat' split at member
  all_goals first
    | exact member
    | exact mem_read_replace member ascii

theorem mem_read_finish {r : Reader} {c : Char} (member : c ∈ r.finish.read)
    (ascii : c.toNat < 0x80) : c ∈ r.read := by
  obtain ⟨pending, read, sound⟩ := r
  cases pending with
  | none => exact member
  | some owed low high value => exact mem_read_replace member ascii

/-- The ASCII characters that a reader has read are among the bytes that it was fed. -/
theorem toNat_eq_of_mem_feed {r : Reader} (beyond : r.pending.BeyondAscii) {b : UInt8} {c : Char}
    (member : c ∈ (r.feed b).read) (ascii : c.toNat < 0x80) : c ∈ r.read ∨ c.toNat = b.toNat := by
  by_cases small : b < 0x80
  · rw [feed_ascii beyond small] at member
    rcases List.mem_cons.mp member with rfl | old
    · exact .inr (toNat_ofNat_of_ascii small)
    · exact .inl (mem_read_finish old ascii)
  · apply Or.inl
    obtain ⟨pending, read, sound⟩ := r
    cases pending with
    | none => exact mem_read_first small member ascii
    | some owed low high value =>
        unfold Reader.feed at member
        dsimp only at member
        split at member
        case isFalse => exact mem_read_replace (mem_read_first small member ascii) ascii
        case isTrue within =>
          simp only [Bool.and_eq_true, decide_eq_true_eq, UInt8.le_iff_toNat_le] at within
          cases owed with
          | succ owed => exact member
          | zero =>
              rcases List.mem_cons.mp member with same | old
              · have comes := beyond.2 (value * 64 + (b.toNat - 0x80))
                rw [Nat.pow_zero, Nat.mul_one, Nat.mul_one] at comes
                have least : value * 64 + (low.toNat - 0x80) ≤ value * 64 + (b.toNat - 0x80) := by
                  omega
                have most : value * 64 + (b.toNat - 0x80) <
                    value * 64 + (high.toNat - 0x80) + 1 := by omega
                obtain ⟨large, valid⟩ := comes least most
                rw [same, toNat_ofNat_of_valid valid] at ascii
                omega
              · exact old

theorem exists_byte_of_mem_foldl {r : Reader} (beyond : r.pending.BeyondAscii) {bs : Bytes}
    {c : Char} (member : c ∈ (bs.foldl Reader.feed r).read) (ascii : c.toNat < 0x80) :
    c ∈ r.read ∨ ∃ b ∈ bs, c.toNat = b.toNat := by
  induction bs generalizing r with
  | nil => exact .inl member
  | cons b bs ih =>
      rcases ih (beyondAscii_feed beyond b) member with fed | ⟨other, among, same⟩
      · rcases toNat_eq_of_mem_feed beyond fed ascii with old | same
        · exact .inl old
        · exact .inr ⟨b, List.mem_cons_self, same⟩
      · exact .inr ⟨other, List.mem_cons_of_mem _ among, same⟩

end Utf8

/-- A text may be cut at an ASCII byte before it is decoded. -/
theorem decodeChars_append_ascii (before after : Bytes) {b : UInt8} (ascii : b < 0x80) :
    decodeChars (before ++ b :: after) =
      decodeChars before ++ Char.ofNat b.toNat :: decodeChars after := by
  rw [decodeChars, Utf8.readAll_append_ascii before after ascii]
  simp [decodeChars, Utf8.Reader.after]

/-- No ASCII character comes of other bytes than its own. -/
theorem not_mem_decodeChars {bs : Bytes} {b : UInt8} (ascii : b < 0x80) (absent : b ∉ bs) :
    Char.ofNat b.toNat ∉ decodeChars bs := by
  intro member
  have small : (Char.ofNat b.toNat).toNat < 0x80 := by
    rw [toNat_ofNat_of_ascii ascii]
    exact UInt8.lt_iff_toNat_lt.mp ascii
  rw [decodeChars, List.mem_reverse] at member
  have fed := Utf8.mem_read_finish member small
  rcases Utf8.exists_byte_of_mem_foldl (r := .start) trivial fed small with
    old | ⟨other, among, same⟩
  · cases old
  · rw [toNat_ofNat_of_ascii ascii] at same
    exact absent (UInt8.toNat_inj.mp same ▸ among)

theorem decodeChars_joined {b : UInt8} (ascii : b < 0x80) (parts : List Bytes) :
    decodeChars (joined [b] parts) = joined [Char.ofNat b.toNat] (parts.map decodeChars) := by
  induction parts with
  | nil => rfl
  | cons part parts ih =>
      cases parts with
      | nil => rfl
      | cons next parts =>
          have shape : joined [b] (part :: next :: parts) =
            part ++ b :: joined [b] (next :: parts) := by
            simp [joined]
          rw [shape, decodeChars_append_ascii part _ ascii, ih]
          simp [joined]

/-- The pieces of a decoded text are the decoded pieces of its bytes. -/
theorem pieces_decodeChars {b : UInt8} (ascii : b < 0x80) (bs : Bytes) :
    pieces (Char.ofNat b.toNat) (decodeChars bs) = (pieces b bs).map decodeChars := by
  have some_piece : (pieces b bs).map decodeChars ≠ [] := by simp [pieces_ne_nil]
  have clean : ∀ part ∈ (pieces b bs).map decodeChars, Char.ofNat b.toNat ∉ part := by
    intro part member
    obtain ⟨piece, among, rfl⟩ := List.mem_map.mp member
    exact not_mem_decodeChars ascii (not_mem_of_mem_pieces among)
  calc
    pieces (Char.ofNat b.toNat) (decodeChars bs) =
        pieces (Char.ofNat b.toNat) (decodeChars (joined [b] (pieces b bs))) := by
      rw [joined_pieces]
    _ = pieces (Char.ofNat b.toNat)
          (joined [Char.ofNat b.toNat] ((pieces b bs).map decodeChars)) := by
      rw [decodeChars_joined ascii]
    _ = (pieces b bs).map decodeChars := pieces_joined some_piece clean

end LintGate.Text
