import LintGate.Proofs.Text.Decoding
import LintGate.Proofs.Text.Utf8
import LintGate.Text.Raw

/-!
# Which names are text

The bytes of a text are decoded to the text itself, so a name without a zero character is shown as
it is. Any bytes but zero can be a name, and a message shows them as they are only if they are text.
-/

namespace LintGate.Text

/-! ## Decoding what was encoded -/

namespace Utf8

theorem feed_last {low high b : UInt8} {value : Nat} (read : List Char) (sound : Bool)
    (due : low ≤ b ∧ b ≤ high) :
    Reader.feed ⟨.some 0 low high value, read, sound⟩ b =
      ⟨.none, Char.ofNat (value * 64 + (b.toNat - 0x80)) :: read, sound⟩ := by
  simp [Reader.feed, due]

theorem feed_inner {low high b : UInt8} {owed value : Nat} (read : List Char) (sound : Bool)
    (due : low ≤ b ∧ b ≤ high) :
    Reader.feed ⟨.some (owed + 1) low high value, read, sound⟩ b =
      ⟨.some owed 0x80 0xBF (value * 64 + (b.toNat - 0x80)), read, sound⟩ := by
  simp [Reader.feed, due]

theorem due_of_digit {b : UInt8} (digit : Nat) (isDigit : b.toNat = 0x80 + digit)
    (small : digit < 64) : 0x80 ≤ b ∧ b ≤ 0xBF := by
  simp only [UInt8.le_iff_toNat_le, UInt8.reduceToNat]
  omega

/-- The byte that opens a character of two bytes. -/
theorem feed_first_two {b : UInt8} (value : Nat) (read : List Char) (sound : Bool)
    (lead : b.toNat = 0xC0 + value) (least : 2 ≤ value) (most : value < 32) :
    Reader.feed ⟨.none, read, sound⟩ b = ⟨.some 0 0x80 0xBF value, read, sound⟩ := by
  have notAscii : ¬ b < 0x80 := by
    simp only [UInt8.lt_iff_toNat_lt, UInt8.reduceToNat]
    omega
  have range : 0xC2 ≤ b ∧ b ≤ 0xDF := by
    simp only [UInt8.le_iff_toNat_le, UInt8.reduceToNat]
    omega
  simp [Reader.feed, Reader.first, notAscii, range, lead]

/-- After the byte that opens a character of three bytes, the next one is due if the character is
not shorter and no surrogate. -/
theorem exists_feed_first_three (b : UInt8) (value : Nat) (read : List Char) (sound : Bool)
    (lead : b.toNat = 0xE0 + value) (most : value < 16) :
    ∃ low high, Reader.feed ⟨.none, read, sound⟩ b = ⟨.some 1 low high value, read, sound⟩ ∧
      ∀ (c : UInt8) (digit : Nat), c.toNat = 0x80 + digit → digit < 64 →
        0x20 ≤ value * 64 + digit → value * 64 + digit < 0x360 ∨ 0x380 ≤ value * 64 + digit →
        low ≤ c ∧ c ≤ high := by
  change ∃ low high, Reader.first _ b = _ ∧ _
  unfold Reader.first
  simp only [Bool.and_eq_true, decide_eq_true_eq, beq_iff_eq, UInt8.le_iff_toNat_le,
    UInt8.lt_iff_toNat_lt, ← UInt8.toNat_inj, UInt8.reduceToNat, lead]
  rw [if_neg (by omega), if_neg (by omega)]
  split
  case isTrue =>
    refine ⟨0xA0, 0xBF, by simp; omega, ?_⟩
    intros
    simp only [UInt8.reduceToNat]
    omega
  split
  case isTrue =>
    refine ⟨0x80, 0x9F, by simp; omega, ?_⟩
    intros
    simp only [UInt8.reduceToNat]
    omega
  rw [if_pos (by omega)]
  refine ⟨0x80, 0xBF, by simp, ?_⟩
  intros
  simp only [UInt8.reduceToNat]
  omega

/-- After the byte that opens a character of four bytes, the next one is due if the character is not
shorter and not beyond the last one. -/
theorem exists_feed_first_four (b : UInt8) (value : Nat) (read : List Char) (sound : Bool)
    (lead : b.toNat = 0xF0 + value) (most : value < 5) :
    ∃ low high, Reader.feed ⟨.none, read, sound⟩ b = ⟨.some 2 low high value, read, sound⟩ ∧
      ∀ (c : UInt8) (digit : Nat), c.toNat = 0x80 + digit → digit < 64 →
        0x10 ≤ value * 64 + digit → value * 64 + digit < 0x110 → low ≤ c ∧ c ≤ high := by
  change ∃ low high, Reader.first _ b = _ ∧ _
  unfold Reader.first
  simp only [Bool.and_eq_true, decide_eq_true_eq, beq_iff_eq, UInt8.le_iff_toNat_le,
    UInt8.lt_iff_toNat_lt, ← UInt8.toNat_inj, UInt8.reduceToNat, lead]
  rw [if_neg (by omega), if_neg (by omega), if_neg (by omega), if_neg (by omega),
    if_neg (by omega)]
  split
  case isTrue =>
    refine ⟨0x90, 0xBF, by simp; omega, ?_⟩
    intros
    simp only [UInt8.reduceToNat]
    omega
  split
  case isTrue =>
    refine ⟨0x80, 0xBF, by simp, ?_⟩
    intros
    simp only [UInt8.reduceToNat]
    omega
  rw [if_pos (by omega)]
  refine ⟨0x80, 0x8F, by simp; omega, ?_⟩
  intros
  simp only [UInt8.reduceToNat]
  omega

/-- The bytes of a character are read as this character. -/
theorem foldl_feed_utf8EncodeChar (read : List Char) (sound : Bool) (c : Char) :
    (String.utf8EncodeChar c).foldl Reader.feed ⟨.none, read, sound⟩ =
      ⟨.none, c :: read, sound⟩ := by
  have scalar : c.val.toNat < 0xD800 ∨ 0xE000 ≤ c.val.toNat ∧ c.val.toNat < 0x110000 := by
    have valid := c.valid
    unfold UInt32.isValidChar Nat.isValidChar at valid
    omega
  have byte {n : Nat} (small : n < 256) : (UInt8.ofNat n).toNat = n := by
    rw [UInt8.toNat_ofNat']
    exact Nat.mod_eq_of_lt small
  -- All digits together are the number of the character.
  have whole {n : Nat} (same : n = c.val.toNat) : Char.ofNat n = c := by
    rw [same]
    exact Char.ofNat_toNat c
  unfold String.utf8EncodeChar
  dsimp only
  generalize c.val.toNat = v at scalar whole ⊢
  split
  case isTrue small =>
    have ascii : UInt8.ofNat v < 0x80 := by
      simp only [UInt8.lt_iff_toNat_lt, UInt8.reduceToNat, byte (show v < 256 by omega)]
      omega
    rw [List.foldl_cons, List.foldl_nil, feed_ascii (r := ⟨.none, read, sound⟩) trivial ascii,
      byte (by omega), whole rfl]
    rfl
  split
  case isTrue =>
    have last := byte (show v % 64 + 0x80 < 256 by omega)
    have lead := byte (show v / 64 % 0x20 + 0xC0 < 256 by omega)
    simp only [List.foldl_cons, List.foldl_nil]
    rw [feed_first_two (v / 64) read sound (by omega) (by omega) (by omega),
      feed_last _ _ (due_of_digit (v % 64) (by omega) (by omega)), whole (by omega)]
  split
  case isTrue =>
    have last := byte (show v % 64 + 0x80 < 256 by omega)
    have inner := byte (show v / 64 % 64 + 0x80 < 256 by omega)
    have lead := byte (show v / 4096 % 16 + 0xE0 < 256 by omega)
    obtain ⟨low, high, opened, due⟩ :=
      exists_feed_first_three (.ofNat (v / 4096 % 16 + 0xE0)) (v / 4096)
      read sound (by omega) (by omega)
    simp only [List.foldl_cons, List.foldl_nil]
    rw [opened,
      feed_inner _ _ (due _ (v / 64 % 64) (by omega) (by omega) (by omega) (by omega)),
      feed_last _ _ (due_of_digit (v % 64) (by omega) (by omega)), whole (by omega)]
  case isFalse =>
    have last := byte (show v % 64 + 0x80 < 256 by omega)
    have inner := byte (show v / 64 % 64 + 0x80 < 256 by omega)
    have outer := byte (show v / 4096 % 64 + 0x80 < 256 by omega)
    have lead := byte (show v / 262144 % 8 + 0xF0 < 256 by omega)
    obtain ⟨low, high, opened, due⟩ :=
      exists_feed_first_four (.ofNat (v / 262144 % 8 + 0xF0)) (v / 262144)
      read sound (by omega) (by omega)
    simp only [List.foldl_cons, List.foldl_nil]
    rw [opened,
      feed_inner _ _ (due _ (v / 4096 % 64) (by omega) (by omega) (by omega) (by omega)),
      feed_inner _ _ (due_of_digit (v / 64 % 64) (by omega) (by omega)),
      feed_last _ _ (due_of_digit (v % 64) (by omega) (by omega)), whole (by omega)]

theorem foldl_feed_encodeChars (cs read : List Char) (sound : Bool) :
    (encodeChars cs).foldl Reader.feed ⟨.none, read, sound⟩ =
      ⟨.none, cs.reverse ++ read, sound⟩ := by
  induction cs generalizing read with
  | nil => rfl
  | cons c cs ih =>
      rw [encodeChars_cons, List.foldl_append, foldl_feed_utf8EncodeChar, ih, List.reverse_cons,
        List.append_assoc]
      rfl

end Utf8

/-- The bytes of a text are decoded to the text. -/
@[simp] theorem decodeChars_encodeChars (cs : List Char) : decodeChars (encodeChars cs) = cs := by
  rw [decodeChars, Utf8.readAll, Utf8.Reader.start, Utf8.foldl_feed_encodeChars]
  simp [Utf8.Reader.finish]

/-! ## Names that are text -/

theorem rawBytesOf_cons_of_ne {c : Char} (other : c ≠ escape) (cs : List Char) :
    rawBytesOf (c :: cs) = String.utf8EncodeChar c ++ rawBytesOf cs := by
  cases cs with
  | nil => rw [rawBytesOf, rawBytesOf, List.append_nil]
  | cons d cs => simp [rawBytesOf, other]

theorem rawBytesOf_escape {d : Char} (high : isHighByte d = true) (cs : List Char) :
    rawBytesOf (escape :: d :: cs) = UInt8.ofNat d.toNat :: rawBytesOf cs := by
  simp [rawBytesOf, high]

/-- An escape ends before a character that is no byte. -/
theorem rawBytesOf_append_cons {c : Char} (low : isHighByte c = false) (before after : List Char) :
    rawBytesOf (before ++ c :: after) = rawBytesOf before ++ rawBytesOf (c :: after) := by
  fun_induction rawBytesOf before with
  | case1 => rfl
  | case2 d =>
      rw [List.cons_append, List.nil_append, rawBytesOf, low, Bool.and_false,
        if_neg Bool.false_ne_true]
  | case3 d e rest escaped ih =>
      rw [List.cons_append, List.cons_append, rawBytesOf, if_pos escaped, ih, List.cons_append]
  | case4 d e rest notEscaped ih =>
      rw [List.cons_append, List.cons_append, rawBytesOf, if_neg notEscaped, List.append_assoc,
        ← ih,
        List.cons_append]

theorem rawBytesOf_eq_encodeChars {cs : List Char} (text : escape ∉ cs) :
    rawBytesOf cs = encodeChars cs := by
  induction cs with
  | nil => rfl
  | cons c cs ih =>
      rw [List.mem_cons, not_or] at text
      rw [rawBytesOf_cons_of_ne (Ne.symm text.1), ih text.2, encodeChars_cons]

/-- A name without a zero character is text and shown as it is. -/
theorem lossy_of_not_mem {s : String} (text : escape ∉ s.toList) : lossy s = s := by
  rw [lossy, decodeLossy, rawBytes, rawBytesOf_eq_encodeChars text, decodeChars_encodeChars,
    String.ofList_toList]

/-- Nothing that a message shows has a zero character, unless there was a zero byte. -/
theorem escape_not_mem_lossy {s : String} (nonzero : 0 ∉ rawBytes s) :
    escape ∉ (lossy s).toList := by
  rw [lossy, decodeLossy, String.toList_ofList]
  exact not_mem_decodeChars (b := 0) (by decide) nonzero

/-- A name is shown as it is just if it is text. -/
theorem lossy_eq_iff {s : String} (nonzero : 0 ∉ rawBytes s) :
    lossy s = s ↔ escape ∉ s.toList := by
  constructor
  · intro same
    rw [← same]
    exact escape_not_mem_lossy nonzero
  · exact lossy_of_not_mem

/-! ## ASCII bytes of names -/

theorem utf8EncodeChar_of_ascii {c : Char} (ascii : c.toNat < 0x80) :
    String.utf8EncodeChar c = [UInt8.ofNat c.toNat] := by
  unfold String.utf8EncodeChar
  exact if_pos (Nat.le_of_lt_succ ascii)

theorem le_of_isHighByte {d : Char} (high : isHighByte d = true) :
    ¬ UInt8.ofNat d.toNat < 0x80 := by
  simp only [isHighByte, Bool.and_eq_true, decide_eq_true_eq] at high
  simp only [UInt8.lt_iff_toNat_lt, UInt8.toNat_ofNat', UInt8.reduceToNat]
  omega

/-- The byte of an ASCII character belongs to that character only. -/
theorem mem_of_mem_rawBytesOf {cs : List Char} {c : Char} (ascii : c.toNat < 0x80)
    (member : UInt8.ofNat c.toNat ∈ rawBytesOf cs) : c ∈ cs := by
  have number : (UInt8.ofNat c.toNat).toNat = c.toNat := by
    rw [UInt8.toNat_ofNat']
    omega
  have own {d : Char} (inside : UInt8.ofNat c.toNat ∈ String.utf8EncodeChar d) : c = d := by
    have same := toNat_eq_of_mem_utf8EncodeChar (by omega) inside
    exact Char.toNat_inj.mp (number.symm.trans same.symm)
  fun_induction rawBytesOf cs with
  | case1 => cases member
  | case2 d => exact List.mem_singleton.mpr (own member)
  | case3 d e rest escaped ih =>
      rw [Bool.and_eq_true] at escaped
      rcases List.mem_cons.mp member with same | later
      · have small : UInt8.ofNat c.toNat < 0x80 := by
          simp only [UInt8.lt_iff_toNat_lt, number, UInt8.reduceToNat]
          exact ascii
        exact absurd (same ▸ small) (le_of_isHighByte escaped.2)
      · exact List.mem_cons_of_mem _ (List.mem_cons_of_mem _ (ih later))
  | case4 d e rest _ ih =>
      rcases List.mem_append.mp member with here | later
      · rw [own here]
        exact List.mem_cons_self
      · exact List.mem_cons_of_mem _ (ih later)

/-- An escape has a byte that is zero or not ASCII. -/
theorem escape_not_mem_of_ascii {cs : List Char}
    (ascii : ∀ b ∈ rawBytesOf cs, b ≠ 0 ∧ b < 0x80) : escape ∉ cs := by
  fun_induction rawBytesOf cs with
  | case1 => simp
  | case2 d =>
      rw [List.mem_singleton]
      rintro rfl
      exact (ascii 0 (by decide)).1 rfl
  | case3 d e rest escaped ih =>
      rw [Bool.and_eq_true] at escaped
      exact absurd (ascii _ List.mem_cons_self).2 (le_of_isHighByte escaped.2)
  | case4 d e rest _ ih =>
      rw [List.forall_mem_append] at ascii
      rw [List.mem_cons, not_or]
      refine ⟨?_, ih ascii.2⟩
      rintro rfl
      exact (ascii.1 0 (by decide)).1 rfl

/-- No other name has the bytes of an ASCII name. -/
theorem rawBytesOf_eq_encodeChars_iff {cs name : List Char}
    (ascii : ∀ c ∈ name, c ≠ escape ∧ c.toNat < 0x80) :
    rawBytesOf cs = encodeChars name ↔ cs = name := by
  constructor
  · intro same
    have bytes : ∀ b ∈ rawBytesOf cs, b ≠ 0 ∧ b < 0x80 := by
      rw [same]
      intro b member
      obtain ⟨c, inside, encoded⟩ := List.mem_flatMap.mp member
      obtain ⟨nonzero, small⟩ := ascii c inside
      rw [utf8EncodeChar_of_ascii small, List.mem_singleton] at encoded
      have number : b.toNat = c.toNat := by
        rw [encoded, UInt8.toNat_ofNat']
        omega
      constructor
      · rintro rfl
        exact nonzero (Char.toNat_inj.mp number.symm)
      · simp only [UInt8.lt_iff_toNat_lt, number, UInt8.reduceToNat]
        exact small
    rw [rawBytesOf_eq_encodeChars (escape_not_mem_of_ascii bytes), encodeChars_inj] at same
    exact same
  · rintro rfl
    exact rawBytesOf_eq_encodeChars fun member => (ascii _ member).1 rfl

theorem rawBytesOf_joined (parts : List (List Char)) :
    rawBytesOf (joined ['/'] parts) = joined [0x2F] (parts.map rawBytesOf) := by
  induction parts with
  | nil => rfl
  | cons part parts ih =>
      cases parts with
      | nil => rfl
      | cons next parts =>
          have shape : joined ['/'] (part :: next :: parts) =
              part ++ '/' :: joined ['/'] (next :: parts) := by
            simp [joined]
          rw [shape, rawBytesOf_append_cons (by decide), rawBytesOf_cons_of_ne (by decide), ih]
          simp [joined, utf8EncodeChar_of_ascii]

/-- The bytes of a path are cut at the slashes of the path. -/
theorem pieces_rawBytesOf (cs : List Char) :
    pieces 0x2F (rawBytesOf cs) = (pieces '/' cs).map rawBytesOf := by
  have some_piece : (pieces '/' cs).map rawBytesOf ≠ [] := by simp [pieces_ne_nil]
  have clean : ∀ part ∈ (pieces '/' cs).map rawBytesOf, 0x2F ∉ part := by
    intro part member slash
    obtain ⟨piece, among, rfl⟩ := List.mem_map.mp member
    exact not_mem_of_mem_pieces among (mem_of_mem_rawBytesOf (by decide) slash)
  calc
    pieces 0x2F (rawBytesOf cs) = pieces 0x2F (rawBytesOf (joined ['/'] (pieces '/' cs))) := by
      rw [joined_pieces]
    _ = pieces 0x2F (joined [0x2F] ((pieces '/' cs).map rawBytesOf)) := by
      rw [rawBytesOf_joined]
    _ = (pieces '/' cs).map rawBytesOf := pieces_joined some_piece clean

/-- An ASCII character at the beginning of a name is shown there. -/
theorem head?_lossy {s : String} {c : Char} (first : s.toList.head? = some c)
    (ascii : c ≠ escape ∧ c.toNat < 0x80) : (lossy s).toList.head? = some c := by
  obtain ⟨rest, shape⟩ := List.head?_eq_some_iff.mp first
  have small : UInt8.ofNat c.toNat < 0x80 := by
    simp only [UInt8.lt_iff_toNat_lt, UInt8.toNat_ofNat', UInt8.reduceToNat]
    omega
  have number : (UInt8.ofNat c.toNat).toNat = c.toNat := by
    rw [UInt8.toNat_ofNat']
    omega
  have decoded := decodeChars_append_ascii [] (rawBytesOf rest) small
  rw [List.nil_append, decodeChars_nil, List.nil_append, number, Char.ofNat_toNat] at decoded
  rw [lossy, decodeLossy, String.toList_ofList, rawBytes, shape, rawBytesOf_cons_of_ne ascii.1,
    utf8EncodeChar_of_ascii ascii.2, List.singleton_append, decoded]
  rfl

/-! ## Bytes that are a name -/

theorem encode_of_firstChar? {bs : Bytes} {c : Char} (first : firstChar? bs = some c) :
    String.utf8EncodeChar c <+: bs := by
  rw [firstChar?, Option.filter_eq_some_iff] at first
  exact List.isPrefixOf_iff_prefix.mp first.2

/-- An ASCII byte is a character. -/
theorem firstChar?_of_ascii {b : UInt8} (ascii : b < 0x80) (bs : Bytes) :
    (firstChar? (b :: bs)).isSome = true := by
  have digits := toNat_ofNat_of_ascii ascii
  have small := UInt8.lt_iff_toNat_lt.mp ascii
  simp only [UInt8.reduceToNat] at small
  have encoded : String.utf8EncodeChar (Char.ofNat b.toNat) = [b] := by
    rw [utf8EncodeChar_of_ascii (by omega), digits, UInt8.ofNat_toNat]
  have decoded := decodeChars_append_ascii [] (bs.take 3) ascii
  rw [firstChar?, List.take_succ_cons]
  rw [List.nil_append, decodeChars_nil, List.nil_append] at decoded
  simp [decoded, encoded]

theorem rawBytesOf_rawCharsAfter {bs : Bytes} (nonzero : 0 ∉ bs) (skipped : Nat) :
    rawBytesOf (rawCharsAfter skipped bs) = bs.drop skipped := by
  induction bs generalizing skipped with
  | nil => simp [rawCharsAfter, rawBytesOf]
  | cons b bs ih =>
      rw [List.mem_cons, not_or] at nonzero
      cases skipped with
      | succ skipped => rw [rawCharsAfter, ih nonzero.2, List.drop_succ_cons]
      | zero =>
          rw [rawCharsAfter, List.drop_zero]
          cases first : firstChar? (b :: bs) with
          | some c =>
              obtain ⟨rest, whole⟩ := encode_of_firstChar? first
              have other : c ≠ escape := by
                rintro rfl
                cases whole
                exact nonzero.1 rfl
              have some_byte : 0 < (String.utf8EncodeChar c).length := by
                rw [String.length_utf8EncodeChar]
                exact c.utf8Size_pos
              dsimp only
              rw [rawBytesOf_cons_of_ne other, ih nonzero.2, ← List.drop_succ_cons (a := b),
                Nat.sub_add_cancel some_byte, ← whole, List.drop_left]
          | none =>
              have large : ¬ b < 0x80 := by
                intro ascii
                have found := firstChar?_of_ascii ascii bs
                rw [first] at found
                cases found
              have number : (Char.ofNat b.toNat).toNat = b.toNat := by
                have byte := b.toNat_lt
                exact toNat_ofNat_of_valid (.inl (by omega))
              have high : isHighByte (Char.ofNat b.toNat) = true := by
                have byte := b.toNat_lt
                simp only [UInt8.lt_iff_toNat_lt, UInt8.reduceToNat] at large
                simp only [isHighByte, number, Bool.and_eq_true, decide_eq_true_eq]
                omega
              dsimp only
              rw [rawBytesOf_escape high, ih nonzero.2, number, UInt8.ofNat_toNat, List.drop_zero]

/-- Any bytes but zero are the bytes of a name. -/
theorem rawBytes_ofRawBytes (bs : Bytes) : rawBytes (ofRawBytes bs) = bs.filter (· ≠ 0) := by
  rw [rawBytes, ofRawBytes, String.toList_ofList, rawBytesOf_rawCharsAfter (by simp),
    List.drop_zero]

/-! ## The order of names -/

theorem rawBefore_iff {a b : String} :
    rawBefore a b = true ↔ rawBytes a < rawBytes b ∨ rawBytes a = rawBytes b ∧ a < b := by
  simp [rawBefore]

theorem rawBefore_irrefl (a : String) : rawBefore a a = false := by
  rw [Bool.eq_false_iff, ne_eq, rawBefore_iff]
  rintro (less | ⟨-, less⟩)
  · exact List.lt_irrefl _ less
  · exact String.lt_irrefl a less

theorem ne_of_rawBefore {a b : String} (before : rawBefore a b = true) : a ≠ b := by
  rintro rfl
  rw [rawBefore_irrefl] at before
  cases before

theorem rawBefore_trans {a b c : String} (first : rawBefore a b = true)
    (second : rawBefore b c = true) : rawBefore a c = true := by
  rw [rawBefore_iff] at first second ⊢
  rcases first with less | ⟨same, less⟩ <;> rcases second with less' | ⟨same', less'⟩
  · exact .inl (List.lt_trans less less')
  · exact .inl (same' ▸ less)
  · exact .inl (same ▸ less')
  · exact .inr ⟨same.trans same', String.lt_trans less less'⟩

theorem rawBefore_trichotomy (a b : String) :
    rawBefore a b = true ∨ a = b ∨ rawBefore b a = true := by
  simp only [rawBefore_iff]
  rcases Std.lt_trichotomy (rawBytes a) (rawBytes b) with less | same | less
  · exact .inl (.inl less)
  · rcases Std.lt_trichotomy a b with less | same' | less
    · exact .inl (.inr ⟨same, less⟩)
    · exact .inr (.inl same')
    · exact .inr (.inr (.inr ⟨same.symm, less⟩))
  · exact .inr (.inr (.inl less))

end LintGate.Text
