import LintGate.Glob
import LintGate.Proofs.Text.Raw

/-!
# Globs for one name

A glob for a name in any directory is `**/` and then the characters of the name. It accepts exactly
the paths whose last piece is the name, as long as the name is ASCII and holds no slash.
-/

namespace LintGate.Glob

open Text (Bytes encodeChars)

/-- The tokens that match a text and nothing else. -/
def literal (cs : List Char) : List Token :=
  cs.map .char

/-- The glob that matches a name in any directory. -/
def anywhere (cs : List Char) : Glob :=
  .leadingDirs :: literal cs

/-- A step of `distinct`. -/
private def keep (acc : List Nat × List Bytes) (e : Bytes) : List Nat × List Bytes :=
  if acc.1.contains e.length then acc else (e.length :: acc.1, e :: acc.2)

private theorem mem_foldl_keep_iff {path x : Bytes} {ends kept : List Bytes}
    (suffixes : ∀ e ∈ ends, e <:+ path) (keptSuffixes : ∀ e ∈ kept, e <:+ path) :
    x ∈ (ends.foldl keep (kept.map List.length, kept)).2 ↔ x ∈ kept ∨ x ∈ ends := by
  induction ends generalizing kept with
  | nil => simp
  | cons e ends ih =>
      rw [List.forall_mem_cons] at suffixes
      rw [List.foldl_cons, keep]
      split
      case isTrue known =>
        -- Ends of one path are equal when they are equally long.
        have again : e ∈ kept := by
          rw [List.contains_iff_mem, List.mem_map] at known
          obtain ⟨other, member, same⟩ := known
          have equal : other = e :=
            (List.suffix_of_suffix_length_le (keptSuffixes other member) suffixes.1
              (Nat.le_of_eq same)).eq_of_length same
          rwa [← equal]
        rw [ih suffixes.2 keptSuffixes, List.mem_cons]
        constructor
        · rintro (before | later)
          · exact .inl before
          · exact .inr (.inr later)
        · rintro (before | rfl | later)
          · exact .inl before
          · exact .inl again
          · exact .inr later
      case isFalse =>
        rw [← List.map_cons, ih suffixes.2 (List.forall_mem_cons.mpr ⟨suffixes.1, keptSuffixes⟩),
          List.mem_cons, List.mem_cons]
        constructor
        · rintro ((rfl | before) | later)
          · exact .inr (.inl rfl)
          · exact .inl before
          · exact .inr (.inr later)
        · rintro (before | rfl | later)
          · exact .inl (.inr before)
          · exact .inl (.inl rfl)
          · exact .inr later

/-- No end of one path is lost when equally long ones are dropped. -/
theorem mem_distinct_iff {path x : Bytes} {ends : List Bytes}
    (suffixes : ∀ e ∈ ends, e <:+ path) : x ∈ distinct ends ↔ x ∈ ends := by
  have none_kept : ∀ e ∈ ([] : List Bytes), e <:+ path := by simp
  have folded : x ∈ (ends.foldl keep ([], [])).2 ↔ x ∈ [] ∨ x ∈ ends :=
    mem_foldl_keep_iff suffixes none_kept
  rw [distinct, List.mem_reverse]
  exact folded.trans (by simp)

theorem mem_after_char_iff {c : Char} {e x : Bytes} :
    x ∈ (Token.char c).after e ↔ e = String.utf8EncodeChar c ++ x := by
  simp only [Token.after]
  split
  case isTrue begins =>
    obtain ⟨rest, rfl⟩ := List.isPrefixOf_iff_prefix.mp begins
    rw [List.drop_left, List.mem_singleton, List.append_cancel_left_eq]
    exact eq_comm
  case isFalse other =>
    constructor
    · intro member
      cases member
    · rintro rfl
      exact absurd (List.isPrefixOf_iff_prefix.mpr (List.prefix_append _ _)) other

/-- A text is left over completely by its own tokens. -/
theorem nil_mem_afterAll_literal_iff {cs : List Char} {path : Bytes} {ends : List Bytes}
    (suffixes : ∀ e ∈ ends, e <:+ path) :
    [] ∈ afterAll (literal cs) ends ↔ encodeChars cs ∈ ends := by
  induction cs generalizing ends with
  | nil => simp [literal, afterAll]
  | cons c cs ih =>
      have later : ∀ e ∈ ends.flatMap (Token.char c).after, e <:+ path := by
        intro e member
        obtain ⟨before, inside, after⟩ := List.mem_flatMap.mp member
        rw [mem_after_char_iff] at after
        subst after
        exact (List.suffix_append _ _).trans (suffixes _ inside)
      have distinct_later : ∀ e ∈ distinct (ends.flatMap (Token.char c).after), e <:+ path :=
        fun e member => later e ((mem_distinct_iff later).mp member)
      have unfolded : afterAll (literal (c :: cs)) ends =
          afterAll (literal cs) (distinct (ends.flatMap (Token.char c).after)) := by
        simp [literal, afterAll]
      rw [unfolded, ih distinct_later, mem_distinct_iff later, List.mem_flatMap,
        Text.encodeChars_cons]
      constructor
      · rintro ⟨before, inside, after⟩
        rw [mem_after_char_iff] at after
        rwa [← after]
      · intro inside
        exact ⟨_, inside, mem_after_char_iff.mpr rfl⟩

theorem suffix_of_mem_afterSlashes {path e : Bytes} (member : e ∈ afterSlashes path) :
    e <:+ path := by
  induction path with
  | nil => cases member
  | cons b path ih =>
      rw [afterSlashes] at member
      split at member
      · rcases List.mem_cons.mp member with rfl | later
        · exact List.suffix_cons _ _
        · exact (ih later).trans (List.suffix_cons _ _)
      · exact (ih member).trans (List.suffix_cons _ _)

theorem accepts_anywhere_iff {cs : List Char} (nonempty : cs ≠ []) {path : Bytes} :
    (anywhere cs).accepts path = true ↔ encodeChars cs ∈ path :: afterSlashes path := by
  have suffixes : ∀ e ∈ path :: afterSlashes path, e <:+ path := by
    intro e member
    rcases List.mem_cons.mp member with rfl | later
    · exact List.suffix_refl _
    · exact suffix_of_mem_afterSlashes later
  have distinct_suffixes : ∀ e ∈ distinct (path :: afterSlashes path), e <:+ path :=
    fun e member => suffixes e ((mem_distinct_iff suffixes).mp member)
  obtain ⟨c, rest, rfl⟩ := List.exists_cons_of_ne_nil nonempty
  have unfolded : (anywhere (c :: rest)).accepts path =
      (afterAll (literal (c :: rest)) (distinct (path :: afterSlashes path))).any List.isEmpty := by
    simp [anywhere, accepts, literal, afterAll, Token.after]
  rw [unfolded, ← mem_distinct_iff suffixes, ← nil_mem_afterAll_literal_iff distinct_suffixes,
    List.any_eq_true]
  constructor
  · rintro ⟨e, member, empty⟩
    rwa [List.isEmpty_iff.mp empty] at member
  · intro member
    exact ⟨[], member, rfl⟩

/-! ## The last piece of a path -/

theorem afterSlashes_of_not_mem {path : Bytes} (clean : slash ∉ path) : afterSlashes path = [] := by
  induction path with
  | nil => rfl
  | cons b path ih =>
      rw [List.mem_cons, not_or] at clean
      rw [afterSlashes, if_neg (Ne.symm clean.1), ih clean.2]

/-- Bytes without slashes are what follows a slash of a path, or all of it, exactly when they are
the last piece. -/
theorem mem_ends_iff {e path : Bytes} (clean : slash ∉ e) :
    e ∈ path :: afterSlashes path ↔ (Text.pieces slash path).getLast? = some e := by
  induction path with
  | nil =>
      have last : Text.pieces slash ([] : Bytes) = [[]] := rfl
      rw [last, afterSlashes, List.getLast?_singleton, Option.some_inj, List.mem_singleton, eq_comm]
  | cons b path ih =>
      by_cases slashed : b = slash
      · subst slashed
        have other : e ≠ slash :: path := by
          rintro rfl
          exact clean List.mem_cons_self
        obtain ⟨piece, more, cut⟩ := Text.exists_pieces_eq_cons slash path
        rw [List.mem_cons, or_iff_right other, afterSlashes, if_pos rfl, ih, Text.pieces_cons_sep,
          cut, List.getLast?_cons_cons]
      · rw [afterSlashes, if_neg slashed]
        by_cases present : slash ∈ path
        · have other {whole : Bytes} (inside : slash ∈ whole) : e ≠ whole := by
            rintro rfl
            exact clean inside
          rw [List.mem_cons, or_iff_right (other present)] at ih
          rw [List.mem_cons, or_iff_right (other (List.mem_cons_of_mem _ present)), ih]
          obtain ⟨piece, more, cut⟩ := Text.exists_pieces_eq_cons slash path
          have several : more ≠ [] := by
            rintro rfl
            have joined := Text.joined_pieces slash path
            rw [cut, Text.joined] at joined
            rw [← joined] at present
            exact Text.not_mem_of_mem_pieces (by rw [cut]; simp) present
          obtain ⟨next, later, rfl⟩ := List.exists_cons_of_ne_nil several
          rw [cut, Text.pieces_cons_of_ne slashed cut, List.getLast?_cons_cons,
            List.getLast?_cons_cons]
        · have whole : slash ∉ b :: path := by simp [Ne.symm slashed, present]
          rw [afterSlashes_of_not_mem present, Text.pieces_of_not_mem whole, List.mem_singleton,
            List.getLast?_singleton, Option.some_inj, eq_comm]

/-- An ASCII name follows a slash of a path, or is all of it, exactly when it is the last piece. -/
theorem encodeChars_mem_ends_iff {name chars : List Char} (clean : '/' ∉ name)
    (ascii : ∀ c ∈ name, c ≠ Text.escape ∧ c.toNat < 0x80) :
    encodeChars name ∈ Text.rawBytesOf chars :: afterSlashes (Text.rawBytesOf chars) ↔
      (Text.pieces '/' chars).getLast? = some name := by
  have no_slash : slash ∉ encodeChars name := by
    rw [← (Text.rawBytesOf_eq_encodeChars_iff ascii).mpr rfl]
    exact fun member => clean (Text.mem_of_mem_rawBytesOf (c := '/') (by decide) member)
  have cut : Text.pieces slash (Text.rawBytesOf chars) =
      (Text.pieces '/' chars).map Text.rawBytesOf := Text.pieces_rawBytesOf chars
  rw [mem_ends_iff no_slash, cut, List.getLast?_map, Option.map_eq_some_iff]
  simp only [Text.rawBytesOf_eq_encodeChars_iff ascii, exists_eq_right]

end LintGate.Glob
