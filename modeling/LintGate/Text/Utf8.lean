/-!
# UTF-8 text

`Utf8.feed` reads one byte at a time. A byte that cannot continue the character begun before it
ends that character as U+FFFD and is then read afresh, so every maximal ill-formed run becomes one
replacement character. The same machine tells whether bytes are well formed: they are when nothing
was replaced.
-/

namespace LintGate.Text

/-- File contents and captured output are lists of bytes. -/
abbrev Bytes := List UInt8

/-- The character written for an ill-formed run of bytes. -/
def replacement : Char := '\uFFFD'

namespace Utf8

/-- Where a reader of UTF-8 stands between two bytes. -/
inductive Pending where
  /-- Between characters. -/
  | none
  /-- Inside a character: `owed + 1` more bytes are due, the next one between `low` and `high`,
  and `value` is what the bytes so far amount to. -/
  | some (owed : Nat) (low high : UInt8) (value : Nat)
deriving DecidableEq, Repr

/-- A reader of UTF-8: its place in the current character, the characters read so far, the last
one first, and whether none of them stands for ill-formed bytes. -/
structure Reader where
  pending : Pending
  read : List Char
  sound : Bool
deriving Repr

/-- The reader that has read nothing. -/
def Reader.start : Reader := ⟨.none, [], true⟩

/-- Ends the current character as ill formed. -/
def Reader.replace (r : Reader) : Reader :=
  ⟨.none, replacement :: r.read, false⟩

/-- Reads a byte between characters. -/
def Reader.first (r : Reader) (b : UInt8) : Reader :=
  if b < 0x80 then ⟨.none, Char.ofNat b.toNat :: r.read, r.sound⟩
  else if 0xC2 ≤ b && b ≤ 0xDF then ⟨.some 0 0x80 0xBF (b.toNat - 0xC0), r.read, r.sound⟩
  else if b == 0xE0 then ⟨.some 1 0xA0 0xBF 0, r.read, r.sound⟩
  else if b == 0xED then ⟨.some 1 0x80 0x9F 0xD, r.read, r.sound⟩
  else if 0xE1 ≤ b && b ≤ 0xEF then ⟨.some 1 0x80 0xBF (b.toNat - 0xE0), r.read, r.sound⟩
  else if b == 0xF0 then ⟨.some 2 0x90 0xBF 0, r.read, r.sound⟩
  else if 0xF1 ≤ b && b ≤ 0xF3 then ⟨.some 2 0x80 0xBF (b.toNat - 0xF0), r.read, r.sound⟩
  else if b == 0xF4 then ⟨.some 2 0x80 0x8F 4, r.read, r.sound⟩
  else r.replace

/-- Reads one byte. -/
def Reader.feed (r : Reader) (b : UInt8) : Reader :=
  match r.pending with
  | .none => r.first b
  | .some owed low high value =>
    if low ≤ b && b ≤ high then
      let value := value * 64 + (b.toNat - 0x80)
      match owed with
      | 0 => ⟨.none, Char.ofNat value :: r.read, r.sound⟩
      | owed + 1 => ⟨.some owed 0x80 0xBF value, r.read, r.sound⟩
    else
      r.replace.first b

/-- Ends the text; a character that was begun and not finished is ill formed. -/
def Reader.finish (r : Reader) : Reader :=
  match r.pending with
  | .none => r
  | .some .. => r.replace

/-- The reader after all of `bs`. -/
def readAll (bs : Bytes) : Reader :=
  (bs.foldl Reader.feed .start).finish

end Utf8

/-- The characters of `bs`, with one U+FFFD for each maximal ill-formed run. -/
def decodeChars (bs : Bytes) : List Char :=
  (Utf8.readAll bs).read.reverse

/-- The text of `bs`, with one U+FFFD for each maximal ill-formed run. -/
def decodeLossy (bs : Bytes) : String :=
  String.ofList (decodeChars bs)

/-- The text of `bs` when `bs` is well-formed UTF-8. -/
def decode? (bs : Bytes) : Option String :=
  if (Utf8.readAll bs).sound then some (decodeLossy bs) else none

/-- The bytes of a list of characters. -/
def encodeChars (cs : List Char) : Bytes :=
  cs.flatMap String.utf8EncodeChar

/-- The bytes of a text. -/
def encode (s : String) : Bytes :=
  encodeChars s.toList

@[simp] theorem decodeChars_nil : decodeChars [] = [] := rfl

@[simp] theorem encodeChars_nil : encodeChars [] = [] := rfl

@[simp] theorem encodeChars_append (a b : List Char) :
    encodeChars (a ++ b) = encodeChars a ++ encodeChars b := by
  simp [encodeChars]

example : decodeChars [0x66, 0xFF, 0xE2, 0x82, 0x41] = ['f', replacement, replacement, 'A'] := by
  decide

example : decode? [0xC3, 0xA9] = some "é" := by decide

end LintGate.Text
