import LintGate.Text.Utf8

/-!
# Names of files and arguments of programs

The system takes any bytes but zero for a name or an argument, and not all of them are text. In a
`String` a byte that belongs to no character is written as a zero character, which a name never has,
and behind it the character with the number of the byte. `rawBytes` are the bytes for the system,
and `lossy` is what a message shows, with U+FFFD in place of what is no text.
-/

namespace LintGate.Text

/-- Stands before a byte that belongs to no character. -/
def escape : Char := '\x00'

/-- Whether a character has the number of a byte that is not ASCII. -/
def isHighByte (c : Char) : Bool :=
  0x80 ≤ c.toNat && c.toNat < 0x100

def rawBytesOf : List Char → Bytes
  | [] => []
  | [c] => String.utf8EncodeChar c
  | c :: d :: rest =>
    if c = escape && isHighByte d then UInt8.ofNat d.toNat :: rawBytesOf rest
    else String.utf8EncodeChar c ++ rawBytesOf (d :: rest)

/-- The bytes of a name or an argument. -/
def rawBytes (s : String) : Bytes :=
  rawBytesOf s.toList

/-- The bytes of what stands first, and what is behind it. -/
def firstRaw : List Char → Bytes × List Char
  | [] => ([], [])
  | [c] => (String.utf8EncodeChar c, [])
  | c :: d :: rest =>
    if c = escape && isHighByte d then ([UInt8.ofNat d.toNat], rest)
    else (String.utf8EncodeChar c, d :: rest)

/-- The character with which some bytes begin, unless the first belongs to none. -/
def firstChar? (bs : Bytes) : Option Char :=
  (decodeChars (bs.take 4)).head?.filter fun c => (String.utf8EncodeChar c).isPrefixOf bs

/-- The characters for some bytes, after those that belong to a character already read. -/
def rawCharsAfter : Nat → Bytes → List Char
  | _, [] => []
  | skipped + 1, _ :: rest => rawCharsAfter skipped rest
  | 0, b :: rest =>
    match firstChar? (b :: rest) with
    | some c => c :: rawCharsAfter ((String.utf8EncodeChar c).length - 1) rest
    | none => escape :: Char.ofNat b.toNat :: rawCharsAfter 0 rest

/-- The name or argument with these bytes. Zero bytes are left out. -/
def ofRawBytes (bs : Bytes) : String :=
  String.ofList (rawCharsAfter 0 (bs.filter (· ≠ 0)))

/-- A name or an argument as a message shows it. -/
def lossy (s : String) : String :=
  decodeLossy (rawBytes s)

/-- Names are ordered by their bytes. -/
def rawBefore (a b : String) : Bool :=
  rawBytes a < rawBytes b || (rawBytes a == rawBytes b && a < b)

example : rawBytes "\x00ÿé.py" = [0xFF, 0xC3, 0xA9, 0x2E, 0x70, 0x79] := by decide

example : ofRawBytes [0xFF, 0xC3, 0xA9, 0xC3] = "\x00ÿé\x00Ã" := by decide

example : lossy "\x00ÿ.py" = "\uFFFD.py" := by decide

end LintGate.Text
