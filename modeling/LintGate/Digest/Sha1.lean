import LintGate.Digest.Sha256

/-!
# SHA-1

The digest of a list of bytes by the Secure Hash Algorithm with 160 bits. Messages are padded as for
SHA-256, and each block changes five words of state.
-/

namespace LintGate.Sha1

open Text (Bytes)

structure State where
  a : UInt32
  b : UInt32
  c : UInt32
  d : UInt32
  e : UInt32
deriving DecidableEq, Repr

def initial : State :=
  ⟨0x67452301, 0xefcdab89, 0x98badcfe, 0x10325476, 0xc3d2e1f0⟩

def State.words (s : State) : List UInt32 :=
  [s.a, s.b, s.c, s.d, s.e]

def State.add (s t : State) : State :=
  ⟨s.a + t.a, s.b + t.b, s.c + t.c, s.d + t.d, s.e + t.e⟩

def rotateLeft (x n : UInt32) : UInt32 :=
  Sha256.rotate x (32 - n)

/-- What three words of state and a constant give to a round; there are twenty rounds of a kind. -/
def mixed (n : Nat) (s : State) : UInt32 :=
  let parity := s.b ^^^ s.c ^^^ s.d
  match n / 20 with
  | 0 => ((s.b &&& s.c) ||| (~~~s.b &&& s.d)) + 0x5a827999
  | 1 => parity + 0x6ed9eba1
  | 2 => ((s.b &&& s.c) ||| (s.b &&& s.d) ||| (s.c &&& s.d)) + 0x8f1bbcdc
  | _ => parity + 0xca62c1d6

/-- The round with a number and its word of the message. -/
def round (s : State) (n : Nat) (word : UInt32) : State :=
  ⟨rotateLeft s.a 5 + mixed n s + s.e + word, s.a, rotateLeft s.b 30, s.c, s.d⟩

/-- The next word of a schedule whose last sixteen words are given, the last one first. -/
def nextWord (recent : List UInt32) : UInt32 :=
  let w := fun i => recent.getD (i - 1) 0
  rotateLeft (w 3 ^^^ w 8 ^^^ w 14 ^^^ w 16) 1

/-- Extends the words of a block, the last one first. -/
def extend : Nat → List UInt32 → List UInt32
  | 0, words => words
  | n + 1, words => extend n (nextWord words :: words)

def compress (s : State) (block : Bytes) : State :=
  let schedule := (extend 64 (Sha256.wordsOf block).reverse).reverse
  s.add (((List.range 80).zip schedule).foldl (fun s nw => round s nw.1 nw.2) s)

/-- Takes so many blocks of 64 bytes into a state. -/
def absorb : Nat → State → Bytes → State
  | 0, s, _ => s
  | n + 1, s, bytes => absorb n (compress s (bytes.take 64)) (bytes.drop 64)

/-- How many bytes a digest has. -/
def digestLength : Nat := 20

/-- The digest of a message, 20 bytes. -/
def digest (message : Bytes) : Bytes :=
  let all := Sha256.padded message
  (absorb (all.length / 64) initial all).words.flatMap fun w => Sha256.numberBytes 4 w.toNat

end LintGate.Sha1
