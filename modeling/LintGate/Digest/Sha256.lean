import LintGate.Text.Utf8

/-!
# SHA-256

The digest of a list of bytes by the Secure Hash Algorithm with 256 bits. A message is padded to
blocks of 64 bytes, and each block changes eight words of state.
-/

namespace LintGate.Sha256

open Text (Bytes)

/-- The first 32 bits of the fractions of the cube roots of the first 64 primes. -/
def roundConstants : List UInt32 :=
  [0x428a2f98, 0x71374491, 0xb5c0fbcf, 0xe9b5dba5, 0x3956c25b, 0x59f111f1, 0x923f82a4, 0xab1c5ed5,
    0xd807aa98, 0x12835b01, 0x243185be, 0x550c7dc3, 0x72be5d74, 0x80deb1fe, 0x9bdc06a7, 0xc19bf174,
    0xe49b69c1, 0xefbe4786, 0x0fc19dc6, 0x240ca1cc, 0x2de92c6f, 0x4a7484aa, 0x5cb0a9dc, 0x76f988da,
    0x983e5152, 0xa831c66d, 0xb00327c8, 0xbf597fc7, 0xc6e00bf3, 0xd5a79147, 0x06ca6351, 0x14292967,
    0x27b70a85, 0x2e1b2138, 0x4d2c6dfc, 0x53380d13, 0x650a7354, 0x766a0abb, 0x81c2c92e, 0x92722c85,
    0xa2bfe8a1, 0xa81a664b, 0xc24b8b70, 0xc76c51a3, 0xd192e819, 0xd6990624, 0xf40e3585, 0x106aa070,
    0x19a4c116, 0x1e376c08, 0x2748774c, 0x34b0bcb5, 0x391c0cb3, 0x4ed8aa4a, 0x5b9cca4f, 0x682e6ff3,
    0x748f82ee, 0x78a5636f, 0x84c87814, 0x8cc70208, 0x90befffa, 0xa4506ceb, 0xbef9a3f7, 0xc67178f2]

structure State where
  a : UInt32
  b : UInt32
  c : UInt32
  d : UInt32
  e : UInt32
  f : UInt32
  g : UInt32
  h : UInt32
deriving DecidableEq, Repr

/-- The first 32 bits of the fractions of the square roots of the first eight primes. -/
def initial : State :=
  ⟨0x6a09e667, 0xbb67ae85, 0x3c6ef372, 0xa54ff53a, 0x510e527f, 0x9b05688c, 0x1f83d9ab, 0x5be0cd19⟩

def State.words (s : State) : List UInt32 :=
  [s.a, s.b, s.c, s.d, s.e, s.f, s.g, s.h]

def State.add (s t : State) : State :=
  ⟨s.a + t.a, s.b + t.b, s.c + t.c, s.d + t.d, s.e + t.e, s.f + t.f, s.g + t.g, s.h + t.h⟩

def rotate (x : UInt32) (n : UInt32) : UInt32 :=
  (x >>> n) ||| (x <<< (32 - n))

/-- One round with its constant and its word of the message. -/
def round (s : State) (constant word : UInt32) : State :=
  let s1 := rotate s.e 6 ^^^ rotate s.e 11 ^^^ rotate s.e 25
  let choice := (s.e &&& s.f) ^^^ (~~~s.e &&& s.g)
  let t1 := s.h + s1 + choice + constant + word
  let s0 := rotate s.a 2 ^^^ rotate s.a 13 ^^^ rotate s.a 22
  let majority := (s.a &&& s.b) ^^^ (s.a &&& s.c) ^^^ (s.b &&& s.c)
  ⟨t1 + (s0 + majority), s.a, s.b, s.c, s.d + t1, s.e, s.f, s.g⟩

/-- The next word of a schedule whose last sixteen words are given, the last one first. -/
def nextWord (recent : List UInt32) : UInt32 :=
  let w := fun i => recent.getD (i - 1) 0
  let s0 := rotate (w 15) 7 ^^^ rotate (w 15) 18 ^^^ (w 15 >>> 3)
  let s1 := rotate (w 2) 17 ^^^ rotate (w 2) 19 ^^^ (w 2 >>> 10)
  w 16 + s0 + w 7 + s1

/-- Extends the words of a block, the last one first. -/
def extend : Nat → List UInt32 → List UInt32
  | 0, words => words
  | n + 1, words => extend n (nextWord words :: words)

/-- Reads words of four bytes each. -/
def wordsOf : Bytes → List UInt32
  | a :: b :: c :: d :: rest =>
    ((a.toUInt32 <<< 24) ||| (b.toUInt32 <<< 16) ||| (c.toUInt32 <<< 8) ||| d.toUInt32) ::
      wordsOf rest
  | _ => []

def compress (s : State) (block : Bytes) : State :=
  let schedule := (extend 48 (wordsOf block).reverse).reverse
  s.add ((roundConstants.zip schedule).foldl (fun s kw => round s kw.1 kw.2) s)

/-- A number as so many bytes, the most significant first. -/
def numberBytes (count n : Nat) : Bytes :=
  ((List.range count).map fun i => UInt8.ofNat (n / Nat.pow 256 i)).reverse

/-- A message with a one bit, zeros and its length in bits behind it. -/
def padded (message : Bytes) : Bytes :=
  let zeros := (119 - message.length % 64) % 64
  message ++ 0x80 :: List.replicate zeros 0 ++ numberBytes 8 (8 * message.length)

/-- Takes so many blocks of 64 bytes into a state. -/
def absorb : Nat → State → Bytes → State
  | 0, s, _ => s
  | n + 1, s, bytes => absorb n (compress s (bytes.take 64)) (bytes.drop 64)

/-- The digest of a message, 32 bytes. -/
def digest (message : Bytes) : Bytes :=
  let all := padded message
  (absorb (all.length / 64) initial all).words.flatMap fun w => numberBytes 4 w.toNat

/-- Bytes as pairs of hexadecimal digits. -/
def hex (bytes : Bytes) : String :=
  String.ofList (bytes.flatMap fun b =>
    [Nat.digitChar (b.toNat / 16), Nat.digitChar (b.toNat % 16)])

end LintGate.Sha256
