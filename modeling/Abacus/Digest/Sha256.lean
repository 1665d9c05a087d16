import Abacus.Text.Bytes

/-!
# SHA-256

The digest of a byte text.  The text is padded to blocks of sixty-four bytes
with a one bit, zeros and its length in bits; each block is stretched to a
schedule of sixty-four words, and the rounds mix the schedule into eight words
of state.
-/

namespace Abacus

namespace Sha256

/-- The round constants: the first 32 bits of the fractions of the cube roots of
the first sixty-four primes. -/
def roundConstants : List UInt32 :=
  [0x428a2f98, 0x71374491, 0xb5c0fbcf, 0xe9b5dba5, 0x3956c25b, 0x59f111f1, 0x923f82a4,
   0xab1c5ed5, 0xd807aa98, 0x12835b01, 0x243185be, 0x550c7dc3, 0x72be5d74, 0x80deb1fe,
   0x9bdc06a7, 0xc19bf174, 0xe49b69c1, 0xefbe4786, 0x0fc19dc6, 0x240ca1cc, 0x2de92c6f,
   0x4a7484aa, 0x5cb0a9dc, 0x76f988da, 0x983e5152, 0xa831c66d, 0xb00327c8, 0xbf597fc7,
   0xc6e00bf3, 0xd5a79147, 0x06ca6351, 0x14292967, 0x27b70a85, 0x2e1b2138, 0x4d2c6dfc,
   0x53380d13, 0x650a7354, 0x766a0abb, 0x81c2c92e, 0x92722c85, 0xa2bfe8a1, 0xa81a664b,
   0xc24b8b70, 0xc76c51a3, 0xd192e819, 0xd6990624, 0xf40e3585, 0x106aa070, 0x19a4c116,
   0x1e376c08, 0x2748774c, 0x34b0bcb5, 0x391c0cb3, 0x4ed8aa4a, 0x5b9cca4f, 0x682e6ff3,
   0x748f82ee, 0x78a5636f, 0x84c87814, 0x8cc70208, 0x90befffa, 0xa4506ceb, 0xbef9a3f7,
   0xc67178f2]

/-- The eight words of the state. -/
structure State where
  a : UInt32
  b : UInt32
  c : UInt32
  d : UInt32
  e : UInt32
  f : UInt32
  g : UInt32
  h : UInt32

/-- The state before the first block: the first 32 bits of the fractions of the
square roots of the first eight primes. -/
def State.initial : State :=
  ⟨0x6a09e667, 0xbb67ae85, 0x3c6ef372, 0xa54ff53a,
   0x510e527f, 0x9b05688c, 0x1f83d9ab, 0x5be0cd19⟩

/-- The sum of two states, word by word. -/
def State.add (s t : State) : State :=
  ⟨s.a + t.a, s.b + t.b, s.c + t.c, s.d + t.d, s.e + t.e, s.f + t.f, s.g + t.g, s.h + t.h⟩

/-- The words of a state in order. -/
def State.words (s : State) : List UInt32 :=
  [s.a, s.b, s.c, s.d, s.e, s.f, s.g, s.h]

/-- Rotates a word to the right. -/
def rotate (x : UInt32) (n : UInt32) : UInt32 :=
  (x >>> n) ||| (x <<< (32 - n))

/-- The mixing of the schedule word fifteen places back. -/
def mixOld (x : UInt32) : UInt32 :=
  rotate x 7 ^^^ rotate x 18 ^^^ (x >>> 3)

/-- The mixing of the schedule word two places back. -/
def mixNew (x : UInt32) : UInt32 :=
  rotate x 17 ^^^ rotate x 19 ^^^ (x >>> 10)

/-- The next schedule word after the words in `recent`, the latest first. -/
def nextWord (recent : List UInt32) : UInt32 :=
  mixNew (recent.getD 1 0) + recent.getD 6 0 + mixOld (recent.getD 14 0) + recent.getD 15 0

/-- Adds `count` words to a schedule whose latest word comes first. -/
def stretch : Nat → List UInt32 → List UInt32
  | 0, recent => recent
  | count + 1, recent => stretch count (nextWord recent :: recent)

/-- The big-endian words of a text. -/
def wordsOf : Bytes → List UInt32
  | b0 :: b1 :: b2 :: b3 :: s =>
    ((b0.toUInt32 <<< 24) ||| (b1.toUInt32 <<< 16) ||| (b2.toUInt32 <<< 8) ||| b3.toUInt32) ::
      wordsOf s
  | _ => []

/-- The big-endian bytes of a word. -/
def bytesOf (x : UInt32) : Bytes :=
  [(x >>> 24).toUInt8, (x >>> 16).toUInt8, (x >>> 8).toUInt8, x.toUInt8]

/-- The schedule of a block of sixteen words. -/
def schedule (block : List UInt32) : List UInt32 :=
  (stretch 48 block.reverse).reverse

/-- One round with a round constant and a schedule word. -/
def round (s : State) (k w : UInt32) : State :=
  let mixE := rotate s.e 6 ^^^ rotate s.e 11 ^^^ rotate s.e 25
  let choice := (s.e &&& s.f) ^^^ (~~~s.e &&& s.g)
  let t := s.h + mixE + choice + k + w
  let mixA := rotate s.a 2 ^^^ rotate s.a 13 ^^^ rotate s.a 22
  let majority := (s.a &&& s.b) ^^^ (s.a &&& s.c) ^^^ (s.b &&& s.c)
  ⟨t + mixA + majority, s.a, s.b, s.c, s.d + t, s.e, s.f, s.g⟩

/-- Mixes a block into the state. -/
def compress (s : State) (block : List UInt32) : State :=
  let mixed := (roundConstants.zip (schedule block)).foldl (fun s kw => round s kw.1 kw.2) s
  s.add mixed

/-- The big-endian bytes of a 64-bit number. -/
def lengthBytes (n : Nat) : Bytes :=
  bytesOf (UInt32.ofNat (n / 0x100000000)) ++ bytesOf (UInt32.ofNat n)

/-- The text with its padding; the length is a multiple of sixty-four. -/
def pad (s : Bytes) : Bytes :=
  s ++ 0x80 :: Bytes.copies ((119 - s.length % 64) % 64) 0 ++ lengthBytes (8 * s.length)

/-- Mixes `count` blocks into the state. -/
def absorb : Nat → State → List UInt32 → State
  | 0, s, _ => s
  | count + 1, s, words => absorb count (compress s (words.take 16)) (words.drop 16)

/-- The digest of a text. -/
def digest (s : Bytes) : Bytes :=
  let words := wordsOf (pad s)
  (absorb (words.length / 16) State.initial words).words.flatMap bytesOf

end Sha256

end Abacus
