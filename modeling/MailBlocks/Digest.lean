/-!
# SHA-256 digests

The fingerprint of a text: the SHA-256 digest of its UTF-8 bytes, in hexadecimal.

* `ofBytes`: the digest of a message.
* `ofText`: the digest of a text.
-/

namespace MailBlocks.Digest

/-- The round constants: the fractional parts of the cube roots of the first 64 primes. -/
def roundConstants : List UInt32 :=
  [0x428a2f98, 0x71374491, 0xb5c0fbcf, 0xe9b5dba5, 0x3956c25b, 0x59f111f1, 0x923f82a4, 0xab1c5ed5,
   0xd807aa98, 0x12835b01, 0x243185be, 0x550c7dc3, 0x72be5d74, 0x80deb1fe, 0x9bdc06a7, 0xc19bf174,
   0xe49b69c1, 0xefbe4786, 0x0fc19dc6, 0x240ca1cc, 0x2de92c6f, 0x4a7484aa, 0x5cb0a9dc, 0x76f988da,
   0x983e5152, 0xa831c66d, 0xb00327c8, 0xbf597fc7, 0xc6e00bf3, 0xd5a79147, 0x06ca6351, 0x14292967,
   0x27b70a85, 0x2e1b2138, 0x4d2c6dfc, 0x53380d13, 0x650a7354, 0x766a0abb, 0x81c2c92e, 0x92722c85,
   0xa2bfe8a1, 0xa81a664b, 0xc24b8b70, 0xc76c51a3, 0xd192e819, 0xd6990624, 0xf40e3585, 0x106aa070,
   0x19a4c116, 0x1e376c08, 0x2748774c, 0x34b0bcb5, 0x391c0cb3, 0x4ed8aa4a, 0x5b9cca4f, 0x682e6ff3,
   0x748f82ee, 0x78a5636f, 0x84c87814, 0x8cc70208, 0x90befffa, 0xa4506ceb, 0xbef9a3f7, 0xc67178f2]

/-- The eight words that the digest is worked out in. -/
structure State where
  a : UInt32
  b : UInt32
  c : UInt32
  d : UInt32
  e : UInt32
  f : UInt32
  g : UInt32
  h : UInt32

/-- The state to begin with: the fractional parts of the square roots of the first 8 primes. -/
def State.initial : State :=
  ⟨0x6a09e667, 0xbb67ae85, 0x3c6ef372, 0xa54ff53a, 0x510e527f, 0x9b05688c, 0x1f83d9ab, 0x5be0cd19⟩

/-- A word rotated right by `n` places, `0 < n < 32`. -/
def rotate (x n : UInt32) : UInt32 :=
  (x >>> n) ||| (x <<< (32 - n))

/-- One round, with its constant and its word of the schedule. -/
def State.round (s : State) (k w : UInt32) : State :=
  let mixE := rotate s.e 6 ^^^ rotate s.e 11 ^^^ rotate s.e 25
  let choice := (s.e &&& s.f) ^^^ (~~~s.e &&& s.g)
  let t := s.h + mixE + choice + k + w
  let mixA := rotate s.a 2 ^^^ rotate s.a 13 ^^^ rotate s.a 22
  let majority := (s.a &&& s.b) ^^^ (s.a &&& s.c) ^^^ (s.b &&& s.c)
  ⟨t + mixA + majority, s.a, s.b, s.c, s.d + t, s.e, s.f, s.g⟩

/-- Adds the words of two states. -/
def State.add (s t : State) : State :=
  ⟨s.a + t.a, s.b + t.b, s.c + t.c, s.d + t.d, s.e + t.e, s.f + t.f, s.g + t.g, s.h + t.h⟩

/-- The words of a state in order. -/
def State.words (s : State) : List UInt32 :=
  [s.a, s.b, s.c, s.d, s.e, s.f, s.g, s.h]

/-- The next word of the schedule after `words`. -/
def nextWord (words : Array UInt32) : UInt32 :=
  let back (n : Nat) : UInt32 := words.getD (words.size - n) 0
  let low := rotate (back 15) 7 ^^^ rotate (back 15) 18 ^^^ (back 15 >>> 3)
  let high := rotate (back 2) 17 ^^^ rotate (back 2) 19 ^^^ (back 2 >>> 10)
  back 16 + low + back 7 + high

/-- The schedule of a block: its 16 words and 48 that follow from them. -/
def schedule (block : Array UInt32) : List UInt32 :=
  (Nat.repeat (fun words => words.push (nextWord words)) 48 block).toList

/-- Works one block of 16 words into the state. -/
def State.compress (s : State) (block : Array UInt32) : State :=
  s.add ((roundConstants.zip (schedule block)).foldl (fun t (k, w) => t.round k w) s)

/-- The bytes of a number, most significant first, in `n` bytes. -/
def bigEndian (n value : Nat) : List UInt8 :=
  (List.range n).reverse.map fun i => UInt8.ofNat (value / Nat.pow 256 i)

/-- The message with a one bit, zeros and its length in bits, filling blocks of 64 bytes. -/
def padded (message : List UInt8) : List UInt8 :=
  message ++ 0x80 :: List.replicate ((119 - message.length % 64) % 64) 0 ++
    bigEndian 8 (8 * message.length)

/-- The words that bytes spell, most significant byte first. -/
def wordsOf : List UInt8 → List UInt32
  | a :: b :: c :: d :: rest =>
    (a.toUInt32 <<< 24 ||| b.toUInt32 <<< 16 ||| c.toUInt32 <<< 8 ||| d.toUInt32) :: wordsOf rest
  | _ => []

/-- Works the words of whole blocks into the state, 16 at a time. -/
def State.absorb (s : State) : List UInt32 → State
  | a :: b :: c :: d :: e :: f :: g :: h :: i :: j :: k :: l :: m :: n :: o :: p :: rest =>
    State.absorb (s.compress #[a, b, c, d, e, f, g, h, i, j, k, l, m, n, o, p]) rest
  | _ => s

/-- The two hexadecimal digits of a byte, in small letters. -/
def hexByte (b : UInt8) : List Char :=
  [Nat.digitChar (b.toNat / 16), Nat.digitChar (b.toNat % 16)]

/-- **The SHA-256 digest** of a message, in hexadecimal. -/
def ofBytes (message : List UInt8) : String :=
  let state := State.initial.absorb (wordsOf (padded message))
  String.ofList (state.words.flatMap fun w => (bigEndian 4 w.toNat).flatMap hexByte)

/-- **The fingerprint of a text**: the digest of its UTF-8 bytes. -/
def ofText (text : String) : String :=
  ofBytes text.toUTF8.toList

example : ofText "abc" = "ba7816bf8f01cfea414140de5dae2223b00361a396177a9cb410ff61f20015ad" := by
  decide +kernel

end MailBlocks.Digest
