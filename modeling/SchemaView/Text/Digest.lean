import SchemaView.Text.Hex

/-!
# Fingerprints of texts

The SHA-256 digest of a text in hexadecimal. A fingerprint is a short front piece of it, by which
two compiled schemas can be told apart.
-/

namespace SchemaView.Text.Digest

/-- The fractional parts of the cube roots of the first 64 primes. -/
def roundConstants : List UInt32 :=
  [0x428a2f98, 0x71374491, 0xb5c0fbcf, 0xe9b5dba5, 0x3956c25b, 0x59f111f1, 0x923f82a4,
   0xab1c5ed5, 0xd807aa98, 0x12835b01, 0x243185be, 0x550c7dc3, 0x72be5d74, 0x80deb1fe,
   0x9bdc06a7, 0xc19bf174, 0xe49b69c1, 0xefbe4786, 0x0fc19dc6, 0x240ca1cc, 0x2de92c6f,
   0x4a7484aa, 0x5cb0a9dc, 0x76f988da, 0x983e5152, 0xa831c66d, 0xb00327c8, 0xbf597fc7,
   0xc6e00bf3, 0xd5a79147, 0x06ca6351, 0x14292967, 0x27b70a85, 0x2e1b2138, 0x4d2c6dfc,
   0x53380d13, 0x650a7354, 0x766a0abb, 0x81c2c92e, 0x92722c85, 0xa2bfe8a1, 0xa81a664b,
   0xc24b8b70, 0xc76c51a3, 0xd192e819, 0xd6990624, 0xf40e3585, 0x106aa070, 0x19a4c116,
   0x1e376c08, 0x2748774c, 0x34b0bcb5, 0x391c0cb3, 0x4ed8aa4a, 0x5b9cca4f, 0x682e6ff3,
   0x748f82ee, 0x78a5636f, 0x84c87814, 0x8cc70208, 0x90befffa, 0xa4506ceb, 0xbef9a3f7,
   0xc67178f2]

/-- The eight words that a block changes. -/
structure State where
  a : UInt32
  b : UInt32
  c : UInt32
  d : UInt32
  e : UInt32
  f : UInt32
  g : UInt32
  h : UInt32

/-- The fractional parts of the square roots of the first eight primes. -/
def State.initial : State :=
  ⟨0x6a09e667, 0xbb67ae85, 0x3c6ef372, 0xa54ff53a, 0x510e527f, 0x9b05688c, 0x1f83d9ab,
    0x5be0cd19⟩

/-- The words of a state, first to last. -/
def State.words (s : State) : List UInt32 := [s.a, s.b, s.c, s.d, s.e, s.f, s.g, s.h]

/-- Adds two states word by word. -/
def State.add (s t : State) : State :=
  ⟨s.a + t.a, s.b + t.b, s.c + t.c, s.d + t.d, s.e + t.e, s.f + t.f, s.g + t.g, s.h + t.h⟩

/-- Turns a word to the right by `n` bits, `0 < n < 32`. -/
def rotateRight (x n : UInt32) : UInt32 := (x >>> n) ||| (x <<< (32 - n))

/-- One round with a schedule word and a round constant. -/
def State.round (s : State) (word constant : UInt32) : State :=
  let sum1 := rotateRight s.e 6 ^^^ rotateRight s.e 11 ^^^ rotateRight s.e 25
  let choice := (s.e &&& s.f) ^^^ ((~~~ s.e) &&& s.g)
  let t1 := s.h + sum1 + choice + constant + word
  let sum0 := rotateRight s.a 2 ^^^ rotateRight s.a 13 ^^^ rotateRight s.a 22
  let majority := (s.a &&& s.b) ^^^ (s.a &&& s.c) ^^^ (s.b &&& s.c)
  ⟨t1 + (sum0 + majority), s.a, s.b, s.c, s.d + t1, s.e, s.f, s.g⟩

/-- Continues a schedule by `n` words. The words are listed last first. -/
def extendSchedule : Nat → List UInt32 → List UInt32
  | 0, words => words
  | n + 1, words =>
    let w2 := words.getD 1 0
    let w15 := words.getD 14 0
    let s1 := rotateRight w2 17 ^^^ rotateRight w2 19 ^^^ (w2 >>> 10)
    let s0 := rotateRight w15 7 ^^^ rotateRight w15 18 ^^^ (w15 >>> 3)
    extendSchedule n ((words.getD 15 0 + s0 + words.getD 6 0 + s1) :: words)

/-- The 64 words with which a block of 16 words is mixed in. -/
def schedule (block : List UInt32) : List UInt32 := (extendSchedule 48 block.reverse).reverse

/-- Mixes one block into a state. -/
def State.absorb (s : State) (block : List UInt32) : State :=
  s.add (((schedule block).zip roundConstants).foldl (fun t e => t.round e.1 e.2) s)

/-- Joins bytes to words, four by four, most significant first. -/
def wordsOfBytes : List UInt8 → List UInt32
  | a :: b :: c :: d :: rest =>
    ((a.toUInt32 <<< 24) ||| (b.toUInt32 <<< 16) ||| (c.toUInt32 <<< 8) ||| d.toUInt32)
      :: wordsOfBytes rest
  | _ => []

/-- The bytes that complete a message of `n` bytes to whole blocks: a one bit, zeros, and the
length in bits. -/
def padding (n : Nat) : List UInt8 :=
  -- One byte for the bit and eight for the length leave so many to the end of a block.
  let zeros := (119 - n % 64) % 64
  let bits := 8 * n
  let lengthBytes := [56, 48, 40, 32, 24, 16, 8, 0].map fun (shift : Nat) =>
    UInt8.ofNat (bits >>> shift)
  0x80 :: (List.replicate zeros 0 ++ lengthBytes)

/-- Mixes in blocks of 16 words, as many as the first argument says. -/
def absorbAll : Nat → State → List UInt32 → State
  | 0, s, _ => s
  | n + 1, s, words => absorbAll n (s.absorb (words.take 16)) (words.drop 16)

/-- The digest of a message of bytes. -/
def ofBytes (message : List UInt8) : State :=
  let words := wordsOfBytes (message ++ padding message.length)
  absorbAll (words.length / 16) State.initial words

/-- The digest of a text as 64 hexadecimal digits. -/
def hex (text : String) : List Char :=
  (ofBytes text.toUTF8.toList).words.flatMap fun w => hexDigits 8 w.toNat

/-- The front piece of the digest of some texts joined by bars. A negative length counts from the
end: so many digits are left out. -/
def fingerprint (parts : List String) (length : Int) : String :=
  let digits := hex ("|".intercalate parts)
  let count := if length < 0 then ((digits.length : Int) + length).toNat else length.toNat
  String.ofList (digits.take count)

end SchemaView.Text.Digest
