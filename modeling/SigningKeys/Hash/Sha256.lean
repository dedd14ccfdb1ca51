import SigningKeys.Bytes

/-!
# SHA-256

The message is padded to whole blocks of 64 bytes, and the blocks are folded into a state of eight
words.  States are exposed because a message authentication code starts from a state that has
already absorbed one block of key.

## Main definitions

* `Sha256.State`: the eight words of the state.
* `Sha256.State.absorb`: one block folded into a state.
* `Sha256.finish`: the digest of a message, from a state that has absorbed some blocks.
* `Sha256.digest`: the digest of a message.

## Main results

* `Sha256.length_finish`, `Sha256.length_digest`: a digest has 32 bytes.
-/

namespace SigningKeys

namespace Sha256

/-! ### Words -/

/-- A word rotated to the right. -/
def rotr (x n : UInt32) : UInt32 := (x >>> n) ||| (x <<< (32 - n))

/-- The first mixing function of the message schedule. -/
def smallSigma0 (x : UInt32) : UInt32 := rotr x 7 ^^^ rotr x 18 ^^^ (x >>> 3)

/-- The second mixing function of the message schedule. -/
def smallSigma1 (x : UInt32) : UInt32 := rotr x 17 ^^^ rotr x 19 ^^^ (x >>> 10)

/-- The mixing function of the word `a`. -/
def bigSigma0 (x : UInt32) : UInt32 := rotr x 2 ^^^ rotr x 13 ^^^ rotr x 22

/-- The mixing function of the word `e`. -/
def bigSigma1 (x : UInt32) : UInt32 := rotr x 6 ^^^ rotr x 11 ^^^ rotr x 25

/-- The bits of `y` where `x` is set, and those of `z` elsewhere. -/
def choose (x y z : UInt32) : UInt32 := (x &&& y) ^^^ (~~~x &&& z)

/-- The bits that are set in at least two of the words. -/
def majority (x y z : UInt32) : UInt32 := (x &&& y) ^^^ (x &&& z) ^^^ (y &&& z)

/-- The word of four bytes, the high byte first. -/
def word (a b c d : UInt8) : UInt32 :=
  (a.toUInt32 <<< 24) ||| (b.toUInt32 <<< 16) ||| (c.toUInt32 <<< 8) ||| d.toUInt32

/-- The four bytes of a word, the high byte first. -/
def wordBytes (x : UInt32) : Bytes :=
  [(x >>> 24).toUInt8, (x >>> 16).toUInt8, (x >>> 8).toUInt8, x.toUInt8]

@[simp] theorem length_wordBytes (x : UInt32) : (wordBytes x).length = 4 := rfl

/-- The words of a byte string; bytes that fill no word are left out. -/
def words : Bytes → List UInt32
  | a :: b :: c :: d :: rest => word a b c d :: words rest
  | _ => []

/-! ### The state -/

/-- The state of the digest. -/
structure State where
  /-- The first word. -/
  a : UInt32
  /-- The second word. -/
  b : UInt32
  /-- The third word. -/
  c : UInt32
  /-- The fourth word. -/
  d : UInt32
  /-- The fifth word. -/
  e : UInt32
  /-- The sixth word. -/
  f : UInt32
  /-- The seventh word. -/
  g : UInt32
  /-- The eighth word. -/
  h : UInt32
  deriving DecidableEq, Repr

/-- The state before the first block: square roots of the first eight primes. -/
def State.initial : State :=
  ⟨0x6a09e667, 0xbb67ae85, 0x3c6ef372, 0xa54ff53a,
   0x510e527f, 0x9b05688c, 0x1f83d9ab, 0x5be0cd19⟩

/-- The words of two states added. -/
def State.add (s t : State) : State :=
  ⟨s.a + t.a, s.b + t.b, s.c + t.c, s.d + t.d, s.e + t.e, s.f + t.f, s.g + t.g, s.h + t.h⟩

/-- The bytes of a state. -/
def State.bytes (s : State) : Bytes :=
  wordBytes s.a ++ wordBytes s.b ++ wordBytes s.c ++ wordBytes s.d ++
    wordBytes s.e ++ wordBytes s.f ++ wordBytes s.g ++ wordBytes s.h

@[simp] theorem State.length_bytes (s : State) : s.bytes.length = 32 := rfl

/-- One round, with the round constant already added to the word of the schedule. -/
def State.round (s : State) (w : UInt32) : State :=
  let t := s.h + bigSigma1 s.e + choose s.e s.f s.g + w
  ⟨t + bigSigma0 s.a + majority s.a s.b s.c, s.a, s.b, s.c, s.d + t, s.e, s.f, s.g⟩

/-! ### Absorbing blocks -/

/-- The round constants: cube roots of the first 64 primes. -/
def constants : Vector UInt32 64 :=
  #v[
    0x428a2f98, 0x71374491, 0xb5c0fbcf, 0xe9b5dba5, 0x3956c25b, 0x59f111f1, 0x923f82a4, 0xab1c5ed5,
    0xd807aa98, 0x12835b01, 0x243185be, 0x550c7dc3, 0x72be5d74, 0x80deb1fe, 0x9bdc06a7, 0xc19bf174,
    0xe49b69c1, 0xefbe4786, 0x0fc19dc6, 0x240ca1cc, 0x2de92c6f, 0x4a7484aa, 0x5cb0a9dc, 0x76f988da,
    0x983e5152, 0xa831c66d, 0xb00327c8, 0xbf597fc7, 0xc6e00bf3, 0xd5a79147, 0x06ca6351, 0x14292967,
    0x27b70a85, 0x2e1b2138, 0x4d2c6dfc, 0x53380d13, 0x650a7354, 0x766a0abb, 0x81c2c92e, 0x92722c85,
    0xa2bfe8a1, 0xa81a664b, 0xc24b8b70, 0xc76c51a3, 0xd192e819, 0xd6990624, 0xf40e3585, 0x106aa070,
    0x19a4c116, 0x1e376c08, 0x2748774c, 0x34b0bcb5, 0x391c0cb3, 0x4ed8aa4a, 0x5b9cca4f, 0x682e6ff3,
    0x748f82ee, 0x78a5636f, 0x84c87814, 0x8cc70208, 0x90befffa, 0xa4506ceb, 0xbef9a3f7, 0xc67178f2]

/-- The sixteen words of a block; missing ones are zero. -/
def blockWords (block : Bytes) : Vector UInt32 16 :=
  let ws := (words block).toArray
  Vector.ofFn fun i => ws.getD i 0

/-- The schedule of a block, extended by `n` words. -/
def schedule (block : Vector UInt32 16) : (n : Nat) → Vector UInt32 (16 + n)
  | 0 => block
  | n + 1 =>
    let w := schedule block n
    w.push (smallSigma1 w[n + 14] + w[n + 9] + smallSigma0 w[n + 1] + w[n])

/-- A block of 64 bytes folded into the state. -/
def State.absorb (s : State) (block : Bytes) : State :=
  let w := schedule (blockWords block) 48
  s.add (Fin.foldl 64 (fun t i => t.round (constants[i] + w[i])) s)

/-- The first `n` blocks of a byte string folded into the state. -/
def State.absorbBlocks (s : State) : Nat → Bytes → State
  | 0, _ => s
  | n + 1, bs => (s.absorb (bs.take 64)).absorbBlocks n (bs.drop 64)

/-! ### Padding and digest -/

/-- The eight bytes of a number, the high byte first. -/
def lengthBytes (n : Nat) : Bytes :=
  wordBytes (UInt32.ofNat (n / 4294967296)) ++ wordBytes (UInt32.ofNat n)

/-- The padding of a message of `n` bytes: a set bit, zeros, and the number of bits. -/
def padding (n : Nat) : Bytes :=
  0x80 :: List.replicate ((119 - n % 64) % 64) 0 ++ lengthBytes (8 * n)

/-- The digest of a message, from a state that has absorbed `before` bytes of it in whole blocks. -/
def finish (s : State) (before : Nat) (rest : Bytes) : Bytes :=
  let padded := rest ++ padding (before + rest.length)
  (s.absorbBlocks (padded.length / 64) padded).bytes

/-- The digest of a message. -/
def digest (message : Bytes) : Bytes := finish State.initial 0 message

@[simp] theorem length_finish (s : State) (before : Nat) (rest : Bytes) :
    (finish s before rest).length = 32 := rfl

/-- A digest has 32 bytes. -/
@[simp] theorem length_digest (message : Bytes) : (digest message).length = 32 := rfl

end Sha256

end SigningKeys
