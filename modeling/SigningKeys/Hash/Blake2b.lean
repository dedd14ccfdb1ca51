import SigningKeys.Bytes

/-!
# BLAKE2b-512

The message is cut into blocks of 128 bytes, the last filled up with zeros.  Each block is folded
into a state of eight words through twelve rounds of mixing on sixteen words; the last one is
marked.

## Main definitions

* `Blake2b.compress`: one block folded into a state.
* `Blake2b.digest`: the 64-byte digest of a message.

## Main results

* `Blake2b.length_digest`: a digest has 64 bytes.
-/

namespace SigningKeys

namespace Blake2b

/-- The state of the digest. -/
abbrev State := Vector UInt64 8

/-- A word rotated to the right. -/
def rotr (x n : UInt64) : UInt64 := (x >>> n) ||| (x <<< (64 - n))

/-- The word of the first eight bytes, the low byte first; missing bytes are zero. -/
def word (bs : Bytes) : UInt64 :=
  (bs.take 8).foldr (fun b w => (w <<< 8) ||| b.toUInt64) 0

/-- The eight bytes of a word, the low byte first. -/
def wordBytes (x : UInt64) : Bytes :=
  [x.toUInt8, (x >>> 8).toUInt8, (x >>> 16).toUInt8, (x >>> 24).toUInt8,
    (x >>> 32).toUInt8, (x >>> 40).toUInt8, (x >>> 48).toUInt8, (x >>> 56).toUInt8]

@[simp] theorem length_wordBytes (x : UInt64) : (wordBytes x).length = 8 := rfl

/-- The initial words: square roots of the first eight primes. -/
def initial : State :=
  #v[0x6a09e667f3bcc908, 0xbb67ae8584caa73b, 0x3c6ef372fe94f82b, 0xa54ff53a5f1d36f1,
     0x510e527fade682d1, 0x9b05688c2b3e6c1f, 0x1f83d9abfb41bd6b, 0x5be0cd19137e2179]

/-- The order in which a round takes the words of the block; there are ten orders. -/
def order : Nat → Vector (Fin 16) 16
  | 0 => #v[0, 1, 2, 3, 4, 5, 6, 7, 8, 9, 10, 11, 12, 13, 14, 15]
  | 1 => #v[14, 10, 4, 8, 9, 15, 13, 6, 1, 12, 0, 2, 11, 7, 5, 3]
  | 2 => #v[11, 8, 12, 0, 5, 2, 15, 13, 10, 14, 3, 6, 7, 1, 9, 4]
  | 3 => #v[7, 9, 3, 1, 13, 12, 11, 14, 2, 6, 5, 10, 4, 0, 15, 8]
  | 4 => #v[9, 0, 5, 7, 2, 4, 10, 15, 14, 1, 11, 12, 6, 8, 3, 13]
  | 5 => #v[2, 12, 6, 10, 0, 11, 8, 3, 4, 13, 7, 5, 15, 14, 1, 9]
  | 6 => #v[12, 5, 1, 15, 14, 13, 4, 10, 0, 7, 6, 3, 9, 2, 8, 11]
  | 7 => #v[13, 11, 7, 14, 12, 1, 3, 9, 5, 0, 15, 4, 8, 6, 2, 10]
  | 8 => #v[6, 15, 14, 9, 11, 3, 0, 8, 12, 2, 13, 7, 1, 4, 10, 5]
  | _ => #v[10, 2, 8, 4, 7, 6, 1, 5, 15, 11, 9, 14, 3, 12, 13, 0]

/-- Two words of the block mixed into four words of the working state. -/
def mix (v : Vector UInt64 16) (a b c d : Fin 16) (x y : UInt64) : Vector UInt64 16 :=
  let va := v[a] + v[b] + x
  let vd := rotr (v[d] ^^^ va) 32
  let vc := v[c] + vd
  let vb := rotr (v[b] ^^^ vc) 24
  let va := va + vb + y
  let vd := rotr (vd ^^^ va) 16
  let vc := vc + vd
  let vb := rotr (vb ^^^ vc) 63
  (((v.set a va).set b vb).set c vc).set d vd

/-- One round: the columns of the working state and then its diagonals. -/
def round (m : Vector UInt64 16) (v : Vector UInt64 16) (r : Nat) : Vector UInt64 16 :=
  let s := order (r % 10)
  let v := mix v 0 4 8 12 m[s[0]] m[s[1]]
  let v := mix v 1 5 9 13 m[s[2]] m[s[3]]
  let v := mix v 2 6 10 14 m[s[4]] m[s[5]]
  let v := mix v 3 7 11 15 m[s[6]] m[s[7]]
  let v := mix v 0 5 10 15 m[s[8]] m[s[9]]
  let v := mix v 1 6 11 12 m[s[10]] m[s[11]]
  let v := mix v 2 7 8 13 m[s[12]] m[s[13]]
  mix v 3 4 9 14 m[s[14]] m[s[15]]

/-- The sixteen words of a block; missing bytes are zero. -/
def blockWords (block : Bytes) : Vector UInt64 16 :=
  Vector.ofFn fun i => word (block.drop (8 * i))

/-- A block folded into the state, when `count` bytes of the message have been taken, this block's
own among them. -/
def compress (h : State) (block : Bytes) (count : Nat) (last : Bool) : State :=
  let low := UInt64.ofNat count
  let high := UInt64.ofNat (count / 18446744073709551616)
  let v : Vector UInt64 16 := h ++ initial
  let v := v.set 12 (v[12] ^^^ low)
  let v := v.set 13 (v[13] ^^^ high)
  let v := if last then v.set 14 (~~~ v[14]) else v
  let v := Nat.fold 12 (fun r _ v => round (blockWords block) v r) v
  Vector.ofFn fun (i : Fin 8) => h[i] ^^^ v[i.val] ^^^ v[8 + i.val]

/-- The rest of a message folded into the state, when `count` bytes came before it. -/
def absorb (h : State) (count : Nat) (bs : Bytes) : State :=
  if bs.length ≤ 128 then compress h bs (count + bs.length) true
  else absorb (compress h (bs.take 128) (count + 128) false) (count + 128) (bs.drop 128)
termination_by bs.length

/-- The state before the first block of an unkeyed message with a digest of 64 bytes. -/
def start : State := initial.set 0 (initial[0] ^^^ 0x01010040)

/-- The digest of a message. -/
def digest (message : Bytes) : Bytes :=
  (absorb start 0 message).toList.flatMap wordBytes

/-- A digest has 64 bytes. -/
@[simp] theorem length_digest (message : Bytes) : (digest message).length = 64 := by
  have flat : ∀ ws : List UInt64, (ws.flatMap wordBytes).length = 8 * ws.length := by
    intro ws
    induction ws with
    | nil => rfl
    | cons w ws ih => simp only [List.flatMap_cons, List.length_append, length_wordBytes, ih,
        List.length_cons]; omega
  rw [digest, flat, Vector.length_toList]

end Blake2b

end SigningKeys
