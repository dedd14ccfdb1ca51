import SigningKeys.Hash.Hmac

/-!
# PBKDF2 with HMAC-SHA-256

A password is stretched into key bytes block by block.  Each block combines a chain of codes under
the password: the first is the code of the salt and the block number, every further one the code of
the one before.

## Main definitions

* `Pbkdf2.block`: one block of key bytes.
* `Pbkdf2.derive`: key bytes of any length.

## Main results

* `Pbkdf2.length_derive`: as many bytes come out as were asked for.
-/

namespace SigningKeys

namespace Pbkdf2

/-- The chain of codes continued by `n` more from the code `u`, all combined into `acc`. -/
def chain (key : Hmac.Key) : Nat → Bytes → Bytes → Bytes
  | 0, _, acc => acc
  | n + 1, u, acc =>
    let v := key.code u
    chain key n v (Bytes.xor acc v)

/-- The block of key bytes with number `i`. -/
def block (key : Hmac.Key) (salt : Bytes) (rounds i : Nat) : Bytes :=
  let u := key.code (salt ++ Sha256.wordBytes (UInt32.ofNat i))
  chain key (rounds - 1) u u

/-- The blocks with numbers from `i`, `n` of them. -/
def blocks (key : Hmac.Key) (salt : Bytes) (rounds : Nat) : Nat → Nat → Bytes
  | 0, _ => []
  | n + 1, i => block key salt rounds i ++ blocks key salt rounds n (i + 1)

/-- The key bytes that a password and a salt give, `length` of them. -/
def derive (password salt : Bytes) (rounds length : Nat) : Bytes :=
  (blocks (Hmac.Key.ofBytes password) salt rounds ((length + 31) / 32) 1).take length

theorem length_chain (key : Hmac.Key) (n : Nat) (u : Bytes) {acc : Bytes} (h : acc.length = 32) :
    (chain key n u acc).length = 32 := by
  induction n generalizing u acc with
  | zero => exact h
  | succ n ih =>
    refine ih _ ?_
    rw [Bytes.length_xor (h.trans (Hmac.Key.length_code _ _).symm), h]

@[simp] theorem length_block (key : Hmac.Key) (salt : Bytes) (rounds i : Nat) :
    (block key salt rounds i).length = 32 :=
  length_chain _ _ _ (Hmac.Key.length_code _ _)

theorem length_blocks (key : Hmac.Key) (salt : Bytes) (rounds n i : Nat) :
    (blocks key salt rounds n i).length = 32 * n := by
  induction n generalizing i with
  | zero => rfl
  | succ n ih => simp only [blocks, List.length_append, length_block, ih]; omega

/-- As many bytes come out as were asked for. -/
@[simp] theorem length_derive (password salt : Bytes) (rounds length : Nat) :
    (derive password salt rounds length).length = length := by
  rw [derive, List.length_take, length_blocks]
  omega

end Pbkdf2

end SigningKeys
