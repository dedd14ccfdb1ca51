import SigningKeys.Hash.Sha256

/-!
# HMAC-SHA-256

The code of a message under a key is the digest of an outer key block followed by the digest of an
inner key block and the message.  Both key blocks are absorbed once, when the key is prepared, so a
long chain of codes under one key costs two blocks per short message.

## Main definitions

* `Hmac.Key`, `Hmac.Key.ofBytes`: a key whose two blocks have been absorbed.
* `Hmac.Key.code`: the code of a message.

## Main results

* `Hmac.Key.length_code`: a code has 32 bytes.
-/

namespace SigningKeys

namespace Hmac

/-- A key, as the states after its inner and outer block. -/
structure Key where
  /-- The state after the inner block. -/
  inner : Sha256.State
  /-- The state after the outer block. -/
  outer : Sha256.State
  deriving DecidableEq, Repr

/-- The key filled up with zeros to a block; a key longer than a block is digested first. -/
def keyBlock (key : Bytes) : Bytes :=
  let short := if key.length ≤ 64 then key else Sha256.digest key
  short ++ List.replicate (64 - short.length) 0

/-- A key prepared for use. -/
def Key.ofBytes (key : Bytes) : Key where
  inner := Sha256.State.initial.absorb ((keyBlock key).map (· ^^^ 0x36))
  outer := Sha256.State.initial.absorb ((keyBlock key).map (· ^^^ 0x5c))

/-- The code of a message. -/
def Key.code (key : Key) (message : Bytes) : Bytes :=
  Sha256.finish key.outer 64 (Sha256.finish key.inner 64 message)

@[simp] theorem Key.length_code (key : Key) (message : Bytes) :
    (key.code message).length = 32 :=
  Sha256.length_finish _ _ _

end Hmac

end SigningKeys
