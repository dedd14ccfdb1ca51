import SigningKeys.Entropy
import SigningKeys.Outcome
import SigningKeys.Hash.Blake2b
import SigningKeys.Hash.Pbkdf2

/-!
# Wrapping secrets

A secret is wrapped by combining it byte for byte with a key of the same length that is derived
from the password.  The checksum of the secret is stored beside it and tells a right password from
a wrong one.

## Main definitions

* `wrappingKey`: the key derived from a password.
* `checksum`: the checksum of a secret.
* `Record.plain`: the record of a secret as it is.
* `Record.wrap`: the record of a secret under a password.

## Main results

* `length_of_wrappingKey`: a wrapping key is as long as a secret.
-/

namespace SigningKeys

/-- The key that a password, a salt and a number of rounds give. -/
def wrappingKey (password salt : Bytes) (rounds : UInt32) : Except KeyError Bytes :=
  if rounds = 0 then .error (.keyDerivation .zeroRounds)
  else if salt = [] then .error (.keyDerivation .emptySalt)
  else .ok (Pbkdf2.derive password salt rounds.toNat Layout.secretLength)

/-- The checksum of a secret. -/
def checksum (secret : Bytes) : Bytes := Blake2b.digest secret

@[simp] theorem length_checksum (secret : Bytes) :
    (checksum secret).length = Layout.digestLength :=
  Blake2b.length_digest secret

/-- A wrapping key is as long as a secret. -/
theorem length_of_wrappingKey {password salt key : Bytes} {rounds : UInt32}
    (h : wrappingKey password salt rounds = .ok key) : key.length = Layout.secretLength := by
  simp only [wrappingKey] at h
  split at h
  · cases h
  · split at h
    · cases h
    · cases h
      exact Pbkdf2.length_derive _ _ _ _

namespace Record

/-- The record of a secret as it is. -/
def plain (secret id : Bytes) : Except KeyError Record :=
  if secret.length = Layout.secretLength then
    if id.length = Layout.idLength then
      .ok { empty with version := some Layout.version, id := some id, data := some secret }
    else .error (.format .idLength)
  else .error (.format .secretLength)

/-- The record of a secret under a wrapping key. -/
def wrapped (plain : Record) (secret salt key : Bytes) (rounds : UInt32) : Record :=
  { plain with
    data := some (Bytes.xor secret key)
    kdf := some Layout.kdfName
    rounds := some rounds
    salt := some salt
    checksum := some (SigningKeys.checksum secret) }

/-- The record of a secret under a password.  Few rounds are allowed, and leave an event. -/
def wrap (secret id password : Bytes) (rounds : UInt32) (entropy : Entropy) : Outcome Record := do
  let plain ← .ofExcept (plain secret id)
  if password = [] then .error (.keyDerivation .emptyPassword)
  else do
    if rounds < Layout.minRounds then .log (.weakRounds rounds) else .ok ()
    let salt := entropy.first Layout.saltLength
    let key ← .ofExcept (wrappingKey password salt rounds)
    .ok (wrapped plain secret salt key rounds)

end Record

end SigningKeys
