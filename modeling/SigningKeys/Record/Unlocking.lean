import SigningKeys.Container.Reading
import SigningKeys.PasswordSource
import SigningKeys.SecretKey
import SigningKeys.Record.Wrapping

/-!
# Unlocking records and loading keys

A record of either shape is unlocked to a secret key.  For an encrypted one a password is asked for
once, and nothing leaves the computation unless the unwrapped secret has the stored checksum.
However it ends, exactly one event tells the outcome.

## Main definitions

* `Record.takeSecret`: the secret key of a plaintext record.
* `Record.recoverSecret`: the secret key of an encrypted record.
* `Record.unlock`: the secret key of a record of a given shape, with the event of its outcome.
* `SecretKey.load`: the secret key of a container.
-/

namespace SigningKeys

/-- A value that has to be there. -/
def required {α : Type} (fault : ShapeFault) : Option α → Except KeyError α
  | some a => .ok a
  | none => .error (.inconsistent fault)

namespace Record

/-- The secret key of a plaintext record. -/
def takeSecret (r : Record) (settings : LoadSettings) : Except KeyError SecretKey := do
  let id ← required (.missing .id) r.id
  let data ← required (.missing .data) r.data
  SecretKey.ofParts data id settings.lockMemory

/-- What an encrypted record holds beside its version and KDF. -/
structure Sealed where
  /-- The salt of the password. -/
  salt : Bytes
  /-- How often the password is stretched. -/
  rounds : UInt32
  /-- The checksum of the secret. -/
  checksum : Bytes
  /-- The key identifier. -/
  id : Bytes
  /-- The wrapped secret. -/
  data : Bytes
  deriving DecidableEq

/-- The parts of an encrypted record, which all have to be there. -/
def sealed (r : Record) : Except KeyError Sealed :=
  match r.salt, r.rounds, r.checksum, r.id with
  | some salt, some rounds, some checksum, some id => do
    let data ← required (.missing .data) r.data
    .ok ⟨salt, rounds, checksum, id, data⟩
  | _, _, _, _ => .error (.inconsistent .incomplete)

/-- The secret key of a sealed secret under a wrapping key. -/
def Sealed.unwrap (s : Sealed) (key : Bytes) (settings : LoadSettings) :
    Except KeyError SecretKey :=
  let secret := Bytes.xor s.data key
  if SigningKeys.checksum secret = s.checksum then
    SecretKey.ofParts secret s.id settings.lockMemory
  else .error (.authentication .checksumMismatch)

/-- The secret key of an encrypted record. -/
def recoverSecret (r : Record) (source : Option PasswordSource) (settings : LoadSettings)
    (entropy : Entropy) : Outcome SecretKey :=
  match source with
  | none => .error .passwordRequired
  | some source => do
    let s ← .ofExcept r.sealed
    let password ← askPassword source settings entropy
    let key ← .ofExcept (wrappingKey password s.salt s.rounds)
    .ofExcept (s.unwrap key settings)

/-- The event that tells how the unlocking of a record ended. -/
def unlockEvent (r : Record) : Except KeyError SecretKey → Event
  | .ok _ => .succeeded "unpack" (r.id.getD [])
  | .error e => .failedAs e.kind.level "unpack" (r.id.getD []) e.kind

/-- The secret key of a record of a given shape, with the event of its outcome. -/
def unlock (r : Record) (shape : Shape) (source : Option PasswordSource)
    (settings : LoadSettings) (entropy : Entropy) : Outcome SecretKey :=
  match shape with
  | .plaintext => (Outcome.ofExcept (r.takeSecret settings)).reporting r.unlockEvent
  | .encrypted => (r.recoverSecret source settings entropy).reporting r.unlockEvent

end Record

/-- The secret key of a container. -/
def SecretKey.load (stream : Stream) (source : Option PasswordSource) (settings : LoadSettings)
    (entropy : Entropy) : Outcome SecretKey := do
  let r ← Record.parse stream
  let shape ← .ofExcept ((r.shape settings.minRounds).mapError .inconsistent)
  .log (.shapeFound shape)
  r.unlock shape source settings entropy

end SigningKeys
