import SigningKeys.Layout

/-!
# Settings for loading keys

## Main definitions

* `LoadSettings`: what a caller may choose when a key is loaded.
* `LoadSettings.standard`, `LoadSettings.hardened`: the two presets.
* `LoadSettings.capacity`: the longest password that can be given.
-/

namespace SigningKeys

/-- What a caller may choose when a key is loaded. -/
structure LoadSettings where
  /-- The fewest KDF rounds that an encrypted key may declare. -/
  minRounds : UInt32
  /-- The length of the password buffer, its canary included. -/
  bufferLength : Nat
  /-- Whether the secret is to be kept out of swapped memory. -/
  lockMemory : Bool
  deriving DecidableEq, Repr

namespace LoadSettings

/-- The usual settings. -/
def standard : LoadSettings where
  minRounds := Layout.minRounds
  bufferLength := Layout.passwordBufferLength
  lockMemory := true

/-- The usual settings, with as many rounds required as a newly wrapped key has. -/
def hardened : LoadSettings := { standard with minRounds := Layout.wrapRounds }

/-- The bytes of the password buffer in front of the canary; none if the buffer is too small to
hold more than the canary. -/
def capacity (s : LoadSettings) : Nat := s.bufferLength - Layout.canaryLength

end LoadSettings

end SigningKeys
