import SigningKeys.Layout

/-!
# Formats of public containers

## Main definitions

* `Public.Format`: what is expected of a public container.
* `Public.Format.publicKey`, `Public.Format.signature`: the two formats in use.
-/

namespace SigningKeys

namespace Public

/-- What is expected of a public container. -/
structure Format where
  /-- How the container begins. -/
  magic : String
  /-- The lowest version that is admitted. -/
  minVersion : UInt32
  /-- The highest version that is admitted. -/
  maxVersion : UInt32
  /-- The length of the identifier in bytes. -/
  idLength : Nat
  /-- The length of the key or signature in bytes. -/
  dataLength : Nat
  deriving DecidableEq, Repr

namespace Format

/-- Public signing keys. -/
def publicKey : Format := ⟨Layout.publicKeyMagic, 1, 1, Layout.idLength, Layout.publicKeyLength⟩

/-- Detached signatures. -/
def signature : Format := ⟨Layout.signatureMagic, 1, 1, Layout.idLength, Layout.signatureLength⟩

/-- Whether a version is admitted. -/
def admits (f : Format) (version : UInt32) : Bool :=
  f.minVersion ≤ version && version ≤ f.maxVersion

end Format

end Public

end SigningKeys
