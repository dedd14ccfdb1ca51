import SigningKeys.Text.Utf8

/-!
# The layout of containers

The lengths, limits and fixed texts that all containers share.

## Main definitions

* `Layout.secretLength`, `Layout.idLength`, …: lengths of the parts of a key.
* `Layout.lineLimit`, `Layout.fileLimit`: what a reader accepts at most.
* `Layout.privateMagic`, `Layout.publicKeyMagic`, `Layout.signatureMagic`: how containers begin.
-/

namespace SigningKeys

namespace Layout

/-! ### Lengths in bytes -/

/-- The secret signing key. -/
def secretLength : Nat := 64

/-- A public signing key. -/
def publicKeyLength : Nat := 32

/-- A signature. -/
def signatureLength : Nat := 64

/-- The checksum of a secret. -/
def digestLength : Nat := 64

/-- A key identifier. -/
def idLength : Nat := 8

/-- The salt of a password. -/
def saltLength : Nat := 16

/-- The canary at the end of a password buffer. -/
def canaryLength : Nat := 10

/-! ### Limits in bytes -/

/-- The longest line of a container, its end included. -/
def lineLimit : Nat := 1024

/-- The largest private key file that is read. -/
def fileLimit : Nat := 65536

/-- Room for all lines of a private key container together, apart from the text of its KDF. -/
def fixedLinesReserve : Nat := 1024

/-! ### Rounds and buffers -/

/-- The fewest KDF rounds that a key may declare. -/
def minRounds : UInt32 := 10000

/-- The KDF rounds of a newly wrapped key. -/
def wrapRounds : UInt32 := 100000

/-- The password buffer, its canary included. -/
def passwordBufferLength : Nat := 1024

/-! ### Texts -/

/-- The first line of a private key container. -/
def privateMagic : String := "ASIGN-PRIV-KEY:"

/-- How a public key container begins. -/
def publicKeyMagic : String := "EdPK:"

/-- How a signature container begins. -/
def signatureMagic : String := "EdSIG:"

/-- The name of the only KDF. -/
def kdfName : String := "pbkdf2-sha256"

/-- The only version of a private key container. -/
def version : UInt32 := 1

end Layout

end SigningKeys
