import SigningKeys.KeyError
import SigningKeys.Public.Format
import SigningKeys.Text.Base64
import SigningKeys.Text.Description

/-!
# Public containers

A public container is a single line: a fixed beginning, the version in decimal digits, and the
identifier and the key or signature as Base64 text, with colons between the three.

## Main definitions

* `Public.Container`: a version, an identifier and a key or signature.
* `Public.Container.make`: a container of given parts, if they fit a format.
* `Public.Container.load`: the container that a text stands for.
* `Public.Container.encode`: the text of a container.
* `Public.Container.describe`: a description of a container.
-/

namespace SigningKeys

namespace Public

/-- A public key or a signature. -/
structure Container where
  /-- The version. -/
  version : UInt32
  /-- The key identifier. -/
  id : Bytes
  /-- The key or signature. -/
  data : Bytes
  deriving DecidableEq, Repr

namespace Container

/-- A container of given parts, if they fit a format. -/
def make (format : Format) (version : UInt32) (id data : Bytes) : Except PublicFault Container :=
  if format.admits version then
    if id.length = format.idLength ∧ data.length = format.dataLength then
      .ok ⟨version, id, data⟩
    else .error .wrongPartLength
  else .error (.unsupportedVersion version)

/-! ### The text of a container -/

/-- The text of a container. -/
def encode (c : Container) (magic : String) : Bytes :=
  Utf8.encode magic ++ Decimal.digits c.version.toNat ++ Byte.colon :: Base64.encode c.id ++
    Byte.colon :: Base64.encode c.data

/-- What follows the magic of a format, and there must be something. -/
def afterMagic (format : Format) (bs : Bytes) : Except PublicFault Bytes :=
  let magic := Utf8.encode format.magic
  if magic.length < bs.length ∧ magic.isPrefixOf bs then .ok (bs.drop magic.length)
  else .error .wrongMagic

/-- The version at the beginning of a text, and what follows its colon. -/
def readVersion (format : Format) (bs : Bytes) : Except PublicFault (UInt32 × Bytes) :=
  match bs.takeWhile Byte.isDigit, bs.dropWhile Byte.isDigit with
  | d :: ds, b :: rest =>
    if b = Byte.colon then
      match Decimal.word (d :: ds) with
      | none => .error .versionOutOfRange
      | some version =>
        if format.admits version then .ok (version, rest)
        else .error (.unsupportedVersion version)
    else .error .missingVersion
  | _, _ => .error .missingVersion

/-- What stands before and after the first colon of a text. -/
def splitParts (bs : Bytes) : Except PublicFault (Bytes × Bytes) :=
  match bs.dropWhile (· ≠ Byte.colon) with
  | [] => .error .missingData
  | _ :: rest => .ok (bs.takeWhile (· ≠ Byte.colon), rest)

/-- The bytes of a part, which must be so many. -/
def readPart (part : PublicPart) (length : Nat) (text : Bytes) : Except PublicFault Bytes :=
  match Base64.decode text with
  | none => .error (.notBase64 part)
  | some bs =>
    if bs.length = length then .ok bs
    else .error (.wrongDecodedLength part length bs.length)

/-- The container that a text stands for; blanks may follow it. -/
def load (format : Format) (bs : Bytes) : Except PublicFault Container := do
  let rest ← afterMagic format bs
  let (version, rest) ← readVersion format rest
  let (idText, dataText) ← splitParts rest
  let id ← readPart .id format.idLength idText
  let data ← readPart .data format.dataLength (Bytes.trimBlanks dataText)
  .ok ⟨version, id, data⟩

/-! ### Descriptions -/

/-- A description of a container. -/
def describe (c : Container) : String :=
  "PublicContainer \x7b version: " ++ Decimal.text c.version.toNat ++ ", id: " ++
    Description.ofBytes c.id ++ ", data: " ++ Description.ofBytes c.data ++ " \x7d"

end Container

end Public

end SigningKeys
