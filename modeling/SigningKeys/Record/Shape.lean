import SigningKeys.Record.Basic

/-!
# The shape of a record

A record describes a key that is wrapped under a password, or a key as it is, or nothing that can
be used.  The name of the KDF decides which of the two it claims to be.

## Main definitions

* `Shape`: the two usable shapes.
* `Record.shape`: the shape of a record, or what is wrong with it.
-/

namespace SigningKeys

/-- The usable shapes of a record. -/
inductive Shape where
  /-- The secret is wrapped under a password. -/
  | encrypted
  /-- The secret is stored as it is. -/
  | plaintext
  deriving DecidableEq, Repr

/-- The name of a shape. -/
def Shape.name : Shape → String
  | encrypted => "Encrypted"
  | plaintext => "Plaintext"

namespace Record

/-- The rounds that a record declares; none are declared by an absent value. -/
def declaredRounds (r : Record) : UInt32 := r.rounds.getD 0

/-- The fields that an encrypted key needs beside its version, KDF and rounds, in the order in
which they are looked for. -/
def encryptedFields : List Field := [.salt, .id, .data, .checksum]

/-- The first of some fields that has no value. -/
def firstMissing (r : Record) (fields : List Field) : Option Field :=
  fields.find? fun f => (r.get f).isNone

/-- The shape of a record whose KDF is the known one. -/
def encryptedShape (r : Record) (minRounds : UInt32) : Except ShapeFault Shape :=
  if r.declaredRounds < minRounds then .error (.tooFewRounds r.declaredRounds minRounds)
  else
    match r.firstMissing encryptedFields with
    | some f => .error (.encryptedWithout f)
    | none => .ok .encrypted

/-- The shape of a record without a known KDF. -/
def plaintextShape (r : Record) : Except ShapeFault Shape :=
  if r.id.isSome ∧ r.data.isSome then .ok .plaintext else .error .missingIdOrData

/-- The shape of a record, if it declares at least so many rounds. -/
def shape (r : Record) (minRounds : UInt32) : Except ShapeFault Shape :=
  match r.version with
  | none => .error .missingVersion
  | some v =>
    if v = Layout.version then
      if r.kdf = some Layout.kdfName then r.encryptedShape minRounds else r.plaintextShape
    else .error (.unsupportedVersion v)

end Record

end SigningKeys
