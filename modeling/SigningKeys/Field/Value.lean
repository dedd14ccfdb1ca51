import SigningKeys.KeyError
import SigningKeys.Text.Hex

/-!
# Reading and writing the values of fields

The text of a value is everything between the blanks after the colon and the end of the line.

## Main definitions

* `Field.read`: the value that a text stands for, or what is wrong with the text.
* `Kind.render`: the text of a value.
-/

namespace SigningKeys

/-- The text of a value. -/
def Kind.render : (k : Kind) → k.Value → Bytes
  | .text, s => Utf8.encode s
  | .unsigned, n => Decimal.digits n.toNat
  | .hex _, bs => Hex.encode bs

namespace Field

/-- The number that the text of a value stands for. -/
def readUnsigned (f : Field) (raw : Bytes) : Except LineFault UInt32 :=
  if raw ≠ [] ∧ raw.all Byte.isDigit then
    match Decimal.word raw with
    | some n => .ok n
    | none => .error (.outOfRange f)
  else .error (.notDecimal f)

/-- The bytes that the text of a value stands for, `length` of them. -/
def readHex (f : Field) (length : Nat) (raw : Bytes) : Except LineFault Bytes :=
  if raw.length = 2 * length then
    match Hex.decode raw with
    | some bs => .ok bs
    | none => .error (.notHex f)
  else .error (.wrongLength f length)

/-- The value of kind `k` that a text stands for; `f` is the field named in a fault. -/
def readKind (f : Field) : (k : Kind) → Bytes → Except LineFault k.Value
  | .text, raw => .ok (Utf8.decodeLossy raw)
  | .unsigned, raw => readUnsigned f raw
  | .hex n, raw => readHex f n raw

/-- The value of a field that a text stands for. -/
def read (f : Field) (raw : Bytes) : Except LineFault f.kind.Value :=
  readKind f f.kind raw

end Field

end SigningKeys
