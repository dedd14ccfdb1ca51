import SigningKeys.Container.Sink
import SigningKeys.Record.Shape

/-!
# Writing private key containers

A container is its fixed first line and one line for each field that has a value.  Only a record
that has a shape is written, so that what is written can be loaded again.  The lines are written one
after the other, so a failure leaves the lines before it in the sink.

## Main definitions

* `Field.lineValue`: the text of a value in its line.
* `Record.pieces`, `Record.text`: the text of a container, in the pieces in which it is written.
* `Record.writeField`, `Record.write`: the line of a field and a container written to a sink.
* `Record.encode`: the text of a container, if the record has a shape.
* `Record.reserve`: room that the text of a record needs at most.
-/

namespace SigningKeys

/-- The digits of a secret, in a buffer of their own. -/
def secretDigits (secret : Bytes) : Except KeyError Bytes :=
  match Hex.encodeInto (2 * secret.length) secret with
  | some digits => .ok digits
  | none => .error (.format .secretNotEncoded)

/-- The text of a value in its line. -/
def Field.lineValue : (f : Field) → f.kind.Value → Except KeyError Bytes
  | .data, secret => secretDigits secret
  | f, v => .ok (f.kind.render v)

namespace Record

/-- The pieces of the line of a field; there are none if the field has no value. -/
def fieldPieces (r : Record) (f : Field) : List Bytes :=
  match r.get f with
  | none => []
  | some v => [f.nameBytes, Utf8.encode ": ", f.kind.render v, [Byte.newline]]

/-- The pieces of the text of a container, in order. -/
def pieces (r : Record) : List Bytes :=
  [Utf8.encode Layout.privateMagic, [Byte.newline]] ++ Field.written.flatMap r.fieldPieces

/-- The text of a container. -/
def text (r : Record) : Bytes := r.pieces.flatten

/-- The line of a field written to a sink; there is none if the field has no value. -/
def writeField (r : Record) (f : Field) (s : Sink) : Sink × Except KeyError Unit :=
  match r.get f with
  | none => (s, .ok ())
  | some v =>
    match f.lineValue v with
    | .error e => (s, .error e)
    | .ok value =>
      let (s', result) := s.writeAll [f.nameBytes, Utf8.encode ": ", value, [Byte.newline]]
      (s', result.mapError .io)

/-- The lines of some fields written to a sink, up to the first that fails. -/
def writeFields (r : Record) (s : Sink) : List Field → Sink × Except KeyError Unit
  | [] => (s, .ok ())
  | f :: fields =>
    match r.writeField f s with
    | (s', .ok ()) => writeFields r s' fields
    | (s', .error e) => (s', .error e)

/-- The container of a record written to a sink. -/
def write (r : Record) (s : Sink) : Sink × Except KeyError Unit :=
  match r.shape 1 with
  | .error fault => (s, .error (.inconsistent fault))
  | .ok _ =>
    match s.writeAll [Utf8.encode Layout.privateMagic, [Byte.newline]] with
    | (s', .ok ()) => r.writeFields s' Field.written
    | (s', .error fault) => (s', .error (.io fault))

/-- The text of the container of a record. -/
def encode (r : Record) : Except KeyError Bytes :=
  let (s, result) := r.write .unlimited
  result.map fun _ => s.written

/-- Room that the text of a record needs at most. -/
def reserve (r : Record) : Nat :=
  Layout.fixedLinesReserve + (r.kdf.map fun s => (Utf8.encode s).length).getD 0

end Record

end SigningKeys
