import SigningKeys.Record.Shape
import SigningKeys.Hash.Sha256

/-!
# The audit trail

What is done to keys leaves events.  An event names a key by the fingerprint of its identifier
only, and a failure by the class of its error only.  That the system would not keep a secret out of
swapped memory is told elsewhere, and no event here.

## Main definitions

* `fingerprint`: the short name of a key identifier.
* `Level`, `Event`: events and their levels.
* `Event.message`: the text of an event.
-/

namespace SigningKeys

/-- The short name of a key identifier: the first twelve digits of its digest. -/
def fingerprint (id : Bytes) : String := "#" ++ Hex.text ((Sha256.digest id).take 6)

/-- How serious an event is. -/
inductive Level where
  /-- Something is broken. -/
  | error
  /-- Something was refused. -/
  | warn
  /-- Something was done. -/
  | info
  /-- A step on the way. -/
  | debug
  /-- A detail of a step. -/
  | trace
  deriving DecidableEq, Repr

/-- The name of a level. -/
def Level.name : Level → String
  | error => "error"
  | warn => "warn"
  | info => "info"
  | debug => "debug"
  | trace => "trace"

/-- Something that the audit trail tells. -/
inductive Event where
  /-- A container has been read from a file. -/
  | containerRead (path : String)
  /-- Something was refused before it was looked at closely. -/
  | rejected (what reason : String)
  /-- A record has this shape. -/
  | shapeFound (shape : Shape)
  /-- A key is wrapped with fewer rounds than are usually required. -/
  | weakRounds (rounds : UInt32)
  /-- A password source wrote into the canary. -/
  | canaryChanged
  /-- A password source claims more bytes than fit. -/
  | lengthOverrun (reported capacity : Nat)
  /-- An operation on a key succeeded. -/
  | succeeded (operation : String) (id : Bytes)
  /-- An operation on a key failed. -/
  | failed (operation : String) (id : Bytes)
  /-- An operation on a key failed in a known way. -/
  | failedAs (level : Level) (operation : String) (id : Bytes) (kind : ErrorKind)
  deriving DecidableEq, Repr

namespace Event

/-- How serious an event is. -/
def level : Event → Level
  | containerRead _ => .debug
  | rejected _ _ => .debug
  | shapeFound _ => .debug
  | weakRounds _ => .warn
  | canaryChanged => .warn
  | lengthOverrun _ _ => .warn
  | succeeded _ _ => .info
  | failed _ _ => .warn
  | failedAs level _ _ _ => level

/-- The text of an event. -/
def message : Event → String
  | containerRead path => "Read private key container from " ++ path
  | rejected what reason => "Rejected " ++ what ++ ": " ++ reason
  | shapeFound shape => "Private key record is " ++ shape.name
  | weakRounds rounds =>
    "Wrapping key with " ++ Decimal.text rounds.toNat ++ " rounds; loaders require " ++
      Decimal.text Layout.minRounds.toNat ++ " by default"
  | canaryChanged => "Password source wrote past its buffer; password discarded"
  | lengthOverrun reported capacity =>
    "Password source reported " ++ Decimal.text reported ++ " bytes for a " ++
      Decimal.text capacity ++ " byte buffer"
  | succeeded operation id =>
    "Key operation succeeded: " ++ operation ++ " (key: " ++ fingerprint id ++ ")"
  | failed operation id =>
    "Key operation failed: " ++ operation ++ " (key: " ++ fingerprint id ++ ")"
  | failedAs _ operation id kind =>
    "Key operation failed: " ++ operation ++ " (key: " ++ fingerprint id ++ ", kind: " ++
      kind.name ++ ")"

end Event

/-- How serious a failure to unlock a key is: a refused password or a missing source is to be
expected, everything else is not. -/
def ErrorKind.level : ErrorKind → Level
  | authentication => .warn
  | configuration => .warn
  | _ => .error

end SigningKeys
