import SigningKeys.Field.Value

/-!
# Records

A record holds what has been read from a private key container: a value for each field that has
had one.  A field takes a value once; there is no way to change it afterwards.

## Main definitions

* `Record`, `Record.empty`: records.
* `Record.get`: the value of a field.
* `Record.put`: a record with one more value, unless the field has one already.

## Main results

* `Record.get_set`, `Record.get_set_of_ne`: setting a field changes that field and no other.
-/

namespace SigningKeys

/-- What has been read from a private key container. -/
structure Record where
  /-- The version of the container. -/
  version : Option UInt32
  /-- The name of the function that stretches the password. -/
  kdf : Option String
  /-- How often that function is applied. -/
  rounds : Option UInt32
  /-- The salt of the password. -/
  salt : Option Bytes
  /-- The key identifier. -/
  id : Option Bytes
  /-- The secret, wrapped or as it is. -/
  data : Option Bytes
  /-- The checksum of the secret. -/
  checksum : Option Bytes
  deriving DecidableEq, Repr

namespace Record

/-- The record without any value. -/
def empty : Record := ⟨none, none, none, none, none, none, none⟩

/-- The value of a field. -/
def get (r : Record) : (f : Field) → Option f.kind.Value
  | .checksum => r.checksum
  | .data => r.data
  | .id => r.id
  | .kdf => r.kdf
  | .rounds => r.rounds
  | .salt => r.salt
  | .version => r.version

/-- The record in which a field has a value, whatever it had before. -/
def set (r : Record) : (f : Field) → f.kind.Value → Record
  | .checksum, v => { r with checksum := some v }
  | .data, v => { r with data := some v }
  | .id, v => { r with id := some v }
  | .kdf, v => { r with kdf := some v }
  | .rounds, v => { r with rounds := some v }
  | .salt, v => { r with salt := some v }
  | .version, v => { r with version := some v }

/-- The record with one more value. -/
def put (r : Record) (f : Field) (v : f.kind.Value) : Except LineFault Record :=
  match r.get f with
  | some _ => .error (.alreadySet f)
  | none => .ok (r.set f v)

/-- The record with the value that a text stands for. -/
def apply (r : Record) (f : Field) (raw : Bytes) : Except LineFault Record :=
  match f.read raw with
  | .ok v => r.put f v
  | .error fault => .error fault

@[simp] theorem get_empty (f : Field) : empty.get f = none := by cases f <;> rfl

/-- A field that is set has that value. -/
@[simp] theorem get_set (r : Record) (f : Field) (v : f.kind.Value) :
    (r.set f v).get f = some v := by
  cases f <;> rfl

/-- Setting a field leaves the others as they are. -/
theorem get_set_of_ne (r : Record) {f g : Field} (h : g ≠ f) (v : f.kind.Value) :
    (r.set f v).get g = r.get g := by
  cases f <;> cases g <;> try rfl
  all_goals contradiction

/-- Records with the same values are equal. -/
theorem ext_get {r s : Record} (h : ∀ f, r.get f = s.get f) : r = s := by
  cases r
  cases s
  exact Record.mk.injEq .. ▸
    ⟨h .version, h .kdf, h .rounds, h .salt, h .id, h .data, h .checksum⟩

end Record

end SigningKeys
