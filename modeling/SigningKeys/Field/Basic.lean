import SigningKeys.Layout

/-!
# The fields of a private key container

A container holds at most one value for each of seven fields.  A field has a name, under which its
line is written, and a kind, which says how its value is written and what the value is.

The table of fields is sorted by name, so a name is found by halving.

## Main definitions

* `Field`, `Field.name`, `Field.kind`: the fields.
* `Kind`, `Kind.Value`: how values are written, and the values of each kind.
* `Field.table`: all fields in the order of their names.
* `Field.lookup`: the field of a name.
-/

namespace SigningKeys

/-- How the value of a field is written. -/
inductive Kind where
  /-- Free text. -/
  | text
  /-- A decimal number that fits into 32 bits. -/
  | unsigned
  /-- That many bytes in hexadecimal digits. -/
  | hex (length : Nat)
  deriving DecidableEq, Repr

/-- The values of a kind. -/
def Kind.Value : Kind → Type
  | .text => String
  | .unsigned => UInt32
  | .hex _ => Bytes

instance (k : Kind) : DecidableEq k.Value :=
  match k with
  | .text => inferInstanceAs (DecidableEq String)
  | .unsigned => inferInstanceAs (DecidableEq UInt32)
  | .hex _ => inferInstanceAs (DecidableEq Bytes)

/-- A field of a private key container. -/
inductive Field where
  /-- The checksum of the secret. -/
  | checksum
  /-- The secret, wrapped or as it is. -/
  | data
  /-- The key identifier. -/
  | id
  /-- The name of the function that stretches the password. -/
  | kdf
  /-- How often that function is applied. -/
  | rounds
  /-- The salt of the password. -/
  | salt
  /-- The version of the container. -/
  | version
  deriving DecidableEq, Repr

namespace Field

/-- The name under which a field is written. -/
def name : Field → String
  | checksum => "checksum"
  | data => "data"
  | id => "id"
  | kdf => "kdf"
  | rounds => "rounds"
  | salt => "salt"
  | version => "version"

/-- The bytes of the name. -/
def nameBytes (f : Field) : Bytes := Utf8.encode f.name

/-- How the value of a field is written. -/
def kind : Field → Kind
  | checksum => .hex Layout.digestLength
  | data => .hex Layout.secretLength
  | id => .hex Layout.idLength
  | kdf => .text
  | rounds => .unsigned
  | salt => .hex Layout.saltLength
  | version => .unsigned

/-- All fields, in the order of their names. -/
def table : List Field := [checksum, data, id, kdf, rounds, salt, version]

/-- All fields, in the order in which a container lists them. -/
def written : List Field := [version, data, id, kdf, rounds, salt, checksum]

/-! ### Finding a field by its name -/

/-- Looks a name up in a list of fields that is sorted by name: the field in the middle either has
the name or tells in which half to look on. -/
def search (name : Bytes) (fields : List Field) : Option Field :=
  match _h : fields.drop (fields.length / 2) with
  | [] => none
  | f :: later =>
    match Bytes.order f.nameBytes name with
    | .eq => some f
    | .lt => search name later
    | .gt => search name (fields.take (fields.length / 2))
termination_by fields.length
decreasing_by
  all_goals
    have hl := congrArg List.length _h
    simp only [List.length_drop, List.length_cons, List.length_take] at hl ⊢
    omega

/-- The field whose name has exactly these bytes. -/
def lookup (name : Bytes) : Option Field := search name table

theorem mem_table (f : Field) : f ∈ table := by cases f <;> decide

theorem mem_written (f : Field) : f ∈ written := by cases f <;> decide

/-- The table is sorted by name. -/
theorem pairwise_table :
    table.Pairwise fun f g => Bytes.order f.nameBytes g.nameBytes = .lt := by
  decide

end Field

end SigningKeys
