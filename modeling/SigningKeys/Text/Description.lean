import SigningKeys.Text.Decimal

/-!
# Descriptions of simple values

## Main definitions

* `Description.ofBool`, `Description.ofOption`, `Description.ofBytes`: how truth values, optional
  values and byte strings are described.
-/

namespace SigningKeys

namespace Description

/-- A truth value. -/
def ofBool (b : Bool) : String := if b then "true" else "false"

/-- An optional value, given the description of a value. -/
def ofOption {α : Type} (describe : α → String) : Option α → String
  | none => "None"
  | some a => "Some(" ++ describe a ++ ")"

/-- A byte string, as the numbers of its bytes. -/
def ofBytes (bs : Bytes) : String :=
  "[" ++ ", ".intercalate (bs.map fun b => Decimal.text b.toNat) ++ "]"

end Description

end SigningKeys
