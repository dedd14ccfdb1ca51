import SigningKeys.KeyError
import SigningKeys.Text.Description
import SigningKeys.Text.Hex
import SigningKeys.Text.Quoted

/-!
# Secret keys

## Main definitions

* `SecretKey`: a recovered secret and its identifier.
* `SecretKey.ofParts`: the secret key of some bytes, if their lengths are right.
* `SecretKey.same`: whether two keys agree in secret and identifier.
* `SecretKey.describe`: a description without the secret.
-/

namespace SigningKeys

/-- A recovered secret and its identifier. -/
structure SecretKey where
  /-- The secret. -/
  data : Bytes
  /-- The key identifier. -/
  id : Bytes
  /-- Whether the secret is to be kept out of swapped memory, as the settings say. -/
  locked : Bool
  deriving DecidableEq

namespace SecretKey

/-- The secret key of some bytes, if their lengths are right.  `locked` is what the settings ask
for: whether the system then grants it, and the warning if it does not, are not modelled. -/
def ofParts (data id : Bytes) (locked : Bool) : Except KeyError SecretKey :=
  if data.length = Layout.secretLength then
    if id.length = Layout.idLength then .ok ⟨data, id, locked⟩
    else .error (.format .idLength)
  else .error (.format (.recoveredLength data.length))

/-- Whether two keys agree in secret and identifier. -/
def same (a b : SecretKey) : Bool := a.id == b.id && a.data == b.data

/-- A description without the secret. -/
def describe (k : SecretKey) : String :=
  "SecretKey \x7b id: " ++ Quoted.quoteAscii (Hex.text k.id) ++ ", data: " ++
    Quoted.quoteAscii "***" ++ ", locked: " ++ Description.ofBool k.locked ++ " \x7d"

end SecretKey

end SigningKeys
