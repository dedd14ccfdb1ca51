import SigningKeys.Record.Basic
import SigningKeys.Text.Description
import SigningKeys.Text.Quoted

/-!
# Descriptions of records

A description shows what is public about a record.  Of the secret it tells that there is one, and
of the checksum whether there is one.

## Main definitions

* `Record.describe`: the description of a record.
-/

namespace SigningKeys

namespace Record

/-- The description of a record, if `shown` says which characters past ASCII are shown as they
are. -/
def describe (r : Record) (shown : Char → Bool) : String :=
  "PrivateKeyRecord \x7b version: " ++
    Description.ofOption (fun v => Decimal.text v.toNat) r.version ++
    ", pbkdf_algorithm: " ++ Description.ofOption (Quoted.quote shown) r.kdf ++
    ", rounds: " ++ Description.ofOption (fun n => Decimal.text n.toNat) r.rounds ++
    ", salt: " ++ Description.ofOption (fun bs => Quoted.quoteAscii (Hex.text bs)) r.salt ++
    ", id: " ++ Description.ofOption (fun bs => Quoted.quoteAscii (Hex.text bs)) r.id ++
    ", encrypted_blob: " ++ Description.ofOption (fun _ => Quoted.quoteAscii "***") r.data ++
    ", checksum: " ++ Description.ofBool r.checksum.isSome ++ " \x7d"

end Record

end SigningKeys
