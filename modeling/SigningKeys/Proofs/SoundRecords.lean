import SigningKeys.Proofs.UnlockErrors

/-!
# What sound values rule out

The values of a record are checked where they are read, and some are looked at again later: a salt
must not be empty, a recovered secret and its identifier must have the lengths of those of a key,
and the digits of a secret must fill their buffer.  For a record that a caller can come by, all of
these later checks succeed.

## Main results

* `Record.length_of_unlock`: a key that is handed out has a secret and an identifier of the right
  lengths.
* `Record.write_ne_format`: a record is never at fault when it is written.
* `Record.Reachable.sound`: **the values of a record that a caller can come by are sound, and no
  operation on it fails for a value that is not.**
-/

namespace SigningKeys

open Byte

/-- The bytes of a text are UTF-8. -/
theorem Utf8.isValidUTF8_encode (s : String) : (encode s).toByteArray.IsValidUTF8 :=
  ⟨s.toList, rfl⟩

namespace Record

variable {r : Record}

/-- A key that is handed out has a secret and an identifier of the right lengths. -/
theorem length_of_unlock {shape : Shape} {source : Option PasswordSource}
    {settings : LoadSettings} {entropy : Entropy} {key : SecretKey}
    (h : (r.unlock shape source settings entropy).result = .ok key) :
    key.data.length = Layout.secretLength ∧ key.id.length = Layout.idLength := by
  cases shape with
  | plaintext =>
    obtain ⟨-, -, hdata, hid, -⟩ := takeSecret_eq_ok_iff.mp h
    exact ⟨hdata, hid⟩
  | encrypted =>
    obtain ⟨-, -, s, -, password, -, -, -, hunwrap⟩ := recoverSecret_eq_ok_iff.mp h
    obtain ⟨-, -, -, hdata, hid, -⟩ := Sealed.unwrap_eq_ok_iff.mp hunwrap
    exact ⟨hdata, hid⟩

/-- A record is never at fault when it is written: it has a shape or not, and what goes wrong in
writing its lines is up to the sink. -/
theorem write_ne_format (r : Record) (s : Sink) (fault : FormatFault) :
    (r.write s).2 ≠ .error (.format fault) := by
  rw [write_eq]
  cases r.shape 1 with
  | error fault => simp
  | ok shape =>
    cases (s.writeAll r.pieces).2 <;> simp [Except.mapError]

/-- The values of a record that a caller can come by have their lengths, and the name of its KDF is
text on one line that does not start with a blank.  So unlocking never finds a fault of format or
an empty salt, the keys that it hands out have a secret and an identifier of the right lengths, and
writing never finds a fault of format either. -/
theorem Reachable.sound (hr : r.Reachable) :
    ((∀ bs, r.salt = some bs → bs.length = 16) ∧ (∀ bs, r.id = some bs → bs.length = 8) ∧
        (∀ bs, r.data = some bs → bs.length = 64) ∧
        (∀ bs, r.checksum = some bs → bs.length = 64) ∧
        ∀ s, r.kdf = some s →
          (Utf8.encode s).toByteArray.IsValidUTF8 ∧ newline ∉ Utf8.encode s ∧
            ∀ b, (Utf8.encode s).head? = some b → isBlank b = false) ∧
      (∀ shape source settings entropy,
        (∀ fault, (r.unlock shape source settings entropy).result ≠ .error (.format fault)) ∧
        (r.unlock shape source settings entropy).result ≠ .error (.keyDerivation .emptySalt) ∧
        ∀ key, (r.unlock shape source settings entropy).result = .ok key →
          key.data.length = 64 ∧ key.id.length = 8) ∧
      ∀ sink fault, (r.write sink).2 ≠ .error (.format fault) := by
  have hwf := hr.wellFormed
  refine ⟨⟨hwf .salt, hwf .id, hwf .data, hwf .checksum, ?_⟩, ?_, r.write_ne_format⟩
  · intro s hs
    exact ⟨Utf8.isValidUTF8_encode s, hwf .kdf s hs⟩
  · intro shape source settings entropy
    refine ⟨?_, ?_, fun key => length_of_unlock⟩
    · intro fault h
      cases unlockFails_of_error hwf h
    · intro h
      cases unlockFails_of_error hwf h

/-- A record with a value that stands on the line behind its name, after a line that is at fault. -/
theorem scan_zeros_sound :
    ∃ r : Record, r.Reachable ∧ r.kdf = some "scrypt " ∧
      (∀ s, r.kdf = some s → newline ∉ Utf8.encode s) ∧
      ∀ sink fault, (r.write sink).2 ≠ .error (.format fault) := by
  have hscan : zeros.scan (Utf8.encode "kdf:\n\t scrypt \nid: 00\nrounds: 1\n") =
      ⟨{ zeros with kdf := some "scrypt " }, some (.wrongLength .id 8)⟩ := by
    decide +kernel
  have hr := reachable_zeros.scan (Utf8.encode "kdf:\n\t scrypt \nid: 00\nrounds: 1\n")
  rw [hscan] at hr
  obtain ⟨⟨-, -, -, -, hkdf⟩, -, hwrite⟩ := hr.sound
  exact ⟨_, hr, rfl, fun s hs => (hkdf s hs).2.1, hwrite⟩

end Record

end SigningKeys
