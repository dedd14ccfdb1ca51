import SigningKeys.Proofs.UnlockErrors

/-!
# Complete records

A record is a complete encrypted key, a complete plaintext key, or neither.  The shape of a record
tells which, and unlocking relies on it.  There is one exception: rounds that are not stored count
as none, so that a record that lacks only them passes for an encrypted key where none are required.
Unlocking then finds the record incomplete.

## Main definitions

* `Record.EncryptedKey`, `Record.PlaintextKey`: complete keys of either shape.
* `Record.LacksRounds`: the exception.

## Main results

* `Record.shape_eq_encrypted_iff_key`, `Record.shape_eq_plaintext_iff_key`: what a shape tells.
* `Record.unlock_error_of_shape`: a record of a known shape is never found inconsistent.
* `Record.shape_reliable_iff`: **the shape of a record tells what it is, and can be relied on when
  it is unlocked, exactly outside of the exception.**
-/

namespace SigningKeys

namespace Record

/-! ### Complete keys -/

/-- The record is a complete encrypted key with as many rounds as are required. -/
structure EncryptedKey (r : Record) (minRounds : UInt32) : Prop where
  /-- The version is the known one. -/
  version : r.version = some 1
  /-- The KDF is the known one. -/
  kdf : r.kdf = some "pbkdf2-sha256"
  /-- Rounds are stored, and they are enough. -/
  rounds : ∃ rounds, r.rounds = some rounds ∧ minRounds ≤ rounds
  /-- All other values are stored. -/
  values : r.salt.isSome ∧ r.id.isSome ∧ r.data.isSome ∧ r.checksum.isSome

/-- The record is a complete plaintext key. -/
structure PlaintextKey (r : Record) : Prop where
  /-- The version is the known one. -/
  version : r.version = some 1
  /-- There is no KDF, or not the known one. -/
  kdf : r.kdf ≠ some "pbkdf2-sha256"
  /-- The identifier and the secret are stored. -/
  values : r.id.isSome ∧ r.data.isSome

/-- No rounds are required, and their value is all that the record lacks of an encrypted key. -/
structure LacksRounds (r : Record) (minRounds : UInt32) : Prop where
  /-- No rounds are required. -/
  required : minRounds = 0
  /-- No rounds are stored. -/
  rounds : r.rounds = none
  /-- The version is the known one. -/
  version : r.version = some 1
  /-- The KDF is the known one. -/
  kdf : r.kdf = some "pbkdf2-sha256"
  /-- All other values are stored. -/
  values : r.salt.isSome ∧ r.id.isSome ∧ r.data.isSome ∧ r.checksum.isSome

variable {r : Record} {minRounds : UInt32}

theorem EncryptedKey.not_lacksRounds (h : r.EncryptedKey minRounds) :
    ¬ r.LacksRounds minRounds := by
  intro hlacks
  obtain ⟨rounds, hrounds, -⟩ := h.rounds
  rw [hlacks.rounds] at hrounds
  cases hrounds

theorem LacksRounds.shape (h : r.LacksRounds minRounds) : r.shape minRounds = .ok .encrypted := by
  have hdeclared : minRounds ≤ r.declaredRounds := by
    rw [h.required, declaredRounds, h.rounds]
    exact UInt32.le_refl 0
  exact shape_eq_encrypted_iff.mpr ⟨h.version, h.kdf, hdeclared, h.values⟩

/-- An encrypted key is complete, or rounds are neither required nor stored. -/
theorem shape_eq_encrypted_iff_key_or :
    r.shape minRounds = .ok .encrypted ↔
      r.EncryptedKey minRounds ∨ r.LacksRounds minRounds := by
  constructor
  · intro h
    obtain ⟨hversion, hkdf, hdeclared, hvalues⟩ := shape_eq_encrypted_iff.mp h
    cases hrounds : r.rounds with
    | some rounds =>
      rw [declaredRounds, hrounds, Option.getD_some] at hdeclared
      exact .inl ⟨hversion, hkdf, ⟨rounds, hrounds, hdeclared⟩, hvalues⟩
    | none =>
      rw [declaredRounds, hrounds, Option.getD_none] at hdeclared
      have hzero : minRounds = 0 := UInt32.le_antisymm hdeclared UInt32.zero_le
      exact .inr ⟨hzero, hrounds, hversion, hkdf, hvalues⟩
  · rintro (h | h)
    · obtain ⟨rounds, hrounds, hle⟩ := h.rounds
      have hdeclared : minRounds ≤ r.declaredRounds := by
        rw [declaredRounds, hrounds, Option.getD_some]
        exact hle
      exact shape_eq_encrypted_iff.mpr ⟨h.version, h.kdf, hdeclared, h.values⟩
    · exact h.shape

theorem shape_eq_encrypted_iff_key (h : ¬ r.LacksRounds minRounds) :
    r.shape minRounds = .ok .encrypted ↔ r.EncryptedKey minRounds := by
  rw [shape_eq_encrypted_iff_key_or, or_iff_left h]

theorem shape_eq_plaintext_iff_key :
    r.shape minRounds = .ok .plaintext ↔ r.PlaintextKey := by
  rw [shape_eq_plaintext_iff]
  constructor
  · rintro ⟨hversion, hkdf, hvalues⟩
    exact ⟨hversion, hkdf, hvalues⟩
  · intro h
    exact ⟨h.version, h.kdf, h.values⟩

/-- A record that is neither complete key has no shape. -/
theorem shape_eq_error_of_not_key (hlacks : ¬ r.LacksRounds minRounds)
    (hencrypted : ¬ r.EncryptedKey minRounds) (hplaintext : ¬ r.PlaintextKey) :
    ∃ fault, r.shape minRounds = .error fault := by
  cases hshape : r.shape minRounds with
  | error fault => exact ⟨fault, rfl⟩
  | ok shape =>
    cases shape with
    | encrypted => exact absurd ((shape_eq_encrypted_iff_key hlacks).mp hshape) hencrypted
    | plaintext => exact absurd (shape_eq_plaintext_iff_key.mp hshape) hplaintext

/-! ### Unlocking complete keys -/

/-- A complete encrypted key has all parts that unlocking needs. -/
theorem EncryptedKey.sealed (h : r.EncryptedKey minRounds) : ∃ s, r.sealed = .ok s := by
  obtain ⟨rounds, hrounds, -⟩ := h.rounds
  obtain ⟨hsalt, hid, hdata, hchecksum⟩ := h.values
  exact exists_sealed_iff.mpr ⟨hsalt, Option.isSome_of_eq_some hrounds, hchecksum, hid, hdata⟩

/-- A record that lacks its rounds is not unlocked, whatever the password. -/
theorem LacksRounds.unlock (h : r.LacksRounds minRounds) (source : PasswordSource)
    (settings : LoadSettings) (entropy : Entropy) :
    (r.unlock .encrypted (some source) settings entropy).result =
      .error (.inconsistent .incomplete) := by
  have hsealed : r.sealed = .error (.inconsistent .incomplete) := by
    unfold Record.sealed
    split
    · next hrounds _ _ =>
      rw [h.rounds] at hrounds
      cases hrounds
    · rfl
  rw [Record.unlock, Outcome.result_reporting, recoverSecret, Outcome.bind_eq,
    Outcome.result_bind_of_error _ hsealed]

/-- A record that is unlocked as what it is is never found inconsistent, and without a source only
a complete encrypted key is not handed out. -/
theorem unlock_error_of_shape (hr : r.Reachable) {shape : Shape}
    {source : Option PasswordSource} {settings : LoadSettings} {entropy : Entropy} {e : KeyError}
    (hlacks : ¬ r.LacksRounds settings.minRounds)
    (hshape : r.shape settings.minRounds = .ok shape)
    (h : (r.unlock shape source settings entropy).result = .error e) :
    (∀ fault, e ≠ .inconsistent fault) ∧
      (source = none → shape = .encrypted ∧ r.EncryptedKey settings.minRounds) := by
  have hencrypted := shape_eq_encrypted_iff_key hlacks
  cases unlockFails_of_error hr.wellFormed h with
  | plaintextLacks hvalues =>
    exact absurd (shape_eq_plaintext_iff_key.mp hshape).values hvalues
  | noSource => exact ⟨fun fault => by simp, fun _ => ⟨rfl, hencrypted.mp hshape⟩⟩
  | encryptedLacks hsource hsealed =>
    obtain ⟨s, hs⟩ := (hencrypted.mp hshape).sealed
    exact absurd hs (hsealed s)
  | refused hsource => exact ⟨fun fault => by simp, fun hnone => absurd hnone hsource⟩
  | zeroRounds hsource => exact ⟨fun fault => by simp, fun hnone => absurd hnone hsource⟩

/-! ### Keys of zeros -/

/-- An encrypted key of zeros, with these rounds. -/
def encryptedZeros (rounds : Option UInt32) : Record where
  version := some 1
  kdf := some "pbkdf2-sha256"
  rounds := rounds
  salt := some (List.replicate 16 0)
  id := some (List.replicate 8 0)
  data := some (List.replicate 64 0)
  checksum := some (List.replicate 64 0)

theorem reachable_encryptedZeros (rounds : Option UInt32) : (encryptedZeros rounds).Reachable := by
  have hkdf := reachable_zeros.set (f := .kdf) sound_kdfName rfl
  have hsalt := hkdf.set (f := .salt) (v := List.replicate 16 (0 : UInt8)) rfl rfl
  have hchecksum := hsalt.set (f := .checksum) (v := List.replicate 64 (0 : UInt8)) rfl rfl
  cases rounds with
  | none => exact hchecksum
  | some n => exact hchecksum.set (f := .rounds) (v := n) trivial rfl

/-! ### Reliable shapes -/

/-- The shape of a record tells what it is, and unlocking a record of the told shape never finds it
inconsistent and without a source only stops at a complete encrypted key, exactly unless the record
lacks nothing but its rounds and no rounds are required. -/
theorem shape_reliable_iff (r : Record) (minRounds : UInt32) :
    ((r.shape minRounds = .ok .encrypted ↔ r.EncryptedKey minRounds) ∧
        (r.shape minRounds = .ok .plaintext ↔ r.PlaintextKey) ∧
        (¬ r.EncryptedKey minRounds → ¬ r.PlaintextKey →
          ∃ fault, r.shape minRounds = .error fault) ↔
      ¬ r.LacksRounds minRounds) ∧
    (r.Reachable →
      ((∀ shape source settings entropy e, settings.minRounds = minRounds →
          r.shape settings.minRounds = .ok shape →
          (r.unlock shape source settings entropy).result = .error e →
          (∀ fault, e ≠ .inconsistent fault) ∧
            (source = none → shape = .encrypted ∧ r.EncryptedKey settings.minRounds)) ↔
        ¬ r.LacksRounds minRounds)) := by
  constructor
  · constructor
    · rintro ⟨hencrypted, -, -⟩ hlacks
      exact (hencrypted.mp hlacks.shape).not_lacksRounds hlacks
    · intro hlacks
      exact ⟨shape_eq_encrypted_iff_key hlacks, shape_eq_plaintext_iff_key,
        shape_eq_error_of_not_key hlacks⟩
  · intro hr
    constructor
    · intro hrelies hlacks
      have hunlock := hlacks.unlock (.fixed []) ⟨minRounds, 0, false⟩ ⟨fun _ => 0⟩
      exact (hrelies .encrypted _ _ _ _ rfl hlacks.shape hunlock).1 _ rfl
    · rintro hlacks shape source settings entropy e rfl hshape herror
      exact unlock_error_of_shape hr hlacks hshape herror

/-- With rounds, the shape of the record can be relied on, also where none are required. -/
theorem encryptedZeros_shape_reliable :
    (encryptedZeros (some 1)).Reachable ∧ (encryptedZeros (some 1)).EncryptedKey 0 ∧
      ∀ source entropy e fault, ((encryptedZeros (some 1)).unlock .encrypted source
        ⟨0, 64, false⟩ entropy).result = .error e → e ≠ .inconsistent fault := by
  have hr := reachable_encryptedZeros (some 1)
  have hlacks : ¬ (encryptedZeros (some 1)).LacksRounds 0 := by
    intro h
    cases h.rounds
  obtain ⟨htells, hrelies⟩ := shape_reliable_iff (encryptedZeros (some 1)) 0
  have hshape : (encryptedZeros (some 1)).shape 0 = .ok .encrypted := by decide
  refine ⟨hr, (htells.mpr hlacks).1.mp hshape, ?_⟩
  intro source entropy e fault herror
  exact ((hrelies hr).mpr hlacks .encrypted source _ entropy e rfl hshape herror).1 fault

/-- Without rounds, the record passes for an encrypted key where none are required.  It is no
complete key, and cannot be unlocked for that reason. -/
theorem encryptedZeros_without_rounds :
    (encryptedZeros none).Reachable ∧ (encryptedZeros none).shape 0 = .ok .encrypted ∧
      ¬ (encryptedZeros none).EncryptedKey 0 ∧
      ((encryptedZeros none).unlock .encrypted (some (.fixed [97])) ⟨0, 64, false⟩
        ⟨fun _ => 0⟩).result = .error (.inconsistent .incomplete) := by
  have hlacks : (encryptedZeros none).LacksRounds 0 :=
    ⟨rfl, rfl, rfl, rfl, rfl, rfl, rfl, rfl⟩
  refine ⟨reachable_encryptedZeros none, hlacks.shape, ?_, hlacks.unlock _ _ _⟩
  exact fun h => h.not_lacksRounds hlacks

end Record

end SigningKeys
