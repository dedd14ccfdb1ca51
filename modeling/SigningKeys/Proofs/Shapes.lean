import SigningKeys.Record.Shape

/-!
# When a record has a shape

Both shapes are told by the values that a record holds.  The KDF alone decides between them, so a
record never has both.

## Main results

* `Record.shape_eq_encrypted_iff`, `Record.shape_eq_plaintext_iff`: **when a record has a shape.**
-/

namespace SigningKeys

namespace Record

theorem firstMissing_eq_none_iff {r : Record} {fields : List Field} :
    r.firstMissing fields = none ↔ ∀ f ∈ fields, (r.get f).isSome := by
  simp [firstMissing, List.find?_eq_none, Option.isSome_iff_ne_none]

theorem encryptedShape_eq_ok_iff {r : Record} {minRounds : UInt32} {shape : Shape} :
    r.encryptedShape minRounds = .ok shape ↔
      shape = .encrypted ∧ minRounds ≤ r.declaredRounds ∧ r.salt.isSome ∧ r.id.isSome ∧
        r.data.isSome ∧ r.checksum.isSome := by
  have hfields : r.firstMissing encryptedFields = none ↔
      r.salt.isSome ∧ r.id.isSome ∧ r.data.isSome ∧ r.checksum.isSome := by
    simp only [firstMissing_eq_none_iff, encryptedFields, List.mem_cons, List.not_mem_nil,
      or_false, forall_eq_or_imp, forall_eq]
    exact Iff.rfl
  rw [← hfields, encryptedShape]
  by_cases hrounds : r.declaredRounds < minRounds
  · have hnot : ¬ minRounds ≤ r.declaredRounds := UInt32.not_le.mpr hrounds
    simp [hrounds, hnot]
  · have hle : minRounds ≤ r.declaredRounds := UInt32.not_lt.mp hrounds
    rw [if_neg hrounds]
    cases r.firstMissing encryptedFields with
    | some f => simp
    | none => simp [hle, eq_comm]

theorem plaintextShape_eq_ok_iff {r : Record} {shape : Shape} :
    r.plaintextShape = .ok shape ↔ shape = .plaintext ∧ r.id.isSome ∧ r.data.isSome := by
  rw [plaintextShape]
  by_cases h : r.id.isSome ∧ r.data.isSome
  · simp [h, eq_comm]
  · rw [if_neg h]
    simp only [reduceCtorEq, false_iff]
    exact fun h' => h h'.2

theorem shape_eq_ok_iff {r : Record} {minRounds : UInt32} {shape : Shape} :
    r.shape minRounds = .ok shape ↔
      r.version = some Layout.version ∧
        if r.kdf = some Layout.kdfName then r.encryptedShape minRounds = .ok shape
        else r.plaintextShape = .ok shape := by
  rw [Record.shape]
  cases hv : r.version with
  | none => simp
  | some v =>
    by_cases hone : v = Layout.version
    · simp only [hone, if_true, true_and]
      split <;> rfl
    · simp [hone]

/-- A record is encrypted exactly if it has the known version and KDF, enough rounds and all
fields of an encrypted key. -/
theorem shape_eq_encrypted_iff {r : Record} {minRounds : UInt32} :
    r.shape minRounds = .ok .encrypted ↔
      r.version = some Layout.version ∧ r.kdf = some Layout.kdfName ∧
        minRounds ≤ r.declaredRounds ∧ r.salt.isSome ∧ r.id.isSome ∧ r.data.isSome ∧
        r.checksum.isSome := by
  rw [shape_eq_ok_iff]
  by_cases hk : r.kdf = some Layout.kdfName
  · rw [if_pos hk, encryptedShape_eq_ok_iff]
    simp only [hk, true_and]
  · simp [hk, plaintextShape_eq_ok_iff]

/-- A record is a plaintext key exactly if it has the known version, not the known KDF, and an
identifier and a secret. -/
theorem shape_eq_plaintext_iff {r : Record} {minRounds : UInt32} :
    r.shape minRounds = .ok .plaintext ↔
      r.version = some Layout.version ∧ r.kdf ≠ some Layout.kdfName ∧
        r.id.isSome ∧ r.data.isSome := by
  rw [shape_eq_ok_iff]
  by_cases hk : r.kdf = some Layout.kdfName
  · simp [hk, encryptedShape_eq_ok_iff]
  · rw [if_neg hk, plaintextShape_eq_ok_iff]
    simp only [hk, true_and, ne_eq, not_false_eq_true]

end Record

end SigningKeys
