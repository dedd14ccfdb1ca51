import SigningKeys.Proofs.Authenticity

/-!
# How unlocking fails

A well-formed record is unlocked unless it lacks a value, nobody can be asked for the password, the
password is refused, or the password would be stretched no times.  Other errors have a place in the
code, but the lengths of the values of a well-formed record keep them from occurring: its salt is
not empty, and secret and identifier have the lengths of those of a key.

## Main definitions

* `Record.UnlockFails`: the errors of unlocking, each with what has led to it.

## Main results

* `askPassword_eq_error`: a password that is not given is refused.
* `Sealed.unwrap_eq_error`: a wrapping key that is wrong is told by the checksum.
* `Record.unlockFails_of_error`: **a well-formed record fails to unlock in these ways only.**
-/

namespace SigningKeys

/-! ### Passwords and wrapping keys -/

/-- A password is refused as one that has overrun its buffer or as none. -/
theorem acceptPassword_eq_error {capacity : ℕ} {canary buffer : Bytes} {reported : Option ℕ}
    {e : KeyError} (h : (acceptPassword capacity canary buffer reported).result = .error e) :
    e = .authentication .bufferOverflow ∨ e = .authentication .notProvided := by
  unfold acceptPassword at h
  split at h
  · cases h
    exact .inl rfl
  · split at h
    · cases h
      exact .inr rfl
    · split at h
      · cases h
        exact .inl rfl
      · split at h
        · cases h
          exact .inr rfl
        · cases h

/-- A password that is not given is refused. -/
theorem askPassword_eq_error {source : PasswordSource} {settings : LoadSettings}
    {entropy : Entropy} {e : KeyError}
    (h : (askPassword source settings entropy).result = .error e) :
    ∃ fault, e = .authentication fault := by
  by_cases hzero : settings.capacity = 0
  · rw [askPassword, if_pos hzero] at h
    cases h
    exact ⟨.bufferTooSmall, rfl⟩
  · rw [result_askPassword entropy hzero] at h
    rcases acceptPassword_eq_error h with rfl | rfl
    · exact ⟨.bufferOverflow, rfl⟩
    · exact ⟨.notProvided, rfl⟩

/-- With a salt, only a password that would be stretched no times gives no key. -/
theorem wrappingKey_eq_error {password salt : Bytes} {rounds : UInt32} {e : KeyError}
    (hsalt : salt ≠ []) (h : wrappingKey password salt rounds = .error e) :
    rounds = 0 ∧ e = .keyDerivation .zeroRounds := by
  rw [wrappingKey, if_neg hsalt] at h
  split at h
  · next hrounds =>
    cases h
    exact ⟨hrounds, rfl⟩
  · cases h

namespace Record

/-- A wrapping key that is wrong is told by the checksum. -/
theorem Sealed.unwrap_eq_error {s : Sealed} {key : Bytes} {settings : LoadSettings}
    {e : KeyError} (hdata : s.data.length = Layout.secretLength)
    (hid : s.id.length = Layout.idLength) (hkey : key.length = Layout.secretLength)
    (h : s.unwrap key settings = .error e) : e = .authentication .checksumMismatch := by
  rw [Sealed.unwrap_of_length settings hdata hid hkey] at h
  split at h
  · cases h
  · cases h
    rfl

/-! ### Records -/

/-- The errors of unlocking a well-formed record of some shape, each with what has led to it. -/
inductive UnlockFails (r : Record) (source : Option PasswordSource) : Shape → KeyError → Prop where
  /-- A plaintext key lacks its identifier or its secret. -/
  | plaintextLacks {fault : ShapeFault} (h : ¬ (r.id.isSome ∧ r.data.isSome)) :
    UnlockFails r source .plaintext (.inconsistent fault)
  /-- There is nobody to ask for the password. -/
  | noSource (h : source = none) : UnlockFails r source .encrypted .passwordRequired
  /-- An encrypted key lacks a value. -/
  | encryptedLacks {fault : ShapeFault} (hsource : source ≠ none) (h : ∀ s, r.sealed ≠ .ok s) :
    UnlockFails r source .encrypted (.inconsistent fault)
  /-- The password is refused, or it is not the right one. -/
  | refused {fault : PasswordFault} (hsource : source ≠ none) :
    UnlockFails r source .encrypted (.authentication fault)
  /-- The password would be stretched no times. -/
  | zeroRounds (hsource : source ≠ none) (h : r.rounds = some 0) :
    UnlockFails r source .encrypted (.keyDerivation .zeroRounds)

variable {r : Record} {source : Option PasswordSource} {settings : LoadSettings}
  {entropy : Entropy} {e : KeyError}

theorem sealed_eq_error (h : r.sealed = .error e) : ∃ fault, e = .inconsistent fault := by
  unfold sealed at h
  split at h
  · cases hdata : r.data with
    | none =>
      rw [hdata] at h
      cases h
      exact ⟨_, rfl⟩
    | some data =>
      rw [hdata] at h
      cases h
  · cases h
    exact ⟨_, rfl⟩

theorem takeSecret_of_complete (hwf : r.WellFormed) {id data : Bytes} (hid : r.id = some id)
    (hdata : r.data = some data) :
    r.takeSecret settings = .ok ⟨data, id, settings.lockMemory⟩ :=
  takeSecret_eq_ok_iff.mpr ⟨hid, hdata, hwf .data data hdata, hwf .id id hid, rfl⟩

theorem takeSecret_fails (hwf : r.WellFormed) (h : r.takeSecret settings = .error e) :
    r.UnlockFails source .plaintext e := by
  cases hid : r.id with
  | none =>
    rw [takeSecret, hid] at h
    cases h
    exact .plaintextLacks (by simp [hid])
  | some id =>
    cases hdata : r.data with
    | none =>
      rw [takeSecret, hid, hdata] at h
      cases h
      exact .plaintextLacks (by simp [hdata])
    | some data =>
      rw [takeSecret_of_complete hwf hid hdata] at h
      cases h

theorem recoverSecret_fails (hwf : r.WellFormed)
    (h : (r.recoverSecret source settings entropy).result = .error e) :
    r.UnlockFails source .encrypted e := by
  cases source with
  | none =>
    cases h
    exact .noSource rfl
  | some asked =>
    have hsource : some asked ≠ none := Option.some_ne_none asked
    rw [recoverSecret, Outcome.bind_eq, Outcome.bind_eq_error_iff] at h
    rcases h with hsealed | ⟨s, hs, h⟩
    · obtain ⟨fault, rfl⟩ := sealed_eq_error hsealed
      refine .encryptedLacks hsource fun s hs => ?_
      rw [Outcome.result_ofExcept, hs] at hsealed
      cases hsealed
    obtain ⟨hsalt, hrounds, -, hid, hdata⟩ := sealed_eq_ok_iff.mp hs
    rw [Outcome.bind_eq, Outcome.bind_eq_error_iff] at h
    rcases h with hask | ⟨password, -, h⟩
    · obtain ⟨fault, rfl⟩ := askPassword_eq_error hask
      exact .refused hsource
    rw [Outcome.bind_eq, Outcome.bind_eq_error_iff] at h
    rcases h with hkey | ⟨key, hkey, h⟩
    · obtain ⟨hzero, rfl⟩ := wrappingKey_eq_error (hwf.salt_ne_nil hsalt) hkey
      exact .zeroRounds hsource (hzero ▸ hrounds)
    · have hsum := Sealed.unwrap_eq_error (hwf .data s.data hdata) (hwf .id s.id hid)
        (length_of_wrappingKey hkey) h
      exact hsum ▸ .refused hsource

/-- A well-formed record fails to unlock in these ways only. -/
theorem unlockFails_of_error (hwf : r.WellFormed) {shape : Shape}
    (h : (r.unlock shape source settings entropy).result = .error e) :
    r.UnlockFails source shape e := by
  cases shape with
  | plaintext => exact takeSecret_fails hwf h
  | encrypted => exact recoverSecret_fails hwf h

end Record

end SigningKeys
