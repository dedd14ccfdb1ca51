import SigningKeys.Proofs.Authenticity

/-!
# Keys that are wrapped, written and loaded

A secret that has been wrapped under a password comes back when its container is loaded with that
password.  It is kept back only by settings that require more rounds than it has, or that leave no
room for the password in the buffer.

## Main results

* `SecretKey.load_of_few_rounds`, `SecretKey.load_of_small_buffer`, `SecretKey.load_wrapped`: what
  becomes of its container.
* `SecretKey.wrapped_loads_back`: **which secrets can be wrapped, and when they come back.**
-/

namespace SigningKeys

namespace Record

theorem shape_wrappedWith (secret id password : Bytes) {rounds minRounds : UInt32}
    (entropy : Entropy) (h : minRounds ≤ rounds) :
    (wrappedWith secret id password rounds entropy).shape minRounds = .ok .encrypted := by
  rw [shape_eq_encrypted_iff]
  exact ⟨rfl, rfl, h, rfl, rfl, rfl, rfl⟩

theorem shape_wrappedWith_of_lt (secret id password : Bytes) {rounds minRounds : UInt32}
    (entropy : Entropy) (h : rounds < minRounds) :
    (wrappedWith secret id password rounds entropy).shape minRounds =
      .error (.tooFewRounds rounds minRounds) := by
  have hshape : (wrappedWith secret id password rounds entropy).shape minRounds =
      (wrappedWith secret id password rounds entropy).encryptedShape minRounds := rfl
  have hdeclared : (wrappedWith secret id password rounds entropy).declaredRounds = rounds := rfl
  rw [hshape, encryptedShape, hdeclared, if_pos h]

end Record

namespace SecretKey

/-! ### Loading a wrapped secret -/

section

variable {secret id password : Bytes} {rounds : UInt32} {entropy : Entropy} {r : Record}
  {settings : LoadSettings}

/-- Settings that require more rounds refuse a wrapped secret. -/
theorem load_of_few_rounds (h : (Record.wrap secret id password rounds entropy).result = .ok r)
    (hrounds : rounds < settings.minRounds) (source : Option PasswordSource)
    (loading : Entropy) :
    (load (.ofBytes r.text) source settings loading).result =
      .error (.inconsistent (.tooFewRounds rounds settings.minRounds)) := by
  have hparse := (Record.faithful_wrap h).parse_text
  obtain ⟨-, -, -, -, rfl⟩ := Record.wrap_eq_ok_iff.mp h
  exact result_load_of_shape_error hparse
    (Record.shape_wrappedWith_of_lt secret id password entropy hrounds)

/-- A password that does not fit into the buffer is refused. -/
theorem load_of_small_buffer
    (h : (Record.wrap secret id password rounds entropy).result = .ok r)
    (hrounds : settings.minRounds ≤ rounds) (hroom : settings.capacity < password.length)
    (loading : Entropy) :
    ∃ fault, (load (.ofBytes r.text) (some (.fixed password)) settings loading).result =
      .error (.authentication fault) := by
  have hparse := (Record.faithful_wrap h).parse_text
  obtain ⟨-, -, -, -, rfl⟩ := Record.wrap_eq_ok_iff.mp h
  obtain ⟨fault, hfault⟩ := askPassword_fixed_of_small hroom loading
  refine ⟨fault, ?_⟩
  rw [result_load hparse (Record.shape_wrappedWith secret id password entropy hrounds)]
  show (Record.recoverSecret _ _ settings loading).result = _
  rw [Record.recoverSecret, Outcome.bind_eq, Outcome.result_bind_of_ok _ rfl, Outcome.bind_eq,
    Outcome.result_bind_of_error _ hfault]

/-- A wrapped secret comes back under its password. -/
theorem load_wrapped (h : (Record.wrap secret id password rounds entropy).result = .ok r)
    (hrounds : settings.minRounds ≤ rounds) (hroom : password.length ≤ settings.capacity)
    (loading : Entropy) :
    ∃ locked, (load (.ofBytes r.text) (some (.fixed password)) settings loading).result =
      .ok ⟨secret, id, locked⟩ := by
  have hparse := (Record.faithful_wrap h).parse_text
  have hwf := Record.wellFormed_wrap h
  have hopens : r.OpensUnder (some (.fixed password)) settings loading secret :=
    (Record.opensUnder_fixed_iff h).mpr ⟨hrounds, hroom, rfl⟩
  obtain ⟨hsecret, -, -, -, rfl⟩ := Record.wrap_eq_ok_iff.mp h
  obtain ⟨hshape, hrecover⟩ := (Record.recovers_iff hwf ⟨secret, id, settings.lockMemory⟩).mpr
    ⟨rfl, rfl, hsecret, rfl, hopens⟩
  refine ⟨settings.lockMemory, ?_⟩
  rw [result_load hparse hshape]
  exact hrecover

end

/-- A secret can be wrapped exactly if it and its identifier have the right lengths, the password
is not empty and it is stretched at least once.  The container of a wrapped secret is written, and
loading it under the password gives the secret and its identifier, unless the settings require
more rounds or have no room for the password. -/
theorem wrapped_loads_back (secret id password : Bytes) (rounds : UInt32) (entropy : Entropy)
    (settings : LoadSettings) :
    ((∃ r, (Record.wrap secret id password rounds entropy).result = .ok r) ↔
        secret.length = 64 ∧ id.length = 8 ∧ password ≠ [] ∧ 1 ≤ rounds) ∧
      ∀ r, (Record.wrap secret id password rounds entropy).result = .ok r →
        ∃ bytes, r.encode = .ok bytes ∧ ∀ loading : Entropy,
          let loaded :=
            (load (.ofBytes bytes) (some (.fixed password)) settings loading).result
          (rounds < settings.minRounds → ∃ fault, loaded = .error (.inconsistent fault)) ∧
          (settings.minRounds ≤ rounds → settings.capacity < password.length →
            ∃ fault, loaded = .error (.authentication fault)) ∧
          (settings.minRounds ≤ rounds → password.length ≤ settings.capacity →
            ∃ locked, loaded = .ok ⟨secret, id, locked⟩) := by
  constructor
  · rw [one_le_iff_ne_zero]
    constructor
    · rintro ⟨r, hr⟩
      obtain ⟨hsecret, hid, hne, hzero, -⟩ := Record.wrap_eq_ok_iff.mp hr
      exact ⟨hsecret, hid, hne, hzero⟩
    · rintro ⟨hsecret, hid, hne, hzero⟩
      exact ⟨_, Record.wrap_eq_ok_iff.mpr ⟨hsecret, hid, hne, hzero, rfl⟩⟩
  · intro r hr
    obtain ⟨-, -, -, hzero, rfl⟩ := Record.wrap_eq_ok_iff.mp hr
    have hshape := Record.shape_wrappedWith secret id password entropy
      (one_le_iff_ne_zero.mpr hzero)
    refine ⟨_, Record.encode_eq_ok_iff.mpr ⟨⟨_, hshape⟩, rfl⟩, ?_⟩
    intro loading
    refine ⟨?_, ?_, ?_⟩
    · intro hrounds
      exact ⟨_, load_of_few_rounds hr hrounds _ loading⟩
    · intro hrounds hroom
      exact load_of_small_buffer hr hrounds hroom loading
    · intro hrounds hroom
      exact load_wrapped hr hrounds hroom loading

theorem wrapped_zeros_loads_back :
    let secret : Bytes := List.replicate 64 0
    let settings : LoadSettings := ⟨1, 64, false⟩
    ∃ r bytes, (Record.wrap secret (List.replicate 8 0) [97] 1 ⟨fun _ => 0⟩).result = .ok r ∧
      r.encode = .ok bytes ∧
      ∃ locked, (load (.ofBytes bytes) (some (.fixed [97])) settings ⟨fun _ => 0⟩).result =
        .ok ⟨secret, List.replicate 8 0, locked⟩ := by
  intro secret settings
  have hspec := wrapped_loads_back secret (List.replicate 8 0) [97] 1 ⟨fun _ => 0⟩ settings
  obtain ⟨r, hr⟩ := hspec.1.mpr ⟨rfl, rfl, by decide, by decide⟩
  obtain ⟨bytes, hbytes, hload⟩ := hspec.2 r hr
  exact ⟨r, bytes, hr, hbytes, (hload ⟨fun _ => 0⟩).2.2 (by decide) (by decide)⟩

end SecretKey

end SigningKeys
