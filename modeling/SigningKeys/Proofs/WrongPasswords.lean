import SigningKeys.Proofs.WrappedKeys

/-!
# Wrong passwords

A secret that is wrapped under one password and unwrapped under another comes out combined with the
keys of both.  The checksum decides whether that is handed out: if the two keys are the same, the
secret itself comes out; if they differ, what comes out is not the secret, and it is refused unless
it happens to have the checksum of the secret.

## Main results

* `Bytes.xor_xor_eq_self_iff`: unwrapping undoes wrapping exactly under the same key.
* `SecretKey.load_under`: what a wrapped secret is loaded as under any password.
* `SecretKey.load_under_wrong_password`: **a wrong password never unlocks, but for a collision of
  checksums.**
-/

namespace SigningKeys

theorem Byte.xor_xor_eq_self_iff {a b c : UInt8} : a ^^^ b ^^^ c = a ↔ b = c := by
  calc a ^^^ b ^^^ c = a
      ↔ a ^^^ (b ^^^ c) = a ^^^ 0 := by rw [UInt8.xor_assoc, UInt8.xor_zero]
    _ ↔ b ^^^ c = 0 := UInt8.xor_right_inj a
    _ ↔ b = c := UInt8.xor_eq_zero_iff

/-- Combined with two byte strings of its length, a byte string comes back exactly if the two are
the same. -/
theorem Bytes.xor_xor_eq_self_iff {as bs cs : Bytes} (hbs : as.length = bs.length)
    (hcs : as.length = cs.length) : xor (xor as bs) cs = as ↔ bs = cs := by
  induction as generalizing bs cs with
  | nil =>
    rw [List.length_nil, eq_comm, List.length_eq_zero_iff] at hbs hcs
    simp [hbs, hcs]
  | cons a as ih =>
    obtain ⟨b, bs, rfl⟩ := List.exists_cons_of_length_pos (by rw [← hbs]; simp)
    obtain ⟨c, cs, rfl⟩ := List.exists_cons_of_length_pos (by rw [← hcs]; simp)
    rw [xor_cons_cons, xor_cons_cons, List.cons.injEq, List.cons.injEq, Byte.xor_xor_eq_self_iff,
      ih (Nat.succ.inj hbs) (Nat.succ.inj hcs)]

namespace SecretKey

section

variable {secret id password given : Bytes} {rounds : UInt32} {entropy : Entropy} {r : Record}
  {settings : LoadSettings} {asked : PasswordSource} {loading : Entropy}

/-- Under any password that is given, a wrapped secret comes out combined with the keys of both
passwords, if that has the checksum of the secret. -/
theorem load_under (h : (Record.wrap secret id password rounds entropy).result = .ok r)
    (hrounds : settings.minRounds ≤ rounds) (hgives : asked.Gives settings loading given)
    {opened : Bytes}
    (hopened : opened = Bytes.xor
      (Bytes.xor secret (Pbkdf2.derive password (entropy.first Layout.saltLength) rounds.toNat
        Layout.secretLength))
      (Pbkdf2.derive given (entropy.first Layout.saltLength) rounds.toNat Layout.secretLength)) :
    (load (.ofBytes r.text) (some asked) settings loading).result =
      if Blake2b.digest opened = Blake2b.digest secret then
        .ok ⟨opened, id, settings.lockMemory⟩
      else .error (.authentication .checksumMismatch) := by
  have hparse := (Record.faithful_wrap h).parse_text
  obtain ⟨hsecret, hid, -, hzero, rfl⟩ := Record.wrap_eq_ok_iff.mp h
  have hshape := Record.shape_wrappedWith secret id password entropy hrounds
  have hdata : (Bytes.xor secret (Pbkdf2.derive password (entropy.first Layout.saltLength)
      rounds.toNat Layout.secretLength)).length = Layout.secretLength := by
    rw [Bytes.length_xor (by rw [Pbkdf2.length_derive, hsecret]), hsecret]
  have hsealed : (Record.wrappedWith secret id password rounds entropy).sealed =
      .ok ⟨entropy.first Layout.saltLength, rounds, checksum secret, id, _⟩ :=
    Record.sealed_eq_ok_iff.mpr ⟨rfl, rfl, rfl, rfl, rfl⟩
  rw [result_load hparse hshape]
  show (Record.recoverSecret _ (some asked) settings loading).result = _
  rw [Record.result_recoverSecret hsealed hzero (Record.first_saltLength_ne_nil entropy) hgives,
    Record.Sealed.unwrap_of_length settings hdata hid (Pbkdf2.length_derive ..), hopened]
  rfl

end

/-- A secret is wrapped under one password, and its container is loaded with a source that gives
another one, which may be any that fits into the buffer.  What comes out is the secret combined with
the keys of both passwords: it is handed out exactly if it has the checksum of the secret, and the
password is refused otherwise.  So the secret comes back if the passwords give one key; if they give
different keys and the two checksums do not collide, the password is refused. -/
theorem load_under_wrong_password {secret id password given : Bytes} {rounds : UInt32}
    {settings : LoadSettings} (hsecret : secret.length = 64) (hid : id.length = 8)
    (hpassword : password ≠ []) (hpos : 1 ≤ rounds) (hrounds : settings.minRounds ≤ rounds)
    (hgiven : given ≠ []) (hroom : given.length ≤ settings.capacity)
    (entropy loading : Entropy) :
    ∃ r bytes salt, (Record.wrap secret id password rounds entropy).result = .ok r ∧
      r.encode = .ok bytes ∧ r.salt = some salt ∧
      (PasswordSource.fixed given).Gives settings loading given ∧
      ∀ asked : PasswordSource, asked.Gives settings loading given →
        let key (password : Bytes) : Bytes := Pbkdf2.derive password salt rounds.toNat 64
        let opened := Bytes.xor (Bytes.xor secret (key password)) (key given)
        let loaded := (load (.ofBytes bytes) (some asked) settings loading).result
        ((∃ k, loaded = .ok k) ↔ Blake2b.digest opened = Blake2b.digest secret) ∧
        (∀ k, loaded = .ok k → k.data = opened ∧ k.id = id) ∧
        (Blake2b.digest opened ≠ Blake2b.digest secret →
          loaded = .error (.authentication .checksumMismatch)) ∧
        (key given = key password → ∃ locked, loaded = .ok ⟨secret, id, locked⟩) ∧
        (key given ≠ key password →
          (Blake2b.digest opened = Blake2b.digest secret → opened = secret) →
          loaded = .error (.authentication .checksumMismatch)) := by
  have hwrap := Record.wrap_eq_ok_iff.mpr
    ⟨hsecret, hid, hpassword, one_le_iff_ne_zero.mp hpos,
      (rfl : Record.wrappedWith secret id password rounds entropy = _)⟩
  have hshape := Record.shape_wrappedWith secret id password entropy hpos
  refine ⟨_, _, _, hwrap, Record.encode_eq_ok_iff.mpr ⟨⟨_, hshape⟩, rfl⟩, rfl,
    (gives_fixed_iff hgiven).mpr ⟨hroom, rfl⟩, ?_⟩
  intro asked hgives key opened loaded
  have hloaded : loaded = if Blake2b.digest opened = Blake2b.digest secret then
      .ok ⟨opened, id, settings.lockMemory⟩ else .error (.authentication .checksumMismatch) :=
    load_under hwrap hrounds hgives rfl
  have hlength : ∀ password, secret.length = (key password).length := by
    intro password
    rw [hsecret]
    exact (Pbkdf2.length_derive ..).symm
  have hsame : opened = secret ↔ key password = key given :=
    Bytes.xor_xor_eq_self_iff (hlength password) (hlength given)
  by_cases hsum : Blake2b.digest opened = Blake2b.digest secret
  · rw [if_pos hsum] at hloaded
    refine ⟨iff_of_true ⟨_, hloaded⟩ hsum, ?_, absurd hsum, ?_, ?_⟩
    · intro k hk
      rw [hloaded, Except.ok.injEq] at hk
      exact hk ▸ ⟨rfl, rfl⟩
    · intro hkeys
      exact ⟨_, hsame.mpr hkeys.symm ▸ hloaded⟩
    · intro hkeys hcollision
      exact absurd (hsame.mp (hcollision hsum)).symm hkeys
  · rw [if_neg hsum] at hloaded
    refine ⟨iff_of_false ?_ hsum, ?_, fun _ => hloaded, ?_, fun _ _ => hloaded⟩
    · intro h
      obtain ⟨k, hk⟩ := h
      rw [hloaded] at hk
      cases hk
    · intro k hk
      rw [hloaded] at hk
      cases hk
    · intro hkeys
      rw [hsame.mpr hkeys.symm] at hsum
      exact absurd rfl hsum

/-- A zero at the end of a short password does not change its key, so a secret comes back under a
password that is not its own. -/
theorem load_zeros_under_padded_password :
    ∃ r bytes, (Record.wrap (List.replicate 64 0) (List.replicate 8 0) [97] 1
        ⟨fun _ => 0⟩).result = .ok r ∧ r.encode = .ok bytes ∧
      (PasswordSource.fixed [97, 0]).Gives ⟨1, 64, false⟩ ⟨fun _ => 0⟩ [97, 0] ∧
      ∃ locked, (load (.ofBytes bytes) (some (.fixed [97, 0])) ⟨1, 64, false⟩
          ⟨fun _ => 0⟩).result =
        .ok ⟨List.replicate 64 0, List.replicate 8 0, locked⟩ := by
  obtain ⟨r, bytes, salt, hwrap, hencode, -, hgives, hload⟩ :=
    @load_under_wrong_password (List.replicate 64 0) (List.replicate 8 0) [97] [97, 0] 1
      ⟨1, 64, false⟩ rfl rfl (by decide) (by decide) (by decide) (by decide) (by decide)
      ⟨fun _ => 0⟩ ⟨fun _ => 0⟩
  obtain ⟨-, -, -, hback, -⟩ := hload _ hgives
  have hkey : Pbkdf2.derive [97, 0] salt (1 : UInt32).toNat 64 =
      Pbkdf2.derive [97] salt (1 : UInt32).toNat 64 := rfl
  exact ⟨r, bytes, hwrap, hencode, hgives, hback hkey⟩

end SecretKey

end SigningKeys
