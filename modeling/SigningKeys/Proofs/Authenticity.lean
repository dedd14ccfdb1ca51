import Mathlib.Logic.Basic
import SigningKeys.Proofs.Passwords
import SigningKeys.Proofs.RoundTrip
import SigningKeys.Proofs.Shapes
import SigningKeys.Record.Unlocking

/-!
# Which keys are handed out

A key is handed out in two situations only.  A plaintext record hands out what it stores, and no
password is asked for.  An encrypted record hands out what it stores, combined with the key of the
password that its source gives, and only if that has the stored checksum.

## Main definitions

* `Record.OpensAsStored`: the record stores the secret as it is.
* `Record.OpensUnder`: the record stores the secret wrapped under the password of a source.

## Main results

* `Record.opensUnder_fixed_iff`: a wrapped secret opens to itself under its password.
* `Record.result_recoverSecret`: with a password given, unwrapping decides.
* `SecretKey.result_load`: loading is parsing, finding the shape and unlocking.
* `SecretKey.load_eq_ok_iff`: **exactly these keys are handed out, and this is how a password is
  asked for.**
-/

namespace SigningKeys

theorem required_eq_ok_iff {α : Type} {fault : ShapeFault} {o : Option α} {a : α} :
    required fault o = .ok a ↔ o = some a := by
  cases o <;> simp [required]

theorem SecretKey.ofParts_eq_ok_iff {data id : Bytes} {locked : Bool} {key : SecretKey} :
    SecretKey.ofParts data id locked = .ok key ↔
      data.length = Layout.secretLength ∧ id.length = Layout.idLength ∧
        key = ⟨data, id, locked⟩ := by
  rw [ofParts]
  by_cases hd : data.length = Layout.secretLength
  · by_cases hi : id.length = Layout.idLength
    · simp [hd, hi, eq_comm]
    · simp [hd, hi]
  · simp [hd]

namespace Record

/-! ### Plaintext records -/

/-- The record stores the secret as it is. -/
def OpensAsStored (r : Record) (secret : Bytes) : Prop :=
  r.kdf ≠ some Layout.kdfName ∧ r.data = some secret

theorem takeSecret_eq_ok_iff {r : Record} {settings : LoadSettings} {key : SecretKey} :
    r.takeSecret settings = .ok key ↔
      r.id = some key.id ∧ r.data = some key.data ∧ key.data.length = Layout.secretLength ∧
        key.id.length = Layout.idLength ∧ key.locked = settings.lockMemory := by
  simp only [takeSecret, exceptBind_eq_ok_iff, required_eq_ok_iff, SecretKey.ofParts_eq_ok_iff]
  constructor
  · rintro ⟨id, hid, data, hdata, hd, hi, rfl⟩
    exact ⟨hid, hdata, hd, hi, rfl⟩
  · rintro ⟨hid, hdata, hd, hi, hlock⟩
    exact ⟨_, hid, _, hdata, hd, hi, hlock ▸ rfl⟩

/-! ### Encrypted records -/

/-- The record stores the secret wrapped under the password that the source gives, and its
digest. -/
def OpensUnder (r : Record) (source : Option PasswordSource) (settings : LoadSettings)
    (entropy : Entropy) (secret : Bytes) : Prop :=
  r.kdf = some Layout.kdfName ∧
    ∃ rounds, r.rounds = some rounds ∧ settings.minRounds ≤ rounds ∧ 1 ≤ rounds ∧
      ∃ asked password, source = some asked ∧ asked.Gives settings entropy password ∧
        ∃ salt blob, r.salt = some salt ∧ r.data = some blob ∧
          secret = Bytes.xor blob
            (Pbkdf2.derive password salt rounds.toNat Layout.secretLength) ∧
          r.checksum = some (Blake2b.digest secret)

theorem sealed_eq_ok_iff {r : Record} {s : Sealed} :
    r.sealed = .ok s ↔
      r.salt = some s.salt ∧ r.rounds = some s.rounds ∧ r.checksum = some s.checksum ∧
        r.id = some s.id ∧ r.data = some s.data := by
  unfold sealed
  split
  · next salt rounds checksum id hsalt hrounds hchecksum hid =>
    simp only [exceptBind_eq_ok_iff, required_eq_ok_iff, hsalt, hrounds, hchecksum, hid,
      Option.some.injEq, Except.ok.injEq]
    constructor
    · rintro ⟨data, hdata, rfl⟩
      exact ⟨rfl, rfl, rfl, rfl, hdata⟩
    · rintro ⟨rfl, rfl, rfl, rfl, hdata⟩
      exact ⟨s.data, hdata, rfl⟩
  · next hnone =>
    simp only [reduceCtorEq, false_iff]
    rintro ⟨hsalt, hrounds, hchecksum, hid, -⟩
    exact hnone _ _ _ _ hsalt hrounds hchecksum hid

theorem exists_sealed_iff {r : Record} :
    (∃ s, r.sealed = .ok s) ↔
      r.salt.isSome ∧ r.rounds.isSome ∧ r.checksum.isSome ∧ r.id.isSome ∧ r.data.isSome := by
  simp only [sealed_eq_ok_iff, Option.isSome_iff_exists]
  constructor
  · rintro ⟨s, hsalt, hrounds, hchecksum, hid, hdata⟩
    exact ⟨⟨_, hsalt⟩, ⟨_, hrounds⟩, ⟨_, hchecksum⟩, ⟨_, hid⟩, ⟨_, hdata⟩⟩
  · rintro ⟨⟨salt, hsalt⟩, ⟨rounds, hrounds⟩, ⟨checksum, hchecksum⟩, ⟨id, hid⟩, ⟨data, hdata⟩⟩
    exact ⟨⟨salt, rounds, checksum, id, data⟩, hsalt, hrounds, hchecksum, hid, hdata⟩

theorem Sealed.unwrap_eq_ok_iff {s : Sealed} {wrapping : Bytes} {settings : LoadSettings}
    {key : SecretKey} :
    s.unwrap wrapping settings = .ok key ↔
      key.data = Bytes.xor s.data wrapping ∧ s.checksum = SigningKeys.checksum key.data ∧
        key.id = s.id ∧ key.data.length = Layout.secretLength ∧
        key.id.length = Layout.idLength ∧ key.locked = settings.lockMemory := by
  obtain ⟨data, id, locked⟩ := key
  unfold Sealed.unwrap
  simp only
  by_cases hsum : SigningKeys.checksum (Bytes.xor s.data wrapping) = s.checksum
  · rw [if_pos hsum, SecretKey.ofParts_eq_ok_iff, SecretKey.mk.injEq]
    constructor
    · rintro ⟨hd, hi, rfl, rfl, rfl⟩
      exact ⟨rfl, hsum.symm, rfl, hd, hi, rfl⟩
    · rintro ⟨rfl, -, rfl, hd, hi, rfl⟩
      exact ⟨hd, hi, rfl, rfl, rfl⟩
  · rw [if_neg hsum]
    simp only [reduceCtorEq, false_iff]
    rintro ⟨rfl, h, -⟩
    exact hsum h.symm

/-- Unwrapped under any key, a secret of the right length is handed out or has a wrong checksum. -/
theorem Sealed.unwrap_of_length {s : Sealed} {key : Bytes} (settings : LoadSettings)
    (hdata : s.data.length = Layout.secretLength) (hid : s.id.length = Layout.idLength)
    (hkey : key.length = Layout.secretLength) :
    s.unwrap key settings =
      if Blake2b.digest (Bytes.xor s.data key) = s.checksum then
        .ok ⟨Bytes.xor s.data key, s.id, settings.lockMemory⟩
      else .error (.authentication .checksumMismatch) := by
  have hlength : (Bytes.xor s.data key).length = Layout.secretLength := by
    rw [Bytes.length_xor (hdata.trans hkey.symm), hdata]
  have hparts := SecretKey.ofParts_eq_ok_iff.mpr
    ⟨hlength, hid, (rfl : SecretKey.mk _ _ settings.lockMemory = _)⟩
  simp only [Sealed.unwrap, hparts]
  rfl

theorem recoverSecret_of_sealed {r : Record} {s : Sealed} (hs : r.sealed = .ok s)
    (asked : PasswordSource) (settings : LoadSettings) (entropy : Entropy) :
    r.recoverSecret (some asked) settings entropy =
      (askPassword asked settings entropy).bind fun password =>
        (Outcome.ofExcept (wrappingKey password s.salt s.rounds)).bind fun key =>
          .ofExcept (s.unwrap key settings) := by
  rw [recoverSecret, hs]
  exact Outcome.ok_bind s _

theorem recoverSecret_eq_ok_iff {r : Record} {source : Option PasswordSource}
    {settings : LoadSettings} {entropy : Entropy} {key : SecretKey} :
    (r.recoverSecret source settings entropy).result = .ok key ↔
      ∃ asked, source = some asked ∧ ∃ s, r.sealed = .ok s ∧
        ∃ password, asked.Gives settings entropy password ∧ s.rounds ≠ 0 ∧ s.salt ≠ [] ∧
          s.unwrap (Pbkdf2.derive password s.salt s.rounds.toNat Layout.secretLength) settings =
            .ok key := by
  cases source with
  | none => simp [recoverSecret]
  | some asked =>
    simp only [recoverSecret, Outcome.bind_eq, Outcome.bind_eq_ok_iff, Outcome.result_ofExcept,
      askPassword_eq_ok_iff, wrappingKey_eq_ok_iff, Option.some.injEq]
    constructor
    · rintro ⟨s, hs, password, hgives, wrapping, ⟨hrounds, hsalt, rfl⟩, hkey⟩
      exact ⟨asked, rfl, s, hs, password, hgives, hrounds, hsalt, hkey⟩
    · rintro ⟨_, rfl, s, hs, password, hgives, hrounds, hsalt, hkey⟩
      exact ⟨s, hs, password, hgives, _, ⟨hrounds, hsalt, rfl⟩, hkey⟩

/-- With a password given, the unwrapping of what the record holds decides. -/
theorem result_recoverSecret {r : Record} {s : Sealed} (hs : r.sealed = .ok s)
    (hrounds : s.rounds ≠ 0) (hsalt : s.salt ≠ []) {asked : PasswordSource}
    {settings : LoadSettings} {entropy : Entropy} {password : Bytes}
    (hgives : asked.Gives settings entropy password) :
    (r.recoverSecret (some asked) settings entropy).result =
      s.unwrap (Pbkdf2.derive password s.salt s.rounds.toNat Layout.secretLength) settings := by
  have hask := askPassword_eq_ok_iff.mpr hgives
  have hkey : wrappingKey password s.salt s.rounds = .ok _ :=
    wrappingKey_eq_ok_iff.mpr ⟨hrounds, hsalt, rfl⟩
  rw [recoverSecret_of_sealed hs, Outcome.result_bind_of_ok _ hask,
    Outcome.result_bind_of_ok _ hkey, Outcome.result_ofExcept]

/-! ### Records of either shape -/

theorem takes_iff {r : Record} (hwf : r.WellFormed) {settings : LoadSettings}
    (key : SecretKey) :
    r.shape settings.minRounds = .ok .plaintext ∧ r.takeSecret settings = .ok key ↔
      r.version = some Layout.version ∧ r.id = some key.id ∧
        key.data.length = Layout.secretLength ∧ key.locked = settings.lockMemory ∧
        r.OpensAsStored key.data := by
  rw [shape_eq_plaintext_iff, takeSecret_eq_ok_iff]
  constructor
  · rintro ⟨⟨hversion, hkdf, -, -⟩, hid, hdata, hd, -, hlock⟩
    exact ⟨hversion, hid, hd, hlock, hkdf, hdata⟩
  · rintro ⟨hversion, hid, hd, hlock, hkdf, hdata⟩
    exact ⟨⟨hversion, hkdf, by rw [hid]; rfl, by rw [hdata]; rfl⟩, hid, hdata, hd,
      hwf .id key.id hid, hlock⟩

theorem recovers_iff {r : Record} (hwf : r.WellFormed) {source : Option PasswordSource}
    {settings : LoadSettings} {entropy : Entropy} (key : SecretKey) :
    r.shape settings.minRounds = .ok .encrypted ∧
        (r.recoverSecret source settings entropy).result = .ok key ↔
      r.version = some Layout.version ∧ r.id = some key.id ∧
        key.data.length = Layout.secretLength ∧ key.locked = settings.lockMemory ∧
        r.OpensUnder source settings entropy key.data := by
  rw [shape_eq_encrypted_iff, recoverSecret_eq_ok_iff]
  constructor
  · rintro ⟨⟨hversion, hkdf, hmin, -⟩, asked, hsource, s, hs, password, hgives, hzero, -, hkey⟩
    obtain ⟨hsalt, hrounds, hchecksum, hid, hdata⟩ := sealed_eq_ok_iff.mp hs
    obtain ⟨hsecret, hsum, hkeyid, hd, -, hlock⟩ := Sealed.unwrap_eq_ok_iff.mp hkey
    rw [declaredRounds, hrounds, Option.getD_some] at hmin
    have hopens : r.OpensUnder source settings entropy key.data :=
      ⟨hkdf, s.rounds, hrounds, hmin, one_le_iff_ne_zero.mpr hzero, asked, password, hsource,
        hgives, s.salt, s.data, hsalt, hdata, hsecret, hchecksum.trans (congrArg some hsum)⟩
    exact ⟨hversion, hkeyid ▸ hid, hd, hlock, hopens⟩
  · rintro ⟨hversion, hid, hd, hlock, hkdf, rounds, hrounds, hmin, hone, asked, password, hsource,
      hgives, salt, blob, hsalt, hdata, hsecret, hchecksum⟩
    have hdeclared : settings.minRounds ≤ r.declaredRounds := by
      rw [declaredRounds, hrounds, Option.getD_some]
      exact hmin
    have hidlen : key.id.length = Layout.idLength := hwf .id key.id hid
    have hs : r.sealed = .ok ⟨salt, rounds, SigningKeys.checksum key.data, key.id, blob⟩ :=
      sealed_eq_ok_iff.mpr ⟨hsalt, hrounds, hchecksum, hid, hdata⟩
    refine ⟨⟨hversion, hkdf, hdeclared, ?_⟩, asked, hsource, _, hs, password, hgives,
      one_le_iff_ne_zero.mp hone, hwf.salt_ne_nil hsalt,
      Sealed.unwrap_eq_ok_iff.mpr ⟨hsecret, rfl, rfl, hd, hidlen, hlock⟩⟩
    rw [hsalt, hid, hdata, hchecksum]
    exact ⟨rfl, rfl, rfl, rfl⟩

/-- A well-formed record hands out a key in exactly one of two ways. -/
theorem unlocks_iff {r : Record} (hwf : r.WellFormed) {source : Option PasswordSource}
    {settings : LoadSettings} {entropy : Entropy} {key : SecretKey} :
    (∃ shape, r.shape settings.minRounds = .ok shape ∧
        (r.unlock shape source settings entropy).result = .ok key) ↔
      r.version = some Layout.version ∧ r.id = some key.id ∧
        key.data.length = Layout.secretLength ∧ key.locked = settings.lockMemory ∧
        Xor (r.OpensAsStored key.data) (r.OpensUnder source settings entropy key.data) := by
  -- no record opens both ways, since its KDF decides which
  have hxor : Xor (r.OpensAsStored key.data) (r.OpensUnder source settings entropy key.data) ↔
      r.OpensAsStored key.data ∨ r.OpensUnder source settings entropy key.data := by
    rw [xor_iff_or_and_not_and]
    exact and_iff_left fun h => h.1.1 h.2.1
  rw [hxor]
  constructor
  · rintro ⟨_ | _, hshape, hkey⟩
    · obtain ⟨hversion, hid, hd, hlock, hopens⟩ := (recovers_iff hwf key).mp ⟨hshape, hkey⟩
      exact ⟨hversion, hid, hd, hlock, Or.inr hopens⟩
    · obtain ⟨hversion, hid, hd, hlock, hopens⟩ := (takes_iff hwf key).mp ⟨hshape, hkey⟩
      exact ⟨hversion, hid, hd, hlock, Or.inl hopens⟩
  · rintro ⟨hversion, hid, hd, hlock, hopens | hopens⟩
    · exact ⟨.plaintext, (takes_iff hwf key).mpr ⟨hversion, hid, hd, hlock, hopens⟩⟩
    · exact ⟨.encrypted, (recovers_iff hwf key).mpr ⟨hversion, hid, hd, hlock, hopens⟩⟩

/-- A wrapped secret opens to itself under its password, and to nothing else. -/
theorem opensUnder_fixed_iff {secret id password : Bytes} {rounds : UInt32} {entropy : Entropy}
    {r : Record} (h : (wrap secret id password rounds entropy).result = .ok r)
    {settings : LoadSettings} {loading : Entropy} {data : Bytes} :
    r.OpensUnder (some (.fixed password)) settings loading data ↔
      settings.minRounds ≤ rounds ∧ password.length ≤ settings.capacity ∧ data = secret := by
  obtain ⟨hsecret, -, hne, hzero, rfl⟩ := wrap_eq_ok_iff.mp h
  -- combining with the key of the password a second time undoes the wrapping
  have hundo : Bytes.xor (Bytes.xor secret (Pbkdf2.derive password
      (entropy.first Layout.saltLength) rounds.toNat Layout.secretLength))
      (Pbkdf2.derive password (entropy.first Layout.saltLength) rounds.toNat
        Layout.secretLength) = secret :=
    Bytes.xor_xor_cancel (by rw [Pbkdf2.length_derive, hsecret])
  constructor
  · rintro ⟨-, n, hrounds, hmin, -, asked, given, hasked, hgives, salt, blob, hsalt, hblob, hdata,
      -⟩
    -- the record and the source are known, and so are the values that they give
    cases hrounds
    cases hsalt
    cases hblob
    cases hasked
    obtain ⟨hroom, rfl⟩ := (gives_fixed_iff hne).mp hgives
    exact ⟨hmin, hroom, hdata.trans hundo⟩
  · rintro ⟨hmin, hroom, rfl⟩
    exact ⟨rfl, rounds, rfl, hmin, one_le_iff_ne_zero.mpr hzero, _, password, rfl,
      (gives_fixed_iff hne).mpr ⟨hroom, rfl⟩, _, _, rfl, rfl, hundo.symm, rfl⟩

end Record

namespace SecretKey

/-! ### Loading -/

theorem result_load {stream : Stream} {r : Record} {shape : Shape}
    {source : Option PasswordSource} {settings : LoadSettings} {entropy : Entropy}
    (hparse : (Record.parse stream).result = .ok r)
    (hshape : r.shape settings.minRounds = .ok shape) :
    (load stream source settings entropy).result =
      (r.unlock shape source settings entropy).result := by
  rw [load, Outcome.bind_eq, Outcome.result_bind_of_ok _ hparse, Outcome.bind_eq,
    Outcome.result_bind_of_ok _ (by rw [hshape]; rfl), Outcome.bind_eq,
    Outcome.result_bind_of_ok _ (Outcome.result_log _)]

theorem result_load_of_shape_error {stream : Stream} {r : Record} {fault : ShapeFault}
    {source : Option PasswordSource} {settings : LoadSettings} {entropy : Entropy}
    (hparse : (Record.parse stream).result = .ok r)
    (hshape : r.shape settings.minRounds = .error fault) :
    (load stream source settings entropy).result = .error (.inconsistent fault) := by
  rw [load, Outcome.bind_eq, Outcome.result_bind_of_ok _ hparse, Outcome.bind_eq,
    Outcome.result_bind_of_error _ (by rw [hshape]; rfl)]

theorem load_eq_ok_iff_unlock {stream : Stream} {source : Option PasswordSource}
    {settings : LoadSettings} {entropy : Entropy} {key : SecretKey} :
    (load stream source settings entropy).result = .ok key ↔
      ∃ r, (Record.parse stream).result = .ok r ∧
        ∃ shape, r.shape settings.minRounds = .ok shape ∧
          (r.unlock shape source settings entropy).result = .ok key := by
  cases hparse : (Record.parse stream).result with
  | error e =>
    rw [load, Outcome.bind_eq, Outcome.result_bind_of_error _ hparse]
    simp
  | ok r =>
    cases hshape : r.shape settings.minRounds with
    | error fault =>
      rw [result_load_of_shape_error hparse hshape]
      simp [hshape]
    | ok shape =>
      rw [result_load hparse hshape]
      simp [hshape]

/-! ### How a password is asked for -/

theorem requests_parse (stream : Stream) : (Record.parse stream).requests = [] := by
  unfold Record.parse
  split
  · rfl
  · rfl
  · split <;> rfl

theorem requests_load {stream : Stream} {r : Record} {shape : Shape}
    {source : Option PasswordSource} {settings : LoadSettings} {entropy : Entropy}
    (hparse : (Record.parse stream).result = .ok r)
    (hshape : r.shape settings.minRounds = .ok shape) :
    (load stream source settings entropy).requests =
      (r.unlock shape source settings entropy).requests := by
  rw [load, Outcome.bind_eq, Outcome.requests_bind_of_ok _ hparse, requests_parse,
    Outcome.bind_eq, Outcome.requests_bind_of_ok _ (by rw [hshape]; rfl), Outcome.bind_eq,
    Outcome.requests_bind_of_ok _ (Outcome.result_log _)]
  rfl

/-- A load that finds no shape asks for no password. -/
theorem requests_load_of_refused {stream : Stream} {source : Option PasswordSource}
    {settings : LoadSettings} {entropy : Entropy}
    (h : ∀ r, (Record.parse stream).result = .ok r →
      ∀ shape, r.shape settings.minRounds ≠ .ok shape) :
    (load stream source settings entropy).requests = [] := by
  rw [load, Outcome.bind_eq]
  cases hparse : (Record.parse stream).result with
  | error e => rw [Outcome.requests_bind_of_error _ hparse, requests_parse]
  | ok r =>
    rw [Outcome.requests_bind_of_ok _ hparse, requests_parse, List.nil_append]
    cases hshape : r.shape settings.minRounds with
    | ok shape => exact absurd hshape (h r hparse shape)
    | error fault => rfl

/-- The password of a complete record is asked for once, if there is room for one. -/
theorem requests_recoverSecret_of_sealed {r : Record} {s : Record.Sealed} (hs : r.sealed = .ok s)
    (asked : PasswordSource) (settings : LoadSettings) (entropy : Entropy) :
    (r.recoverSecret (some asked) settings entropy).requests =
      if settings.capacity = 0 then []
      else [⟨(settings.buffer entropy).toList, settings.capacity⟩] := by
  rw [Record.recoverSecret_of_sealed hs, ← requests_askPassword asked settings entropy]
  cases hasked : (askPassword asked settings entropy).result with
  | error e => rw [Outcome.requests_bind_of_error _ hasked]
  | ok password =>
    rw [Outcome.requests_bind_of_ok _ hasked]
    cases wrappingKey password s.salt s.rounds <;> exact List.append_nil _

/-- An encrypted record that hands out its secret has asked for one password. -/
theorem requests_recoverSecret {r : Record} {source : Option PasswordSource}
    {settings : LoadSettings} {entropy : Entropy} {key : SecretKey}
    (h : (r.recoverSecret source settings entropy).result = .ok key) :
    (r.recoverSecret source settings entropy).requests =
      [⟨(settings.buffer entropy).toList, settings.capacity⟩] := by
  obtain ⟨asked, rfl, s, hs, password, hgives, -⟩ := Record.recoverSecret_eq_ok_iff.mp h
  -- an accepted password has a byte, so there is room in front of the canary
  have hroom : settings.capacity ≠ 0 := by
    obtain ⟨-, n, -, hpos, hle, -⟩ := hgives
    omega
  rw [requests_recoverSecret_of_sealed hs, if_neg hroom]

theorem requests_load_of_ok {stream : Stream} {r : Record} {source : Option PasswordSource}
    {settings : LoadSettings} {entropy : Entropy} {key : SecretKey}
    (hparse : (Record.parse stream).result = .ok r)
    (h : (load stream source settings entropy).result = .ok key) :
    (load stream source settings entropy).requests =
      if r.kdf = some Layout.kdfName then
        [⟨(settings.buffer entropy).toList, settings.capacity⟩]
      else [] := by
  obtain ⟨r', hparse', shape, hshape, hkey⟩ := load_eq_ok_iff_unlock.mp h
  rw [hparse, Except.ok.injEq] at hparse'
  subst hparse'
  rw [requests_load hparse hshape]
  cases shape with
  | encrypted =>
    rw [if_pos (Record.shape_eq_encrypted_iff.mp hshape).2.1]
    exact requests_recoverSecret hkey
  | plaintext =>
    rw [if_neg (Record.shape_eq_plaintext_iff.mp hshape).2.1]
    rfl

/-- A key is handed out exactly if the stream holds a record of version 1 with its identifier
that either stores the secret as it is or opens to it under the password of the source.  In the
first case no source is asked, in the second it is asked once. -/
theorem load_eq_ok_iff (stream : Stream) (source : Option PasswordSource)
    (settings : LoadSettings) (entropy : Entropy) :
    (∀ data id : Bytes,
      (∃ locked, (load stream source settings entropy).result = .ok ⟨data, id, locked⟩) ↔
        ∃ r, (Record.parse stream).result = .ok r ∧ r.version = some 1 ∧ r.id = some id ∧
          data.length = 64 ∧
          Xor (r.OpensAsStored data) (r.OpensUnder source settings entropy data)) ∧
    ∀ r key, (Record.parse stream).result = .ok r →
      (load stream source settings entropy).result = .ok key →
      (load stream source settings entropy).requests =
        if r.kdf = some Layout.kdfName then
          [⟨(settings.buffer entropy).toList, settings.capacity⟩]
        else [] := by
  refine ⟨?_, fun r key => requests_load_of_ok⟩
  intro data id
  constructor
  · rintro ⟨locked, hload⟩
    obtain ⟨r, hparse, hopen⟩ := load_eq_ok_iff_unlock.mp hload
    obtain ⟨hversion, hid, hlen, -, hxor⟩ :=
      (Record.unlocks_iff (Record.wellFormed_parse hparse)).mp hopen
    exact ⟨r, hparse, hversion, hid, hlen, hxor⟩
  · rintro ⟨r, hparse, hversion, hid, hlen, hxor⟩
    exact ⟨settings.lockMemory, load_eq_ok_iff_unlock.mpr ⟨r, hparse,
      (Record.unlocks_iff (Record.wellFormed_parse hparse)).mpr
        ⟨hversion, hid, hlen, rfl, hxor⟩⟩⟩

/-- A secret is handed out that is stored as it is, and one that is wrapped. -/
theorem load_zeros :
    ((∃ locked, (load (.ofBytes Record.zeros.text) none .standard ⟨fun _ => 0⟩).result =
          .ok ⟨List.replicate 64 0, List.replicate 8 0, locked⟩) ∧
        (load (.ofBytes Record.zeros.text) none .standard ⟨fun _ => 0⟩).requests = []) ∧
      ∃ r, (Record.wrap (List.replicate 64 0) (List.replicate 8 0) [97] 1 ⟨fun _ => 0⟩).result =
          .ok r ∧
        (∃ locked, (load (.ofBytes r.text) (some (.fixed [97])) ⟨1, 11, false⟩
            ⟨fun _ => 0⟩).result = .ok ⟨List.replicate 64 0, List.replicate 8 0, locked⟩) ∧
        (load (.ofBytes r.text) (some (.fixed [97])) ⟨1, 11, false⟩ ⟨fun _ => 0⟩).requests =
          [⟨List.replicate 11 0, 1⟩] := by
  constructor
  · have hparse : (Record.parse (.ofBytes Record.zeros.text)).result = .ok Record.zeros :=
      Record.parse_text Record.reachable_zeros.wellFormed fun s hs => by cases hs
    have hspec := load_eq_ok_iff (.ofBytes Record.zeros.text) none .standard ⟨fun _ => 0⟩
    have hload := (hspec.1 (List.replicate 64 0) (List.replicate 8 0)).mpr
      ⟨_, hparse, rfl, rfl, rfl, Or.inl ⟨⟨by decide, rfl⟩, fun h => absurd h.1 (by decide)⟩⟩
    obtain ⟨locked, hok⟩ := hload
    exact ⟨⟨locked, hok⟩, hspec.2 _ _ hparse hok⟩
  · let r := Record.wrappedWith (List.replicate 64 0) (List.replicate 8 0) [97] 1 ⟨fun _ => 0⟩
    have hwrap : (Record.wrap (List.replicate 64 0) (List.replicate 8 0) [97] 1
        ⟨fun _ => 0⟩).result = .ok r :=
      Record.wrap_eq_ok_iff.mpr ⟨rfl, rfl, by decide, by decide, rfl⟩
    refine ⟨r, hwrap, ?_⟩
    have hparse := (Record.faithful_wrap hwrap).parse_text
    have hopens : r.OpensUnder (some (.fixed [97])) ⟨1, 11, false⟩ ⟨fun _ => 0⟩
        (List.replicate 64 0) :=
      (Record.opensUnder_fixed_iff hwrap).mpr ⟨by decide, by decide, rfl⟩
    have hspec := load_eq_ok_iff (.ofBytes r.text) (some (.fixed [97])) ⟨1, 11, false⟩ ⟨fun _ => 0⟩
    have hload := (hspec.1 (List.replicate 64 0) (List.replicate 8 0)).mpr
      ⟨_, hparse, rfl, rfl, rfl, Or.inr ⟨hopens, fun h => h.1 rfl⟩⟩
    obtain ⟨locked, hok⟩ := hload
    exact ⟨⟨locked, hok⟩, hspec.2 _ _ hparse hok⟩

end SecretKey

end SigningKeys
