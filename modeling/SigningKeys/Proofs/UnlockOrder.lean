import SigningKeys.Proofs.CompleteRecords

/-!
# What stands in the way of unlocking

Several things can keep a record from being unlocked at once: it may have been taken for the wrong
shape, lack values, ask for more rounds of stretching than none, or meet a source that does not keep
to the rules.  They are looked for in a fixed order, and the first that is met is told.  It also
decides whether a password has been asked for: whatever can be seen without one is seen before.

## Main definitions

* `Obstacle`: what can keep an encrypted record from being unlocked, in order.
* `Record.Meets`, `Record.MeetsFirst`: what stands in the way of a record, and what does so first.
* `Obstacle.Tells`: the error that an obstacle leads to.

## Main results

* `Record.recoverSecret_of_first`, `Record.recoverSecret_of_none`: how unlocking ends.
* `Record.requests_recoverSecret_of_meets`, `Record.requests_recoverSecret_of_none`: when a password
  is asked for.
* `Record.unlock_in_order`: **the first obstacle is told, and no password is asked for in vain.**
-/

namespace SigningKeys

/-- What can keep an encrypted record from being unlocked, in the order in which it is met. -/
inductive Obstacle where
  /-- There is nobody to ask for the password. -/
  | noSource
  /-- The record lacks a value. -/
  | incomplete
  /-- The buffer has no room in front of the canary. -/
  | noRoom
  /-- The source does not keep to the rules, or gives no password. -/
  | refused
  /-- The password would be stretched no times. -/
  | zeroRounds
  /-- The unwrapped secret does not have the stored checksum. -/
  | wrongChecksum
  deriving DecidableEq, Repr

namespace Obstacle

/-- The place of an obstacle in the order. -/
def place : Obstacle → ℕ
  | noSource => 0
  | incomplete => 1
  | noRoom => 2
  | refused => 3
  | zeroRounds => 4
  | wrongChecksum => 5

/-- The error that an obstacle leads to. -/
def Tells : Obstacle → KeyError → Prop
  | noSource, e => e = .passwordRequired
  | incomplete, e => ∃ fault, e = .inconsistent fault
  | noRoom, e => e = .authentication .bufferTooSmall
  | refused, e => e = .authentication .bufferOverflow ∨ e = .authentication .notProvided
  | zeroRounds, e => e = .keyDerivation .zeroRounds
  | wrongChecksum, e => e = .authentication .checksumMismatch

end Obstacle

/-! ### Passwords that are refused -/

/-- A password that is refused is told as an overflow or as none. -/
theorem askPassword_refused {source : PasswordSource} {settings : LoadSettings}
    {entropy : Entropy} (hroom : settings.capacity ≠ 0)
    (h : ∀ password, ¬ source.Gives settings entropy password) :
    ∃ e, (askPassword source settings entropy).result = .error e ∧ Obstacle.refused.Tells e := by
  cases hasked : (askPassword source settings entropy).result with
  | ok password => exact absurd (askPassword_eq_ok_iff.mp hasked) (h password)
  | error e =>
    rw [result_askPassword entropy hroom] at hasked
    exact ⟨e, rfl, acceptPassword_eq_error hasked⟩

namespace Record

variable {r : Record} {source : Option PasswordSource} {settings : LoadSettings}
  {entropy : Entropy}

/-! ### Obstacles -/

/-- The obstacle stands in the way of the record if it is unlocked as an encrypted one. -/
def Meets (r : Record) (source : Option PasswordSource) (settings : LoadSettings)
    (entropy : Entropy) : Obstacle → Prop
  | .noSource => source = none
  | .incomplete =>
    r.salt = none ∨ r.rounds = none ∨ r.checksum = none ∨ r.id = none ∨ r.data = none
  | .noRoom => settings.capacity = 0
  | .refused => ∃ asked, source = some asked ∧ ∀ password, ¬ asked.Gives settings entropy password
  | .zeroRounds => r.rounds = some 0
  | .wrongChecksum => ∃ asked password salt rounds blob sum,
    source = some asked ∧ asked.Gives settings entropy password ∧ r.salt = some salt ∧
      r.rounds = some rounds ∧ r.data = some blob ∧ r.checksum = some sum ∧
      Blake2b.digest (Bytes.xor blob
        (Pbkdf2.derive password salt rounds.toNat Layout.secretLength)) ≠ sum

/-- The obstacle stands in the way of the record, and none before it does. -/
def MeetsFirst (r : Record) (source : Option PasswordSource) (settings : LoadSettings)
    (entropy : Entropy) (o : Obstacle) : Prop :=
  r.Meets source settings entropy o ∧
    ∀ o' : Obstacle, o'.place < o.place → ¬ r.Meets source settings entropy o'

/-- If anything stands in the way, something does so first. -/
theorem exists_meetsFirst {o : Obstacle} (h : r.Meets source settings entropy o) :
    ∃ o', r.MeetsFirst source settings entropy o' := by
  induction hplace : o.place using Nat.strongRecOn generalizing o with
  | ind n ih =>
    subst hplace
    by_cases hearlier : ∃ o' : Obstacle, o'.place < o.place ∧ r.Meets source settings entropy o'
    · obtain ⟨o', hbefore, hmeets⟩ := hearlier
      exact ih o'.place hbefore hmeets rfl
    · exact ⟨o, h, fun o' hbefore hmeets => hearlier ⟨o', hbefore, hmeets⟩⟩

/-! ### What there is without an obstacle -/

/-- An incomplete record has not all parts that unlocking needs. -/
theorem sealed_of_incomplete (h : r.Meets source settings entropy .incomplete) :
    ∃ fault, r.sealed = .error (.inconsistent fault) := by
  cases hs : r.sealed with
  | error e =>
    obtain ⟨fault, rfl⟩ := sealed_eq_error hs
    exact ⟨fault, rfl⟩
  | ok s =>
    obtain ⟨hsalt, hrounds, hchecksum, hid, hdata⟩ := sealed_eq_ok_iff.mp hs
    simp [Meets, hsalt, hrounds, hchecksum, hid, hdata] at h

theorem exists_sealed (h : ¬ r.Meets source settings entropy .incomplete) :
    ∃ s, r.sealed = .ok s := by
  simp only [Meets, not_or, ← ne_eq, Option.ne_none_iff_isSome] at h
  exact exists_sealed_iff.mpr h

theorem exists_password {asked : PasswordSource}
    (h : ¬ r.Meets (some asked) settings entropy .refused) :
    ∃ password, asked.Gives settings entropy password := by
  by_contra hnone
  exact h ⟨asked, rfl, not_exists.mp hnone⟩

/-! ### Unlocking, step by step -/

section Steps

variable {asked : PasswordSource} {s : Sealed} {password : Bytes}

/-- A password that is not given ends the unlocking. -/
theorem result_recoverSecret_of_refused (hs : r.sealed = .ok s) {e : KeyError}
    (h : (askPassword asked settings entropy).result = .error e) :
    (r.recoverSecret (some asked) settings entropy).result = .error e := by
  rw [recoverSecret_of_sealed hs, Outcome.result_bind_of_error _ h]

/-- Under a given password, the rounds and the checksum decide. -/
theorem result_recoverSecret_of_gives (hwf : r.WellFormed) (hs : r.sealed = .ok s)
    (hgives : asked.Gives settings entropy password) {key : Bytes}
    (hkey : key = Pbkdf2.derive password s.salt s.rounds.toNat Layout.secretLength) :
    (r.recoverSecret (some asked) settings entropy).result =
      if s.rounds = 0 then .error (.keyDerivation .zeroRounds)
      else if Blake2b.digest (Bytes.xor s.data key) = s.checksum then
        .ok ⟨Bytes.xor s.data key, s.id, settings.lockMemory⟩
      else .error (.authentication .checksumMismatch) := by
  obtain ⟨hsalt, -, -, hid, hdata⟩ := sealed_eq_ok_iff.mp hs
  by_cases hrounds : s.rounds = 0
  · rw [if_pos hrounds, recoverSecret_of_sealed hs,
      Outcome.result_bind_of_ok _ (askPassword_eq_ok_iff.mpr hgives), wrappingKey, if_pos hrounds]
    rfl
  · rw [if_neg hrounds, result_recoverSecret hs hrounds (hwf.salt_ne_nil hsalt) hgives, ← hkey,
      Sealed.unwrap_of_length settings (hwf .data s.data hdata) (hwf .id s.id hid)
        (hkey ▸ Pbkdf2.length_derive ..)]

end Steps

/-! ### How unlocking ends -/

/-- The first obstacle is told. -/
theorem recoverSecret_of_first (hwf : r.WellFormed) {o : Obstacle}
    (h : r.MeetsFirst source settings entropy o) :
    ∃ e, (r.recoverSecret source settings entropy).result = .error e ∧ o.Tells e := by
  obtain ⟨hmeets, hbefore⟩ := h
  -- without a source nothing else is looked at
  cases source with
  | none =>
    cases o with
    | noSource => exact ⟨.passwordRequired, rfl, rfl⟩
    | _ => exact absurd rfl (hbefore .noSource (by decide))
  | some asked =>
  cases o with
  | noSource => cases hmeets
  | incomplete =>
    obtain ⟨fault, hs⟩ := sealed_of_incomplete hmeets
    refine ⟨.inconsistent fault, ?_, fault, rfl⟩
    rw [recoverSecret, Outcome.bind_eq, Outcome.result_bind_of_error _ hs]
  | noRoom =>
    obtain ⟨s, hs⟩ := exists_sealed (hbefore .incomplete (by decide))
    have hzero : settings.capacity = 0 := hmeets
    refine ⟨.authentication .bufferTooSmall, result_recoverSecret_of_refused hs ?_, rfl⟩
    rw [askPassword, if_pos hzero, Outcome.result_error]
  | refused =>
    obtain ⟨s, hs⟩ := exists_sealed (hbefore .incomplete (by decide))
    obtain ⟨_, ⟨⟩, hnone⟩ := hmeets
    obtain ⟨e, hasked, htells⟩ := askPassword_refused (hbefore .noRoom (by decide)) hnone
    exact ⟨e, result_recoverSecret_of_refused hs hasked, htells⟩
  | zeroRounds =>
    obtain ⟨s, hs⟩ := exists_sealed (hbefore .incomplete (by decide))
    obtain ⟨password, hgives⟩ := exists_password (hbefore .refused (by decide))
    have hrounds : s.rounds = 0 := by
      rw [← Option.some.injEq, ← (sealed_eq_ok_iff.mp hs).2.1]
      exact hmeets
    refine ⟨.keyDerivation .zeroRounds, ?_, rfl⟩
    rw [result_recoverSecret_of_gives hwf hs hgives rfl, if_pos hrounds]
  | wrongChecksum =>
    obtain ⟨s, hs⟩ := exists_sealed (hbefore .incomplete (by decide))
    obtain ⟨hsalt, hrounds, hchecksum, -, hdata⟩ := sealed_eq_ok_iff.mp hs
    obtain ⟨_, password, salt, rounds, blob, sum, ⟨⟩, hgives, hsalt', hrounds', hdata', hsum',
      hwrong⟩ := hmeets
    obtain rfl : s.salt = salt := Option.some.inj (hsalt.symm.trans hsalt')
    obtain rfl : s.rounds = rounds := Option.some.inj (hrounds.symm.trans hrounds')
    obtain rfl : s.data = blob := Option.some.inj (hdata.symm.trans hdata')
    obtain rfl : s.checksum = sum := Option.some.inj (hchecksum.symm.trans hsum')
    have hzero : s.rounds ≠ 0 := fun h =>
      hbefore .zeroRounds (by decide) (hrounds.trans (congrArg some h))
    refine ⟨.authentication .checksumMismatch, ?_, rfl⟩
    rw [result_recoverSecret_of_gives hwf hs hgives rfl, if_neg hzero, if_neg hwrong]

/-- Without an obstacle, the record is unlocked. -/
theorem recoverSecret_of_none (hwf : r.WellFormed)
    (h : ∀ o, ¬ r.Meets source settings entropy o) :
    ∃ key, (r.recoverSecret source settings entropy).result = .ok key := by
  obtain ⟨asked, rfl⟩ := Option.ne_none_iff_exists'.mp (h .noSource)
  obtain ⟨s, hs⟩ := exists_sealed (h .incomplete)
  obtain ⟨hsalt, hrounds, hchecksum, hid, hdata⟩ := sealed_eq_ok_iff.mp hs
  obtain ⟨password, hgives⟩ := exists_password (h .refused)
  have hzero : s.rounds ≠ 0 := fun hzero => h .zeroRounds (hrounds.trans (congrArg some hzero))
  have hsum : Blake2b.digest (Bytes.xor s.data
      (Pbkdf2.derive password s.salt s.rounds.toNat Layout.secretLength)) = s.checksum := by
    by_contra hwrong
    exact h .wrongChecksum ⟨asked, password, s.salt, s.rounds, s.data, s.checksum, rfl, hgives,
      hsalt, hrounds, hdata, hchecksum, hwrong⟩
  have hresult : (r.recoverSecret (some asked) settings entropy).result = _ :=
    result_recoverSecret_of_gives hwf hs hgives rfl
  rw [if_neg hzero, if_pos hsum] at hresult
  exact ⟨_, hresult⟩

/-! ### When a password is asked for -/

/-- What can be seen without a password keeps one from being asked for. -/
theorem requests_recoverSecret_of_meets {o : Obstacle} (hearly : o.place < Obstacle.refused.place)
    (h : r.Meets source settings entropy o) :
    (r.recoverSecret source settings entropy).requests = [] := by
  cases source with
  | none => rfl
  | some asked =>
    cases hs : r.sealed with
    | error e => rw [recoverSecret, Outcome.bind_eq, Outcome.requests_bind_of_error _ hs]; rfl
    | ok s =>
      have hroom : settings.capacity = 0 := by
        cases o with
        | noSource => cases h
        | incomplete =>
          obtain ⟨fault, hincomplete⟩ := sealed_of_incomplete h
          rw [hs] at hincomplete
          cases hincomplete
        | noRoom => exact h
        | _ => exact absurd hearly (by decide)
      rw [SecretKey.requests_recoverSecret_of_sealed hs, if_pos hroom]

/-- If nothing can be seen without a password, one is asked for. -/
theorem requests_recoverSecret_of_none
    (h : ∀ o : Obstacle, o.place < Obstacle.refused.place → ¬ r.Meets source settings entropy o) :
    (r.recoverSecret source settings entropy).requests =
      [⟨(settings.buffer entropy).toList, settings.capacity⟩] := by
  obtain ⟨asked, rfl⟩ := Option.ne_none_iff_exists'.mp (h .noSource (by decide))
  obtain ⟨s, hs⟩ := exists_sealed (h .incomplete (by decide))
  rw [SecretKey.requests_recoverSecret_of_sealed hs]
  exact if_neg (h .noRoom (by decide))

/-- A record asks for a password at most once. -/
theorem length_requests_unlock_le (r : Record) (shape : Shape) (source : Option PasswordSource)
    (settings : LoadSettings) (entropy : Entropy) :
    (r.unlock shape source settings entropy).requests.length ≤ 1 := by
  cases shape with
  | plaintext => exact Nat.zero_le 1
  | encrypted =>
    rw [unlock, Outcome.requests_reporting]
    by_cases hearly : ∃ o : Obstacle, o.place < Obstacle.refused.place ∧
        r.Meets source settings entropy o
    · obtain ⟨o, hplace, hmeets⟩ := hearly
      rw [requests_recoverSecret_of_meets hplace hmeets]
      exact Nat.zero_le 1
    · rw [requests_recoverSecret_of_none fun o hplace hmeets => hearly ⟨o, hplace, hmeets⟩]
      exact Nat.le_refl 1

/-! ### Plaintext records -/

/-- A plaintext record is inconsistent exactly if it lacks its identifier or its secret. -/
theorem takeSecret_inconsistent_iff (hwf : r.WellFormed) :
    (∃ fault, r.takeSecret settings = .error (.inconsistent fault)) ↔
      r.id = none ∨ r.data = none := by
  cases hid : r.id with
  | none => simp [takeSecret, hid, required, bind, Except.bind]
  | some id =>
    cases hdata : r.data with
    | none => simp [takeSecret, hid, hdata, required, bind, Except.bind]
    | some data => simp [takeSecret_of_complete hwf hid hdata]

end Record

/-! ### Loads -/

/-- A load asks for a password at most once. -/
theorem SecretKey.length_requests_load_le (stream : Stream) (source : Option PasswordSource)
    (settings : LoadSettings) (entropy : Entropy) :
    (load stream source settings entropy).requests.length ≤ 1 := by
  by_cases hfound : ∃ r, (Record.parse stream).result = .ok r ∧
      ∃ shape, r.shape settings.minRounds = .ok shape
  · obtain ⟨r, hparse, shape, hshape⟩ := hfound
    rw [requests_load hparse hshape]
    exact r.length_requests_unlock_le shape source settings entropy
  · rw [requests_load_of_refused fun r hparse shape hshape => hfound ⟨r, hparse, shape, hshape⟩]
    exact Nat.zero_le 1

namespace Record

/-! ### The order -/

/-- A plaintext record is unlocked without a password, and is inconsistent exactly if it lacks its
identifier or its secret.  Of an encrypted one the first obstacle in its way is told, whatever else
stands there.  A password is asked for once if that is none of those that can be seen without one.
If there is none at all the record is unlocked.  So a load asks for a password at most once, and not
at all if it finds no shape. -/
theorem unlock_in_order {r : Record} (hr : r.Reachable) (source : Option PasswordSource)
    (settings : LoadSettings) (entropy : Entropy) :
    ((r.unlock .plaintext source settings entropy).requests = [] ∧
      ((∃ fault, (r.unlock .plaintext source settings entropy).result =
          .error (.inconsistent fault)) ↔ r.id = none ∨ r.data = none) ∧
      ∀ id data, r.id = some id → r.data = some data →
        (r.unlock .plaintext source settings entropy).result =
          .ok ⟨data, id, settings.lockMemory⟩) ∧
    ((∀ o, r.MeetsFirst source settings entropy o →
        (∃ e, (r.unlock .encrypted source settings entropy).result = .error e ∧ o.Tells e) ∧
        (r.unlock .encrypted source settings entropy).requests =
          if o.place < Obstacle.refused.place then []
          else [⟨(settings.buffer entropy).toList, settings.capacity⟩]) ∧
      ((∃ key, (r.unlock .encrypted source settings entropy).result = .ok key) ↔
        ∀ o, ¬ r.Meets source settings entropy o) ∧
      ((∀ o, ¬ r.Meets source settings entropy o) →
        (r.unlock .encrypted source settings entropy).requests =
          [⟨(settings.buffer entropy).toList, settings.capacity⟩])) ∧
    ∀ stream : Stream,
      (SecretKey.load stream source settings entropy).requests.length ≤ 1 ∧
      ((∀ r', (parse stream).result = .ok r' →
          ∀ shape, r'.shape settings.minRounds ≠ .ok shape) →
        (SecretKey.load stream source settings entropy).requests = []) := by
  have hwf := hr.wellFormed
  refine ⟨⟨rfl, takeSecret_inconsistent_iff hwf, fun id data hid hdata =>
    takeSecret_of_complete hwf hid hdata⟩, ⟨?_, ?_, ?_⟩, fun stream =>
    ⟨SecretKey.length_requests_load_le stream source settings entropy,
      SecretKey.requests_load_of_refused⟩⟩
  · intro o hfirst
    refine ⟨recoverSecret_of_first hwf hfirst, ?_⟩
    rw [unlock, Outcome.requests_reporting]
    split
    · next hearly => exact requests_recoverSecret_of_meets hearly hfirst.1
    · next hlate =>
      exact requests_recoverSecret_of_none fun o' hearly =>
        hfirst.2 o' (Nat.lt_of_lt_of_le hearly (Nat.not_lt.mp hlate))
  · refine ⟨?_, recoverSecret_of_none hwf⟩
    rintro ⟨key, hkey⟩ o hmeets
    obtain ⟨o', hfirst⟩ := exists_meetsFirst hmeets
    obtain ⟨e, herror, -⟩ := recoverSecret_of_first hwf hfirst
    rw [unlock, Outcome.result_reporting, herror] at hkey
    cases hkey
  · intro hnone
    exact requests_recoverSecret_of_none fun o _ => hnone o

/-- A record that lacks its rounds is found incomplete, and its source is not asked, also if the
buffer has no room for an answer.  One that stores zero rounds is told so only after its source has
given a password, whether or not that is the right one. -/
theorem encryptedZeros_unlock_in_order :
    ((∃ e, ((encryptedZeros none).unlock .encrypted (some (.fixed [97])) ⟨1, 10, false⟩
          ⟨fun _ => 0⟩).result = .error e ∧ Obstacle.incomplete.Tells e) ∧
        ((encryptedZeros none).unlock .encrypted (some (.fixed [97])) ⟨1, 10, false⟩
          ⟨fun _ => 0⟩).requests = []) ∧
      (∃ e, ((encryptedZeros (some 0)).unlock .encrypted (some (.fixed [97])) ⟨1, 11, false⟩
          ⟨fun _ => 0⟩).result = .error e ∧ Obstacle.zeroRounds.Tells e) ∧
        ((encryptedZeros (some 0)).unlock .encrypted (some (.fixed [97])) ⟨1, 11, false⟩
          ⟨fun _ => 0⟩).requests = [⟨List.replicate 11 0, 1⟩] := by
  obtain ⟨-, ⟨hlacking, -⟩, -⟩ := unlock_in_order (reachable_encryptedZeros none)
    (some (.fixed [97])) ⟨1, 10, false⟩ ⟨fun _ => 0⟩
  obtain ⟨-, ⟨hzero, -⟩, -⟩ := unlock_in_order (reachable_encryptedZeros (some 0))
    (some (.fixed [97])) ⟨1, 11, false⟩ ⟨fun _ => 0⟩
  refine ⟨hlacking .incomplete ⟨.inr (.inl rfl), ?_⟩, hzero .zeroRounds ⟨rfl, ?_⟩⟩
  · intro o hbefore
    cases o with
    | noSource => exact Option.some_ne_none _
    | _ => exact absurd hbefore (by decide)
  · intro o hbefore
    cases o with
    | noSource => exact Option.some_ne_none _
    | incomplete => simp [Meets, encryptedZeros]
    | noRoom => exact Nat.one_ne_zero
    | refused =>
      rintro ⟨_, ⟨⟩, hnone⟩
      exact hnone [97] ((gives_fixed_iff (List.cons_ne_nil 97 [])).mpr ⟨Nat.le_refl 1, rfl⟩)
    | _ => exact absurd hbefore (by decide)

end Record

end SigningKeys
