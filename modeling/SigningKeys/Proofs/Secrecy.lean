import SigningKeys.Proofs.CompleteRecords
import SigningKeys.Record.Description

/-!
# What errors, events and descriptions tell

Two records that differ in nothing but their secrets and checksums are described alike and have one
shape, or one fault.  Unlocking them under different passwords fails with one error, or gives keys
that are described alike, and leaves the same events: what is told depends on what is public, on the
lengths that the sources report and on whether they keep to the rules.

That one run succeeds and the other fails does tell something, for this is decided by the checksum.
So two runs are compared step by step up to the checksum, and behind it only if they end alike.

## Main definitions

* `Outcome.Agree`: two runs that end alike and leave the same events.
* `Outcome.AgreeIfBoth`: the same of two runs that both fail, or both give a result.
* `PasswordSource.Alike`: sources that differ in the bytes that they give only.
* `Record.Alike`: records that differ in their secrets and checksums only.

## Main results

* `PasswordSource.fixed_alike`: known passwords of one length make such sources.
* `Record.tells_no_secret`: **neither errors, nor events, nor descriptions tell a secret, a checksum
  or a password.**
-/

namespace SigningKeys

/-! ### Two runs -/

namespace Outcome

variable {α β γ δ : Type}

/-- Two runs leave the same events, and fail with one error or give related results. -/
inductive Agree (R : α → β → Prop) : Outcome α → Outcome β → Prop where
  /-- Both give a result. -/
  | ok {a : α} {b : β} {events : List Event} {requests requests' : List PasswordRequest}
      (h : R a b) : Agree R ⟨.ok a, events, requests⟩ ⟨.ok b, events, requests'⟩
  /-- Both fail. -/
  | error {e : KeyError} {events : List Event} {requests requests' : List PasswordRequest} :
      Agree R ⟨.error e, events, requests⟩ ⟨.error e, events, requests'⟩

/-- Two runs leave the same events and end alike, if they both fail or both give a result. -/
structure AgreeIfBoth (R : α → β → Prop) (x : Outcome α) (y : Outcome β) : Prop where
  /-- Runs that both fail do so with one error. -/
  errors : ∀ e e', x.result = .error e → y.result = .error e' → e = e' ∧ x.events = y.events
  /-- Runs that both give a result give related ones. -/
  values : ∀ a b, x.result = .ok a → y.result = .ok b → R a b ∧ x.events = y.events

variable {R : α → β → Prop} {S : γ → δ → Prop} {x : Outcome α} {y : Outcome β}
  {f : α → Outcome γ} {g : β → Outcome δ}

theorem Agree.agreeIfBoth (h : Agree R x y) : AgreeIfBoth R x y := by
  cases h with
  | ok hab =>
    refine ⟨fun e e' he => ?_, fun a b ha hb => ?_⟩
    · cases he
    · cases ha
      cases hb
      exact ⟨hab, rfl⟩
  | error =>
    refine ⟨fun e e' he he' => ?_, fun a b ha => ?_⟩
    · cases he
      cases he'
      exact ⟨rfl, rfl⟩
    · cases ha

/-- Runs that agree so far agree to the end if they go on in agreement. -/
theorem Agree.bind (h : Agree R x y) (hfg : ∀ a b, R a b → Agree S (f a) (g b)) :
    Agree S (x.bind f) (y.bind g) := by
  cases h with
  | error => exact .error
  | @ok a b events requests requests' hab =>
    have hrest := hfg a b hab
    simp only [Outcome.bind]
    generalize f a = z at hrest ⊢
    generalize g b = z' at hrest ⊢
    cases hrest with
    | ok hcd => exact .ok hcd
    | error => exact .error

theorem Agree.bind_agreeIfBoth (h : Agree R x y)
    (hfg : ∀ a b, R a b → AgreeIfBoth S (f a) (g b)) :
    AgreeIfBoth S (x.bind f) (y.bind g) := by
  cases h with
  | error => exact Agree.error.agreeIfBoth
  | @ok a b events requests requests' hab =>
    have hrest := hfg a b hab
    constructor
    · intro e e' he he'
      obtain ⟨heq, hevents⟩ := hrest.errors e e' he he'
      exact ⟨heq, congrArg (events ++ ·) hevents⟩
    · intro c d hc hd
      obtain ⟨hcd, hevents⟩ := hrest.values c d hc hd
      exact ⟨hcd, congrArg (events ++ ·) hevents⟩

/-- Reports that depend on the error only keep the agreement. -/
theorem AgreeIfBoth.reporting {report : Except KeyError α → Event}
    {report' : Except KeyError β → Event} (h : AgreeIfBoth R x y)
    (hok : ∀ a b, report (.ok a) = report' (.ok b))
    (herror : ∀ e, report (.error e) = report' (.error e)) :
    AgreeIfBoth R (x.reporting report) (y.reporting report') := by
  constructor
  · intro e e' he he'
    rw [result_reporting] at he he'
    obtain ⟨rfl, hevents⟩ := h.errors e e' he he'
    refine ⟨rfl, ?_⟩
    rw [Outcome.reporting, Outcome.reporting, hevents, he, he', herror]
  · intro a b ha hb
    rw [result_reporting] at ha hb
    obtain ⟨hab, hevents⟩ := h.values a b ha hb
    refine ⟨hab, ?_⟩
    rw [Outcome.reporting, Outcome.reporting, hevents, ha, hb, hok a b]

end Outcome

open Outcome (Agree AgreeIfBoth)

/-! ### Passwords -/

/-- Each source is asked once, in a run of its own.  They report the same, and both or neither leave
the end of the buffer as it was; of the bytes that they give nothing is known. -/
structure PasswordSource.Alike (settings : LoadSettings) (source : PasswordSource)
    (entropy : Entropy) (source' : PasswordSource) (entropy' : Entropy) : Prop where
  /-- They report the same length, or both decline. -/
  reported : (source.answer (settings.buffer entropy) settings.capacity).2 =
    (source'.answer (settings.buffer entropy') settings.capacity).2
  /-- Both or neither leave the end of the buffer as it was. -/
  tail : settings.tail (source.answer (settings.buffer entropy) settings.capacity).1.toList =
      settings.tail (settings.buffer entropy).toList ↔
    settings.tail (source'.answer (settings.buffer entropy') settings.capacity).1.toList =
      settings.tail (settings.buffer entropy').toList

theorem acceptPassword_agree {capacity : ℕ} {canary canary' buffer buffer' : Bytes}
    {reported reported' : Option ℕ}
    (h : buffer.drop capacity = canary ↔ buffer'.drop capacity = canary')
    (hreported : reported = reported') :
    Agree (fun _ _ => True) (acceptPassword capacity canary buffer reported)
      (acceptPassword capacity canary' buffer' reported') := by
  subst hreported
  unfold acceptPassword
  by_cases hcanary : buffer.drop capacity = canary
  · rw [if_neg (not_not_intro hcanary), if_neg (not_not_intro (h.mp hcanary))]
    cases reported with
    | none => exact .error
    | some n =>
      by_cases hlong : capacity < n
      · simp only [if_pos hlong]
        exact .error
      by_cases hzero : n = 0
      · simp only [if_neg hlong, if_pos hzero]
        exact .error
      · simp only [if_neg hlong, if_neg hzero]
        exact .ok trivial
  · rw [if_pos hcanary, if_pos (mt h.mpr hcanary)]
    exact .error

/-- Sources that are alike give some password each, or are refused alike. -/
theorem askPassword_agree {settings : LoadSettings} {source source' : PasswordSource}
    {entropy entropy' : Entropy} (h : source.Alike settings entropy source' entropy') :
    Agree (fun _ _ => True) (askPassword source settings entropy)
      (askPassword source' settings entropy') := by
  by_cases hzero : settings.capacity = 0
  · rw [askPassword, askPassword, if_pos hzero, if_pos hzero]
    exact .error
  · have htail := h.tail
    rw [LoadSettings.tail_buffer, LoadSettings.tail_buffer] at htail
    rw [askPassword, askPassword, if_neg hzero, if_neg hzero]
    refine Agree.bind (R := fun _ _ => True) (.ok trivial) fun _ _ _ => ?_
    exact acceptPassword_agree htail h.reported

/-- A wrapping key is refused for its salt or rounds only. -/
theorem wrappingKey_agree (password password' salt : Bytes) (rounds : UInt32) :
    Agree (fun key key' : Bytes =>
        key.length = Layout.secretLength ∧ key'.length = Layout.secretLength)
      (.ofExcept (wrappingKey password salt rounds))
      (.ofExcept (wrappingKey password' salt rounds)) := by
  rw [wrappingKey, wrappingKey]
  by_cases hrounds : rounds = 0
  · rw [if_pos hrounds, if_pos hrounds]
    exact .error
  by_cases hsalt : salt = []
  · rw [if_neg hrounds, if_neg hrounds, if_pos hsalt, if_pos hsalt]
    exact .error
  · rw [if_neg hrounds, if_neg hrounds, if_neg hsalt, if_neg hsalt]
    exact .ok ⟨Pbkdf2.length_derive .., Pbkdf2.length_derive ..⟩

namespace PasswordSource

/-- The source of a known password reports its length, or declines, and keeps to the rules. -/
theorem answer_fixed (password : Bytes) (settings : LoadSettings) (entropy : Entropy) :
    ((fixed password).answer (settings.buffer entropy) settings.capacity).2 =
        (if password.length = 0 ∨ settings.capacity < password.length then none
          else some password.length) ∧
      settings.tail
          ((fixed password).answer (settings.buffer entropy) settings.capacity).1.toList =
        settings.tail (settings.buffer entropy).toList := by
  by_cases hnil : password = []
  · subst hnil
    exact ⟨rfl, rfl⟩
  have hlen : password.length ≠ 0 := mt List.eq_nil_of_length_eq_zero hnil
  by_cases hlong : settings.capacity < password.length
  · rw [answer_fixed_of_long _ hlong, if_pos (.inr hlong)]
    exact ⟨rfl, rfl⟩
  · have hfit := Nat.not_lt.mp hlong
    rw [if_neg (not_or.mpr ⟨hlen, hlong⟩)]
    exact ⟨(answer_fixed_of_fits hnil _ hfit (Nat.le_add_right_of_le hfit)).2,
      ((gives_fixed_iff hnil).mpr ⟨hfit, rfl⟩).1⟩

/-- Known passwords of one length make sources that are alike. -/
theorem fixed_alike {password password' : Bytes} (hlength : password.length = password'.length)
    (settings : LoadSettings) (entropy entropy' : Entropy) :
    (fixed password).Alike settings entropy (fixed password') entropy' := by
  obtain ⟨hreported, htail⟩ := answer_fixed password settings entropy
  obtain ⟨hreported', htail'⟩ := answer_fixed password' settings entropy'
  constructor
  · rw [hreported, hreported', hlength]
  · exact iff_of_true htail htail'

end PasswordSource

/-! ### Records -/

/-- Two values of which neither is there without the other are both absent or both there. -/
theorem eq_none_or_eq_some {α : Type} {o o' : Option α} (h : o.isSome = o'.isSome) :
    (o = none ∧ o' = none) ∨ ∃ a a', o = some a ∧ o' = some a' := by
  cases o with
  | none => exact .inl ⟨rfl, Option.not_isSome_iff_eq_none.mp (Bool.eq_false_iff.mp h.symm)⟩
  | some a =>
    obtain ⟨a', ha'⟩ := Option.isSome_iff_exists.mp h.symm
    exact .inr ⟨a, a', rfl, ha'⟩

/-- Keys are described by their identifiers, and by whether they are kept out of swapped memory. -/
theorem SecretKey.describe_eq {k k' : SecretKey} (hid : k.id = k'.id)
    (hlocked : k.locked = k'.locked) : k.describe = k'.describe := by
  unfold describe
  rw [hid, hlocked]

namespace Record

/-- Two records agree in all but their secrets and checksums, and each has these if the other
does. -/
structure Alike (r s : Record) : Prop where
  /-- They have one version. -/
  version : r.version = s.version
  /-- They have one KDF. -/
  kdf : r.kdf = s.kdf
  /-- They declare the same rounds. -/
  rounds : r.rounds = s.rounds
  /-- They have one salt. -/
  salt : r.salt = s.salt
  /-- They have one identifier. -/
  id : r.id = s.id
  /-- Both or neither have a secret. -/
  data : r.data.isSome = s.data.isSome
  /-- Both or neither have a checksum. -/
  checksum : r.checksum.isSome = s.checksum.isSome

variable {r s : Record}

namespace Alike

theorem isSome_get (h : r.Alike s) (f : Field) : (r.get f).isSome = (s.get f).isSome := by
  cases f with
  | checksum => exact h.checksum
  | data => exact h.data
  | id => exact congrArg Option.isSome h.id
  | kdf => exact congrArg Option.isSome h.kdf
  | rounds => exact congrArg Option.isSome h.rounds
  | salt => exact congrArg Option.isSome h.salt
  | version => exact congrArg Option.isSome h.version

/-- A description tells of the secret and its checksum only whether they are there. -/
theorem describe_eq (h : r.Alike s) (shown : Char → Bool) :
    r.describe shown = s.describe shown := by
  have hdata : ∀ text : String, Description.ofOption (fun _ => text) r.data =
      Description.ofOption (fun _ => text) s.data := by
    intro text
    rcases eq_none_or_eq_some h.data with ⟨hr, hs⟩ | ⟨a, a', hr, hs⟩
    · rw [hr, hs]
    · rw [hr, hs]
      rfl
  unfold describe
  rw [h.version, h.kdf, h.rounds, h.salt, h.id, hdata, h.checksum]

/-- The shape, or the fault, is found without looking at the secret or its checksum. -/
theorem shape_eq (h : r.Alike s) (minRounds : UInt32) : r.shape minRounds = s.shape minRounds := by
  have hrounds : r.declaredRounds = s.declaredRounds := congrArg (Option.getD · 0) h.rounds
  have hmissing : ∀ fields, r.firstMissing fields = s.firstMissing fields := by
    intro fields
    have hisNone : (fun f => (r.get f).isNone) = fun f => (s.get f).isNone := by
      funext f
      rw [← Option.not_isSome, ← Option.not_isSome, h.isSome_get f]
    rw [firstMissing, hisNone, firstMissing]
  rw [shape, shape, encryptedShape, encryptedShape, plaintextShape, plaintextShape, h.version,
    h.kdf, h.id, h.data, hrounds, hmissing]

end Alike

/-! ### Unlocking -/

/-- What two such records hold, if they are encrypted: only the secrets and their checksums differ,
and the parts have their lengths. -/
structure Sealed.Alike (a b : Sealed) : Prop where
  /-- They have one salt. -/
  salt : a.salt = b.salt
  /-- They declare the same rounds. -/
  rounds : a.rounds = b.rounds
  /-- They have one identifier. -/
  id : a.id = b.id
  /-- The identifier has its length. -/
  idLength : b.id.length = Layout.idLength
  /-- The first secret has its length. -/
  leftLength : a.data.length = Layout.secretLength
  /-- The second secret has its length. -/
  rightLength : b.data.length = Layout.secretLength

/-- A wrong wrapping key is refused whatever the secret is, and of the secret nothing is shown. -/
theorem Sealed.Alike.unwrap {a b : Sealed} (h : a.Alike b) {key key' : Bytes}
    (hkey : key.length = Layout.secretLength) (hkey' : key'.length = Layout.secretLength)
    (settings : LoadSettings) :
    AgreeIfBoth (fun k k' : SecretKey => k.describe = k'.describe)
      (.ofExcept (a.unwrap key settings)) (.ofExcept (b.unwrap key' settings)) := by
  constructor
  · intro e e' he he'
    rw [Outcome.result_ofExcept] at he he'
    have hleft := Sealed.unwrap_eq_error h.leftLength (h.id ▸ h.idLength) hkey he
    have hright := Sealed.unwrap_eq_error h.rightLength h.idLength hkey' he'
    exact ⟨hleft.trans hright.symm, rfl⟩
  · intro k k' hk hk'
    rw [Outcome.result_ofExcept] at hk hk'
    obtain ⟨-, -, hid, -, -, hlock⟩ := Sealed.unwrap_eq_ok_iff.mp hk
    obtain ⟨-, -, hid', -, -, hlock'⟩ := Sealed.unwrap_eq_ok_iff.mp hk'
    exact ⟨SecretKey.describe_eq (by rw [hid, hid', h.id]) (by rw [hlock, hlock']), rfl⟩

namespace Alike

theorem takeSecret_agree (h : r.Alike s) (hr : r.WellFormed) (hs : s.WellFormed)
    (settings : LoadSettings) :
    Agree (fun k k' : SecretKey => k.describe = k'.describe)
      (.ofExcept (r.takeSecret settings)) (.ofExcept (s.takeSecret settings)) := by
  cases hid : s.id with
  | none =>
    rw [takeSecret, takeSecret, h.id, hid]
    exact .error
  | some id =>
    rcases eq_none_or_eq_some h.data with ⟨hdata, hdata'⟩ | ⟨data, data', hdata, hdata'⟩
    · rw [takeSecret, takeSecret, h.id, hid, hdata, hdata']
      exact .error
    · have hidLength : id.length = Layout.idLength := hs .id id hid
      have hleft : r.takeSecret settings = .ok ⟨data, id, settings.lockMemory⟩ :=
        takeSecret_eq_ok_iff.mpr ⟨h.id.trans hid, hdata, hr .data data hdata, hidLength, rfl⟩
      have hright : s.takeSecret settings = .ok ⟨data', id, settings.lockMemory⟩ :=
        takeSecret_eq_ok_iff.mpr ⟨hid, hdata', hs .data data' hdata', hidLength, rfl⟩
      rw [hleft, hright]
      exact .ok (SecretKey.describe_eq rfl rfl)

theorem sealed_agree (h : r.Alike s) (hr : r.WellFormed) (hs : s.WellFormed) :
    Agree Sealed.Alike (.ofExcept r.sealed) (.ofExcept s.sealed) := by
  rw [Record.sealed, Record.sealed, h.salt, h.rounds, h.id]
  cases s.salt with
  | none => exact .error
  | some salt =>
  cases s.rounds with
  | none => exact .error
  | some rounds =>
  rcases eq_none_or_eq_some h.checksum with ⟨hsum, hsum'⟩ | ⟨sum, sum', hsum, hsum'⟩
  · rw [hsum, hsum']
    exact .error
  rw [hsum, hsum']
  cases hid : s.id with
  | none => exact .error
  | some id =>
  rcases eq_none_or_eq_some h.data with ⟨hdata, hdata'⟩ | ⟨data, data', hdata, hdata'⟩
  · rw [hdata, hdata']
    exact .error
  · rw [hdata, hdata']
    exact .ok ⟨rfl, rfl, rfl, hs .id id hid, hr .data data hdata, hs .data data' hdata'⟩

variable {source source' : Option PasswordSource} {settings : LoadSettings}
  {entropy entropy' : Entropy}

/-- Up to the checksum both runs go the same way. -/
theorem recoverSecret_agree (h : r.Alike s) (hr : r.WellFormed) (hs : s.WellFormed)
    (hsource : Option.Rel (fun a b => a.Alike settings entropy b entropy') source source') :
    AgreeIfBoth (fun k k' : SecretKey => k.describe = k'.describe)
      (r.recoverSecret source settings entropy) (s.recoverSecret source' settings entropy') := by
  cases hsource with
  | none => exact Agree.error.agreeIfBoth
  | some hasked =>
    refine (h.sealed_agree hr hs).bind_agreeIfBoth fun a b hab => ?_
    refine (askPassword_agree hasked).bind_agreeIfBoth fun password password' _ => ?_
    rw [hab.salt, hab.rounds]
    refine (wrappingKey_agree password password' b.salt b.rounds).bind_agreeIfBoth ?_
    rintro key key' ⟨hkey, hkey'⟩
    exact hab.unwrap hkey hkey' settings

theorem unlock_agree (h : r.Alike s) (hr : r.WellFormed) (hs : s.WellFormed)
    (hsource : Option.Rel (fun a b => a.Alike settings entropy b entropy') source source')
    (shape : Shape) :
    AgreeIfBoth (fun k k' : SecretKey => k.describe = k'.describe)
      (r.unlock shape source settings entropy) (s.unlock shape source' settings entropy') := by
  have hok : ∀ k k' : SecretKey, r.unlockEvent (.ok k) = s.unlockEvent (.ok k') := by
    intro k k'
    rw [unlockEvent, unlockEvent, h.id]
  have herror : ∀ e, r.unlockEvent (.error e) = s.unlockEvent (.error e) := by
    intro e
    rw [unlockEvent, unlockEvent, h.id]
  cases shape with
  | plaintext => exact (h.takeSecret_agree hr hs settings).agreeIfBoth.reporting hok herror
  | encrypted => exact (h.recoverSecret_agree hr hs hsource).reporting hok herror

end Alike

/-- Records that agree in all but their secrets and checksums cannot be told apart by their
descriptions or by their shapes and faults.  Unlocked as one shape, by sources that differ in the
bytes that they give only, they leave the same events and fail with one error if both fail, and
leave the same events and give keys with one description if both are unlocked. -/
theorem tells_no_secret (hr : r.Reachable) (hs : s.Reachable) (h : r.Alike s) :
    (∀ shown, r.describe shown = s.describe shown) ∧
      (∀ minRounds, r.shape minRounds = s.shape minRounds) ∧
      ∀ shape settings source source' entropy entropy',
        Option.Rel (fun a b => a.Alike settings entropy b entropy') source source' →
        (∀ e e', (r.unlock shape source settings entropy).result = .error e →
          (s.unlock shape source' settings entropy').result = .error e' →
          e = e' ∧ (r.unlock shape source settings entropy).events =
            (s.unlock shape source' settings entropy').events) ∧
        ∀ k k', (r.unlock shape source settings entropy).result = .ok k →
          (s.unlock shape source' settings entropy').result = .ok k' →
          k.describe = k'.describe ∧ (r.unlock shape source settings entropy).events =
            (s.unlock shape source' settings entropy').events := by
  refine ⟨h.describe_eq, h.shape_eq, ?_⟩
  intro shape settings source source' entropy entropy' hsource
  have hunlock := h.unlock_agree hr.wellFormed hs.wellFormed hsource shape
  exact ⟨hunlock.errors, hunlock.values⟩

/-- An encrypted key of ones instead of zeros. -/
def encryptedOnes (rounds : Option UInt32) : Record :=
  ((encryptedZeros rounds).set .data (List.replicate 64 (1 : UInt8))).set .checksum
    (List.replicate 64 (1 : UInt8))

theorem reachable_encryptedOnes (rounds : Option UInt32) : (encryptedOnes rounds).Reachable := by
  have hdata := (reachable_encryptedZeros rounds).wellFormed.set (f := .data)
    (v := List.replicate 64 (1 : UInt8)) rfl
  exact reachable_iff_wellFormed.mpr (hdata.set (f := .checksum) rfl)

/-- A password that would be stretched no times is refused, and neither the error nor the events
tell which password and which record it was. -/
theorem encryptedZeros_tells_no_secret :
    (encryptedZeros (some 0)).Reachable ∧ (encryptedOnes (some 0)).Reachable ∧
      (encryptedZeros (some 0)).Alike (encryptedOnes (some 0)) ∧
      (∀ shown, (encryptedZeros (some 0)).describe shown =
        (encryptedOnes (some 0)).describe shown) ∧
      ((encryptedZeros (some 0)).unlock .encrypted (some (.fixed [1])) ⟨0, 11, false⟩
          ⟨fun _ => 0⟩).result = .error (.keyDerivation .zeroRounds) ∧
      ((encryptedZeros (some 0)).unlock .encrypted (some (.fixed [1])) ⟨0, 11, false⟩
          ⟨fun _ => 0⟩).events =
        ((encryptedOnes (some 0)).unlock .encrypted (some (.fixed [2])) ⟨0, 11, false⟩
          ⟨fun _ => 1⟩).events := by
  have hr := reachable_encryptedZeros (some 0)
  have hs := reachable_encryptedOnes (some 0)
  have halike : (encryptedZeros (some 0)).Alike (encryptedOnes (some 0)) :=
    ⟨rfl, rfl, rfl, rfl, rfl, rfl, rfl⟩
  obtain ⟨hdescribe, -, hunlock⟩ := tells_no_secret hr hs halike
  have hleft : ((encryptedZeros (some 0)).unlock .encrypted (some (.fixed [1])) ⟨0, 11, false⟩
      ⟨fun _ => 0⟩).result = .error (.keyDerivation .zeroRounds) := by
    rfl
  have hright : ((encryptedOnes (some 0)).unlock .encrypted (some (.fixed [2])) ⟨0, 11, false⟩
      ⟨fun _ => 1⟩).result = .error (.keyDerivation .zeroRounds) := by
    rfl
  have hlength : List.length [(1 : UInt8)] = List.length [(2 : UInt8)] := rfl
  have hsource := PasswordSource.fixed_alike hlength ⟨0, 11, false⟩ ⟨fun _ => 0⟩ ⟨fun _ => 1⟩
  obtain ⟨herrors, -⟩ := hunlock .encrypted _ _ _ _ _ (.some hsource)
  exact ⟨hr, hs, halike, hdescribe, hleft, (herrors _ _ hleft hright).2⟩

end Record

end SigningKeys
