import SigningKeys.Record.Wrapping

/-!
# Results of composed operations

An operation made of two succeeds exactly if both do, and its traces are those of the parts.  The
records that are made from a secret are known in full: they exist exactly for parts of the right
lengths, and under a password that is not empty and stretched at least once.

## Main results

* `Outcome.bind_eq_ok_iff`, `Outcome.bind_eq_error_iff`: when a composed operation succeeds, and
  how it fails.
* `Record.plain_eq_ok_iff`, `Record.wrap_eq_ok_iff`: **which secrets can be stored, and how.**
-/

namespace SigningKeys

theorem exceptBind_eq_ok_iff {ε α β : Type} {x : Except ε α} {f : α → Except ε β} {b : β} :
    (x >>= f) = .ok b ↔ ∃ a, x = .ok a ∧ f a = .ok b := by
  cases x <;> simp [bind, Except.bind]

namespace Outcome

variable {α β : Type}

@[simp] theorem result_ofExcept (x : Except KeyError α) : (ofExcept x).result = x := rfl

@[simp] theorem result_ok (a : α) : (ok a).result = .ok a := rfl

@[simp] theorem result_error (e : KeyError) : (error e : Outcome α).result = .error e := rfl

@[simp] theorem result_log (event : Event) : (log event).result = .ok () := rfl

@[simp] theorem result_request (r : PasswordRequest) : (request r).result = .ok () := rfl

@[simp] theorem result_reporting (x : Outcome α) (report : Except KeyError α → Event) :
    (x.reporting report).result = x.result := rfl

@[simp] theorem requests_ofExcept (x : Except KeyError α) : (ofExcept x).requests = [] := rfl

@[simp] theorem requests_ok (a : α) : (ok a).requests = [] := rfl

@[simp] theorem requests_error (e : KeyError) : (error e : Outcome α).requests = [] := rfl

@[simp] theorem requests_log (event : Event) : (log event).requests = [] := rfl

@[simp] theorem requests_request (r : PasswordRequest) : (request r).requests = [r] := rfl

@[simp] theorem requests_reporting (x : Outcome α) (report : Except KeyError α → Event) :
    (x.reporting report).requests = x.requests := rfl

@[simp] theorem events_ofExcept (x : Except KeyError α) : (ofExcept x).events = [] := rfl

@[simp] theorem events_error (e : KeyError) : (error e : Outcome α).events = [] := rfl

@[simp] theorem events_log (event : Event) : (log event).events = [event] := rfl

@[simp] theorem events_request (r : PasswordRequest) : (request r).events = [] := rfl

@[simp] theorem events_reporting (x : Outcome α) (report : Except KeyError α → Event) :
    (x.reporting report).events = x.events ++ [report x.result] := rfl

theorem result_bind_of_ok {x : Outcome α} {a : α} (f : α → Outcome β) (h : x.result = .ok a) :
    (x.bind f).result = (f a).result := by
  rw [bind, h]

theorem result_bind_of_error {x : Outcome α} {e : KeyError} (f : α → Outcome β)
    (h : x.result = .error e) : (x.bind f).result = .error e := by
  rw [bind, h]

theorem requests_bind_of_ok {x : Outcome α} {a : α} (f : α → Outcome β) (h : x.result = .ok a) :
    (x.bind f).requests = x.requests ++ (f a).requests := by
  rw [bind, h]

theorem requests_bind_of_error {x : Outcome α} {e : KeyError} (f : α → Outcome β)
    (h : x.result = .error e) : (x.bind f).requests = x.requests := by
  rw [bind, h]

theorem events_bind_of_ok {x : Outcome α} {a : α} (f : α → Outcome β) (h : x.result = .ok a) :
    (x.bind f).events = x.events ++ (f a).events := by
  rw [bind, h]

theorem events_bind_of_error {x : Outcome α} {e : KeyError} (f : α → Outcome β)
    (h : x.result = .error e) : (x.bind f).events = x.events := by
  rw [bind, h]

theorem bind_eq_ok_iff {x : Outcome α} {f : α → Outcome β} {b : β} :
    (x.bind f).result = .ok b ↔ ∃ a, x.result = .ok a ∧ (f a).result = .ok b := by
  cases h : x.result with
  | ok a => simp [result_bind_of_ok f h]
  | error e => simp [result_bind_of_error f h]

theorem bind_eq_error_iff {x : Outcome α} {f : α → Outcome β} {e : KeyError} :
    (x.bind f).result = .error e ↔
      x.result = .error e ∨ ∃ a, x.result = .ok a ∧ (f a).result = .error e := by
  cases h : x.result with
  | ok a => simp [result_bind_of_ok f h]
  | error e' => simp [result_bind_of_error f h]

end Outcome

/-! ### Records made from a secret -/

theorem one_le_iff_ne_zero {n : UInt32} : 1 ≤ n ↔ n ≠ 0 := by
  rw [UInt32.le_iff_toNat_le, ne_eq, ← UInt32.toNat_inj]
  exact Nat.one_le_iff_ne_zero

theorem wrappingKey_eq_ok_iff {password salt key : Bytes} {rounds : UInt32} :
    wrappingKey password salt rounds = .ok key ↔
      rounds ≠ 0 ∧ salt ≠ [] ∧
        key = Pbkdf2.derive password salt rounds.toNat Layout.secretLength := by
  rw [wrappingKey]
  by_cases hr : rounds = 0
  · simp [hr]
  by_cases hs : salt = []
  · simp [hr, hs]
  · simp [hr, hs, eq_comm]

namespace Record

theorem plain_eq_ok_iff {secret id : Bytes} {r : Record} :
    plain secret id = .ok r ↔
      secret.length = Layout.secretLength ∧ id.length = Layout.idLength ∧
        r = { empty with version := some Layout.version, id := some id, data := some secret } := by
  rw [plain]
  by_cases hs : secret.length = Layout.secretLength
  · by_cases hi : id.length = Layout.idLength
    · simp [hs, hi, eq_comm]
    · simp [hs, hi]
  · simp [hs]

/-- The record of a secret under a password. -/
def wrappedWith (secret id password : Bytes) (rounds : UInt32) (entropy : Entropy) : Record where
  version := some Layout.version
  kdf := some Layout.kdfName
  rounds := some rounds
  salt := some (entropy.first Layout.saltLength)
  id := some id
  data := some (Bytes.xor secret
    (Pbkdf2.derive password (entropy.first Layout.saltLength) rounds.toNat Layout.secretLength))
  checksum := some (SigningKeys.checksum secret)

theorem first_saltLength_ne_nil (entropy : Entropy) : entropy.first Layout.saltLength ≠ [] := by
  intro h
  have := congrArg List.length h
  simp [Layout.saltLength] at this

/-- A secret is wrapped exactly if it and its identifier have the right lengths, the password is
not empty and it is stretched at least once. -/
theorem wrap_eq_ok_iff {secret id password : Bytes} {rounds : UInt32} {entropy : Entropy}
    {r : Record} :
    (wrap secret id password rounds entropy).result = .ok r ↔
      secret.length = Layout.secretLength ∧ id.length = Layout.idLength ∧ password ≠ [] ∧
        rounds ≠ 0 ∧ r = wrappedWith secret id password rounds entropy := by
  have hlog : ∀ f : Unit → Outcome Record,
      (if rounds < Layout.minRounds then (Outcome.log (.weakRounds rounds)).bind f
        else (Outcome.ok ()).bind f).result = (f ()).result := by
    intro f
    split <;> exact Outcome.result_bind_of_ok f rfl
  simp only [wrap, Outcome.bind_eq, Outcome.bind_eq_ok_iff, Outcome.result_ofExcept,
    plain_eq_ok_iff]
  constructor
  · rintro ⟨plain, ⟨hs, hi, rfl⟩, h⟩
    by_cases hp : password = []
    · simp [hp] at h
    rw [if_neg hp, hlog, Outcome.bind_eq_ok_iff] at h
    obtain ⟨key, hkey, h⟩ := h
    obtain ⟨hr, -, rfl⟩ := wrappingKey_eq_ok_iff.mp hkey
    refine ⟨hs, hi, hp, hr, ?_⟩
    cases h
    rfl
  · rintro ⟨hs, hi, hp, hr, rfl⟩
    refine ⟨_, ⟨hs, hi, rfl⟩, ?_⟩
    rw [if_neg hp, hlog, Outcome.bind_eq_ok_iff]
    exact ⟨_, wrappingKey_eq_ok_iff.mpr ⟨hr, first_saltLength_ne_nil entropy, rfl⟩, rfl⟩

end Record

end SigningKeys
